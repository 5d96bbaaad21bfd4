import MinangScript.Proofs.Decimal.NumericText
import MinangScript.Proofs.Json.Order

/-! # Numbers by byte indices

The number in front of a text can be found with an index into its bytes alone, which looks at one
byte at a time and never knows where a character begins. Every byte that it moves past is a
character of its own, so wherever the text is cut, no character is cut in two, and what is found is
the number that the text begins with.
-/

namespace MinangScript

namespace Utf8

/-- The bytes of the characters of a text. -/
def encode (text : List Char) : List UInt8 :=
  text.flatMap String.utf8EncodeChar

/-- Cuts a text at an index into its bytes. There is no result inside of a character, nor beyond the
    end. -/
def cutAt? : List Char → Nat → Option (List Char × List Char)
  | text, 0 => some ([], text)
  | [], _ + 1 => none
  | c :: text, i + 1 =>
    if c.utf8Size ≤ i + 1 then
      (cutAt? text (i + 1 - c.utf8Size)).map fun (front, rest) => (c :: front, rest)
    else none

/-- Whether the byte at the index is the given character. -/
def isAt (c : Char) (bytes : List UInt8) (i : Nat) : Bool :=
  bytes[i]? == some c.toUInt8

/-- Whether the byte is a decimal digit. -/
def isDigit (b : UInt8) : Bool :=
  '0'.toUInt8 ≤ b && b ≤ '9'.toUInt8

end Utf8

namespace Number

open Utf8 (encode cutAt? isAt)

/-- The index behind the digits that stand at an index. -/
def digitsFrom (bytes : List UInt8) (i : Nat) : Nat :=
  if h : i < bytes.length then
    if Utf8.isDigit bytes[i] then digitsFrom bytes (i + 1) else i
  else i
termination_by bytes.length - i

/-- The index behind the sign that stands at an index, if one does. -/
def signEnd (bytes : List UInt8) (i : Nat) : Nat :=
  if isAt '+' bytes i || isAt '-' bytes i then i + 1 else i

/-- The index behind the digits from an index on, with a point among them, and how many digits there
    are. -/
def mantissaEnd (bytes : List UInt8) (i : Nat) : Nat × Nat :=
  let whole := digitsFrom bytes i
  if isAt '.' bytes whole then
    let stop := digitsFrom bytes (whole + 1)
    (stop, whole - i + (stop - whole - 1))
  else (whole, whole - i)

/-- The index behind the exponent that stands at an index; without a digit it is none. -/
def exponentEnd (bytes : List UInt8) (i : Nat) : Nat :=
  if isAt 'e' bytes i || isAt 'E' bytes i then
    let digits := signEnd bytes (i + 1)
    let stop := digitsFrom bytes digits
    if digits < stop then stop else i
  else i

/-- The number that the whole of a text denotes, if it is numeric. -/
def parse? (text : List Char) : Option Float :=
  match scan? text with
  | some (v, []) => some v
  | _ => none

/-- The number that a text begins with, found by byte indices. There is no result where the text
    would have to be cut inside of a character. -/
def leadingByIndex? (text : String) : Option (Option Float) := do
  let t := trimStart text.toList
  let bytes := encode t
  let start := signEnd bytes 0
  let (_, unsigned) ← cutAt? t start
  if "Infinity".toList.isPrefixOf unsigned then
    return some (infinity (isAt '-' bytes 0))
  else
    let (stop, count) := mantissaEnd bytes start
    if count = 0 then return none
    else
      let (front, _) ← cutAt? t (exponentEnd bytes stop)
      return parse? front

end Number

/-! ## Bytes of characters -/

namespace Utf8

/-- A character of one byte. -/
def IsAscii (c : Char) : Prop :=
  c.toNat < 128

instance (c : Char) : Decidable (IsAscii c) :=
  inferInstanceAs (Decidable (c.toNat < 128))

theorem utf8EncodeChar_of_isAscii {c : Char} (ascii : IsAscii c) :
    String.utf8EncodeChar c = [c.toUInt8] := by
  have small : c.toNat ≤ 0x7f := Nat.le_of_lt_succ ascii
  rw [utf8EncodeChar_eq, codeUnits, if_pos small]
  rfl

/-- The first byte of a character of more bytes is none that stands alone. -/
theorem utf8EncodeChar_of_not_isAscii {c : Char} (wide : ¬IsAscii c) :
    ∃ b others, String.utf8EncodeChar c = b :: others ∧ 128 ≤ b.toNat := by
  have large : ¬c.toNat ≤ 0x7f := fun small => wide (Nat.lt_succ_of_le small)
  have bounded := @codeUnits_lt c.toNat
  rw [utf8EncodeChar_eq]
  cases units : codeUnits c.toNat with
  | nil =>
      revert units
      fun_cases codeUnits c.toNat <;> simp
  | cons u units' =>
      refine ⟨_, _, rfl, ?_⟩
      have lead : 128 ≤ u := by
        revert units
        fun_cases codeUnits c.toNat <;> simp <;> omega
      have fits := bounded (units ▸ List.mem_cons_self)
      rw [UInt8.toNat_ofNat']
      omega

theorem toNat_toUInt8 {c : Char} (ascii : IsAscii c) : c.toUInt8.toNat = c.toNat := by
  have small : c.toNat < 128 := ascii
  change c.toNat % 256 = c.toNat
  omega

theorem isAscii_of_isDigit {c : Char} (digit : c.isDigit = true) : IsAscii c := by
  simp only [Char.isDigit, Bool.and_eq_true, decide_eq_true_eq, ge_iff_le,
    UInt32.le_iff_toNat_le] at digit
  exact Nat.lt_of_le_of_lt digit.2 (by decide)

theorem encode_append (front rest : List Char) :
    encode (front ++ rest) = encode front ++ encode rest :=
  List.flatMap_append

theorem length_encode {front : List Char} (ascii : ∀ c ∈ front, IsAscii c) :
    (encode front).length = front.length := by
  induction front with
  | nil => rfl
  | cons c front ih =>
      obtain ⟨first, others⟩ := List.forall_mem_cons.mp ascii
      rw [encode, List.flatMap_cons, utf8EncodeChar_of_isAscii first, List.length_append, ← encode,
        ih others, List.length_singleton, Nat.add_comm, List.length_cons]

/-- The first byte of a text is that of a single character exactly if the character stands there. -/
theorem head?_encode {c : Char} (ascii : IsAscii c) (text : List Char) :
    (encode text).head? = some c.toUInt8 ↔ text.head? = some c := by
  cases text with
  | nil => exact ⟨nofun, nofun⟩
  | cons d text =>
      rw [encode, List.flatMap_cons]
      by_cases ascii' : IsAscii d
      · rw [utf8EncodeChar_of_isAscii ascii']
        simp only [List.cons_append, List.head?_cons, Option.some.injEq]
        refine ⟨fun same => ?_, fun same => by rw [same]⟩
        have same := congrArg UInt8.toNat same
        rw [toNat_toUInt8 ascii, toNat_toUInt8 ascii'] at same
        exact Char.toNat_inj.mp same
      · obtain ⟨b, others, starts, large⟩ := utf8EncodeChar_of_not_isAscii ascii'
        rw [starts]
        simp only [List.cons_append, List.head?_cons, Option.some.injEq]
        refine ⟨fun same => ?_, fun same => absurd (same ▸ ascii) ascii'⟩
        rw [same, toNat_toUInt8 ascii] at large
        exact absurd ascii (Nat.not_lt.mpr large)

/-- The first byte of a character is a digit exactly if the character is. -/
theorem isDigit_first (c : Char) :
    ∃ b others, String.utf8EncodeChar c = b :: others ∧ isDigit b = c.isDigit := by
  have zero : '0'.toUInt8.toNat = '0'.val.toNat := rfl
  have nine : '9'.toUInt8.toNat = 57 := rfl
  by_cases ascii : IsAscii c
  · refine ⟨_, _, utf8EncodeChar_of_isAscii ascii, ?_⟩
    have value : c.toNat = c.val.toNat := rfl
    simp only [isDigit, Char.isDigit, UInt8.le_iff_toNat_le, UInt32.le_iff_toNat_le, ge_iff_le,
      toNat_toUInt8 ascii, zero, nine, value]
    rfl
  · obtain ⟨b, others, starts, large⟩ := utf8EncodeChar_of_not_isAscii ascii
    refine ⟨b, others, starts, ?_⟩
    have notDigit : c.isDigit = false :=
      Bool.eq_false_iff.mpr fun digit => ascii (isAscii_of_isDigit digit)
    have above : ¬b.toNat ≤ 57 := by omega
    simp [notDigit, isDigit, UInt8.le_iff_toNat_le, nine, above]

theorem length_encode_cons (c : Char) (text : List Char) :
    (encode (c :: text)).length = c.utf8Size + (encode text).length := by
  rw [encode, List.flatMap_cons, List.length_append, String.length_utf8EncodeChar, encode]

theorem length_encode_pos (c : Char) (text : List Char) : 0 < (encode (c :: text)).length := by
  rw [length_encode_cons]
  exact Nat.add_pos_left c.utf8Size_pos _

theorem cons_cut_eq_some_iff {c d : Char} {front rest : List Char}
    {cut : Option (List Char × List Char)} :
    cut.map (fun (front, rest) => (c :: front, rest)) = some (d :: front, rest) ↔
      c = d ∧ cut = some (front, rest) := by
  rw [Option.map_eq_some_iff]
  constructor
  · rintro ⟨⟨front', rest'⟩, cut, same⟩
    cases same
    exact ⟨rfl, cut⟩
  · rintro ⟨rfl, cut⟩
    exact ⟨_, cut, rfl⟩

/-- A text is cut exactly where some characters of it end. -/
theorem cutAt?_eq_some_iff {text front rest : List Char} {i : Nat} :
    cutAt? text i = some (front, rest) ↔ text = front ++ rest ∧ (encode front).length = i := by
  fun_induction cutAt? text i generalizing front with
  | case1 text =>
      cases front with
      | nil => simp [encode, eq_comm]
      | cons d front =>
          have positive := length_encode_pos d front
          refine ⟨nofun, fun both => ?_⟩
          omega
  | case2 i => cases front <;> simp [encode]
  | case3 i c text fits ih =>
      cases front with
      | nil => simp [Option.map_eq_some_iff, encode]
      | cons d front =>
          rw [cons_cut_eq_some_iff, ih, length_encode_cons, List.cons_append, List.cons.injEq]
          constructor
          · rintro ⟨rfl, rfl, length⟩
            exact ⟨⟨rfl, rfl⟩, by omega⟩
          · rintro ⟨⟨rfl, rfl⟩, length⟩
            exact ⟨rfl, rfl, by omega⟩
  | case4 i c text large =>
      cases front with
      | nil => simp [encode]
      | cons d front =>
          rw [length_encode_cons, List.cons_append, List.cons.injEq]
          refine ⟨nofun, ?_⟩
          rintro ⟨⟨rfl, -⟩, length⟩
          omega

/-- The rest of a text, from an index on into its bytes, where all characters in front are of one
    byte. -/
def StandsAt (text : List Char) (i : Nat) (rest : List Char) : Prop :=
  ∃ front, text = front ++ rest ∧ (∀ c ∈ front, IsAscii c) ∧ front.length = i

namespace StandsAt

variable {text rest : List Char} {i : Nat}

theorem start (text : List Char) : StandsAt text 0 text :=
  ⟨[], rfl, by simp, rfl⟩

/-- Moving on over characters of one byte. -/
theorem later {more : List Char} (here : StandsAt text i (more ++ rest))
    (ascii : ∀ c ∈ more, IsAscii c) : StandsAt text (i + more.length) rest := by
  obtain ⟨front, rfl, ascii', rfl⟩ := here
  refine ⟨front ++ more, (List.append_assoc ..).symm, ?_, List.length_append⟩
  exact List.forall_mem_append.mpr ⟨ascii', ascii⟩

theorem cut (here : StandsAt text i rest) :
    ∃ front, text = front ++ rest ∧ cutAt? text i = some (front, rest) := by
  obtain ⟨front, split, ascii, length⟩ := here
  exact ⟨front, split, cutAt?_eq_some_iff.mpr ⟨split, (length_encode ascii).trans length⟩⟩

theorem drop_encode (here : StandsAt text i rest) : (encode text).drop i = encode rest := by
  obtain ⟨front, rfl, ascii, rfl⟩ := here
  rw [encode_append, ← length_encode ascii, List.drop_left]

/-- Moving on over one character of one byte. -/
theorem after {c : Char} (here : StandsAt text i (c :: rest)) (ascii : IsAscii c) :
    StandsAt text (i + 1) rest :=
  @later text rest i [c] here (by simpa using ascii)

/-- The byte at the index is the first character of the rest. -/
theorem isAt_eq (here : StandsAt text i rest) {c : Char} (ascii : IsAscii c) :
    isAt c (encode text) i = (rest.head? == some c) := by
  rw [Bool.eq_iff_iff, isAt, beq_iff_eq, beq_iff_eq, ← head?_encode ascii, ← here.drop_encode,
    List.head?_drop]

end StandsAt

end Utf8

namespace Number

open Utf8 (encode isAt StandsAt IsAscii)

variable {text rest : List Char} {i : Nat}

/-- One step of the loop over digits. -/
theorem digitsFrom_eq (bytes : List UInt8) (i : Nat) :
    digitsFrom bytes i =
      if (bytes.drop i).head?.any Utf8.isDigit then digitsFrom bytes (i + 1) else i := by
  rw [digitsFrom, List.head?_drop]
  split
  · rename_i within
    rw [List.getElem?_eq_getElem within, Option.any_some]
  · rename_i beyond
    rw [List.getElem?_eq_none (Nat.not_lt.mp beyond)]
    rfl

/-- The loop moves past the digits in front. -/
theorem digitsFrom_run (here : StandsAt text i rest) :
    digitsFrom (encode text) i = i + (digitRun rest).1.length := by
  induction rest generalizing i with
  | nil =>
      rw [digitsFrom_eq, here.drop_encode]
      rfl
  | cons c rest ih =>
      obtain ⟨b, others, starts, same⟩ := Utf8.isDigit_first c
      rw [digitsFrom_eq, here.drop_encode, encode, List.flatMap_cons, starts, List.cons_append,
        List.head?_cons, Option.any_some, same]
      cases digit : c.isDigit with
      | true =>
          have next := here.after (Utf8.isAscii_of_isDigit digit)
          rw [if_pos rfl, ih next, digitRun, digitRun, List.takeWhile_cons_of_pos digit,
            List.length_cons]
          dsimp only
          omega
      | false => simp [digit, digitRun]

theorem standsAt_digitsFrom (here : StandsAt text i rest) :
    StandsAt text (digitsFrom (encode text) i) (digitRun rest).2 := by
  have split := digitRun_append rest
  rw [digitsFrom_run here]
  rw [← split] at here
  exact here.later fun c member => Utf8.isAscii_of_isDigit (isDigit_of_mem_digitRun rest c member)

theorem standsAt_signEnd (here : StandsAt text i rest) :
    StandsAt text (signEnd (encode text) i) (takeSign rest).2 := by
  have plus : IsAscii '+' := by decide
  have minus : IsAscii '-' := by decide
  rw [signEnd, here.isAt_eq plus, here.isAt_eq minus, takeSign.eq_def]
  cases rest with
  | nil => exact here
  | cons c rest =>
      by_cases isPlus : c = '+'
      · subst isPlus
        exact here.after plus
      by_cases isMinus : c = '-'
      · subst isMinus
        exact here.after minus
      · simpa [isPlus, isMinus] using here

/-- A sign is a minus exactly if the text begins with one. -/
theorem head?_eq_minus (text : List Char) : (text.head? == some '-') = (takeSign text).1 := by
  rw [takeSign.eq_def]
  cases text with
  | nil => rfl
  | cons c text =>
      by_cases isPlus : c = '+'
      · subst isPlus
        rfl
      by_cases isMinus : c = '-'
      · subst isMinus
        rfl
      · simp [isPlus, isMinus]

theorem standsAt_exponentEnd (here : StandsAt text i rest) :
    StandsAt text (exponentEnd (encode text) i) (Numeral.scanExponent rest).2 := by
  have small : IsAscii 'e' := by decide
  have capital : IsAscii 'E' := by decide
  rw [exponentEnd, here.isAt_eq small, here.isAt_eq capital]
  cases rest with
  | nil => exact here
  | cons mark rest =>
      rw [Numeral.scanExponent]
      by_cases isMark : mark = 'e' ∨ mark = 'E'
      · have next : StandsAt text (i + 1) rest := by
          rcases isMark with rfl | rfl
          · exact here.after small
          · exact here.after capital
        have signed := standsAt_signEnd next
        have behind := standsAt_digitsFrom signed
        have marked : ((mark :: rest).head? == some 'e' || (mark :: rest).head? == some 'E') =
            true := by simpa using isMark
        rw [digitsFrom_run signed] at behind
        simp only [marked, isMark, if_true, digitsFrom_run signed]
        generalize digitRun (takeSign rest).2 = run at *
        obtain ⟨digits, after⟩ := run
        cases digits with
        | nil => simpa using here
        | cons d digits =>
            rw [if_pos (by simp)]
            exact behind
      · have unmarked : ((mark :: rest).head? == some 'e' || (mark :: rest).head? == some 'E') =
            false := by simpa using isMark
        simp only [unmarked, isMark, if_false]
        exact here

theorem standsAt_mantissaEnd (here : StandsAt text i rest) :
    StandsAt text (mantissaEnd (encode text) i).1 (Numeral.scanMantissa rest).2.2 ∧
      (mantissaEnd (encode text) i).2 =
        (Numeral.scanMantissa rest).1.length + (Numeral.scanMantissa rest).2.1.length := by
  have point : IsAscii '.' := by decide
  have afterWhole := standsAt_digitsFrom here
  have count := digitsFrom_run here
  simp only [mantissaEnd, afterWhole.isAt_eq point, Numeral.scanMantissa]
  generalize (digitRun rest).1 = digits at *
  generalize (digitRun rest).2 = left at *
  cases left with
  | nil => exact ⟨afterWhole, by simp [Numeral.scanFraction, count]⟩
  | cons c left =>
      by_cases same : c = '.'
      · subst same
        have next := afterWhole.after point
        have count' := digitsFrom_run next
        exact ⟨standsAt_digitsFrom next, by simp [Numeral.scanFraction]; omega⟩
      · have noPoint : Numeral.scanFraction (c :: left) = ([], c :: left) := by
          simp [Numeral.scanFraction, same]
        simp only [List.head?_cons, Option.some_beq_some, beq_eq_false_iff_ne.mpr same,
          Bool.false_eq_true, if_false, noPoint]
        exact ⟨afterWhole, by simp [count]⟩

/-! ## The result -/

/-- As a whole, exactly the numeric texts are read, each as its value. -/
theorem parse?_eq_some_iff {v : Float} :
    parse? text = some v ↔
      ∃ negative amount, NumericText negative amount text ∧ amount.IsValue negative v := by
  constructor
  · intro parsed
    unfold parse? at parsed
    split at parsed
    · rename_i scanned
      obtain ⟨taken, negative, amount, split, numeric, value⟩ := numericText_of_scan scanned
      rw [List.append_nil] at split
      cases parsed
      exact ⟨negative, amount, split ▸ numeric, value⟩
    · cases parsed
  · rintro ⟨negative, amount, numeric, value⟩
    rw [parse?, numeric.scan, value.eq]

theorem parse?_of_scan {front : List Char} {v : Float}
    (scanned : scan? (front ++ rest) = some (v, rest)) : parse? front = some v := by
  obtain ⟨taken, negative, amount, split, numeric, value⟩ := numericText_of_scan scanned
  obtain rfl := List.append_cancel_right split
  exact parse?_eq_some_iff.mpr ⟨negative, amount, numeric, value⟩

/-- The index never cuts a character in two, and finds the number that the text begins with. -/
theorem leadingByIndex?_eq (text : String) : leadingByIndex? text = some (leading? text) := by
  rw [leadingByIndex?, leading?]
  generalize trimStart text.toList = t
  have begun := StandsAt.start t
  have signed := standsAt_signEnd begun
  obtain ⟨sign, -, cut⟩ := signed.cut
  have minus : isAt '-' (encode t) 0 = (takeSign t).1 :=
    (begun.isAt_eq (by decide)).trans (head?_eq_minus t)
  obtain ⟨atStop, count⟩ := standsAt_mantissaEnd signed
  simp only [cut, minus, count, Option.bind_eq_bind, Option.bind_some]
  by_cases infinite : "Infinity".toList.isPrefixOf (takeSign t).2 = true
  · rw [if_pos infinite]
    simp only [scan?, infinite, if_true]
    rfl
  have unsigned : scan? t = (Numeral.scan? (takeSign t).2).map fun found =>
      (found.1.toFloat (takeSign t).1, found.2) := if_neg infinite
  rw [if_neg infinite]
  rw [Numeral.scan?_eq] at unsigned
  obtain ⟨front, split, cut'⟩ := (standsAt_exponentEnd atStop).cut
  rw [cut']
  generalize Numeral.scanMantissa (takeSign t).2 = mantissa at *
  obtain ⟨whole, fraction, after⟩ := mantissa
  dsimp only at unsigned split ⊢
  by_cases noDigits : whole.length + fraction.length = 0
  · have empty : (whole.isEmpty && fraction.isEmpty) = true := by simpa using noDigits
    rw [if_pos noDigits, unsigned, if_pos empty]
    rfl
  · have notEmpty : ¬(whole.isEmpty && fraction.isEmpty) = true := by simpa using noDigits
    rw [if_neg notEmpty] at unsigned
    have parsed := parse?_of_scan ((congrArg scan? split).symm.trans unsigned)
    rw [if_neg noDigits, unsigned]
    exact congrArg Option.some parsed

/-- For every text. Found by byte indices, the number that it begins with never needs a cut inside
    of a character, and is the one that the text is read as. There is one exactly if, behind the
    blanks, some numeric text stands in front, and it is the value of the longest such text. -/
theorem leading_is_longest_numeric (text : String) :
    let t := trimStart text.toList
    leadingByIndex? text = some (leading? text) ∧
    ((leading? text).isSome = true ↔
      ∃ front, front <+: t ∧ ∃ negative amount, NumericText negative amount front) ∧
    ∀ v, leading? text = some v ↔
      ∃ front negative amount, LongestNumeric t negative amount front ∧
        amount.IsValue negative v := by
  intro t
  have found : ∀ v, leading? text = some v ↔ ∃ rest, scan? t = some (v, rest) := by
    intro v
    rw [leading?, Option.map_eq_some_iff]
    constructor
    · rintro ⟨⟨v', rest⟩, scanned, rfl⟩
      exact ⟨rest, scanned⟩
    · rintro ⟨rest, scanned⟩
      exact ⟨(v, rest), scanned, rfl⟩
  refine ⟨leadingByIndex?_eq text, ?_, fun v => (found v).trans scan?_value_iff⟩
  rw [Option.isSome_iff_exists]
  constructor
  · rintro ⟨v, leads⟩
    obtain ⟨rest, scanned⟩ := (found v).mp leads
    obtain ⟨front, negative, amount, split, numeric, -⟩ := numericText_of_scan scanned
    exact ⟨front, ⟨rest, split.symm⟩, negative, amount, numeric⟩
  · rintro ⟨front, ⟨rest, split⟩, negative, amount, numeric⟩
    obtain ⟨v, rest', scanned, -⟩ := numeric.scan_append rest
    exact ⟨v, (found v).mpr ⟨rest', split ▸ scanned⟩⟩

end Number

end MinangScript
