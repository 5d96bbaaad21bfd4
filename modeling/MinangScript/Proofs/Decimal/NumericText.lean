import MinangScript.Proofs.Decimal.CorrectRounding

/-! # Numeric texts

The texts that denote a number are given by a grammar: a sign or none, and either `Infinity` or a
numeral, of which the digits on one side of the point and the exponent may be missing. A scan takes
the longest text of the grammar that stands in front, and its value is that of the whole text taken.
-/

namespace MinangScript

/-! ## The grammar -/

/-- One digit or more. -/
def IsDigits (text : List Char) : Prop :=
  text ≠ [] ∧ ∀ c ∈ text, c.isDigit = true

/-- A sign, or none; the flag says whether it is a minus. -/
inductive IsSign : Bool → List Char → Prop where
  | none : IsSign false []
  | plus : IsSign false ['+']
  | minus : IsSign true ['-']

namespace Numeral

/-- The digits before the point, those after it, and how they are written: no point is needed behind
    whole digits, no digit behind a point, and no digit before it if there is one behind. -/
inductive Mantissa : List Char → List Char → List Char → Prop where
  | whole {whole : List Char} (isDigits : IsDigits whole) : Mantissa whole [] whole
  | pointed {whole fraction : List Char} (isDigits : IsDigits whole)
      (all : ∀ c ∈ fraction, c.isDigit = true) :
      Mantissa whole fraction (whole ++ '.' :: fraction)
  | fraction {fraction : List Char} (isDigits : IsDigits fraction) :
      Mantissa [] fraction ('.' :: fraction)

/-- A power of ten and how it is written, if at all. -/
inductive Exponent : Int → List Char → Prop where
  | none : Exponent 0 []
  | power {mark : Char} {negative : Bool} {sign digits : List Char}
      (isMark : mark = 'e' ∨ mark = 'E') (isSign : IsSign negative sign) (isDigits : IsDigits digits) :
      Exponent (if negative then -(digitsValue digits : Int) else digitsValue digits)
        (mark :: (sign ++ digits))

/-- The text is a spelling of the numeral. -/
inductive Spells (n : Numeral) : List Char → Prop where
  | parts {mantissa power : List Char} (isMantissa : Mantissa n.whole n.fraction mantissa)
      (isExponent : Exponent n.exponent power) : Spells n (mantissa ++ power)

end Numeral

/-- What a number is apart from its sign. -/
inductive Amount where
  | infinity
  | numeral (n : Numeral)

namespace Amount

/-- The text without a sign that denotes the amount. -/
def Spells : Amount → List Char → Prop
  | infinity, text => text = "Infinity".toList
  | numeral n, text => n.Spells text

/-- The double is the amount with the given sign, correctly rounded. -/
def IsValue : Amount → Bool → Float → Prop
  | infinity, negative, v => Binary64.ofFloat v = .infinite negative
  | numeral n, negative, v => Binary64.Rounded negative n.value (Binary64.ofFloat v)

end Amount

/-- The text denotes the amount with the given sign. -/
inductive NumericText (negative : Bool) (amount : Amount) : List Char → Prop where
  | parts {sign unsigned : List Char} (isSign : IsSign negative sign)
      (spelled : amount.Spells unsigned) : NumericText negative amount (sign ++ unsigned)

/-! ## Signs and digits -/

theorem IsDigits.head {digits : List Char} (isDigits : IsDigits digits) (rest : List Char) :
    ∃ c others, digits ++ rest = c :: others ∧ c.isDigit = true := by
  obtain ⟨nonempty, all⟩ := isDigits
  cases digits with
  | nil => exact absurd rfl nonempty
  | cons c digits => exact ⟨c, digits ++ rest, rfl, all c List.mem_cons_self⟩

theorem digitRun_append_left {digits : List Char} (all : ∀ c ∈ digits, c.isDigit = true)
    (rest : List Char) :
    digitRun (digits ++ rest) = (digits ++ (digitRun rest).1, (digitRun rest).2) := by
  rw [digitRun, List.takeWhile_append_of_pos all, List.dropWhile_append_of_pos all]
  rfl

theorem isDigit_of_mem_digitRun (text : List Char) :
    ∀ c ∈ (digitRun text).1, c.isDigit = true :=
  fun _ member => List.mem_takeWhile_imp member

theorem digitRun_suffix (text : List Char) : (digitRun text).2 <:+ text :=
  List.dropWhile_suffix _

theorem takeSign_split (text : List Char) :
    ∃ sign, IsSign (takeSign text).1 sign ∧ text = sign ++ (takeSign text).2 := by
  unfold takeSign
  split
  · exact ⟨_, .plus, rfl⟩
  · exact ⟨_, .minus, rfl⟩
  · exact ⟨_, .none, rfl⟩

/-- A sign is taken off where no other follows it. -/
theorem IsSign.takeSign_append {negative : Bool} {sign : List Char} (isSign : IsSign negative sign)
    {rest : List Char} (ends : ∀ c ∈ rest.head?, c ≠ '+' ∧ c ≠ '-') :
    takeSign (sign ++ rest) = (negative, rest) := by
  cases isSign with
  | none =>
      rw [List.nil_append]
      unfold takeSign
      split
      · exact absurd rfl (ends '+' rfl).1
      · exact absurd rfl (ends '-' rfl).2
      · rfl
  | plus => rfl
  | minus => rfl

theorem isSign_of_isDigit {c : Char} (digit : c.isDigit = true) : c ≠ '+' ∧ c ≠ '-' := by
  constructor <;>
  · rintro rfl
    cases digit

namespace Numeral

/-! ## Parts of a numeral -/

/-- The digits of a numeral and what stands behind them: what the scan takes first. -/
def scanMantissa (text : List Char) : List Char × List Char × List Char :=
  ((digitRun text).1, scanFraction (digitRun text).2)

theorem scan?_eq (text : List Char) :
    scan? text =
      let (whole, fraction, after) := scanMantissa text
      if whole.isEmpty && fraction.isEmpty then none
      else some (⟨whole, fraction, (scanExponent after).1⟩, (scanExponent after).2) := rfl

theorem scanFraction_suffix (text : List Char) : (scanFraction text).2 <:+ text := by
  unfold scanFraction
  split
  · exact (digitRun_suffix _).trans (List.suffix_cons _ _)
  · exact List.suffix_rfl

/-- What was taken is a mantissa, unless there was no digit. -/
theorem mantissa_of_scan (text : List Char) :
    let (whole, fraction, after) := scanMantissa text
    whole = [] ∧ fraction = [] ∨
      ∃ mantissa, text = mantissa ++ after ∧ Mantissa whole fraction mantissa := by
  have wholeAll := isDigit_of_mem_digitRun text
  have split := digitRun_append text
  simp only [scanMantissa]
  generalize (digitRun text).1 = whole at *
  generalize (digitRun text).2 = afterWhole at *
  subst split
  unfold scanFraction
  split
  · rename_i rest
    have fractionAll := isDigit_of_mem_digitRun rest
    have same := (digitRun_append rest).symm
    generalize (digitRun rest).1 = fraction at *
    generalize (digitRun rest).2 = after at *
    subst same
    by_cases noWhole : whole = []
    · subst noWhole
      by_cases noFraction : fraction = []
      · exact .inl ⟨rfl, noFraction⟩
      · exact .inr ⟨_, rfl, .fraction ⟨noFraction, fractionAll⟩⟩
    · exact .inr ⟨_, by simp, .pointed ⟨noWhole, wholeAll⟩ fractionAll⟩
  · by_cases noWhole : whole = []
    · exact .inl ⟨noWhole, rfl⟩
    · exact .inr ⟨_, rfl, .whole ⟨noWhole, wholeAll⟩⟩

/-- What was taken is an exponent, if only the missing one. -/
theorem exponent_of_scan (text : List Char) :
    ∃ power, text = power ++ (scanExponent text).2 ∧ Exponent (scanExponent text).1 power := by
  cases text with
  | nil => exact ⟨[], rfl, .none⟩
  | cons mark rest =>
      rw [scanExponent]
      by_cases isMark : mark = 'e' ∨ mark = 'E'
      · obtain ⟨sign, isSign, split⟩ := takeSign_split rest
        have all := isDigit_of_mem_digitRun (takeSign rest).2
        have split' := digitRun_append (takeSign rest).2
        simp only [isMark, if_true]
        generalize digitRun (takeSign rest).2 = run at *
        obtain ⟨digits, after⟩ := run
        cases digits with
        | nil => exact ⟨[], rfl, .none⟩
        | cons c digits =>
            refine ⟨_, ?_, .power isMark isSign ⟨List.cons_ne_nil c digits, all⟩⟩
            nth_rewrite 1 [split, ← split']
            simp
      · simp only [isMark, if_false]
        exact ⟨[], rfl, .none⟩

theorem scanExponent_suffix (text : List Char) : (scanExponent text).2 <:+ text := by
  obtain ⟨power, split, -⟩ := exponent_of_scan text
  exact ⟨power, split.symm⟩

variable {whole fraction mantissa power : List Char} {k : Int}

/-- A mantissa is taken whole where neither a digit nor a point follows. -/
theorem Mantissa.scan (is : Mantissa whole fraction mantissa) {after : List Char}
    (ends : ∀ c ∈ after.head?, c.isDigit = false ∧ c ≠ '.') :
    scanMantissa (mantissa ++ after) = (whole, fraction, after) := by
  have noDigit : ∀ c ∈ after.head?, c.isDigit = false := fun c here => (ends c here).1
  cases is with
  | whole isDigits =>
      rw [scanMantissa, digitRun_of_ends isDigits.2 noDigit]
      cases after with
      | nil => rfl
      | cons c after => simp [scanFraction, (ends c rfl).2]
  | pointed isDigits all =>
      rw [scanMantissa, List.append_assoc, digitRun_of_ends isDigits.2 (by simp)]
      simp [scanFraction, digitRun_of_ends all noDigit]
  | fraction isDigits =>
      have noDigits : digitRun ('.' :: fraction ++ after) = ([], '.' :: fraction ++ after) := rfl
      rw [scanMantissa, noDigits]
      simp [scanFraction, digitRun_of_ends isDigits.2 noDigit]

/-- Whatever follows a mantissa, all of it is taken, and perhaps more. -/
theorem Mantissa.scan_append (is : Mantissa whole fraction mantissa) (rest : List Char) :
    let (whole', fraction', after) := scanMantissa (mantissa ++ rest)
    (whole'.isEmpty && fraction'.isEmpty) = false ∧ after <:+ rest := by
  cases is with
  | whole isDigits =>
      have more := scanFraction_suffix (digitRun rest).2
      simp only [scanMantissa, digitRun_append_left isDigits.2]
      exact ⟨by simp [isDigits.1], more.trans (digitRun_suffix rest)⟩
  | pointed isDigits all =>
      have stops : digitRun (whole ++ ('.' :: fraction ++ rest)) =
          (whole, '.' :: (fraction ++ rest)) := digitRun_of_ends isDigits.2 (by simp)
      simp only [scanMantissa, List.append_assoc, stops, scanFraction, digitRun_append_left all]
      exact ⟨by simp [isDigits.1], digitRun_suffix rest⟩
  | fraction isDigits =>
      have noDigits : digitRun ('.' :: fraction ++ rest) = ([], '.' :: (fraction ++ rest)) := rfl
      simp only [scanMantissa, noDigits, scanFraction, digitRun_append_left isDigits.2]
      exact ⟨by simp [isDigits.1], digitRun_suffix rest⟩

theorem Mantissa.head (is : Mantissa whole fraction mantissa) (rest : List Char) :
    ∃ c others, mantissa ++ rest = c :: others ∧ (c.isDigit = true ∨ c = '.') := by
  cases is with
  | whole isDigits =>
      obtain ⟨c, others, starts, digit⟩ := isDigits.head rest
      exact ⟨c, others, starts, .inl digit⟩
  | pointed isDigits all =>
      obtain ⟨c, others, starts, digit⟩ := isDigits.head ('.' :: fraction ++ rest)
      exact ⟨c, others, by rw [← starts, List.append_assoc], .inl digit⟩
  | fraction isDigits => exact ⟨'.', fraction ++ rest, rfl, .inr rfl⟩

theorem Exponent.ends (is : Exponent k power) :
    ∀ c ∈ power.head?, c.isDigit = false ∧ c ≠ '.' := by
  cases is with
  | none => exact nofun
  | power isMark _ _ => rcases isMark with rfl | rfl <;> simp

/-- An exponent is taken whole, with the digits that follow it. -/
theorem scanExponent_power {mark : Char} {negative : Bool} {sign digits : List Char}
    (isMark : mark = 'e' ∨ mark = 'E') (isSign : IsSign negative sign) (isDigits : IsDigits digits)
    (rest : List Char) :
    scanExponent (mark :: (sign ++ digits) ++ rest) =
      (if negative then -(digitsValue (digits ++ (digitRun rest).1) : Int)
        else digitsValue (digits ++ (digitRun rest).1), (digitRun rest).2) := by
  obtain ⟨c, others, starts, digit⟩ := isDigits.head rest
  have signed : takeSign (sign ++ (digits ++ rest)) = (negative, digits ++ rest) := by
    apply isSign.takeSign_append
    rw [starts]
    simpa using isSign_of_isDigit digit
  simp only [scanExponent, List.cons_append, List.append_assoc, isMark, if_true, signed,
    digitRun_append_left isDigits.2]
  cases digits with
  | nil => exact absurd rfl isDigits.1
  | cons d digits => rfl

theorem Exponent.scan (is : Exponent k power) : scanExponent power = (k, []) := by
  cases is with
  | none => rfl
  | @power mark negative sign digits isMark isSign isDigits =>
      have scanned := scanExponent_power isMark isSign isDigits []
      have noDigits : digitRun [] = ([], []) := rfl
      rwa [noDigits, List.append_nil, List.append_nil] at scanned

theorem Exponent.scan_append (is : Exponent k power) (written : power ≠ []) (rest : List Char) :
    (scanExponent (power ++ rest)).2 <:+ rest := by
  cases is with
  | none => exact absurd rfl written
  | power isMark isSign isDigits =>
      rw [scanExponent_power isMark isSign isDigits]
      exact digitRun_suffix rest

variable {n : Numeral} {text : List Char}

/-- The scan reads a spelling of a numeral. -/
theorem spells_of_scan {rest : List Char} (scanned : scan? text = some (n, rest)) :
    ∃ taken, text = taken ++ rest ∧ n.Spells taken := by
  have found := mantissa_of_scan text
  rw [scan?_eq] at scanned
  generalize scanMantissa text = parts at *
  obtain ⟨whole, fraction, after⟩ := parts
  dsimp only at found scanned
  split at scanned
  · cases scanned
  · rename_i notEmpty
    obtain ⟨mantissa, rfl, isMantissa⟩ := found.resolve_left (by simpa using notEmpty)
    obtain ⟨power, split, isExponent⟩ := exponent_of_scan after
    cases scanned
    refine ⟨mantissa ++ power, ?_, .parts isMantissa isExponent⟩
    nth_rewrite 1 [split]
    exact (List.append_assoc ..).symm

/-- Behind a mantissa that ends, the scan goes on with the exponent. -/
theorem Mantissa.scan? (is : Mantissa whole fraction mantissa) {after : List Char}
    (ends : ∀ c ∈ after.head?, c.isDigit = false ∧ c ≠ '.') :
    Numeral.scan? (mantissa ++ after) =
      some (⟨whole, fraction, (scanExponent after).1⟩, (scanExponent after).2) := by
  have scanned := is.scan ends
  have taken := is.scan_append after
  rw [scanned] at taken
  simp only [scan?_eq, scanned, taken.1]
  rfl

/-- A spelling is scanned as its numeral. -/
theorem Spells.scan (spelled : n.Spells text) : scan? text = some (n, []) := by
  cases spelled with
  | parts isMantissa isExponent => rw [isMantissa.scan? isExponent.ends, isExponent.scan]

/-- Whatever follows a spelling, all of it is taken, and perhaps more. -/
theorem Spells.scan_append (spelled : n.Spells text) (rest : List Char) :
    ∃ n' rest', scan? (text ++ rest) = some (n', rest') ∧ rest' <:+ rest := by
  cases spelled with
  | @parts mantissa power isMantissa isExponent =>
      have after := isMantissa.scan_append (power ++ rest)
      rw [scan?_eq, List.append_assoc]
      by_cases noPower : power = []
      · subst noPower
        generalize scanMantissa (mantissa ++ ([] ++ rest)) = parts at *
        obtain ⟨whole, fraction, left⟩ := parts
        simp only [after.1]
        exact ⟨_, _, rfl, (scanExponent_suffix left).trans after.2⟩
      · have ends : ∀ c ∈ (power ++ rest).head?, c.isDigit = false ∧ c ≠ '.' := by
          rw [List.head?_append_of_ne_nil _ noPower]
          exact isExponent.ends
        rw [isMantissa.scan ends] at after ⊢
        simp only [after.1]
        exact ⟨_, _, rfl, isExponent.scan_append noPower rest⟩

/-- Every spelling begins with a digit or a point. -/
theorem Spells.head (spelled : n.Spells text) (rest : List Char) :
    ∃ c others, text ++ rest = c :: others ∧ (c.isDigit = true ∨ c = '.') := by
  cases spelled with
  | @parts mantissa power isMantissa isExponent =>
      rw [List.append_assoc]
      exact isMantissa.head (power ++ rest)

end Numeral

/-! ## Whole numeric texts -/

namespace Amount

variable {amount : Amount} {text : List Char} {negative : Bool}

/-- No amount begins with a sign. -/
theorem Spells.head (spelled : amount.Spells text) (rest : List Char) :
    ∀ c ∈ (text ++ rest).head?, c ≠ '+' ∧ c ≠ '-' := by
  cases amount with
  | infinity =>
      subst spelled
      simp
  | numeral n =>
      obtain ⟨c, others, starts, digit | rfl⟩ := Numeral.Spells.head spelled rest
      · rw [starts]
        simpa using isSign_of_isDigit digit
      · rw [starts]
        simp

/-- The amount in front of a text, and what follows it. -/
def scan? (text : List Char) : Option (Amount × List Char) :=
  if "Infinity".toList.isPrefixOf text then
    some (infinity, text.drop "Infinity".length)
  else (Numeral.scan? text).map fun (n, rest) => (numeral n, rest)

theorem spells_of_scan {rest : List Char} (scanned : scan? text = some (amount, rest)) :
    ∃ taken, text = taken ++ rest ∧ amount.Spells taken := by
  unfold scan? at scanned
  split at scanned
  · rename_i infinite
    obtain ⟨after, rfl⟩ := List.isPrefixOf_iff_prefix.mp infinite
    cases scanned
    exact ⟨_, rfl, rfl⟩
  · obtain ⟨⟨n, after⟩, scanned, same⟩ := Option.map_eq_some_iff.mp scanned
    cases same
    exact Numeral.spells_of_scan scanned

/-- No numeral begins like an infinity. -/
theorem scan?_numeral {n : Numeral} (spelled : n.Spells text) (rest : List Char) :
    scan? (text ++ rest) =
      (Numeral.scan? (text ++ rest)).map fun (n, rest) => (numeral n, rest) := by
  refine if_neg fun infinite => ?_
  obtain ⟨after, same⟩ := List.isPrefixOf_iff_prefix.mp infinite
  obtain ⟨c, others, starts, first⟩ := spelled.head rest
  rw [← same] at starts
  cases starts
  rcases first with digit | point
  · cases digit
  · cases point

theorem Spells.scan (spelled : amount.Spells text) : scan? text = some (amount, []) := by
  cases amount with
  | infinity =>
      subst spelled
      rfl
  | numeral n =>
      have scanned := scan?_numeral spelled []
      rw [List.append_nil] at scanned
      rw [scanned, Numeral.Spells.scan spelled]
      rfl

theorem Spells.scan_append (spelled : amount.Spells text) (rest : List Char) :
    ∃ amount' rest', scan? (text ++ rest) = some (amount', rest') ∧ rest' <:+ rest := by
  cases amount with
  | infinity =>
      subst spelled
      have infinite : "Infinity".toList.isPrefixOf ("Infinity".toList ++ rest) = true :=
        List.isPrefixOf_iff_prefix.mpr (List.prefix_append ..)
      exact ⟨_, _, if_pos infinite, List.suffix_rfl⟩
  | numeral n =>
      obtain ⟨n', rest', scanned, shorter⟩ := Numeral.Spells.scan_append spelled rest
      refine ⟨numeral n', rest', ?_, shorter⟩
      rw [scan?_numeral spelled, scanned]
      rfl

/-- The float that the amount is read as. -/
def toFloat (negative : Bool) : Amount → Float
  | infinity => Number.infinity negative
  | numeral n => n.toFloat negative

theorem isValue_toFloat (amount : Amount) (negative : Bool) :
    amount.IsValue negative (amount.toFloat negative) := by
  cases amount with
  | infinity => exact Binary64.ofFloat_infinity
  | numeral n => exact n.rounded_toFloat negative

/-- It is the only value. -/
theorem IsValue.eq {v : Float} (is : amount.IsValue negative v) : v = amount.toFloat negative := by
  cases amount with
  | infinity => exact Binary64.eq_toFloat_of_ofFloat.2 is
  | numeral n => exact Binary64.Rounded.eq_of_ofFloat is (n.rounded_toFloat negative)

end Amount

namespace Number

variable {negative : Bool} {amount : Amount} {text rest : List Char} {v : Float}

theorem scan?_eq (text : List Char) :
    scan? text = (Amount.scan? (takeSign text).2).map
      fun (amount, rest) => (amount.toFloat (takeSign text).1, rest) := by
  simp only [scan?, Amount.scan?]
  split
  · rfl
  · rw [Option.map_map]
    rfl

theorem numericText_of_scan (scanned : scan? text = some (v, rest)) :
    ∃ taken negative amount, text = taken ++ rest ∧ NumericText negative amount taken ∧
      amount.IsValue negative v := by
  rw [scan?_eq] at scanned
  obtain ⟨⟨amount, after⟩, scanned, same⟩ := Option.map_eq_some_iff.mp scanned
  cases same
  obtain ⟨sign, isSign, split⟩ := takeSign_split text
  obtain ⟨taken, split', spelled⟩ := Amount.spells_of_scan scanned
  refine ⟨sign ++ taken, _, amount, ?_, .parts isSign spelled, amount.isValue_toFloat _⟩
  rw [List.append_assoc, ← split', ← split]

end Number

namespace NumericText

variable {negative : Bool} {amount : Amount} {text : List Char}

/-- A numeric text is scanned as what it denotes. -/
theorem scan (is : NumericText negative amount text) :
    Number.scan? text = some (amount.toFloat negative, []) := by
  cases is with
  | @parts sign unsigned isSign spelled =>
      have ends := spelled.head []
      rw [List.append_nil] at ends
      rw [Number.scan?_eq, isSign.takeSign_append ends]
      dsimp only
      rw [spelled.scan]
      rfl

/-- Whatever follows a numeric text, all of it is taken, and perhaps more. -/
theorem scan_append (is : NumericText negative amount text) (rest : List Char) :
    ∃ v rest', Number.scan? (text ++ rest) = some (v, rest') ∧ rest' <:+ rest := by
  cases is with
  | @parts sign unsigned isSign spelled =>
      obtain ⟨amount', rest', scanned, shorter⟩ := spelled.scan_append rest
      refine ⟨amount'.toFloat negative, rest', ?_, shorter⟩
      rw [List.append_assoc, Number.scan?_eq, isSign.takeSign_append (spelled.head rest)]
      dsimp only
      rw [scanned]
      rfl

end NumericText

/-! ## The longest numeric text in front -/

/-- The text, some beginning of `text`, is numeric, and no longer beginning is. -/
structure LongestNumeric (text : List Char) (negative : Bool) (amount : Amount)
    (front : List Char) : Prop where
  begins : front <+: text
  numeric : NumericText negative amount front
  longest : ∀ other, other <+: text → (∃ negative amount, NumericText negative amount other) →
    other.length ≤ front.length

namespace Number

theorem longestNumeric_of_scan {text rest : List Char} {v : Float}
    (scanned : scan? text = some (v, rest)) :
    ∃ front negative amount, text = front ++ rest ∧ LongestNumeric text negative amount front ∧
      amount.IsValue negative v := by
  obtain ⟨front, negative, amount, rfl, numeric, value⟩ := numericText_of_scan scanned
  refine ⟨front, negative, amount, rfl, ⟨List.prefix_append .., numeric, ?_⟩, value⟩
  rintro other ⟨after, same⟩ ⟨negative', amount', numeric'⟩
  obtain ⟨v', rest', scanned', shorter⟩ := numeric'.scan_append after
  rw [same, scanned] at scanned'
  cases scanned'
  have lengths := congrArg List.length same
  have shorter := shorter.length_le
  simp only [List.length_append] at lengths
  omega

/-- The scan finds the value of the longest numeric text in front, if there is any. -/
theorem scan?_value_iff {text : List Char} {v : Float} :
    (∃ rest, scan? text = some (v, rest)) ↔
      ∃ front negative amount, LongestNumeric text negative amount front ∧
        amount.IsValue negative v := by
  constructor
  · rintro ⟨rest, scanned⟩
    obtain ⟨front, negative, amount, -, longest, value⟩ := longestNumeric_of_scan scanned
    exact ⟨front, negative, amount, longest, value⟩
  · rintro ⟨front, negative, amount, ⟨⟨rest, rfl⟩, numeric, longest⟩, value⟩
    obtain ⟨v', rest', scanned, shorter⟩ := numeric.scan_append rest
    obtain ⟨front', negative', amount', same, longest', value'⟩ := longestNumeric_of_scan scanned
    have atMost := longest front' longest'.begins ⟨_, _, longest'.numeric⟩
    have lengths := congrArg List.length same
    have shorter' := shorter.length_le
    simp only [List.length_append] at lengths
    obtain ⟨rfl, rfl⟩ := List.append_inj' same (by omega)
    -- Both are values of the one text, and a numeric text is scanned as its value.
    have reading := numeric.scan
    rw [longest'.numeric.scan, ← value.eq, ← value'.eq] at reading
    cases reading
    exact ⟨rest, scanned⟩

end Number

end MinangScript
