import Mathlib.Algebra.Ring.Int.Defs
import MinangScript.Json.Reader
import MinangScript.Proofs.Json.Text

/-! # Reading what was written

`Reads` says what a reader takes from a text, wherever the text stands. Its rules follow the
reader: one for each step, one for the loops, and from these one for each part of a document. The
compact text of a document is then read as that document.
-/

namespace MinangScript

namespace Json

/-- Whether arrays and objects nest at most `depth` deep in a document, with `p` true of each of
its parts. -/
def Within (p : Json → Prop) : Nat → Json → Prop
  | depth + 1, array items => p (array items) ∧ ∀ item ∈ items, Within p depth item
  | depth + 1, object fields => p (object fields) ∧ ∀ field ∈ fields, Within p depth field.2
  | 0, array _ => False
  | 0, object _ => False
  | _, j => p j

theorem Within.holds {p : Json → Prop} {depth : Nat} {j : Json} (within : Within p depth j) :
    p j := by
  cases depth with
  | zero =>
    cases j with
    | array | object => cases within
    | _ => exact within
  | succ depth =>
    cases j with
    | array | object => exact within.1
    | _ => exact within

theorem Within.imp {p q : Json → Prop} (weaker : ∀ j, p j → q j) {depth : Nat} {j : Json}
    (within : Within p depth j) : Within q depth j := by
  induction depth generalizing j with
  | zero =>
    cases j with
    | array | object => cases within
    | _ => exact weaker _ within
  | succ depth ih =>
    cases j with
    | array items => exact ⟨weaker _ within.1, fun item member => ih (within.2 item member)⟩
    | object fields => exact ⟨weaker _ within.1, fun field member => ih (within.2 field member)⟩
    | _ => exact weaker _ within

/-- Numbers must be integers that fit a word of 64 bits, with or without a sign. -/
def FitsWord : Json → Prop
  | integer n => -2 ^ 63 ≤ n ∧ n < 2 ^ 64
  | float _ => False
  | _ => True

namespace JsonReader

open Reader (iterate)

/-- Wherever `input` stands, `p` reads it up to `rest` and gives `value`. -/
def Reads {α : Type} (p : JsonReader α) (input : List Char) (value : α) (rest : List Char) :
    Prop :=
  ∀ line column, ∃ line' column',
    p ⟨input, line, column⟩ = .ok (value, ⟨rest, line', column'⟩)

section Rules

variable {α β : Type} {p : JsonReader α} {f : α → JsonReader β} {a : α} {b : β}
  {input middle rest : List Char} {c : Char}

theorem reads_pure : Reads (pure a) input a input :=
  fun line column => ⟨line, column, rfl⟩

theorem Reads.bind (first : Reads p input a middle) (next : Reads (f a) middle b rest) :
    Reads (p >>= f) input b rest := by
  intro line column
  rcases first line column with ⟨line₁, column₁, first⟩
  rcases next line₁ column₁ with ⟨line₂, column₂, next⟩
  exists line₂, column₂
  show Except.bind (p ⟨input, line, column⟩) (fun r => f r.1 r.2) = _
  rw [first]
  exact next

theorem reads_get {g : Cursor → JsonReader β}
    (next : ∀ line column, Reads (g ⟨input, line, column⟩) input b rest) :
    Reads (get >>= g) input b rest :=
  fun line column => next line column line column

theorem reads_peek : Reads peek input input.head? input :=
  fun line column => ⟨line, column, rfl⟩

theorem reads_skip : Reads skip (c :: rest) () rest := by
  intro line column
  by_cases feed : c = '\n'
  · subst feed
    exact ⟨line + 1, 0, rfl⟩
  · exists line, column + c.utf8Size
    show Except.ok ((), Cursor.advance ⟨c :: rest, line, column⟩) = _
    simp [Cursor.advance]

theorem reads_takeWhile (take : Char → Bool) (input : List Char) :
    Reads (takeWhile take) input (input.takeWhile take) (input.dropWhile take) :=
  fun _ _ => ⟨_, _, rfl⟩

/-- Whatever space there is in front of a character is skipped, and nothing else. -/
theorem reads_nextSolid_behind {before : List Char} (spaces : ∀ b ∈ before, isSpace b = true)
    (solid : isSpace c = false) :
    Reads nextSolid (before ++ c :: rest) (some c) (c :: rest) := by
  have skipped := reads_takeWhile isSpace (before ++ c :: rest)
  rw [List.takeWhile_append_of_pos spaces, List.dropWhile_append_of_pos spaces,
    List.takeWhile_cons_of_neg (by simp [solid]), List.dropWhile_cons_of_neg (by simp [solid])]
    at skipped
  exact skipped.bind reads_peek

theorem reads_nextSolid (solid : isSpace c = false) :
    Reads nextSolid (c :: rest) (some c) (c :: rest) :=
  reads_nextSolid_behind (List.forall_mem_nil _) solid

end Rules

section Loops

variable {α : Type} {step : List α → JsonReader (List α × Bool)} {text : Bool → α → List Char}
  {closing : Char} {rest : List Char}

/-- A loop that reads one item a round reads a whole series of them and the mark at its end. What
was read stands in reverse, and whether nothing was read yet tells the first item. -/
theorem reads_series (follows : List Char → Prop) {xs : List α}
    (more : ∀ seen, ∀ x ∈ xs, ∀ input, follows input →
      Reads (step seen) (text seen.isEmpty x ++ input) (x :: seen, true) input)
    (stop : ∀ seen, Reads (step seen) (closing :: rest) (seen, false) rest)
    (next : ∀ x ∈ xs, ∀ input, follows (text false x ++ input)) (last : follows (closing :: rest))
    {rounds : Nat} (enough : xs.length < rounds) (seen : List α) :
    Reads (iterate step rounds seen) (series text seen.isEmpty xs ++ (closing :: rest))
      (xs.reverse ++ seen) rest := by
  induction xs generalizing rounds seen with
  | nil =>
    cases rounds with
    | zero => cases enough
    | succ rounds => exact (stop seen).bind reads_pure
  | cons x xs ih =>
    cases rounds with
    | zero => cases enough
    | succ rounds =>
      have others := ih (fun seen y member => more seen y (.tail _ member))
        (fun y member => next y (.tail _ member)) (Nat.lt_of_succ_lt_succ enough) (x :: seen)
      -- Behind an item stands the next one, or the mark that closes the series.
      have behind : follows (series text false xs ++ (closing :: rest)) := by
        cases xs with
        | nil => exact last
        | cons y ys =>
          rw [series, List.append_assoc]
          exact next y (by simp) _
      rw [series, List.append_assoc, List.reverse_cons, List.append_assoc]
      exact (more seen x (by simp) _ behind).bind others

end Loops

section Strings

theorem reads_shortEscape {c letter : Char} (ordinary : letter ≠ 'u')
    (means : shortEscape? letter = some c) (rest : List Char) :
    Reads escape (letter :: rest) c rest := by
  apply reads_peek.bind
  simp only [List.head?_cons, means]
  exact reads_skip.bind reads_pure

theorem hexValue?_digitChars : ∀ n < 0x20,
    hexValue? ['0', '0', Nat.digitChar (n / 16), Nat.digitChar (n % 16)] = some n := by
  decide

theorem reads_hexEscape {a b c d : Char} {n : Nat} (means : hexValue? [a, b, c, d] = some n)
    (rest : List Char) : Reads hexEscape (a :: b :: c :: d :: rest) n rest := by
  have long : ¬ Cursor.byteCount [a, b, c, d] < 4 := by
    have := a.utf8Size_pos
    have := b.utf8Size_pos
    have := c.utf8Size_pos
    have := d.utf8Size_pos
    simp [Cursor.byteCount]
    omega
  apply reads_get
  intro line column
  simp only [List.take_succ_cons, List.take_zero, if_neg long, means]
  exact reads_skip.bind (reads_skip.bind (reads_skip.bind (reads_skip.bind reads_pure)))

theorem reads_numberEscape {c : Char} (control : c.toNat < 0x20) (rest : List Char) :
    Reads escape ('u' :: '0' :: '0' :: Nat.digitChar (c.toNat / 16) ::
      Nat.digitChar (c.toNat % 16) :: rest) c rest := by
  apply reads_peek.bind
  apply reads_skip.bind
  apply (reads_hexEscape (hexValue?_digitChars _ control) rest).bind
  rw [if_neg (by omega), if_neg (by omega), Char.ofNat_toNat]
  exact reads_pure

/-- A character is written as itself or as an escape that stands for it. -/
theorem escapedChar_cases (c : Char) :
    (∃ tail, escapedChar c = '\\' :: tail ∧ ∀ rest, Reads escape (tail ++ rest) c rest) ∨
      escapedChar c = [c] ∧ c ≠ '"' ∧ c ≠ '\\' ∧ ¬ c.toNat < 0x20 := by
  fun_cases escapedChar c with
  | case8 => exact .inl ⟨_, rfl, reads_numberEscape ‹_›⟩
  | case9 => exact .inr ⟨rfl, ‹_›, ‹_›, ‹_›⟩
  | _ =>
    refine .inl ⟨_, rfl, reads_shortEscape ?_ ?_⟩
    · decide
    · simp_all [shortEscape?]

theorem reads_stringRest {rounds : Nat} {text : String} (enough : text.length < rounds)
    (rest : List Char) :
    Reads (stringRest rounds) (series (fun _ => escapedChar) true text.toList ++ ('"' :: rest)) text
      rest := by
  apply (reads_series (fun _ => True) ?more ?stop ?next ?last enough []).bind
  · simp
    exact reads_pure
  case more =>
    intro seen c _ input _
    rcases escapedChar_cases c with ⟨tail, written, escape⟩ | ⟨written, quote, backslash, plain⟩
    · rw [written]
      apply reads_peek.bind
      simp only [List.cons_append, List.head?_cons, if_true]
      exact reads_skip.bind ((escape input).bind reads_pure)
    · rw [written]
      apply reads_peek.bind
      simp only [List.cons_append, List.nil_append, List.head?_cons, if_neg quote,
        if_neg backslash, if_neg plain]
      exact reads_skip.bind reads_pure
  case stop =>
    intro seen
    apply reads_peek.bind
    simp only [List.head?_cons, if_true]
    exact reads_skip.bind reads_pure
  case next => intros; trivial
  case last => trivial

end Strings

/-- Behind a document comes nothing, or a mark of the array or object around it. -/
def Closed (rest : List Char) : Prop :=
  ∀ c ∈ rest.head?, c = ',' ∨ c = ']' ∨ c = '\x7d'

theorem closed_cons {c : Char} {rest : List Char} (mark : c = ',' ∨ c = ']' ∨ c = '\x7d') :
    Closed (c :: rest) := by
  rintro _ ⟨⟩
  exact mark

section Numbers

variable {rest : List Char}

theorem le_ofDigitChars (digits : List Char) (n : Nat) : n ≤ Nat.ofDigitChars 10 digits n := by
  rw [Nat.ofDigitChars_eq_ofDigitChars_zero]
  have := Nat.le_mul_of_pos_left n (Nat.pow_pos (n := digits.length) (show 0 < 10 by decide))
  omega

theorem fitDigits_eq {digits : List Char} {n : Nat}
    (fits : Nat.ofDigitChars 10 digits n ≤ maxWord) :
    fitDigits n digits = (Nat.ofDigitChars 10 digits n, []) := by
  induction digits generalizing n with
  | nil => rfl
  | cons d digits ih =>
    have next : 10 * n + (d.toNat - '0'.toNat) = n * 10 + digitOf d := by
      rw [Nat.mul_comm, digitOf]
    rw [Nat.ofDigitChars_cons, next] at fits ⊢
    rw [fitDigits, if_pos (Nat.le_trans (le_ofDigitChars digits _) fits), ih fits]

theorem toDigits_opens (m : Nat) : ∃ d digits, Nat.toDigits 10 m = d :: digits ∧
    ∀ c ∈ d :: digits, c.isDigit = true := by
  cases written : Nat.toDigits 10 m with
  | nil => exact absurd written Nat.toDigits_ne_nil
  | cons d digits =>
    exists d, digits
    constructor
    · rfl
    · intro c member
      rw [← written] at member
      exact Nat.isDigit_of_mem_toDigits (by decide) (by decide) member

/-- Only zero is written with a zero in front. -/
theorem eq_zero_of_toDigits {m : Nat} {digits : List Char}
    (leading : Nat.toDigits 10 m = '0' :: digits) : m = 0 := by
  induction m using Nat.strongRecOn generalizing digits with
  | ind m ih =>
    by_cases small : m < 10
    · rw [Nat.toDigits_of_lt_base small] at leading
      have only : ∀ n < 10, Nat.digitChar n = '0' → n = 0 := by decide
      exact only m small (List.head_eq_of_cons_eq leading)
    · rw [Nat.toDigits_of_base_le (by decide) (by omega)] at leading
      cases higher : Nat.toDigits 10 (m / 10) with
      | nil => exact absurd higher Nat.toDigits_ne_nil
      | cons d ds =>
        rw [higher] at leading
        cases leading
        have := ih (m / 10) (by omega) higher
        omega

/-- What may follow a number: nothing that would make it longer. -/
def StopsNumber (rest : List Char) : Prop :=
  ∀ c ∈ rest.head?, c.isDigit = false ∧ c ≠ '.' ∧ c ≠ 'e' ∧ c ≠ 'E'

theorem Closed.stopsNumber (closed : Closed rest) : StopsNumber rest := by
  intro c member
  rcases closed c member with rfl | rfl | rfl <;> decide

theorem StopsNumber.takes_no_digit (ends : StopsNumber rest) :
    rest.takeWhile Char.isDigit = [] ∧ rest.dropWhile Char.isDigit = rest := by
  cases rest with
  | nil => exact ⟨rfl, rfl⟩
  | cons c rest => simp [(ends c rfl).1]

theorem StopsNumber.no_digit_ahead (ends : StopsNumber rest) :
    ¬ (rest.head?.map Char.isDigit).getD false = true := by
  cases rest with
  | nil => nofun
  | cons c rest => simp [(ends c rfl).1]

theorem StopsNumber.reads_end {α : Type} (ends : StopsNumber rest) {point mark other : JsonReader α}
    {value : α} (reads : Reads other rest value rest) :
    Reads (match rest.head? with
      | some '.' => point
      | some 'e' | some 'E' => mark
      | _ => other) rest value rest := by
  split
  · exact absurd rfl (ends _ ‹_›).2.1
  · exact absurd rfl (ends _ ‹_›).2.2.1
  · exact absurd rfl (ends _ ‹_›).2.2.2
  · exact reads

theorem reads_unsigned (negative : Bool) {m : Nat} (fits : m ≤ maxWord) (ends : StopsNumber rest) :
    Reads (unsigned negative) (Nat.toDigits 10 m ++ rest) (wholeNumber negative m) rest := by
  have fit : fitDigits 0 (Nat.toDigits 10 m) = (m, []) := by
    rw [fitDigits_eq (by rwa [Nat.ofDigitChars_ten_toDigits]), Nat.ofDigitChars_ten_toDigits]
  rcases toDigits_opens m with ⟨d, digits, written, all⟩
  rw [written] at fit ⊢
  apply reads_peek.bind
  simp only [List.cons_append, List.head?_cons, all d (.head _), not_true_eq_false, if_false]
  -- A zero in front is taken alone, any other digit with all that follow.
  by_cases zero : d = '0'
  · subst zero
    have only : digits = [] := by
      rw [eq_zero_of_toDigits written, Nat.toDigits_zero] at written
      exact (List.tail_eq_of_cons_eq written).symm
    subst only
    simp only [if_true]
    apply reads_skip.bind
    apply reads_peek.bind
    rw [List.nil_append, if_neg ends.no_digit_ahead]
    apply reads_pure.bind
    apply reads_peek.bind
    rw [fit]
    exact ends.reads_end reads_pure
  · have taken := reads_takeWhile Char.isDigit (d :: digits ++ rest)
    rw [List.takeWhile_append_of_pos all, List.dropWhile_append_of_pos all,
      ends.takes_no_digit.1, ends.takes_no_digit.2, List.append_nil] at taken
    simp only [if_neg zero]
    apply taken.bind
    apply reads_peek.bind
    rw [fit]
    exact ends.reads_end reads_pure

/-- An integer begins with a digit or a minus sign. -/
theorem chars_integer_opens (n : Int) :
    ∃ c tail, (integer n).chars = c :: tail ∧ (c = '-' ∨ c.isDigit = true) := by
  rw [chars_integer]
  by_cases negative : n < 0
  · rw [if_pos negative]
    exact ⟨'-', _, rfl, .inl rfl⟩
  · rcases toDigits_opens n.natAbs with ⟨d, digits, written, all⟩
    rw [if_neg negative, written]
    exact ⟨d, digits, rfl, .inr (all d (.head _))⟩

/-- Integers that fit a word of 64 bits are read as they are. -/
theorem reads_number {n : Int} (least : -2 ^ 63 ≤ n) (greatest : n < 2 ^ 64)
    (ends : StopsNumber rest) : Reads number ((integer n).chars ++ rest) (.integer n) rest := by
  rw [chars_integer]
  apply reads_peek.bind
  by_cases negative : n < 0
  · have value : wholeNumber true n.natAbs = .integer n := by
      rw [wholeNumber, if_pos rfl, if_neg, show -(n.natAbs : Int) = n by omega]
      simp
      omega
    rw [if_pos negative, ← value]
    apply reads_skip.bind
    exact reads_unsigned true (by simp [maxWord]; omega) ends
  · have value : wholeNumber false n.natAbs = .integer n := by
      simp [wholeNumber]
      omega
    have unsigned := reads_unsigned false (show n.natAbs ≤ maxWord by simp [maxWord]; omega) ends
    rcases toDigits_opens n.natAbs with ⟨d, digits, written, all⟩
    rw [if_neg negative, ← value, List.nil_append]
    rw [written] at unsigned ⊢
    rw [if_neg]
    · exact unsigned
    · intro minus
      cases minus
      exact absurd (all '-' (.head _)) (by decide)

end Numbers

section Documents

variable {rounds depth : Nat} {rest : List Char} {j : Json}

theorem reads_word (expected : List Char) : Reads (word expected) (expected ++ rest) () rest := by
  induction expected with
  | nil => exact reads_pure
  | cons c expected ih =>
    apply reads_peek.bind
    simp only [List.cons_append, List.head?_cons, if_true]
    exact reads_skip.bind ih

theorem solid_of_number {c : Char} (opens : c = '-' ∨ c.isDigit = true) : isSpace c = false := by
  cases space : isSpace c with
  | false => rfl
  | true =>
    simp only [isSpace, Bool.or_eq_true, beq_iff_eq] at space
    rcases space with ((rfl | rfl) | rfl) | rfl <;> exact absurd opens (by decide)

theorem reads_valueAround_number {inner : Option (JsonReader Json)} {c : Char} {tail : List Char}
    (opens : c = '-' ∨ c.isDigit = true) (number : Reads number (c :: tail) j rest) :
    Reads (valueAround rounds inner) (c :: tail) j rest := by
  apply (reads_nextSolid (solid_of_number opens)).bind
  split
  case h_8 same =>
    cases same
    rw [if_pos opens]
    exact number
  all_goals
    rename_i same
    cases same <;> exact absurd opens (by decide)

/-- An item of an array begins with what is no space and does not end the array. -/
def OpensItem (text : List Char) : Prop :=
  ∃ c tail, text = c :: tail ∧ isSpace c = false ∧ c ≠ ']'

theorem reads_items {item : JsonReader Json} {js : List Json} (opens : ∀ j ∈ js, OpensItem j.chars)
    (each : ∀ j ∈ js, ∀ input, Closed input → Reads item (j.chars ++ input) j input)
    (enough : js.length < rounds) :
    Reads (items item rounds) (series itemChars true js ++ ']' :: rest) js rest := by
  apply (reads_series Closed ?more ?stop ?next ?last enough []).bind
  · simp
    exact reads_pure
  case more =>
    intro seen j member input closed
    rcases opens j member with ⟨c, tail, written, solid, inside⟩
    have taken := each j member input closed
    rw [itemChars]
    rw [written] at taken ⊢
    cases seen with
    | nil =>
      apply (reads_nextSolid solid).bind
      simp only [List.isEmpty_nil, if_true]
      exact taken.bind reads_pure
    | cons k seen =>
      apply (reads_nextSolid (by decide)).bind
      apply reads_skip.bind
      apply (reads_nextSolid solid).bind
      simp only
      exact taken.bind reads_pure
  case stop =>
    intro seen
    apply (reads_nextSolid (by decide)).bind
    exact reads_skip.bind reads_pure
  case next =>
    intro j _ input
    exact closed_cons (.inl rfl)
  case last => exact closed_cons (.inr (.inl rfl))

/-- A key may stand behind space, and behind a comma unless it is the first. -/
theorem reads_nextKey_behind {before : List Char} (spaces : ∀ b ∈ before, isSpace b = true)
    (first : Bool) (input : List Char) :
    Reads (nextKey first) (comma first ++ before ++ '"' :: input) true ('"' :: input) := by
  cases first with
  | true =>
    apply (reads_nextSolid_behind spaces (by decide)).bind
    exact reads_pure
  | false =>
    apply (reads_nextSolid (by decide)).bind
    apply reads_skip.bind
    apply (reads_nextSolid_behind spaces (by decide)).bind
    exact reads_pure

theorem reads_nextKey (first : Bool) (input : List Char) :
    Reads (nextKey first) (comma first ++ '"' :: input) true ('"' :: input) := by
  have behind := reads_nextKey_behind (List.forall_mem_nil _) first input
  rwa [List.append_nil] at behind

theorem reads_colon (input : List Char) : Reads colon (':' :: input) () input :=
  (reads_nextSolid (by decide)).bind reads_skip

theorem reads_fields {item : JsonReader Json} {fs : List (String × Json)}
    (each : ∀ f ∈ fs, f.1.length < rounds ∧
      ∀ input, Closed input → Reads item (f.2.chars ++ input) f.2 input)
    (enough : fs.length < rounds) :
    Reads (fields item rounds) (series fieldChars true fs ++ '\x7d' :: rest) fs rest := by
  apply (reads_series Closed ?more ?stop ?next ?last enough []).bind
  · simp
    exact reads_pure
  case more =>
    intro seen f member input closed
    rcases each f member with ⟨short, taken⟩
    simp only [fieldChars, quoted, List.append_assoc, List.cons_append, List.nil_append]
    apply (reads_nextKey _ _).bind
    apply reads_skip.bind
    apply (reads_stringRest short _).bind
    apply (reads_colon _).bind
    exact (taken input closed).bind reads_pure
  case stop =>
    intro seen
    have ended : Reads (nextKey seen.isEmpty) ('\x7d' :: rest) false rest :=
      (reads_nextSolid (by decide)).bind (reads_skip.bind reads_pure)
    exact ended.bind reads_pure
  case next =>
    intro f _ input
    exact closed_cons (.inl rfl)
  case last => exact closed_cons (.inr (.inr rfl))

theorem opensItem_chars (fits : j.FitsWord) : OpensItem j.chars := by
  cases j with
  | null => exact ⟨'n', _, rfl, rfl, by decide⟩
  | bool value => cases value <;> exact ⟨_, _, rfl, rfl, by decide⟩
  | integer n =>
    rcases chars_integer_opens n with ⟨c, tail, written, opens⟩
    refine ⟨c, tail, written, solid_of_number opens, ?_⟩
    rintro rfl
    exact absurd opens (by decide)
  | float value => cases fits
  | string text => exact ⟨'"', _, chars_string text, rfl, by decide⟩
  | array items => exact ⟨'[', _, chars_array items, rfl, by decide⟩
  | object fields => exact ⟨'\x7b', _, chars_object fields, rfl, by decide⟩

theorem reads_valueAround {inner : Option (JsonReader Json)} (within : j.Within FitsWord depth)
    (enough : j.chars.length ≤ rounds) (closed : Closed rest)
    (nested : ∀ less, depth = less + 1 → ∃ item, inner = some item ∧
      ∀ k rest, Within FitsWord less k → k.chars.length ≤ rounds → Closed rest →
        Reads item (k.chars ++ rest) k rest) :
    Reads (valueAround rounds inner) (j.chars ++ rest) j rest := by
  cases j with
  | null =>
    apply (reads_nextSolid (by decide)).bind
    exact reads_skip.bind ((reads_word _).bind reads_pure)
  | bool value =>
    cases value <;>
    · apply (reads_nextSolid (by decide)).bind
      exact reads_skip.bind ((reads_word _).bind reads_pure)
  | integer n =>
    -- Of all documents only an integer does not tell its first character: a digit or a minus sign.
    have number := reads_number within.holds.1 within.holds.2 closed.stopsNumber
    rcases chars_integer_opens n with ⟨c, tail, written, opens⟩
    rw [written] at number ⊢
    exact reads_valueAround_number opens number
  | float value => cases within.holds
  | string text =>
    rw [chars_string] at enough ⊢
    have short := length_lt_quoted text
    rw [quoted, List.cons_append, List.append_assoc]
    apply (reads_nextSolid (by decide)).bind
    exact reads_skip.bind ((reads_stringRest (by omega) rest).bind reads_pure)
  | array items =>
    cases depth with
    | zero => cases within
    | succ depth =>
      rcases nested depth rfl with ⟨item, rfl, reads⟩
      rw [chars_array] at enough ⊢
      simp only [List.length_cons, List.length_append, List.length_nil] at enough
      have short : items.length ≤ (series itemChars true items).length := by
        apply length_le_series
        intro k member first
        rcases opensItem_chars (within.2 k member).holds with ⟨c, tail, written, _⟩
        simp [itemChars, written]
      rw [List.cons_append, List.append_assoc]
      apply (reads_nextSolid (by decide)).bind
      apply reads_skip.bind
      refine Reads.bind (reads_items ?_ ?_ ?_) reads_pure
      · intro k member
        exact opensItem_chars (within.2 k member).holds
      · intro k member input closed
        have inside := chars_le_series member
        exact reads k input (within.2 k member) (by omega) closed
      · omega
  | object fields =>
    cases depth with
    | zero => cases within
    | succ depth =>
      rcases nested depth rfl with ⟨item, rfl, reads⟩
      rw [chars_object] at enough ⊢
      simp only [List.length_cons, List.length_append, List.length_nil] at enough
      have short : fields.length ≤ (series fieldChars true fields).length :=
        length_le_series (fun f _ first => fieldChars_ne_nil first f) true
      rw [List.cons_append, List.append_assoc]
      apply (reads_nextSolid (by decide)).bind
      apply reads_skip.bind
      refine Reads.bind (reads_fields ?_ ?_) reads_pure
      · intro f member
        have inside := field_le_series member
        constructor
        · omega
        · intro input closed
          exact reads f.2 input (within.2 f member) (by omega) closed
      · omega

theorem reads_value (within : j.Within FitsWord depth) (enough : j.chars.length ≤ rounds)
    (closed : Closed rest) : Reads (value rounds depth) (j.chars ++ rest) j rest := by
  induction depth generalizing j rest with
  | zero => exact reads_valueAround within enough closed nofun
  | succ depth ih =>
    apply reads_valueAround within enough closed
    rintro less same
    cases same
    exact ⟨_, rfl, fun k rest => ih⟩

end Documents

end JsonReader

open JsonReader in
/-- The compact text of a document is read as that document, if it does not nest too deep and its
numbers are integers that fit a word. -/
theorem read_compact {j : Json} (within : j.Within FitsWord maxDepth) : read j.compact = .ok j := by
  have value := reads_value within (Nat.le_succ _) (show Closed [] from nofun)
  have finish : Reads finish [] () [] :=
    ((reads_takeWhile _ _).bind reads_peek).bind reads_pure
  have all : Reads (do
      let value ← JsonReader.value (j.chars.length + 1) maxDepth
      JsonReader.finish
      return value) (j.chars ++ []) j [] :=
    value.bind (finish.bind reads_pure)
  rw [List.append_nil] at all
  rcases all 1 0 with ⟨line, column, result⟩
  exact congrArg (fun outcome => outcome.map (·.1)) result

end Json

end MinangScript
