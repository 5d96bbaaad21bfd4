import MinangScript.Token.Lexeme

/-! # Lexemes and what stands behind them

Every lexeme with what is left behind it is the text again. Beside that stand the few facts about
where a lexeme stops that a reader of several lexemes needs.
-/

namespace MinangScript

theorem digitRun_append (text : List Char) : (digitRun text).1 ++ (digitRun text).2 = text :=
  List.takeWhile_append_dropWhile

namespace Lexeme

theorem escapedUntil_append (stop : List Char → Bool) (seen text : List Char) :
    (escapedUntil stop seen text).1 ++ (escapedUntil stop seen text).2 = seen.reverse ++ text := by
  fun_induction escapedUntil stop seen text <;> simp_all

theorem escapedUntil_stops (stop : List Char → Bool) (seen text : List Char) :
    (escapedUntil stop seen text).2 = [] ∨ stop (escapedUntil stop seen text).2 = true := by
  fun_induction escapedUntil stop seen text <;> simp_all

theorem blockComment_split (seen text : List Char) :
    ∃ body after, blockComment seen text = (seen.reverse ++ body, after) ∧
      text = body ++ after := by
  fun_induction blockComment seen text with
  | case1 seen => exact ⟨[], [], by simp, rfl⟩
  | case2 seen rest => exact ⟨['*', '/'], rest, by simp, rfl⟩
  | case3 seen c rest _ ih =>
      obtain ⟨body, after, same, rfl⟩ := ih
      exact ⟨c :: body, after, by simp [same], rfl⟩

/-- The text of an interpolation never closes more braces than are open, and it stops at the first
    brace that would, if there is one. -/
theorem interpolation_split (depth : Nat) (seen text : List Char) :
    ∃ inner after, interpolation depth seen text = (seen.reverse ++ inner, after) ∧
      text = inner ++ after ∧
      (∀ n, (inner.take n).count '\x7d' ≤ (inner.take n).count '\x7b' + depth) ∧
      (after = [] ∨ inner.count '\x7d' = inner.count '\x7b' + depth ∧ ['\x7d'] <+: after) := by
  fun_induction interpolation depth seen text with
  | case1 depth seen => exact ⟨[], [], by simp, rfl, by simp, .inl rfl⟩
  | case2 depth seen rest ih =>
      obtain ⟨inner, after, same, rfl, opened, closed⟩ := ih
      refine ⟨'\x7b' :: inner, after, by simp [same], rfl, fun n => ?_, closed.imp_right ?_⟩
      · cases n with
        | zero => simp
        | succ n => simpa [Nat.add_assoc, Nat.add_comm 1] using opened n
      · rintro ⟨balanced, brace⟩
        exact ⟨by simp [balanced, Nat.add_assoc, Nat.add_comm 1], brace⟩
  | case3 seen rest => exact ⟨[], '\x7d' :: rest, by simp, rfl, by simp, .inr (by simp)⟩
  | case4 seen rest _ depth ih =>
      obtain ⟨inner, after, same, rfl, opened, closed⟩ := ih
      refine ⟨'\x7d' :: inner, after, by simp [same], rfl, fun n => ?_, closed.imp_right ?_⟩
      · cases n with
        | zero => simp
        | succ n => simpa [← Nat.add_assoc] using opened n
      · rintro ⟨balanced, brace⟩
        exact ⟨by simp [balanced, ← Nat.add_assoc], brace⟩
  | case5 depth seen c rest noOpening noClosing ih =>
      obtain ⟨inner, after, same, rfl, opened, closed⟩ := ih
      refine ⟨c :: inner, after, by simp [same], rfl, fun n => ?_, closed.imp_right ?_⟩
      · cases n with
        | zero => simp
        | succ n => simpa [List.count_cons, noOpening, noClosing] using opened n
      · rintro ⟨balanced, brace⟩
        exact ⟨by simp [noOpening, noClosing, balanced], brace⟩

theorem fraction_append (text : List Char) : (fraction text).1 ++ (fraction text).2 = text := by
  unfold fraction
  split
  · simp [digitRun_append]
  · rfl

theorem sign_append (text : List Char) : (sign text).1 ++ (sign text).2 = text := by
  unfold sign
  split <;> rfl

theorem exponent_append (text : List Char) : (exponent text).1 ++ (exponent text).2 = text := by
  unfold exponent
  split
  · split
    · simp [digitRun_append, sign_append]
    · rfl
  · rfl

theorem decimal_append (text : List Char) : (decimal text).1 ++ (decimal text).2 = text := by
  simp [decimal, exponent_append, fraction_append, digitRun_append]

theorem word_append (text : List Char) : (word text).1 ++ (word text).2 = text :=
  List.takeWhile_append_dropWhile

theorem digitsIn_append (base : Nat) (text : List Char) :
    (digitsIn base text).1 ++ (digitsIn base text).2 = text :=
  List.takeWhile_append_dropWhile

theorem lineComment_append (text : List Char) :
    (lineComment text).1 ++ (lineComment text).2 = text :=
  List.takeWhile_append_dropWhile

theorem isWordPart_of_isWordStart {c : Char} (starts : isWordStart c = true) :
    isWordPart c = true := by
  simp only [isWordStart, isWordPart, Char.isAlphanum, Bool.or_eq_true] at starts ⊢
  exact starts.imp_left .inl

theorem isDigit_of_isWordStart {c : Char} (starts : isWordStart c = true) : c.isDigit = false := by
  simp only [isWordStart, Bool.or_eq_true, beq_iff_eq] at starts
  obtain letter | rfl := starts
  · obtain upper | lower := (Bool.or_eq_true c.isUpper c.isLower).mp letter
    · have bounds : 'A'.val ≤ c.val ∧ c.val ≤ 'Z'.val := of_decide_eq_true upper
      simp [Char.isDigit, UInt32.le_iff_toNat_le] at bounds ⊢
      omega
    · have bounds := (Bool.and_eq_true ('a'.val ≤ c.val) (c.val ≤ 'z'.val)).mp lower
      simp [Char.isDigit, UInt32.le_iff_toNat_le] at bounds ⊢
      omega
  · decide

theorem isDigit_of_isWordPart {c : Char} (other : isWordPart c = false) : c.isDigit = false := by
  simp only [isWordPart, Char.isAlphanum, Bool.or_eq_false_iff] at other
  exact other.1.2

end Lexeme

/-! ## Words and numbers, and where they end -/

/-- A text that is all of one word. -/
def IsWord (text : List Char) : Prop :=
  ∃ c others, text = c :: others ∧ Lexeme.isWordStart c = true ∧
    ∀ d ∈ others, Lexeme.isWordPart d = true

/-- What comes after does not continue a word. -/
def EndsWord (after : List Char) : Prop :=
  ∀ c ∈ after.head?, Lexeme.isWordPart c = false

/-- What comes after does not continue a number. -/
def EndsNumber (after : List Char) : Prop :=
  ∀ c ∈ after.head?, Lexeme.isWordPart c = false ∧ c ≠ '.'

theorem EndsNumber.endsWord {after : List Char} (ends : EndsNumber after) : EndsWord after :=
  fun c is => (ends c is).1

theorem takeWhile_of_ends {q : Char → Bool} {text after : List Char}
    (inside : ∀ c ∈ text, q c = true) (ends : ∀ c ∈ after.head?, q c = false) :
    (text ++ after).takeWhile q = text ∧ (text ++ after).dropWhile q = after := by
  rw [List.takeWhile_append_of_pos inside, List.dropWhile_append_of_pos inside]
  cases after with
  | nil => simp
  | cons c after => simp [ends c rfl]

/-- Digits, perhaps a point and more digits, perhaps an exponent with its sign. -/
structure IsNumeral (text : List Char) : Prop where
  parts : ∃ whole fraction power, text = whole ++ fraction ++ power ∧
    (whole ≠ [] ∧ ∀ c ∈ whole, c.isDigit = true) ∧
    (fraction = [] ∨ ∃ digits, fraction = '.' :: digits ∧ ∀ c ∈ digits, c.isDigit = true) ∧
    (power = [] ∨ ∃ sign digits, power = 'e' :: sign :: digits ∧ (sign = '+' ∨ sign = '-') ∧
      ∀ c ∈ digits, c.isDigit = true)

theorem IsNumeral.starts {text : List Char} (numeral : IsNumeral text) :
    ∃ c others, text = c :: others ∧ c.isDigit = true := by
  obtain ⟨whole, fraction, power, rfl, ⟨nonempty, digits⟩, -⟩ := numeral.parts
  cases whole with
  | nil => exact absurd rfl nonempty
  | cons c whole => exact ⟨c, _, rfl, digits c List.mem_cons_self⟩

theorem digitRun_of_ends {digits after : List Char} (inside : ∀ c ∈ digits, c.isDigit = true)
    (ends : ∀ c ∈ after.head?, c.isDigit = false) :
    digitRun (digits ++ after) = (digits, after) := by
  obtain ⟨taken, left⟩ := takeWhile_of_ends inside ends
  rw [digitRun, taken, left]

theorem EndsNumber.isDigit {after : List Char} (ends : EndsNumber after) :
    ∀ c ∈ after.head?, c.isDigit = false :=
  fun c is => Lexeme.isDigit_of_isWordPart (ends c is).1

/-- A numeral reaches to where nothing continues it. -/
theorem IsNumeral.decimal_append {text after : List Char} (numeral : IsNumeral text)
    (ends : EndsNumber after) : Lexeme.decimal (text ++ after) = (text, after) := by
  obtain ⟨whole, fraction, power, rfl, ⟨-, digits⟩, point, exponent⟩ := numeral.parts
  have afterPower : Lexeme.exponent (power ++ after) = (power, after) := by
    obtain rfl | ⟨sign, digits, rfl, signs, inside⟩ := exponent
    · cases after with
      | nil => rfl
      | cons c after =>
          have noMark : ¬ (c = 'e' ∨ c = 'E') := by
            rintro (rfl | rfl) <;> exact absurd (ends _ rfl).1 (by decide)
          simp [Lexeme.exponent, noMark]
    · have run := digitRun_of_ends inside ends.isDigit
      obtain rfl | rfl := signs <;> simp [Lexeme.exponent, Lexeme.sign, run]
  have endsPower : ∀ c ∈ (power ++ after).head?, c.isDigit = false ∧ c ≠ '.' := by
    obtain rfl | ⟨sign, digits, rfl, -⟩ := exponent
    · exact fun c is => ⟨ends.isDigit c is, (ends c is).2⟩
    · simp
  have afterPoint :
      Lexeme.fraction (fraction ++ (power ++ after)) = (fraction, power ++ after) := by
    obtain rfl | ⟨digits, rfl, inside⟩ := point
    · cases rest : power ++ after with
      | nil => rfl
      | cons c others =>
          have notPoint : c ≠ '.' := (endsPower c (by rw [rest]; rfl)).2
          rw [List.nil_append, Lexeme.fraction]
          simp [notPoint]
    · simp [Lexeme.fraction, digitRun_of_ends inside fun c is => (endsPower c is).1]
  have endsPoint : ∀ c ∈ (fraction ++ (power ++ after)).head?, c.isDigit = false := by
    obtain rfl | ⟨digits, rfl, -⟩ := point
    · exact fun c is => (endsPower c is).1
    · simp
  rw [Lexeme.decimal, List.append_assoc, List.append_assoc, digitRun_of_ends digits endsPoint]
  simp only [afterPoint, afterPower, List.append_assoc]

end MinangScript
