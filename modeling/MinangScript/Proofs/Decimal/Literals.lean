import MinangScript.Proofs.Decimal.ByteIndices
import MinangScript.Proofs.Lexer.Grammar
import MinangScript.Proofs.Lexer.MainLoop
import MinangScript.Value.Basic

/-! # Literals and numeric texts

A number literal reaches further than the number in front of a text does: it takes the mark of an
exponent, and a sign behind it, though no digit follows. Such a dangling exponent counts for nothing
on either side, so a text that is all of one literal is also read as the number of that literal. The
text of a number is such a text.
-/

namespace MinangScript

/-! ## What a literal is made of -/

/-- The mark of an exponent, with a sign or none, and no digit. -/
inductive IsDangling : List Char → Prop where
  | mark {mark : Char} {negative : Bool} {sign : List Char} (isMark : mark = 'e' ∨ mark = 'E')
      (isSign : IsSign negative sign) : IsDangling (mark :: sign)

namespace Lexeme

theorem fraction_parts (text : List Char) :
    (fraction text).1 = [] ∨
      ∃ digits, (fraction text).1 = '.' :: digits ∧ ∀ c ∈ digits, c.isDigit = true := by
  unfold fraction
  split
  · exact .inr ⟨_, rfl, isDigit_of_mem_digitRun _⟩
  · exact .inl rfl

theorem isSign_sign (text : List Char) : ∃ negative, IsSign negative (sign text).1 := by
  unfold sign
  split
  · exact ⟨_, .plus⟩
  · exact ⟨_, .minus⟩
  · exact ⟨_, .none⟩

theorem exponent_parts (text : List Char) :
    (∃ k, Numeral.Exponent k (exponent text).1) ∨ IsDangling (exponent text).1 := by
  cases text with
  | nil => exact .inl ⟨_, .none⟩
  | cons mark rest =>
      rw [exponent]
      by_cases isMark : mark = 'e' ∨ mark = 'E'
      · obtain ⟨negative, isSign⟩ := isSign_sign rest
        have all := isDigit_of_mem_digitRun (sign rest).2
        simp only [isMark, if_true]
        by_cases noDigits : (digitRun (sign rest).2).1 = []
        · rw [noDigits, List.append_nil]
          exact .inr (.mark isMark isSign)
        · exact .inl ⟨_, .power isMark isSign ⟨noDigits, all⟩⟩
      · simp only [isMark, if_false]
        exact .inl ⟨_, .none⟩

end Lexeme

/-- The text is all of one literal: a spelling of the numeral, or one with a dangling exponent. -/
inductive IsLiteral (n : Numeral) : List Char → Prop where
  | spelled {text : List Char} (is : n.Spells text) : IsLiteral n text
  | dangling {mantissa power : List Char}
      (isMantissa : Numeral.Mantissa n.whole n.fraction mantissa) (noPower : n.exponent = 0)
      (dangles : IsDangling power) : IsLiteral n (mantissa ++ power)

theorem isLiteral_of_decimal {c : Char} {rest : List Char} (digit : c.isDigit = true)
    (whole : Lexeme.decimal (c :: rest) = (c :: rest, [])) : ∃ n, IsLiteral n (c :: rest) := by
  have isDigits : IsDigits (digitRun (c :: rest)).1 := by
    refine ⟨?_, isDigit_of_mem_digitRun _⟩
    simp [digitRun, digit]
  have split := congrArg Prod.fst whole
  simp only [Lexeme.decimal] at split
  rw [← split]
  have fractions := Lexeme.fraction_parts (digitRun (c :: rest)).2
  have powers := Lexeme.exponent_parts (Lexeme.fraction (digitRun (c :: rest)).2).2
  generalize (digitRun (c :: rest)).1 = whole at *
  generalize (Lexeme.fraction (digitRun (c :: rest)).2).1 = point at *
  generalize (Lexeme.exponent (Lexeme.fraction (digitRun (c :: rest)).2).2).1 = power at *
  obtain ⟨fraction, isMantissa⟩ : ∃ fraction, Numeral.Mantissa whole fraction (whole ++ point) := by
    obtain rfl | ⟨digits, rfl, all⟩ := fractions
    · exact ⟨[], by rw [List.append_nil]; exact .whole isDigits⟩
    · exact ⟨digits, .pointed isDigits all⟩
  obtain ⟨k, isExponent⟩ | dangles := powers
  · exact ⟨⟨whole, fraction, k⟩, .spelled (.parts isMantissa isExponent)⟩
  · exact ⟨⟨whole, fraction, 0⟩, .dangling isMantissa rfl dangles⟩

namespace IsDangling

variable {power : List Char}

theorem ends (dangles : IsDangling power) : ∀ c ∈ power.head?, c.isDigit = false ∧ c ≠ '.' := by
  cases dangles with
  | mark isMark _ => rcases isMark with rfl | rfl <;> simp

/-- A dangling exponent is left where it stands. -/
theorem scan (dangles : IsDangling power) : Numeral.scanExponent power = (0, power) := by
  cases dangles with
  | mark isMark isSign => cases isSign <;> simp [Numeral.scanExponent, isMark, takeSign, digitRun]

end IsDangling

namespace Number

/-- The value of a literal, in two attempts: the whole text, or else what stands before the mark of
    an exponent. -/
def literalValue (text : List Char) : Float :=
  match parse? text with
  | some v => v
  | none => (parse? (text.takeWhile fun c => c ≠ 'e' ∧ c ≠ 'E')).getD 0

/-- Where no sign stands in front, a numeral is read without one. -/
theorem scan?_of_isDigit {c : Char} (digit : c.isDigit = true) (rest : List Char) :
    scan? (c :: rest) =
      (Numeral.scan? (c :: rest)).map fun (n, rest) => (n.toFloat false, rest) := by
  have unsigned : takeSign (c :: rest) = (false, c :: rest) := by
    have noSign := isSign_of_isDigit digit
    exact IsSign.none.takeSign_append (by simpa using noSign)
  have finite : ¬"Infinity".toList.isPrefixOf (c :: rest) = true := by
    intro infinite
    obtain ⟨after, same⟩ := List.isPrefixOf_iff_prefix.mp infinite
    cases same
    cases digit
  simp only [scan?, unsigned]
  exact if_neg finite

theorem parse?_of_spells {n : Numeral} {text : List Char} (is : n.Spells text) :
    parse? text = some (n.toFloat false) :=
  parse?_eq_some_iff.mpr
    ⟨false, .numeral n, .parts .none is, (Amount.numeral n).isValue_toFloat false⟩

end Number

/-- Neither mark of an exponent is among the characters of a mantissa. -/
theorem Numeral.Mantissa.no_mark {whole fraction mantissa : List Char}
    (is : Numeral.Mantissa whole fraction mantissa) : ∀ c ∈ mantissa, c ≠ 'e' ∧ c ≠ 'E' := by
  have digits : ∀ {c : Char}, c.isDigit = true → c ≠ 'e' ∧ c ≠ 'E' := by
    intro c digit
    constructor <;>
    · rintro rfl
      cases digit
  cases is with
  | whole isDigits => exact fun c member => digits (isDigits.2 c member)
  | pointed isDigits all =>
      simp only [List.forall_mem_append, List.forall_mem_cons]
      refine ⟨fun c member => digits (isDigits.2 c member), by decide, ?_⟩
      exact fun c member => digits (all c member)
  | fraction isDigits =>
      rw [List.forall_mem_cons]
      exact ⟨by decide, fun c member => digits (isDigits.2 c member)⟩

namespace IsLiteral

variable {n : Numeral} {text mantissa power : List Char}

/-- A dangling exponent is not taken. -/
theorem scan_dangling (isMantissa : Numeral.Mantissa n.whole n.fraction mantissa)
    (noPower : n.exponent = 0) (dangles : IsDangling power) :
    Numeral.scan? (mantissa ++ power) = some (n, power) := by
  rw [isMantissa.scan? dangles.ends, dangles.scan, ← noPower]

theorem scan (is : IsLiteral n text) : ∃ rest, Numeral.scan? text = some (n, rest) := by
  cases is with
  | spelled is => exact ⟨[], is.scan⟩
  | dangling isMantissa noPower dangles => exact ⟨_, scan_dangling isMantissa noPower dangles⟩

/-- A literal has the value of its numeral, whether in the first attempt or in the second. -/
theorem literalValue {c : Char} {rest : List Char} (is : IsLiteral n (c :: rest))
    (digit : c.isDigit = true) : Number.literalValue (c :: rest) = n.toFloat false := by
  have unsigned := Number.scan?_of_isDigit digit rest
  generalize c :: rest = text at *
  cases is with
  | spelled is => rw [Number.literalValue, Number.parse?_of_spells is]
  | @dangling mantissa power isMantissa noPower dangles =>
      have refused : Number.parse? (mantissa ++ power) = none := by
        rw [Number.parse?, unsigned, scan_dangling isMantissa noPower dangles]
        cases dangles
        rfl
      have before : (mantissa ++ power).takeWhile (fun c => c ≠ 'e' ∧ c ≠ 'E') = mantissa := by
        refine (takeWhile_of_ends ?_ ?_).1
        · simpa using isMantissa.no_mark
        · cases dangles with
          | mark isMark _ => rcases isMark with rfl | rfl <;> simp
      have spelled : n.Spells (mantissa ++ []) := .parts isMantissa (noPower ▸ .none)
      rw [List.append_nil] at spelled
      rw [Number.literalValue, refused, before, Number.parse?_of_spells spelled]
      rfl

/-- The lexer's value of a literal. -/
theorem decimalValue (is : IsLiteral n text) : Lexer.Pass.decimalValue text = n.toFloat false := by
  obtain ⟨rest, scanned⟩ := is.scan
  rw [Lexer.Pass.decimalValue, scanned]

end IsLiteral

/-! ## Texts of one literal -/

theorem isBlank_of_isDigit {c : Char} (digit : c.isDigit = true) : isBlank c = false := by
  have value : c.toNat = c.val.toNat := rfl
  have zero : '0'.val.toNat = 48 := rfl
  have nine : '9'.val.toNat = 57 := rfl
  simp only [Char.isDigit, Bool.and_eq_true, decide_eq_true_eq, ge_iff_le,
    UInt32.le_iff_toNat_le, zero, nine, ← value] at digit
  simp only [isBlank, Bool.or_eq_false_iff, Bool.and_eq_false_iff, decide_eq_false_iff_not,
    beq_eq_false_iff_ne]
  omega

/-- The text begins with a digit and is all of one decimal literal. -/
structure OneLiteral (text : String) : Prop where
  starts : ∃ c rest, text.toList = c :: rest ∧ c.isDigit = true
  whole : Lexeme.decimal text.toList = (text.toList, [])

/-- Behind a zero no other base is marked, for the mark would be left over. -/
theorem no_base_of_decimal {rest : List Char}
    (whole : Lexeme.decimal ('0' :: rest) = ('0' :: rest, [])) :
    ∀ d ∈ rest.head?, Lexer.Pass.base? d = none := by
  intro d here
  cases rest with
  | nil => cases here
  | cons d' rest =>
      cases here
      unfold Lexer.Pass.base?
      split <;> first | rfl | cases whole

namespace OneLiteral

variable {text : String}

theorem isLiteral (one : OneLiteral text) : ∃ n, IsLiteral n text.toList := by
  obtain ⟨c, rest, same, digit⟩ := one.starts
  have whole := one.whole
  rw [same] at whole ⊢
  exact isLiteral_of_decimal digit whole

/-- The tokens are one number and the end of the text. -/
theorem tokenize (one : OneLiteral text) :
    tokenize text = .ok [⟨.number (Lexer.Pass.decimalValue text.toList), .start⟩,
      ⟨.endOfText, Position.start.advanceBy text.toList⟩] := by
  obtain ⟨c, rest, same, digit⟩ := one.starts
  have whole := one.whole
  have noBase : c = '0' → ∀ d ∈ rest.head?, Lexer.Pass.base? d = none := by
    rintro rfl
    rw [same] at whole
    exact no_base_of_decimal whole
  have step : (Lexer.Pass.start text.toList .start).codeStep c rest =
      .ok ((Lexer.Pass.start text.toList .start).take
        (.number (Lexer.Pass.decimalValue text.toList)) text.toList []) := by
    rw [Lexer.Pass.codeStep_of_isDigit digit, Lexer.Pass.number_eq_decimal noBase,
      Lexer.Pass.decimal, ← same, whole]
  rw [Lexer.Pass.tokenize_of_ends (.code rfl same step (.finished rfl rfl))]
  rfl

theorem literalValue (one : OneLiteral text) :
    Number.literalValue text.toList = Lexer.Pass.decimalValue text.toList := by
  obtain ⟨n, is⟩ := one.isLiteral
  obtain ⟨c, rest, same, digit⟩ := one.starts
  rw [is.decimalValue]
  rw [same] at is ⊢
  exact is.literalValue digit

/-- The number in front of the text is that of the literal. -/
theorem leading? (one : OneLiteral text) :
    Number.leading? text = some (Lexer.Pass.decimalValue text.toList) := by
  obtain ⟨n, is⟩ := one.isLiteral
  obtain ⟨after, scanned⟩ := is.scan
  obtain ⟨c, rest, same, digit⟩ := one.starts
  have noBlank : trimStart text.toList = text.toList := by
    rw [same]
    exact List.dropWhile_cons_of_neg (by simp [isBlank_of_isDigit digit])
  rw [Number.leading?, noBlank, is.decimalValue]
  rw [same] at scanned ⊢
  rw [Number.scan?_of_isDigit digit, scanned]
  rfl

end OneLiteral

namespace Number

/-! ## Texts of numbers -/

section Comparison

open Float.Model UnpackedFloat

/-- Not below zero is a number without a minus, or a zero with one. -/
theorem ofFloat_of_nonneg {n : Float} (finite : n.isFinite = true) (nonneg : 0 ≤ n) :
    isUnsigned n = true ∨ Binary64.ofFloat n = .finite true 0 Binary64.leastExponent := by
  have zero : (0 : Float).toModel.unpack = .zero .positive := rfl
  have finite : n.toModel.unpack.isFinite = true := finite
  have nonneg : (0 : Float).toModel.unpack.le n.toModel.unpack = true := of_decide_eq_true nonneg
  rw [zero] at nonneg
  rw [isUnsigned, Binary64.ofFloat_eq]
  generalize n.toModel.unpack = u at *
  cases u with
  | notANumber => cases finite
  | infinity sign => cases finite
  | zero sign => cases sign <;> simp [Binary64.ofUnpacked, Binary64.isNegative]
  | finite sign significand exponent positive =>
      cases sign with
      | positive => exact .inl rfl
      | negative => cases nonneg

theorem beq_self {n : Float} (finite : n.isFinite = true) : (n == n) = true := by
  have finite : n.toModel.unpack.isFinite = true := finite
  change n.toModel.unpack.beq n.toModel.unpack = true
  generalize n.toModel.unpack = u at *
  cases u with
  | notANumber => cases finite
  | infinity sign => cases finite
  | zero sign => rfl
  | finite sign significand exponent positive =>
      cases sign <;> simp [UnpackedFloat.beq, UnpackedFloat.compare]

end Comparison

/-- The text of a number that is not below zero is one literal, and its value is the number. -/
theorem oneLiteral_text {n : Float} (finite : n.isFinite = true) (nonneg : 0 ≤ n) :
    OneLiteral (text n) ∧ (Lexer.Pass.decimalValue (text n).toList == n) = true := by
  rcases ofFloat_of_nonneg finite nonneg with unsigned | zero
  · have numeral := isNumeral_text unsigned
    have ends : EndsNumber [] := nofun
    have reaches := numeral.decimal_append ends
    rw [List.append_nil] at reaches
    rw [decimalValue_text unsigned]
    exact ⟨⟨numeral.starts, reaches⟩, beq_self finite⟩
  · have shown : text n = "0" := by
      rw [text, zero]
      rfl
    obtain rfl := Binary64.eq_toFloat_of_ofFloat.1 _ _ zero
    rw [shown]
    exact ⟨⟨⟨'0', [], rfl, rfl⟩, rfl⟩, by decide +kernel⟩

/-- A text that begins with a digit and is all of one decimal literal, its point and its exponent
    dangling or not, is one number to the lexer. That number is the value of the literal, and it is
    also what the text is read as when it stands for a number, by byte indices as well. And the text
    of every number that is finite and not below zero is such a text, with that number as its
    value. -/
theorem literals_and_numeric_texts_agree :
    (∀ source : String, OneLiteral source →
      let v := literalValue source.toList
      tokenize source = .ok [⟨.number v, .start⟩,
        ⟨.endOfText, Position.start.advanceBy source.toList⟩] ∧
      leading? source = some v ∧ leadingByIndex? source = some (some v) ∧
      (Value.string source).toNumber? = some v) ∧
    ∀ n : Float, n.isFinite = true → 0 ≤ n →
      OneLiteral (text n) ∧ ∃ v, (v == n) = true ∧
        tokenize (text n) = .ok [⟨.number v, .start⟩,
          ⟨.endOfText, Position.start.advanceBy (text n).toList⟩] := by
  constructor
  · intro source one v
    have value : v = Lexer.Pass.decimalValue source.toList := one.literalValue
    have leads : leading? source = some v := value ▸ one.leading?
    refine ⟨value ▸ one.tokenize, leads, ?_, leads⟩
    rw [leadingByIndex?_eq, leads]
  · intro n finite nonneg
    obtain ⟨one, same⟩ := oneLiteral_text finite nonneg
    exact ⟨one, _, same, one.tokenize⟩

/-- Neither behind the point nor in the exponent of the first text there is a digit; the second one
    is laid out with an exponent, as large numbers are. -/
theorem literals_and_numeric_texts_agree_dangling :
    OneLiteral "2.e+" ∧ leading? "2.e+" = some 2 ∧ (Value.string "2.e+").toNumber? = some 2 ∧
    text (Float.ofBits 0x7e37e43c8800759c) = "1e+300" ∧ ∃ v,
      tokenize "1e+300" = .ok [⟨.number v, .start⟩, ⟨.endOfText, ⟨1, 7⟩⟩] := by
  obtain ⟨literals, texts⟩ := literals_and_numeric_texts_agree
  have one : OneLiteral "2.e+" := ⟨⟨'2', ".e+".toList, rfl, rfl⟩, rfl⟩
  have two : literalValue "2.e+".toList = 2 := by decide +kernel
  obtain ⟨-, leads, -, coerces⟩ := literals "2.e+" one
  have shown : text (Float.ofBits 0x7e37e43c8800759c) = "1e+300" := by decide +kernel
  obtain ⟨-, v, -, tokens⟩ := texts (Float.ofBits 0x7e37e43c8800759c) (by decide) (by decide)
  rw [shown] at tokens
  exact ⟨one, two ▸ leads, two ▸ coerces, shown, v, tokens⟩

end Number

end MinangScript
