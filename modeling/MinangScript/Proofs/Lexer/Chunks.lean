import Mathlib.Tactic.SplitIfs
import MinangScript.JavaScript.Quote
import MinangScript.Proofs.Lexer.Passes
import MinangScript.Proofs.Parser.Rendering

/-! # Texts that are read as known tokens

`Lexes` says of a text that a pass over it takes tokens of given kinds and stops right behind it,
whatever was read before, as long as what comes after does not continue its last lexeme. Texts that
stand one behind the other are read one after the other.
-/

namespace MinangScript

namespace Lexer.Pass

/-- A pass in ordinary text goes on to be `q`, and takes tokens of the given kinds on its way. -/
structure Reaches (p : Pass) (kinds : List TokenKind) (q : Pass) : Prop where
  ends : ∀ {o}, Ends p o → Ends q o
  mode : q.mode = .code
  tokens : q.tokens.map Token.kind = kinds.reverse ++ p.tokens.map Token.kind

theorem Ends.after_step {p next : Pass} {c : Char} {rest : List Char} {o : Except LexError Pass}
    (ends : Ends p o) (mode : p.mode = .code) (text : p.rest = c :: rest)
    (step : p.codeStep c rest = .ok next) : Ends next o := by
  have notTemplate : ∀ textStart, p.mode ≠ .template textStart := by simp [mode]
  cases ends with
  | finished _ spent => simp [text] at spent
  | refused _ text' step' =>
      cases text.symm.trans text'
      cases step.symm.trans step'
  | code _ text' step' later =>
      cases text.symm.trans text'
      cases step.symm.trans step'
      exact later
  | close inside => exact absurd inside (notTemplate _)
  | blank opens | nested opens | nestedRefused opens =>
      obtain ⟨⟨_, _, _, _, inside, -⟩, -⟩ := opens
      exact absurd inside (notTemplate _)

theorem Ends.of_spent {p : Pass} {o : Except LexError Pass} (ends : Ends p o)
    (mode : p.mode = .code) (spent : p.rest = []) : o = .ok p := by
  have notTemplate : ∀ textStart, p.mode ≠ .template textStart := by simp [mode]
  cases ends with
  | finished => rfl
  | refused _ text | code _ text => simp [spent] at text
  | close inside => exact absurd inside (notTemplate _)
  | blank opens | nested opens | nestedRefused opens =>
      obtain ⟨⟨_, _, _, _, inside, -⟩, -⟩ := opens
      exact absurd inside (notTemplate _)

theorem Ends.of_refused {p : Pass} {c : Char} {rest : List Char} {e : LexError}
    {o : Except LexError Pass} (ends : Ends p o) (mode : p.mode = .code)
    (text : p.rest = c :: rest) (step : p.codeStep c rest = .error e) : o = .error e := by
  have notTemplate : ∀ textStart, p.mode ≠ .template textStart := by simp [mode]
  cases ends with
  | finished _ spent => simp [text] at spent
  | refused _ text' step' =>
      cases text.symm.trans text'
      cases step.symm.trans step'
      rfl
  | code _ text' step' =>
      cases text.symm.trans text'
      cases step.symm.trans step'
  | close inside => exact absurd inside (notTemplate _)
  | blank opens | nested opens | nestedRefused opens =>
      obtain ⟨⟨_, _, _, _, inside, -⟩, -⟩ := opens
      exact absurd inside (notTemplate _)

theorem Reaches.trans {p q r : Pass} {first second : List TokenKind} (before : Reaches p first q)
    (later : Reaches q second r) : Reaches p (first ++ second) r where
  ends := fun ends => later.ends (before.ends ends)
  mode := later.mode
  tokens := by rw [later.tokens, before.tokens, List.reverse_append, List.append_assoc]

theorem reaches_take {p : Pass} {c : Char} {rest lexeme after : List Char} {kind : TokenKind}
    (mode : p.mode = .code) (text : p.rest = c :: rest)
    (step : p.codeStep c rest = .ok (p.take kind lexeme after)) :
    Reaches p [kind] (p.take kind lexeme after) where
  ends := fun ends => ends.after_step mode text step
  mode := mode
  tokens := rfl

end Lexer.Pass

open Lexer (Pass)
open Lexer.Pass (Reaches reaches_take)

/-- The text is read as tokens of the given kinds, if what comes after it is `fit`. -/
def Lexes (text : List Char) (kinds : List TokenKind) (fit : List Char → Prop) : Prop :=
  ∀ (p : Pass) (after : List Char), p.mode = .code → p.rest = text ++ after → fit after →
    ∃ q, Reaches p kinds q ∧ q.rest = after

namespace Lexes

variable {text first second : List Char} {kinds kinds' : List TokenKind}
  {fit fit' : List Char → Prop}

theorem nil : Lexes [] [] fit := by
  intro p after mode text _
  exact ⟨p, ⟨id, mode, rfl⟩, text⟩

theorem mono (lexes : Lexes text kinds fit) (stronger : ∀ after, fit' after → fit after) :
    Lexes text kinds fit' :=
  fun p after mode text follows => lexes p after mode text (stronger after follows)

theorem append (before : Lexes first kinds fit) (later : Lexes second kinds' fit')
    (joint : ∀ after, fit' after → fit (second ++ after)) :
    Lexes (first ++ second) (kinds ++ kinds') fit' := by
  intro p after mode text follows
  rw [List.append_assoc] at text
  obtain ⟨q, reaches, rest⟩ := before p _ mode text (joint after follows)
  obtain ⟨r, reaches', rest'⟩ := later q _ reaches.mode rest follows
  exact ⟨r, reaches.trans reaches', rest'⟩

/-- A text that is read in one step. -/
theorem of_step {c : Char} {others : List Char} {kind : TokenKind}
    (step : ∀ (p : Pass) {after}, fit after →
      p.codeStep c (others ++ after) = .ok (p.take kind (c :: others) after)) :
    Lexes (c :: others) [kind] fit := by
  intro p after mode text follows
  exact ⟨_, reaches_take mode text (step p follows), rfl⟩

theorem space : Lexes [' '] [] fit := by
  intro p after mode text _
  have step : p.codeStep ' ' after = .ok (p.skip [' '] after) := by simp [Pass.codeStep]
  exact ⟨_, ⟨fun ends => ends.after_step mode text step, mode, rfl⟩, rfl⟩

end Lexes

/-! ## Words and symbols -/

section Steps

variable {p : Pass} {c d : Char} {rest : List Char}

theorem codeStep_eq_symbolOrWord
    (plain : c ∉ [' ', '\t', '\r', '\n', '"', '\'', Lexeme.backtick])
    (digit : c.isDigit = false) (comment : c = '/' → ∀ d ∈ rest.head?, d ≠ '/' ∧ d ≠ '*') :
    p.codeStep c rest = p.symbolOrWord c rest := by
  simp only [List.mem_cons, List.not_mem_nil, or_false, not_or] at plain
  obtain ⟨space, tab, carriage, newline, double, single, template⟩ := plain
  simp only [Pass.codeStep, space, tab, carriage, newline, double, single, template, digit, or_self,
    if_false, Bool.false_eq_true]
  split
  · exact absurd rfl (comment rfl '/' rfl).1
  · exact absurd rfl (comment rfl '*' rfl).2
  · rfl

theorem single?_of_isWordStart (starts : Lexeme.isWordStart c = true) :
    Symbol.single? c = none := by
  unfold Symbol.single?
  split <;> first | rfl | exact absurd starts (by decide)

theorem pair?_of_isWordStart (starts : Lexeme.isWordStart c = true) :
    Symbol.pair? c d = none := by
  unfold Symbol.pair?
  split <;> first | rfl | exact absurd starts (by decide)

theorem codeStep_eq_word (starts : Lexeme.isWordStart c = true) :
    p.codeStep c rest = .ok (p.word (c :: rest)) := by
  have slash : c ≠ '/' := by
    rintro rfl
    exact absurd starts (by decide)
  have plain : c ∉ [' ', '\t', '\r', '\n', '"', '\'', Lexeme.backtick] := by
    intro member
    simp only [List.mem_cons, List.not_mem_nil, or_false] at member
    rcases member with rfl | rfl | rfl | rfl | rfl | rfl | rfl <;> cases starts
  have digit := Lexeme.isDigit_of_isWordStart starts
  have single := single?_of_isWordStart starts
  rw [codeStep_eq_symbolOrWord plain digit fun is => absurd is slash]
  unfold Pass.symbolOrWord
  cases rest <;>
    simp [pair?_of_isWordStart starts, slash, Pass.singleOrWord, single, starts]

theorem plain_of_single? {s : Symbol} (single : Symbol.single? c = some s) :
    c ∉ [' ', '\t', '\r', '\n', '"', '\'', Lexeme.backtick] ∧ c.isDigit = false := by
  unfold Symbol.single? at single
  split at single <;> first | decide | cases single

theorem codeStep_eq_single {s : Symbol} (single : Symbol.single? c = some s)
    (unpaired : ∀ d ∈ rest.head?, Symbol.pair? c d = none)
    (divides : c = '/' → p.regexAllowed = false ∧ ∀ d ∈ rest.head?, d ≠ '/' ∧ d ≠ '*') :
    p.codeStep c rest = .ok (p.take (.symbol s) [c] rest) := by
  obtain ⟨plain, digit⟩ := plain_of_single? single
  have noRegex : ¬ (c = '/' ∧ p.regexAllowed = true) := by
    rintro ⟨slash, allowed⟩
    rw [(divides slash).1] at allowed
    cases allowed
  rw [codeStep_eq_symbolOrWord plain digit fun slash => (divides slash).2]
  cases rest with
  | nil => simp only [Pass.symbolOrWord, noRegex, if_false, Pass.singleOrWord, single]
  | cons d rest =>
      simp only [Pass.symbolOrWord, unpaired d rfl, noRegex, if_false, Pass.singleOrWord, single]

theorem codeStep_eq_pair {s : Symbol} (pair : Symbol.pair? c d = some s) :
    p.codeStep c (d :: rest) = .ok (p.take (.symbol s) [c, d] rest) := by
  obtain ⟨plain, digit, noComment⟩ : c ∉ [' ', '\t', '\r', '\n', '"', '\'', Lexeme.backtick] ∧
      c.isDigit = false ∧ (c = '/' → d ≠ '/' ∧ d ≠ '*') := by
    unfold Symbol.pair? at pair
    split at pair <;> first | decide | cases pair
  have comment : c = '/' → ∀ other ∈ (d :: rest).head?, other ≠ '/' ∧ other ≠ '*' := by
    rintro slash other ⟨⟩
    exact noComment slash
  rw [codeStep_eq_symbolOrWord plain digit comment]
  simp only [Pass.symbolOrWord, pair]

theorem codeStep_eq_operator (noRegex : p.regexAllowed = false) (op : BinaryOp)
    (after : List Char) : ∃ c others, op.spelling.toList = c :: others ∧
      p.codeStep c (others ++ ' ' :: after) =
        .ok (p.take (.symbol op.symbol) (c :: others) (' ' :: after)) := by
  cases op with
  | or | and | eq | ne | le | ge => exact ⟨_, [_], rfl, codeStep_eq_pair rfl⟩
  | lt | gt | add | sub | mul | div | mod =>
      refine ⟨_, [], rfl, codeStep_eq_single rfl ?_ ?_⟩
      · simp [Symbol.pair?]
      · simp [noRegex]

end Steps

namespace Lexes

theorem word {name : String} {kind : TokenKind} (word : IsWord name.toList)
    (is : TokenKind.ofWord name = kind) : Lexes name.toList [kind] EndsWord := by
  obtain ⟨c, others, spelling, starts, inside⟩ := word
  have all : ∀ d ∈ c :: others, Lexeme.isWordPart d = true :=
    List.forall_mem_cons.mpr ⟨Lexeme.isWordPart_of_isWordStart starts, inside⟩
  have same : String.ofList (c :: others) = name := by rw [← spelling, String.ofList_toList]
  rw [spelling]
  refine of_step fun p after ends => ?_
  obtain ⟨taken, left⟩ := takeWhile_of_ends all ends
  rw [codeStep_eq_word starts, Pass.word, Lexeme.word, ← List.cons_append, taken, left]
  simp only [same, is]

theorem symbol {c : Char} {s : Symbol} (single : Symbol.single? c = some s) (other : c ≠ '/') :
    Lexes [c] [.symbol s] fun after => ∀ d ∈ after.head?, Symbol.pair? c d = none :=
  of_step fun _ _ unpaired => codeStep_eq_single single unpaired fun slash => absurd slash other

/-- A symbol that begins no longer one. -/
theorem lone {c : Char} {s : Symbol} {fit : List Char → Prop} (single : Symbol.single? c = some s)
    (other : c ≠ '/') (unpaired : ∀ d, Symbol.pair? c d = none) : Lexes [c] [.symbol s] fit :=
  (symbol single other).mono fun _ _ d _ => unpaired d

/-- Behind an operand a slash divides. -/
theorem operator {text : List Char} {kinds : List TokenKind} {fit fit' : List Char → Prop}
    (operand : Lexes text kinds fit) (ends : ∀ after, fit (' ' :: after))
    (last : ∃ k, kinds.getLast? = some k ∧ k.opensRegex = false) (op : BinaryOp) :
    Lexes (text ++ (' ' :: op.spelling.toList ++ [' '])) (kinds ++ [.symbol op.symbol]) fit' := by
  intro p after mode whole _
  rw [List.append_assoc] at whole
  obtain ⟨q, reaches, rest⟩ := operand p _ mode whole (ends _)
  have blank : Lexes [' '] [] fun _ => True := space
  obtain ⟨r, reaches', rest'⟩ := blank q _ reaches.mode rest trivial
  have noRegex : r.regexAllowed = false := by
    obtain ⟨k, isLast, closes⟩ := last
    have kinds := (reaches.trans reaches').tokens
    obtain ⟨front, rfl⟩ := List.getLast?_eq_some_iff.mp isLast
    unfold Pass.regexAllowed
    cases all : r.tokens with
    | nil => simp [all] at kinds
    | cons t earlier =>
        simp [all] at kinds
        simp [kinds.1, closes]
  obtain ⟨c, others, spelling, step⟩ := codeStep_eq_operator noRegex op after
  have ahead : r.rest = c :: (others ++ ' ' :: after) := by
    rw [rest', spelling]
    simp
  have taken := reaches_take reaches'.mode ahead step
  obtain ⟨s, reaches'', rest''⟩ := blank _ after taken.mode rfl trivial
  refine ⟨s, ?_, rest''⟩
  have all := ((reaches.trans reaches').trans taken).trans reaches''
  rwa [List.append_nil, List.append_nil] at all

end Lexes

/-! ## Strings -/

/-- A character stands as it is, or a backslash stands in front of what it is read from. -/
theorem escapedChar_cases (c : Char) :
    (JavaScript.escapedChar c = [c] ∧ c ≠ '"' ∧ c ≠ '\\') ∨
      ∃ mark, JavaScript.escapedChar c = ['\\', mark] ∧ Lexeme.unescapedChar mark = c := by
  unfold JavaScript.escapedChar
  split_ifs with quote backslash newline carriage tab
  · exact .inr ⟨'"', rfl, quote.symm⟩
  · exact .inr ⟨'\\', rfl, backslash.symm⟩
  · exact .inr ⟨'n', rfl, newline.symm⟩
  · exact .inr ⟨'r', rfl, carriage.symm⟩
  · exact .inr ⟨'t', rfl, tab.symm⟩
  · exact .inl ⟨rfl, quote, backslash⟩

theorem escapedUntil_escapedChar (c : Char) (seen rest : List Char) :
    Lexeme.escapedUntil (Lexeme.startsWith '"') seen (JavaScript.escapedChar c ++ rest) =
      Lexeme.escapedUntil (Lexeme.startsWith '"') ((JavaScript.escapedChar c).reverse ++ seen)
        rest := by
  obtain ⟨same, quote, backslash⟩ | ⟨mark, same, -⟩ := escapedChar_cases c
  · rw [same, List.singleton_append, Lexeme.escapedUntil.eq_def]
    simp [Lexeme.startsWith, quote, backslash]
  · rw [same]
    rfl

theorem escapedUntil_escaped (text seen after : List Char) :
    Lexeme.escapedUntil (Lexeme.startsWith '"') seen
      (text.flatMap JavaScript.escapedChar ++ '"' :: after) =
      (seen.reverse ++ text.flatMap JavaScript.escapedChar, '"' :: after) := by
  induction text generalizing seen with
  | nil =>
      rw [List.flatMap_nil, List.nil_append, Lexeme.escapedUntil.eq_def]
      simp [Lexeme.startsWith]
  | cons c text ih =>
      rw [List.flatMap_cons, List.append_assoc, escapedUntil_escapedChar, ih]
      simp

theorem unescape_escapedChar (c : Char) (seen rest : List Char) :
    Lexeme.unescape seen (JavaScript.escapedChar c ++ rest) = Lexeme.unescape (c :: seen) rest := by
  obtain ⟨same, -, backslash⟩ | ⟨mark, same, means⟩ := escapedChar_cases c
  · rw [same, List.singleton_append, Lexeme.unescape.eq_def]
    simp [backslash]
  · rw [same, ← means]
    rfl

theorem unescape_escaped (text seen : List Char) :
    Lexeme.unescape seen (text.flatMap JavaScript.escapedChar) = seen.reverse ++ text := by
  induction text generalizing seen with
  | nil => simp [Lexeme.unescape]
  | cons c text ih =>
      rw [List.flatMap_cons, unescape_escapedChar, ih]
      simp

theorem Lexes.quoted {fit : List Char → Prop} (text : String) :
    Lexes (JavaScript.quote text).toList [.string text] fit := by
  rw [JavaScript.quote, String.toList_ofList, List.cons_append]
  refine of_step fun p after _ => ?_
  have step : ∀ rest, p.codeStep '"' rest = .ok (p.string '"' rest) := fun rest => by
    simp [Pass.codeStep]
  rw [step, Pass.string, List.append_assoc, List.singleton_append, escapedUntil_escaped]
  simp [unescape_escaped]

/-! ## Numbers -/

theorem base?_eq_none {c : Char}
    (other : Lexeme.isWordPart c = false ∨ c.isDigit = true ∨ c = 'e') :
    Lexer.Pass.base? c = none := by
  unfold Lexer.Pass.base?
  split <;> first | rfl | exact absurd other (by decide)

theorem IsNumeral.no_base {c : Char} {others after : List Char} (numeral : IsNumeral (c :: others))
    (ends : EndsNumber after) : ∀ d ∈ (others ++ after).head?, Lexer.Pass.base? d = none := by
  obtain ⟨whole, fraction, power, same, ⟨nonempty, digits⟩, point, exponent⟩ := numeral.parts
  intro d is
  apply base?_eq_none
  match whole, nonempty with
  | [_], _ =>
      obtain rfl : others = fraction ++ power := by simpa using (List.cons.inj same).2
      obtain rfl | ⟨_, rfl, -⟩ := point
      · obtain rfl | ⟨_, _, rfl, -⟩ := exponent
        · exact .inl (ends d is).1
        · obtain rfl : 'e' = d := by simpa using is
          exact .inr (.inr rfl)
      · obtain rfl : '.' = d := by simpa using is
        exact .inl (by decide)
  | _ :: second :: _, _ =>
      simp only [List.cons_append, List.cons.injEq] at same
      obtain rfl : second = d := by simpa [same.2] using is
      exact .inr (.inl (digits second (by simp)))

theorem codeStep_eq_number {p : Pass} {c : Char} {rest : List Char} (digit : c.isDigit = true)
    (noBase : ∀ d ∈ rest.head?, Lexer.Pass.base? d = none) :
    p.codeStep c rest = .ok (p.decimal (c :: rest)) := by
  have plain : ∀ d, d.isDigit = false → c ≠ d := by
    rintro d other rfl
    rw [digit] at other
    cases other
  have template : c ≠ Lexeme.backtick := plain _ (by decide)
  have step : p.codeStep c rest = p.number c rest := by
    simp [Pass.codeStep, plain ' ', plain '\t', plain '\r', plain '\n', plain '"', plain '\'',
      template, digit]
  rw [step]
  cases rest with
  | nil => rfl
  | cons d rest => simp [Pass.number, noBase d rfl]

theorem Lexes.number {text : List Char} {value : Float} (numeral : IsNumeral text)
    (is : Lexer.Pass.decimalValue text = value) : Lexes text [.number value] EndsNumber := by
  obtain ⟨c, others, rfl, digit⟩ := numeral.starts
  refine of_step fun p after ends => ?_
  rw [codeStep_eq_number digit (numeral.no_base ends), Pass.decimal, ← List.cons_append,
    numeral.decimal_append ends]
  simp only [is]

/-- A text that is read as a whole source. -/
theorem Lexes.tokenize {source : String} {kinds : List TokenKind} {fit : List Char → Prop}
    (lexes : Lexes source.toList kinds fit) (ends : fit []) :
    ∃ tokens, tokenize source = .ok tokens ∧ tokens.map Token.kind = kinds ++ [.endOfText] := by
  obtain ⟨o, run, same⟩ := Lexer.Pass.tokenize_ends source
  obtain ⟨q, reaches, spent⟩ := lexes (.start source.toList .start) [] rfl
    (List.append_nil _).symm ends
  obtain rfl := (reaches.ends run).of_spent reaches.mode spent
  refine ⟨_, same, ?_⟩
  simp [Pass.push, reaches.tokens, Pass.start]

/-- Where no step goes on, there are no tokens at all. -/
theorem Lexes.refused {source : String} {before after : List Char} {c : Char}
    {kinds : List TokenKind} {fit : List Char → Prop} (lexes : Lexes before kinds fit)
    (text : source.toList = before ++ c :: after) (ends : fit (c :: after))
    (stops : ∀ p : Pass, ∃ e, p.codeStep c after = .error e) :
    ∃ e, MinangScript.tokenize source = .error e := by
  obtain ⟨o, run, same⟩ := Lexer.Pass.tokenize_ends source
  obtain ⟨q, reaches, rest⟩ := lexes (.start source.toList .start) (c :: after) rfl text ends
  obtain ⟨e, step⟩ := stops q
  obtain rfl := (reaches.ends run).of_refused reaches.mode rest step
  exact ⟨e, same⟩

end MinangScript
