import MinangScript.JavaScript.Emit
import MinangScript.Proofs.Decimal.NumberText
import MinangScript.Proofs.Lexer.Chunks

/-! # The tokens of written expressions

Most of what an expression is written with means the same in the language itself. `isShared` says
which expressions are written with nothing else, `tokensIn` which tokens they are written with, and
the texts of shared expressions are read as these tokens. The text of an operand begins with no sign
and ends with no token that a regex may follow, so operators in front of it and behind it are read
as what they are.
-/

namespace MinangScript

namespace JavaScript

/-- Whether a text is a word that is set aside for nothing. -/
def isName (name : String) : Bool :=
  match name.toList with
  | [] => false
  | c :: others =>
    Lexeme.isWordStart c && others.all Lexeme.isWordPart &&
      (Keyword.ofSpelling? name).isNone && (Reserved.ofSpelling? name).isNone

/-- Whether a text can be the name of a variable. The word that prints is one as well. -/
def isVariable (name : String) : Bool :=
  isName name || name == Keyword.printWord.spelling

def isNumber : Expr → Bool
  | .literal (.number _) => true
  | _ => false

mutual

/-- Whether an expression is written in a way that the language itself shares. Equality is written
    otherwise, and so are the words for truth and nothing; a point behind a number would be a part
    of it. -/
def isShared : Expr → Bool
  | .assign target value => isVariable target.name && isShared value
  | .binary left op right => op != .eq && op != .ne && isShared left && isShared right
  | .unary _ operand => isShared operand
  | .call callee args => isShared callee && isSharedEach args
  | .member base property => !isNumber base && isShared base && isName property.name
  | .ident id => isVariable id.name
  | .literal (.number value) => Number.isUnsigned value
  | .literal (.string _) => true
  | .literal _ => false
  | .array items => isSharedEach items
  | .object properties => isSharedFields properties

def isSharedEach : List Expr → Bool
  | [] => true
  | e :: rest => isShared e && isSharedEach rest

def isSharedFields : List (String × Expr) → Bool
  | [] => true
  | (_, value) :: rest => isShared value && isSharedFields rest

end

mutual

/-- The tokens of an expression as it is written. The flag says whether an assignment needs
    parentheses where it stands. -/
@[simp] def tokensIn (wrapped : Bool) : Expr → List TokenKind
  | .assign target value =>
    let bare := Expr.variableToken target.name :: .symbol .assign :: tokensIn false value
    if wrapped then between .leftParen .rightParen bare else bare
  | .binary left op right =>
    between .leftParen .rightParen (tokensIn true left ++ .symbol op.symbol :: tokensIn true right)
  | .unary op operand =>
    between .leftParen .rightParen (.symbol op.symbol :: tokensIn true operand)
  | .call callee args =>
    tokensIn true callee ++ between .leftParen .rightParen (commaSeparated (tokensEach args))
  | .member base property => tokensIn true base ++ [.symbol .dot, .identifier property.name]
  | .ident id => [Expr.variableToken id.name]
  | .literal value => [value.token]
  | .array items => between .leftBracket .rightBracket (commaSeparated (tokensEach items))
  | .object properties =>
    between .leftBrace .rightBrace (commaSeparated (tokensFields properties))

def tokensEach : List Expr → List (List TokenKind)
  | [] => []
  | e :: rest => tokensIn true e :: tokensEach rest

def tokensFields : List (String × Expr) → List (List TokenKind)
  | [] => []
  | (key, value) :: rest =>
    (.string key :: .symbol .colon :: tokensIn true value) :: tokensFields rest

end

/-! ## Lists -/

theorem isSharedEach_iff {es : List Expr} :
    isSharedEach es = true ↔ ∀ e ∈ es, isShared e = true := by
  induction es with
  | nil => simp [isSharedEach]
  | cons e rest ih => simp [isSharedEach, ih]

theorem isSharedFields_iff {properties : List (String × Expr)} :
    isSharedFields properties = true ↔ ∀ p ∈ properties, isShared p.2 = true := by
  induction properties with
  | nil => simp [isSharedFields]
  | cons property rest ih => simp [isSharedFields, ih]

theorem tokensEach_eq_map (es : List Expr) : tokensEach es = es.map (tokensIn true) := by
  induction es with
  | nil => rfl
  | cons e rest ih => simp only [tokensEach, ih, List.map_cons]

theorem tokensFields_eq_map (properties : List (String × Expr)) :
    tokensFields properties =
      properties.map fun p => .string p.1 :: .symbol .colon :: tokensIn true p.2 := by
  induction properties with
  | nil => rfl
  | cons property rest ih => simp only [tokensFields, ih, List.map_cons]

theorem exprs_eq_map (es : List Expr) : exprs es = es.map (exprIn true) := by
  induction es with
  | nil => rfl
  | cons e rest ih => simp only [exprs, ih, List.map_cons]

theorem fields_eq_map (properties : List (String × Expr)) :
    fields properties = properties.map fun p => quote p.1 ++ ": " ++ exprIn true p.2 := by
  induction properties with
  | nil => rfl
  | cons property rest ih => simp only [fields, ih, List.map_cons]

/-! ## Names -/

theorem word_of_isName {name : String} (named : isName name = true) :
    IsWord name.toList ∧ TokenKind.ofWord name = .identifier name := by
  unfold isName at named
  split at named
  · cases named
  · rename_i c others spelled
    simp only [Bool.and_eq_true, List.all_eq_true, Option.isNone_iff_eq_none] at named
    obtain ⟨⟨⟨starts, inside⟩, keyword⟩, reserved⟩ := named
    refine ⟨⟨c, others, spelled, starts, inside⟩, ?_⟩
    simp only [TokenKind.ofWord, keyword, reserved]

theorem word_of_isVariable {name : String} (named : isVariable name = true) :
    IsWord name.toList ∧ TokenKind.ofWord name = Expr.variableToken name := by
  by_cases prints : name = Keyword.printWord.spelling
  · subst prints
    exact ⟨⟨'c', ['e', 't', 'a', 'k'], rfl, rfl, List.all_eq_true.mp rfl⟩, rfl⟩
  · simp only [isVariable, Bool.or_eq_true, beq_iff_eq, prints, or_false] at named
    rw [Expr.variableToken, if_neg prints]
    exact word_of_isName named

theorem opensRegex_variableToken (name : String) :
    (Expr.variableToken name).opensRegex = false := by
  unfold Expr.variableToken
  split <;> rfl

/-! ## Texts of operands -/

/-- What may come after an expression: a point only if it is no number. -/
def EndsOperand (e : Expr) : List Char → Prop :=
  if isNumber e then EndsNumber else EndsWord

theorem endsOperand_of_endsNumber {e : Expr} {after : List Char} (ends : EndsNumber after) :
    EndsOperand e after := by
  unfold EndsOperand
  split
  · exact ends
  · exact ends.endsWord

theorem endsNumber_cons {c : Char} {after : List Char} (other : Lexeme.isWordPart c = false)
    (notPoint : c ≠ '.') : EndsNumber (c :: after) := by
  intro d is
  obtain rfl : c = d := by simpa using is
  exact ⟨other, notPoint⟩

/-- A text of an operand: a sign in front of it stands alone, and a slash behind it divides. -/
structure OperandText (text : List Char) (kinds : List TokenKind) (fit : List Char → Prop) :
    Prop where
  lexes : Lexes text kinds fit
  first : ∃ c others, text = c :: others ∧ c ≠ '-' ∧ c ≠ '='
  last : ∃ k, kinds.getLast? = some k ∧ k.opensRegex = false

namespace OperandText

variable {text text' : List Char} {kinds kinds' : List TokenKind} {fit fit' : List Char → Prop}

theorem mono (operand : OperandText text kinds fit) (stronger : ∀ after, fit' after → fit after) :
    OperandText text kinds fit' :=
  ⟨operand.lexes.mono stronger, operand.first, operand.last⟩

theorem append (operand : OperandText text kinds fit) (more : Lexes text' kinds' fit')
    (joint : ∀ after, fit' after → fit (text' ++ after))
    (last : ∃ k, kinds'.getLast? = some k ∧ k.opensRegex = false) :
    OperandText (text ++ text') (kinds ++ kinds') fit' where
  lexes := operand.lexes.append more joint
  first := by
    obtain ⟨c, others, rfl, plain⟩ := operand.first
    exact ⟨c, others ++ text', rfl, plain⟩
  last := by
    obtain ⟨k, isLast, closes⟩ := last
    exact ⟨k, by rw [List.getLast?_append, isLast]; rfl, closes⟩

theorem of_word {name : String} {kind : TokenKind} (word : IsWord name.toList)
    (is : TokenKind.ofWord name = kind) (closes : kind.opensRegex = false) :
    OperandText name.toList [kind] EndsWord where
  lexes := .word word is
  first := by
    obtain ⟨c, others, same, starts, -⟩ := word
    refine ⟨c, others, same, ?_, ?_⟩ <;>
    · rintro rfl
      cases starts
  last := ⟨kind, rfl, closes⟩

/-- In front of an operand a sign is not the first half of a longer one. -/
theorem unary (operand : OperandText text kinds fit) (op : UnaryOp) :
    Lexes (op.spelling.toList ++ text) (.symbol op.symbol :: kinds) fit := by
  obtain ⟨c, others, rfl, minus, equals⟩ := operand.first
  have unpaired : Symbol.pair? '-' c = none ∧ Symbol.pair? '!' c = none := by
    simp [Symbol.pair?, minus, equals]
  cases op with
  | not =>
      have sign := Lexes.symbol (c := '!') (s := .not) rfl (by decide)
      exact sign.append operand.lexes fun _ _ => by simpa using unpaired.2
  | neg =>
      have sign := Lexes.symbol (c := '-') (s := .minus) rfl (by decide)
      exact sign.append operand.lexes fun _ _ => by simpa using unpaired.1

theorem binary (left : OperandText text kinds EndsNumber) (op : BinaryOp)
    (right : Lexes text' kinds' fit) :
    Lexes (text ++ (' ' :: op.spelling.toList ++ [' ']) ++ text')
      (kinds ++ [.symbol op.symbol] ++ kinds') fit := by
  have ends : ∀ after, EndsNumber (' ' :: after) :=
    fun after => endsNumber_cons (by decide) (by decide)
  have sign : Lexes _ _ fun _ => True := left.lexes.operator ends left.last op
  exact sign.append right fun _ _ => trivial

end OperandText

/-- A pair of delimiters with their characters. -/
inductive Delimiters : Char → Symbol → Char → Symbol → Prop where
  | parens : Delimiters '(' .leftParen ')' .rightParen
  | brackets : Delimiters '[' .leftBracket ']' .rightBracket
  | braces : Delimiters '\x7b' .leftBrace '\x7d' .rightBrace

theorem Delimiters.operandText {c d : Char} {opening closing : Symbol}
    (delimiters : Delimiters c opening d closing) {text : List Char} {kinds : List TokenKind}
    (inside : Lexes text kinds EndsNumber) {fit : List Char → Prop} :
    OperandText ([c] ++ (text ++ [d])) (between opening closing kinds) fit where
  lexes := by
    have first : Lexes [c] [.symbol opening] fun _ => True := by
      cases delimiters <;> exact .lone rfl (by decide) fun _ => rfl
    have last : Lexes [d] [.symbol closing] fit := by
      cases delimiters <;> exact .lone rfl (by decide) fun _ => rfl
    have ends : ∀ after, EndsNumber (d :: after) := by
      cases delimiters <;> exact fun after => endsNumber_cons (by decide) (by decide)
    exact first.append (inside.append last fun after _ => ends after) fun _ _ => trivial
  first := ⟨c, _, rfl, by cases delimiters <;> decide⟩
  last := by
    refine ⟨.symbol closing, ?_, ?_⟩
    · exact List.getLast?_concat
    · cases delimiters <;> rfl

theorem lexes_commaList {β : Type} {xs : List β} {text : β → String} {kinds : β → List TokenKind}
    (pieces : ∀ x ∈ xs, Lexes (text x).toList (kinds x) EndsNumber) :
    Lexes (commaList (xs.map text)).toList (commaSeparated (xs.map kinds)) EndsNumber := by
  have comma : Lexes [',', ' '] [.symbol .comma] fun _ => True := by
    have sign : Lexes [','] [.symbol .comma] fun _ => True := .lone rfl (by decide) fun _ => rfl
    exact sign.append .space fun _ _ => trivial
  induction xs with
  | nil => exact .nil
  | cons first others ih =>
      obtain ⟨here, elsewhere⟩ := List.forall_mem_cons.mp pieces
      cases others with
      | nil => simpa [commaList, commaSeparated] using here
      | cons second others =>
          have joint : ∀ after, EndsNumber ([',', ' '] ++ after) :=
            fun after => endsNumber_cons (by decide) (by decide)
          have both := (here.append comma fun after _ => joint after).append (ih elsewhere)
            fun _ _ => trivial
          simpa [commaList, commaSeparated, String.intercalate_cons_cons] using both

/-! ## Every expression -/

attribute [simp] exprIn parens

/-- How an expression is written: as an operand, and where an assignment goes without
    parentheses. -/
structure Written (e : Expr) : Prop where
  operand : OperandText (exprIn true e).toList (tokensIn true e) (EndsOperand e)
  bare : Lexes (exprIn false e).toList (tokensIn false e) EndsNumber

namespace Written

/-- Where no parentheses depend on it, an expression is written the same everywhere. -/
theorem of_operand {e : Expr}
    (operand : OperandText (exprIn true e).toList (tokensIn true e) (EndsOperand e))
    (sameText : exprIn false e = exprIn true e) (sameTokens : tokensIn false e = tokensIn true e) :
    Written e where
  operand := operand
  bare := by
    rw [sameText, sameTokens]
    exact operand.lexes.mono fun _ ends => endsOperand_of_endsNumber ends

theorem within {e : Expr} (written : Written e) :
    OperandText (exprIn true e).toList (tokensIn true e) EndsNumber :=
  written.operand.mono fun _ ends => endsOperand_of_endsNumber ends

theorem assign {target : Ident} {value : Expr} (named : isVariable target.name = true)
    (right : Written value) : Written (.assign target value) := by
  obtain ⟨word, is⟩ := word_of_isVariable named
  have sign : Lexes [' ', '=', ' '] [.symbol .assign] fun _ => True := by
    have alone : Lexes ['='] [.symbol .assign] _ := Lexes.symbol rfl (by decide)
    have equals : Lexes ['=', ' '] [.symbol .assign] fun _ => True :=
      alone.append .space fun after _ => by simp [Symbol.pair?]
    have space : Lexes [' '] [] fun _ => True := .space
    exact space.append equals fun _ _ => trivial
  have joint : ∀ after, EndsWord ([' ', '=', ' '] ++ after) :=
    fun after => (endsNumber_cons (by decide) (by decide)).endsWord
  have bare := ((Lexes.word word is).append sign fun after _ => joint after).append right.bare
    fun _ _ => trivial
  constructor
  · have whole : OperandText _ _ (EndsOperand (.assign target value)) :=
      Delimiters.parens.operandText bare
    simpa using whole
  · simpa using bare

theorem binary {left right : Expr} {op : BinaryOp} (plain : op ≠ .eq ∧ op ≠ .ne)
    (first : Written left) (second : Written right) : Written (.binary left op right) := by
  have spelled : operator op = op.spelling := by
    cases op with
    | eq => exact absurd rfl plain.1
    | ne => exact absurd rfl plain.2
    | _ => rfl
  have whole : OperandText _ _ (EndsOperand (.binary left op right)) :=
    Delimiters.parens.operandText (first.within.binary op second.within.lexes)
  refine of_operand ?_ rfl rfl
  simpa [spelled] using whole

theorem unary {operand : Expr} (op : UnaryOp) (written : Written operand) :
    Written (.unary op operand) := by
  have whole : OperandText _ _ (EndsOperand (.unary op operand)) :=
    Delimiters.parens.operandText (written.within.unary op)
  refine of_operand ?_ rfl rfl
  simpa using whole

theorem each {es : List Expr} (written : ∀ e ∈ es, Written e) :
    Lexes (commaList (exprs es)).toList (commaSeparated (tokensEach es)) EndsNumber := by
  rw [exprs_eq_map, tokensEach_eq_map]
  exact lexes_commaList fun e member => (written e member).within.lexes

theorem call {callee : Expr} {args : List Expr} (called : Written callee)
    (written : ∀ e ∈ args, Written e) : Written (.call callee args) := by
  have list : OperandText _ _ (EndsOperand (.call callee args)) :=
    Delimiters.parens.operandText (each written)
  have joint : ∀ after, EndsNumber ('(' :: after) :=
    fun after => endsNumber_cons (by decide) (by decide)
  have whole := called.within.append list.lexes (fun after _ => joint _) list.last
  refine of_operand ?_ rfl rfl
  simpa using whole

theorem member {base : Expr} {property : Ident} (other : isNumber base = false)
    (named : isName property.name = true) (written : Written base) :
    Written (.member base property) := by
  obtain ⟨word, is⟩ := word_of_isName named
  have dot : Lexes ['.'] [.symbol .dot] fun _ => True := .lone rfl (by decide) fun _ => rfl
  have suffix := dot.append (Lexes.word word is) fun _ _ => trivial
  have joint : ∀ after, EndsOperand base ('.' :: after) := by
    intro after
    simp only [EndsOperand, other, Bool.false_eq_true, if_false]
    intro d is
    obtain rfl : '.' = d := by simpa using is
    decide
  have whole := written.operand.append suffix (fun after _ => joint _) ⟨_, rfl, rfl⟩
  refine of_operand ?_ rfl rfl
  simpa [EndsOperand, isNumber] using whole

theorem array {items : List Expr} (written : ∀ e ∈ items, Written e) : Written (.array items) := by
  have whole : OperandText _ _ (EndsOperand (.array items)) :=
    Delimiters.brackets.operandText (each written)
  refine of_operand ?_ rfl rfl
  simpa using whole

theorem object {properties : List (String × Expr)} (written : ∀ p ∈ properties, Written p.2) :
    Written (.object properties) := by
  have colon : Lexes [':', ' '] [.symbol .colon] fun _ => True := by
    have sign : Lexes [':'] [.symbol .colon] fun _ => True := .lone rfl (by decide) fun _ => rfl
    exact sign.append .space fun _ _ => trivial
  have list : Lexes (commaList (fields properties)).toList
      (commaSeparated (tokensFields properties)) EndsNumber := by
    rw [fields_eq_map, tokensFields_eq_map]
    refine lexes_commaList fun p member => ?_
    have key : Lexes _ _ fun _ => True := Lexes.quoted p.1
    have whole := (key.append colon fun _ _ => trivial).append (written p member).within.lexes
      fun _ _ => trivial
    simpa using whole
  have whole : OperandText _ _ (EndsOperand (.object properties)) :=
    Delimiters.braces.operandText list
  refine of_operand ?_ rfl rfl
  simpa using whole

theorem ident {id : Ident} (named : isVariable id.name = true) : Written (.ident id) := by
  obtain ⟨word, is⟩ := word_of_isVariable named
  have whole := OperandText.of_word word is (opensRegex_variableToken id.name)
  refine of_operand ?_ rfl rfl
  simpa [EndsOperand, isNumber] using whole

theorem number {value : Float} (unsigned : Number.isUnsigned value = true) :
    Written (.literal (.number value)) := by
  have numeral := Number.isNumeral_text unsigned
  refine of_operand ⟨?_, ?_, ⟨_, rfl, rfl⟩⟩ rfl rfl
  · have lexes := Lexes.number numeral (Number.decimalValue_text unsigned)
    simpa [literal, Literal.token, EndsOperand, isNumber] using lexes
  · obtain ⟨c, others, same, digit⟩ := numeral.starts
    refine ⟨c, others, by simpa [literal] using same, ?_, ?_⟩ <;>
    · rintro rfl
      cases digit

theorem string (text : String) : Written (.literal (.string text)) := by
  refine of_operand ⟨?_, ?_, ⟨_, rfl, rfl⟩⟩ rfl rfl
  · exact Lexes.quoted text
  · have first : (exprIn true (.literal (.string text))).toList =
        '"' :: (text.toList.flatMap escapedChar ++ ['"']) := by
      rw [exprIn, literal, quote, String.toList_ofList]
      rfl
    exact ⟨_, _, first, by decide, by decide⟩

end Written

theorem written_of_isShared {e : Expr} (shared : isShared e = true) : Written e := by
  induction e using Expr.inductionOn with
  | assign target value ih =>
      simp only [isShared, Bool.and_eq_true] at shared
      exact .assign shared.1 (ih shared.2)
  | binary left op right ihLeft ihRight =>
      simp only [isShared, Bool.and_eq_true, bne_iff_ne] at shared
      obtain ⟨⟨plain, first⟩, second⟩ := shared
      exact .binary plain (ihLeft first) (ihRight second)
  | unary op operand ih => exact .unary op (ih shared)
  | call callee args ih ihArgs =>
      simp only [isShared, Bool.and_eq_true, isSharedEach_iff] at shared
      exact .call (ih shared.1) fun e member => ihArgs e member (shared.2 e member)
  | member base property ih =>
      simp only [isShared, Bool.and_eq_true, Bool.not_eq_true'] at shared
      obtain ⟨⟨other, inside⟩, named⟩ := shared
      exact .member other named (ih inside)
  | ident id => exact .ident shared
  | literal value =>
      cases value with
      | number value => exact .number shared
      | string text => exact .string text
      | bool | null | regex => cases shared
  | array items ih =>
      have each := isSharedEach_iff.mp shared
      exact .array fun e member => ih e member (each e member)
  | object properties ih =>
      have each := isSharedFields_iff.mp shared
      exact .object fun p member => ih p member (each p member)

end JavaScript

end MinangScript
