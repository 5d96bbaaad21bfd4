import MinangScript.Proofs.Lexer.Alike

/-! # Layout between lexemes

Wherever a pass stands between two lexemes of its text, blanks or a comment may be put in without a change
to what the tokens are. The lexemes in front stay what they were, for a blank continues none of them, and a
line comment just grows. What comes behind is read from the same text after tokens of the same kinds, and
positions play no part in the reading of it.
-/

namespace MinangScript

/-! ## What does not continue a lexeme -/

/-- The second text begins as the first does, or with a blank, so that it continues no lexeme that the
    first does not continue. -/
def NoFurther (after after' : List Char) : Prop :=
  after'.head? = after.head? ∨ ∃ c ∈ after'.head?, IsSpace c

namespace NoFurther

variable {after after' : List Char}

theorem head (noFurther : NoFurther after after') {P : Char → Prop}
    (spaces : P ' ' ∧ P '\t' ∧ P '\r') (holds : ∀ c ∈ after.head?, P c) :
    ∀ c ∈ after'.head?, P c := by
  obtain same | ⟨d, first, space⟩ := noFurther
  · rwa [same]
  · intro c first'
    cases Option.mem_unique first first'
    obtain rfl | rfl | rfl := space
    · exact spaces.1
    · exact spaces.2.1
    · exact spaces.2.2

theorem append (noFurther : NoFurther after after') (front : List Char) :
    NoFurther (front ++ after) (front ++ after') := by
  cases front with
  | nil => exact noFurther
  | cons c front => exact .inl rfl

end NoFurther

section Local

variable {lexeme after after' : List Char}

theorem digitRun_noFurther (reaches : digitRun (lexeme ++ after) = (lexeme, after))
    (noFurther : NoFurther after after') : digitRun (lexeme ++ after') = (lexeme, after') := by
  obtain ⟨inside, ends⟩ := takeWhile_ends Char.isDigit (lexeme ++ after)
  obtain ⟨taken, left⟩ := Prod.mk.inj reaches
  rw [taken] at inside
  rw [left] at ends
  exact digitRun_of_ends inside (noFurther.head (by decide) ends)

theorem fraction_noFurther (reaches : Lexeme.fraction (lexeme ++ after) = (lexeme, after))
    (noFurther : NoFurther after after') :
    Lexeme.fraction (lexeme ++ after') = (lexeme, after') := by
  cases lexeme with
  | nil =>
      have noPoint : ∀ c ∈ after.head?, c ≠ '.' := by
        rintro c first rfl
        obtain ⟨digits, rfl⟩ := List.head?_eq_some_iff.mp first
        cases reaches
      have noPoint' := noFurther.head (by decide) noPoint
      rw [List.nil_append, Lexeme.fraction.eq_2]
      rintro rest rfl
      exact noPoint' '.' rfl rfl
  | cons c digits =>
      obtain rfl : c = '.' := by
        rw [List.cons_append] at reaches
        unfold Lexeme.fraction at reaches
        split at reaches
        · rename_i is
          exact (List.cons.inj is).1
        · cases reaches
      have digitsReach : digitRun (digits ++ after) = (digits, after) := by
        simpa [Lexeme.fraction, Prod.ext_iff] using reaches
      simp [Lexeme.fraction, digitRun_noFurther digitsReach noFurther]

theorem sign_noFurther (reaches : Lexeme.sign (lexeme ++ after) = (lexeme, after))
    (noFurther : NoFurther after after') : Lexeme.sign (lexeme ++ after') = (lexeme, after') := by
  cases lexeme with
  | nil =>
      have noSign : ∀ c ∈ after.head?, c ≠ '+' ∧ c ≠ '-' := by
        intro c first
        obtain ⟨rest, rfl⟩ := List.head?_eq_some_iff.mp first
        refine ⟨?_, ?_⟩ <;> rintro rfl <;> cases reaches
      have noSignThere := noFurther.head (by decide) noSign
      rw [List.nil_append, Lexeme.sign.eq_3]
      · rintro rest rfl
        exact (noSignThere '+' rfl).1 rfl
      · rintro rest rfl
        exact (noSignThere '-' rfl).2 rfl
  | cons c others =>
      rw [List.cons_append] at reaches
      unfold Lexeme.sign at reaches
      split at reaches
      case h_1 | h_2 =>
        rename_i is
        obtain ⟨rfl, -⟩ := List.cons.inj is
        cases reaches
        rfl
      case h_3 => cases reaches

theorem exponent_noFurther (reaches : Lexeme.exponent (lexeme ++ after) = (lexeme, after))
    (noFurther : NoFurther after after') :
    Lexeme.exponent (lexeme ++ after') = (lexeme, after') := by
  cases lexeme with
  | nil =>
      have noMark : ∀ c ∈ after.head?, ¬(c = 'e' ∨ c = 'E') := by
        intro c first marked
        obtain ⟨rest, rfl⟩ := List.head?_eq_some_iff.mp first
        simp [Lexeme.exponent, marked] at reaches
      have noMark' := noFurther.head (by decide) noMark
      cases after' with
      | nil => rfl
      | cons c rest => simp [Lexeme.exponent, noMark' c rfl]
  | cons mark others =>
      have marked : mark = 'e' ∨ mark = 'E' := Classical.byContradiction fun unmarked => by
        simp [Lexeme.exponent, unmarked] at reaches
      simp only [List.cons_append, Lexeme.exponent, marked, if_true, Prod.mk.injEq,
        List.cons.injEq, true_and] at reaches ⊢
      have signSplit := Lexeme.sign_append (others ++ after)
      have digitsSplit := digitRun_append (Lexeme.sign (others ++ after)).2
      generalize signed : Lexeme.sign (others ++ after) = parts at reaches signSplit digitsSplit
      obtain ⟨sign, afterSign⟩ := parts
      generalize counted : digitRun afterSign = parts at reaches digitsSplit
      obtain ⟨digits, rest⟩ := parts
      obtain ⟨rfl, rfl⟩ : sign ++ digits = others ∧ rest = after := reaches
      obtain rfl : digits ++ rest = afterSign := digitsSplit
      rw [List.append_assoc] at signed ⊢
      rw [sign_noFurther signed (noFurther.append digits), digitRun_noFurther counted noFurther]
      exact ⟨rfl, rfl⟩

theorem decimal_noFurther (reaches : Lexeme.decimal (lexeme ++ after) = (lexeme, after))
    (noFurther : NoFurther after after') :
    Lexeme.decimal (lexeme ++ after') = (lexeme, after') := by
  simp only [Lexeme.decimal, Prod.mk.injEq] at reaches ⊢
  have wholeSplit := digitRun_append (lexeme ++ after)
  generalize counted : digitRun (lexeme ++ after) = parts at reaches wholeSplit
  obtain ⟨whole, afterWhole⟩ := parts
  have pointSplit := Lexeme.fraction_append afterWhole
  generalize pointed : Lexeme.fraction afterWhole = parts at reaches pointSplit
  obtain ⟨point, afterPoint⟩ := parts
  have powerSplit := Lexeme.exponent_append afterPoint
  generalize raised : Lexeme.exponent afterPoint = parts at reaches powerSplit
  obtain ⟨power, rest⟩ := parts
  obtain ⟨rfl, rfl⟩ : whole ++ point ++ power = lexeme ∧ rest = after := reaches
  obtain rfl : power ++ rest = afterPoint := powerSplit
  obtain rfl : point ++ (power ++ rest) = afterWhole := pointSplit
  have further := noFurther.append power
  simp only [List.append_assoc] at counted ⊢
  rw [digitRun_noFurther counted (further.append point), fraction_noFurther pointed further,
    exponent_noFurther raised noFurther]
  exact ⟨rfl, rfl⟩

theorem Denotes.noFurther {regexAllowed : Bool} {kind : TokenKind}
    (denotes : Denotes regexAllowed kind lexeme after) (nonempty : after ≠ [])
    (noFurther : NoFurther after after') : Denotes regexAllowed kind lexeme after' := by
  cases denotes with
  | newline => exact .newline
  | word isWord ends =>
      exact .word isWord (noFurther.head (by decide) ends)
  | symbol noPair divides =>
      refine .symbol (fun c spelled => noFurther.head ?_ (noPair c spelled)) fun slash => ?_
      · simp only [← Symbol.pair?_eq_none_iff]
        simp [Symbol.pair?]
      · obtain ⟨divides, noComment⟩ := divides slash
        exact ⟨divides, noFurther.head (by decide) noComment⟩
  | decimal digit noBase reaches =>
      refine .decimal digit (fun zero => ?_) (decimal_noFurther reaches noFurther)
      exact (noFurther.append _).head (by decide) (noBase zero)
  | radix marked digits inside ends =>
      exact .radix marked digits inside (noFurther.head (by simp [Lexeme.digitValue?]) ends)
  | string quoted encodes => exact .string quoted encodes
  | openString => exact absurd rfl nonempty
  | regex allowed nonempty noComment noPair encodes inside ends =>
      exact .regex allowed nonempty noComment noPair encodes inside
        (noFurther.head (by decide) ends)
  | openRegex => exact absurd rfl nonempty

end Local

/-! ## Scans that look no further than where they stop -/

/-- What stands behind the place where a scan stops can be replaced, if it makes no difference to where it
    stops. -/
theorem escapedUntil_replace {stop : List Char → Bool} {seen text body tail : List Char}
    (scanned : Lexeme.escapedUntil stop seen text = (body, tail)) (nonempty : tail ≠ []) :
    ∃ front, text = front ++ tail ∧ ∀ tail', (∀ x, stop (x ++ tail') = stop (x ++ tail)) →
      Lexeme.escapedUntil stop seen (front ++ tail') = (body, tail') := by
  fun_induction Lexeme.escapedUntil stop seen text with
  | case1 | case3 =>
      cases scanned
      exact absurd rfl nonempty
  | case2 seen c rest stops =>
      cases scanned
      refine ⟨[], rfl, fun tail' agree => ?_⟩
      have stops' : stop tail' = true := (agree []).trans stops
      cases tail' with
      | nil => simp [Lexeme.escapedUntil]
      | cons c' tail' =>
          rw [List.nil_append, Lexeme.escapedUntil.eq_def]
          simp [stops']
  | case4 seen e rest goesOn ih =>
      obtain ⟨front, rfl, replaced⟩ := ih scanned
      refine ⟨'\\' :: e :: front, rfl, fun tail' agree => ?_⟩
      have goesOn' : stop ('\\' :: e :: front ++ tail') = false :=
        (agree _).trans (Bool.of_not_eq_true goesOn)
      simp only [List.cons_append] at goesOn' ⊢
      simp [Lexeme.escapedUntil, goesOn', replaced tail' agree]
  | case5 seen c rest goesOn backslash ih =>
      obtain ⟨front, rfl, replaced⟩ := ih scanned
      refine ⟨c :: front, rfl, fun tail' agree => ?_⟩
      have goesOn' : stop (c :: front ++ tail') = false :=
        (agree _).trans (Bool.of_not_eq_true goesOn)
      rw [List.cons_append] at goesOn' ⊢
      rw [Lexeme.escapedUntil.eq_def]
      simp [goesOn', backslash, replaced tail' agree]

theorem interpolation_replace {depth : Nat} {seen text inner tail : List Char} {c : Char}
    (scanned : Lexeme.interpolation depth seen text = (inner, c :: tail)) :
    ∃ front, text = front ++ c :: tail ∧ ∀ tail',
      Lexeme.interpolation depth seen (front ++ c :: tail') = (inner, c :: tail') := by
  fun_induction Lexeme.interpolation depth seen text with
  | case1 => cases scanned
  | case2 depth seen rest ih =>
      obtain ⟨front, rfl, replaced⟩ := ih scanned
      exact ⟨'\x7b' :: front, rfl, fun tail' => by simp [Lexeme.interpolation, replaced]⟩
  | case3 seen rest =>
      cases scanned
      exact ⟨[], rfl, fun tail' => by simp [Lexeme.interpolation]⟩
  | case4 seen rest _ depth ih =>
      obtain ⟨front, rfl, replaced⟩ := ih scanned
      exact ⟨'\x7d' :: front, rfl, fun tail' => by simp [Lexeme.interpolation, replaced]⟩
  | case5 depth seen d rest noOpening noClosing ih =>
      obtain ⟨front, rfl, replaced⟩ := ih scanned
      exact ⟨d :: front, rfl, fun tail' => by
        simp [Lexeme.interpolation, noOpening, noClosing, replaced]⟩

/-! ## Layout -/

/-- Blanks, or between two of them a comment that stays on its line. -/
inductive IsLayout : List Char → Prop where
  | spaces {w : List Char} : (∀ c ∈ w, IsSpace c) → IsLayout w
  | comment {text : List Char} : '\n' ∉ text → ¬['*', '/'] <:+: text →
      IsLayout (' ' :: '/' :: '*' :: text ++ ['*', '/', ' '])

variable {w : List Char}

theorem IsLayout.noFeed (layout : IsLayout w) : '\n' ∉ w := by
  cases layout with
  | spaces spaces => exact fun member => absurd (spaces _ member) (by simp [IsSpace])
  | comment noFeed => simpa using noFeed

theorem IsLayout.noFurther (layout : IsLayout w) (after : List Char) :
    NoFurther after (w ++ after) := by
  cases layout with
  | comment => exact .inr ⟨' ', rfl, .inl rfl⟩
  | spaces spaces =>
      cases w with
      | nil => exact .inl rfl
      | cons c w => exact .inr ⟨c, rfl, spaces c List.mem_cons_self⟩

/-- Trivia in front of layout stays what it is, but for a line comment, which the layout continues. -/
theorem IsTrivia.insert {lexeme front behind : List Char} (trivia : IsTrivia lexeme (front ++ behind))
    (nonempty : behind ≠ []) (layout : IsLayout w) :
    IsTrivia lexeme (front ++ (w ++ behind)) ∨ front = [] ∧ IsTrivia (lexeme ++ w) behind := by
  generalize all : front ++ behind = after at trivia
  cases trivia with
  | space space => exact .inl (.space space)
  | block unclosed => exact .inl (.block unclosed)
  | openBlock =>
      obtain ⟨-, empty⟩ := List.append_eq_nil_iff.mp all
      exact absurd empty nonempty
  | @line text _ noFeed ends =>
      cases front with
      | nil =>
          obtain rfl : behind = after := all
          refine .inr ⟨rfl, .line ?_ ends⟩
          exact fun member => (List.mem_append.mp member).elim noFeed layout.noFeed
      | cons c front =>
          obtain rfl : c :: front ++ behind = after := all
          exact .inl (.line noFeed ends)

namespace Lexer.Pass

variable {p p' q next opened : Pass} {inner after u v b : List Char}

/-! ## Layout put in -/

theorem next_of_scans (mode : p.mode = .code) {text : List Char} (rest : p.rest = text)
    (scans : Scans p text (.ok next)) : Next p next := by
  obtain ⟨c, others, rfl, step⟩ := scans.codeStep
  exact .code mode rest step

theorem skip_skip (p : Pass) (first rest second after : List Char) :
    (p.skip first rest).skip second after = p.skip (first ++ second) after := by
  simp [skip, Position.advanceBy_append]

theorem next_of_trivia {lexeme : List Char} (trivia : IsTrivia lexeme after) (mode : p.mode = .code)
    (rest : p.rest = lexeme ++ after) : Next p (p.skip lexeme after) :=
  next_of_scans mode rest (.trivia trivia)

theorem comes_spaces (spaces : ∀ c ∈ w, IsSpace c) (mode : p.mode = .code)
    (rest : p.rest = w ++ b) : Comes p (p.skip w b) := by
  induction w generalizing p with
  | nil =>
      obtain rfl : p.rest = b := rest
      exact .refl
  | cons c w ih =>
      obtain ⟨space, spaces⟩ := List.forall_mem_cons.mp spaces
      have moves : Next p (p.skip [c] (w ++ b)) := next_of_trivia (.space space) mode rest
      have later := ih (p := p.skip [c] (w ++ b)) spaces mode rfl
      rw [skip_skip] at later
      exact .head moves later

/-- A pass goes over layout and takes no token. -/
theorem comes_layout (layout : IsLayout w) (mode : p.mode = .code) (rest : p.rest = w ++ b) :
    Comes p (p.skip w b) := by
  cases layout with
  | spaces spaces => exact comes_spaces spaces mode rest
  | @comment text _ unclosed =>
      let comment := '/' :: '*' :: text ++ ['*', '/']
      let behind := p.skip [' '] (comment ++ ' ' :: b)
      have first : Next p behind := next_of_trivia (.space (.inl rfl)) mode (by simp [rest, comment])
      have second : Next behind (behind.skip comment (' ' :: b)) :=
        next_of_trivia (.block unclosed) mode rfl
      have third := next_of_trivia (p := behind.skip comment (' ' :: b)) (.space (.inl rfl)) mode rfl
      have all := Relation.ReflTransGen.head first (.head second (.single third))
      simpa [behind, comment, skip_skip] using all

/-! A template text or an interpolation that ends before the layout is read as before. -/

theorem endsTemplateText_of_plain {text : List Char} (plain : ∀ more, text ≠ '$' :: '\x7b' :: more) :
    Lexeme.endsTemplateText text = Lexeme.startsWith Lexeme.backtick text := by
  unfold Lexeme.endsTemplateText
  split
  · exact absurd rfl (plain _)
  · rfl
  · rfl

/-- Two characters tell whether the text of a template ends. -/
theorem endsTemplateText_cons_cons (c d : Char) (rest rest' : List Char) :
    Lexeme.endsTemplateText (c :: d :: rest) = Lexeme.endsTemplateText (c :: d :: rest') := by
  by_cases opens : c = '$' ∧ d = '\x7b'
  · obtain ⟨rfl, rfl⟩ := opens
    rfl
  · have plain : ∀ rest more, c :: d :: rest ≠ '$' :: '\x7b' :: more := by
      rintro rest more ⟨⟩
      exact opens ⟨rfl, rfl⟩
    rw [endsTemplateText_of_plain (plain rest), endsTemplateText_of_plain (plain rest')]
    rfl

theorem endsTemplateText_agree {tail tail' : List Char} (same : tail'.head? = tail.head?)
    (stops : Lexeme.endsTemplateText tail' = Lexeme.endsTemplateText tail) (x : List Char) :
    Lexeme.endsTemplateText (x ++ tail') = Lexeme.endsTemplateText (x ++ tail) := by
  match x with
  | [] => exact stops
  | [c] =>
      cases tail with
      | nil =>
          obtain rfl : tail' = [] := List.head?_eq_none_iff.mp same
          rfl
      | cons d tail =>
          obtain ⟨more, rfl⟩ := List.head?_eq_some_iff.mp same
          exact endsTemplateText_cons_cons c d more tail
  | c :: d :: x => exact endsTemplateText_cons_cons c d (x ++ tail') (x ++ tail)

theorem templateText_replace {body tail : List Char} {text : String}
    (split : p.templateText = (body, text, tail)) (nonempty : tail ≠ []) :
    ∃ front, p.rest = front ++ tail ∧ ∀ (p' : Pass) tail', tail'.head? = tail.head? →
      Lexeme.endsTemplateText tail' = Lexeme.endsTemplateText tail →
      p'.rest = front ++ tail' → p'.templateText = (body, text, tail') := by
  simp only [templateText, Prod.mk.injEq] at split
  obtain ⟨rfl, rfl, rfl⟩ := split
  obtain ⟨front, whole, replaced⟩ := escapedUntil_replace rfl nonempty
  refine ⟨front, whole, fun p' tail' same stops rest' => ?_⟩
  rw [templateText, rest', replaced tail' (endsTemplateText_agree same stops)]

theorem templateText_stops {body tail : List Char} {text : String} {c : Char}
    (split : p.templateText = (body, text, c :: tail))
    (plain : ∀ more, c :: tail ≠ '$' :: '\x7b' :: more) : c = Lexeme.backtick := by
  have stops := Lexeme.escapedUntil_stops Lexeme.endsTemplateText [] p.rest
  simp only [templateText, Prod.mk.injEq] at split
  rw [split.2.2, endsTemplateText_of_plain plain] at stops
  simpa [Lexeme.startsWith] using stops

theorem Interpolates.insert (opens : p.Interpolates opened inner after) (alike : Alike p p')
    (nonempty : b ≠ []) (rest : p.rest = u ++ b) (rest' : p'.rest = u ++ (w ++ b))
    (left : after.drop 1 = v ++ b) :
    ∃ opened' after', p'.Interpolates opened' inner after' ∧ Alike opened opened' ∧
      after'.drop 1 = v ++ (w ++ b) := by
  obtain ⟨⟨textStart, body, text, more, mode, split, rfl⟩, inside⟩ := opens
  obtain ⟨textStart', mode'⟩ := alike.template mode
  obtain ⟨c, tail, rfl⟩ : ∃ c tail, after = c :: tail := by
    cases after with
    | nil => simp [nonempty] at left
    | cons c tail => exact ⟨c, tail, rfl⟩
  obtain rfl : tail = v ++ b := left
  obtain ⟨front, whole, replaced⟩ := interpolation_replace inside
  obtain ⟨front', whole', replaced'⟩ := templateText_replace split (List.cons_ne_nil _ _)
  obtain rfl : more = front ++ c :: (v ++ b) := whole
  have shape : u = front' ++ '$' :: '\x7b' :: (front ++ c :: v) :=
    List.append_cancel_right (rest.symm.trans (whole'.trans (by simp)))
  have split' := replaced' p' ('$' :: '\x7b' :: (front ++ c :: (v ++ (w ++ b)))) rfl rfl
    (by rw [rest', shape]; simp)
  exact ⟨_, _, ⟨⟨textStart', body, text, _, mode', split', rfl⟩, replaced _⟩,
    alike.openInterpolation _ _ _ _ _ _, rfl⟩

theorem Scans.insert (scans : Scans p (u ++ b) (.ok next)) (alike : Alike p p') (nonempty : b ≠ [])
    (layout : IsLayout w) (mode : p.mode = .code) (rest' : p'.rest = u ++ (w ++ b))
    (left : next.rest = v ++ b) :
    ∃ next', Next p' next' ∧ Alike next next' ∧
      (next'.rest = v ++ (w ++ b) ∨ v = [] ∧ next.mode = .code ∧ next'.rest = b) := by
  have mode' := alike.mode.mp mode
  generalize whole : u ++ b = text at scans
  cases scans with
  | @trivia lexeme after trivia =>
      obtain rfl : after = v ++ b := left
      obtain rfl : u = lexeme ++ v := List.append_cancel_right (whole.trans (List.append_assoc ..).symm)
      rw [List.append_assoc] at rest'
      obtain trivia' | ⟨rfl, trivia'⟩ := trivia.insert nonempty layout
      · exact ⟨_, next_of_trivia trivia' mode' rest', alike.skip _ _ _ _, .inl rfl⟩
      · refine ⟨_, next_of_trivia trivia' mode' ?_, alike.skip _ _ _ _, .inr ⟨rfl, mode, rfl⟩⟩
        rw [rest', List.nil_append, List.append_assoc]
  | @token kind lexeme after denotes =>
      obtain rfl : after = v ++ b := left
      obtain rfl : u = lexeme ++ v := List.append_cancel_right (whole.trans (List.append_assoc ..).symm)
      rw [List.append_assoc] at rest'
      rw [alike.regexAllowed] at denotes
      -- The layout follows the lexeme at once only if `v` is empty; it begins with a blank then.
      have further : NoFurther (v ++ b) (v ++ (w ++ b)) := (layout.noFurther b).append v
      have denotes' := denotes.noFurther (List.append_ne_nil_of_right_ne_nil v nonempty) further
      exact ⟨_, next_of_scans mode' rest' (.token denotes'), alike.take _ _ _ _ _, .inl rfl⟩
  | @template after =>
      obtain rfl : after = v ++ b := left
      obtain rfl : u = Lexeme.backtick :: v := List.append_cancel_right whole
      exact ⟨_, next_of_scans mode' rest' .template, (alike.skip _ _ _ _).inTemplate _ _, .inl rfl⟩

/-- A move to a place in front of the layout is made all the same. Only a line comment that reaches up to
    the layout takes it in. -/
theorem Next.insert (moves : Next p next) (alike : Alike p p') (nonempty : b ≠ []) (layout : IsLayout w)
    (rest : p.rest = u ++ b) (rest' : p'.rest = u ++ (w ++ b)) (left : next.rest = v ++ b) :
    ∃ next', Next p' next' ∧ Alike next next' ∧
      (next'.rest = v ++ (w ++ b) ∨ v = [] ∧ next.mode = .code ∧ next'.rest = b) := by
  cases moves with
  | @code _ c others mode text step =>
      have scans := scans_codeStep p c others
      rw [step, ← text, rest] at scans
      exact scans.insert alike nonempty layout mode rest' left
  | @close textStart body after text mode split plain =>
      obtain ⟨textStart', mode'⟩ := alike.template mode
      obtain ⟨c, tail, rfl⟩ : ∃ c tail, after = c :: tail := by
        cases after with
        | nil => simp [closeTemplate, push, skip, nonempty] at left
        | cons c tail => exact ⟨c, tail, rfl⟩
      obtain rfl : tail = v ++ b := left
      obtain rfl := templateText_stops split plain
      obtain ⟨front, whole, replaced⟩ := templateText_replace split (List.cons_ne_nil _ _)
      have shape : u = front ++ Lexeme.backtick :: v :=
        List.append_cancel_right (rest.symm.trans (whole.trans (by simp)))
      have split' := replaced p' (Lexeme.backtick :: (v ++ (w ++ b))) rfl rfl (by rw [rest', shape]; simp)
      have plain' : ∀ more, Lexeme.backtick :: (v ++ (w ++ b)) ≠ '$' :: '\x7b' :: more := by
        rintro more ⟨⟩
      exact ⟨_, .close mode' split' plain', alike.closeTemplate _ _ _ _ _ _, .inl rfl⟩
  | blank opens blank =>
      obtain ⟨opened', after', opens', alike', left'⟩ := opens.insert alike nonempty rest rest' left
      exact ⟨_, .blank opens' blank, alike'.closeInterpolation rfl _ _ _, .inl left'⟩
  | nested opens written inside =>
      obtain ⟨opened', after', opens', alike', left'⟩ := opens.insert alike nonempty rest rest' left
      exact ⟨_, .nested opens' written inside, alike'.closeInterpolation (kinds_shift _ _ _) _ _ _,
        .inl left'⟩

theorem Comes.insert (comes : Comes p q) (alike : Alike p p') (nonempty : b ≠ []) (layout : IsLayout w)
    (mode : q.mode = .code) (stands : q.rest = b) (rest : p.rest = u ++ b)
    (rest' : p'.rest = u ++ (w ++ b)) : ∃ q', Comes p' q' ∧ Alike q q' ∧ q'.rest = b := by
  induction comes using Relation.ReflTransGen.head_induction_on generalizing u p' with
  | refl =>
      obtain rfl : u = [] := List.self_eq_append_left.mp (stands.symm.trans rest)
      exact ⟨_, comes_layout layout (alike.mode.mp mode) rest', alike.skip [] q.rest w b, rfl⟩
  | @head p next moves later ih =>
      obtain ⟨v, left⟩ := Comes.suffix later
      rw [stands] at left
      obtain ⟨next', moves', alike', stands' | ⟨rfl, inCode, stands'⟩⟩ :=
        moves.insert alike nonempty layout rest rest' left.symm
      · obtain ⟨q', comes', result⟩ := ih alike' left.symm stands'
        exact ⟨q', .head moves' comes', result⟩
      · -- A line comment took the layout in, and the way ends right behind it.
        obtain rfl := Comes.eq_of_rest later inCode (stands.trans left)
        exact ⟨next', .single moves', alike', stands'⟩

end Lexer.Pass

open Lexer.Pass (Comes)

/-- On its way over the text, the lexer stands between the two parts, about to read a lexeme. -/
def StandsBetween (first second : String) : Prop :=
  ∃ q, Comes (.start (first ++ second).toList .start) q ∧ q.mode = .code ∧ q.rest = second.toList

/-- Layout between two lexemes changes nothing but positions. -/
theorem layout_makes_no_difference {first second w : String} (nonempty : second ≠ "")
    (between : StandsBetween first second) (layout : IsLayout w.toList) :
    unplaced (tokenize (first ++ w ++ second)) = unplaced (tokenize (first ++ second)) := by
  obtain ⟨q, comes, mode, rest⟩ := between
  have nonempty : second.toList ≠ [] := by simpa using nonempty
  have alike : (Lexer.Pass.start (first ++ second).toList .start).Alike
      (.start (first ++ w ++ second).toList .start) := ⟨Iff.rfl, rfl⟩
  obtain ⟨q', comes', alike', rest'⟩ := comes.insert alike nonempty layout mode rest
    String.toList_append (by simp [Lexer.Pass.start])
  obtain ⟨o, ends⟩ := Lexer.Pass.exists_ends q
  obtain ⟨o', ends', same⟩ := ends.alike alike' (rest'.trans rest.symm)
  rw [Lexer.Pass.tokenize_of_ends (comes.ends ends), Lexer.Pass.tokenize_of_ends (comes'.ends ends'),
    unplaced_push, unplaced_push, same]

/-- A slash that divides, with a comment behind it. -/
theorem layout_makes_no_difference_division :
    StandsBetween "x/" "y" ∧ IsLayout " /* z */ ".toList ∧
      unplaced (tokenize ("x/" ++ " /* z */ " ++ "y")) = unplaced (tokenize ("x/" ++ "y")) := by
  have layout : IsLayout " /* z */ ".toList := by
    have written : " /* z */ ".toList = ' ' :: '/' :: '*' :: [' ', 'z', ' '] ++ ['*', '/', ' '] := by
      decide
    rw [written]
    exact .comment (by decide) (by decide)
  have between : StandsBetween "x/" "y" := by
    let p := Lexer.Pass.start ['x', '/', 'y'] .start
    have word : p.Next (p.take (.ofWord "x") ['x'] ['/', 'y']) :=
      Lexer.Pass.next_of_scans rfl rfl
        (.token (.word ⟨'x', [], rfl, rfl, by simp⟩ (by simp [EndsWord]; decide)))
    have noPair : BeginsNoPair '/' ['y'] := by
      rintro d ⟨⟩
      exact Symbol.pair?_eq_none_iff.mp rfl
    have slash := Lexer.Pass.next_of_scans (p := p.take (.ofWord "x") ['x'] ['/', 'y']) rfl rfl
      (.token (denotes_single (c := '/') rfl noPair fun _ => ⟨rfl, by simp [OpensNoComment]⟩))
    rw [StandsBetween, show ("x/" ++ "y").toList = ['x', '/', 'y'] by decide]
    exact ⟨_, .head word (.single slash), rfl, rfl⟩
  exact ⟨between, layout, layout_makes_no_difference (by decide) between layout⟩

end MinangScript
