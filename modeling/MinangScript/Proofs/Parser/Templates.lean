import MinangScript.Proofs.Parser.SideBySide

/-! # Template literals among tokens

`TemplateAt` says which tokens are a template literal: texts and interpolations, where an interpolation is
blank or one expression, and a text at the end. It knows nothing of how many rounds the parser makes.
The tokens do not say where a literal ends; the parser goes on as long as an interpolation follows a
text. So it reads a literal to its end, unless right behind it an interpolation begins.
-/

namespace MinangScript

/-- A part of a template literal. -/
inductive Part where
  | text (text : String)
  /-- An interpolation with nothing in it. -/
  | blank
  | slot (value : Expr)

/-- The expression that a part stands for, if any. -/
def Part.value? : Part → Option Expr
  | .text words => some (.literal (.string words))
  | .blank => none
  | .slot value => some value

namespace Parser

open Reader (iterate)
open TokenStream (Leads Passes)

/-- The next token is a text or opens an interpolation. -/
def BeginsTemplate (s : TokenStream) : Prop :=
  (∃ words, s.current.kind = .templateText words) ∨ s.current.kind = .interpolationStart

/-- The tokens from `s` to `rest` are a template literal with the given parts, if what is in its
    interpolations is read by `inner`. -/
inductive TemplateAt (inner : Level) : List Part → TokenStream → TokenStream → Prop where
  | last {s : TokenStream} {text : String} (here : s.current.kind = .templateText text) :
      TemplateAt inner [.text text] s s.advance
  | text {s rest : TokenStream} {text : String} {parts : List Part}
      (here : s.current.kind = .templateText text)
      (opens : s.advance.current.kind = .interpolationStart)
      (later : TemplateAt inner parts s.advance rest) : TemplateAt inner (.text text :: parts) s rest
  | blank {s rest : TokenStream} {parts : List Part} (here : s.current.kind = .interpolationStart)
      (closes : s.advance.current.kind = .interpolationEnd)
      (later : TemplateAt inner parts s.advance.advance rest) : TemplateAt inner (.blank :: parts) s rest
  | slot {s t rest : TokenStream} {value : Expr} {parts : List Part}
      (here : s.current.kind = .interpolationStart)
      (read : inner.expression s.advance = .ok (value, t))
      (closes : t.current.kind = .interpolationEnd) (later : TemplateAt inner parts t.advance rest) :
      TemplateAt inner (.slot value :: parts) s rest

/-- No expression begins where an interpolation ends. -/
theorem expression_at_interpolationEnd (rounds depth : Nat) {s : TokenStream}
    (here : s.current.kind = .interpolationEnd) :
    ∃ e, (level rounds depth).expression s = .error e := by
  cases depth with
  | zero => exact ⟨_, rfl⟩
  | succ depth =>
      have primaryFails : primary rounds (level rounds depth) s =
          .error ⟨.unexpectedToken, s.current⟩ := by
        rw [primary, current_bind, here]
        rfl
      have prefixedFails : prefixed rounds (level rounds depth) s =
          .error ⟨.unexpectedToken, s.current⟩ := by
        rw [prefixed, kind_bind, here]
        dsimp only [stepOp?]
        rw [postfixed, bind_apply, primaryFails]
      refine ⟨⟨.unexpectedToken, s.current⟩, ?_⟩
      change expressionBody rounds (level rounds depth) s = _
      rw [expressionBody, bind_apply, powerSteps, binary, bind_apply, prefixedFails]

variable {inner : Level} {rounds : Nat} {s t rest : TokenStream} {parts : List Part}
  {before : List Expr}

theorem TemplateAt.begins (template : TemplateAt inner parts s rest) : BeginsTemplate s := by
  cases template with
  | last here | text here => exact .inl ⟨_, here⟩
  | blank here | slot here => exact .inr here

/-! ## Rounds -/

@[simp] theorem beq_interpolationStart_iff {k : TokenKind} :
    (k == .interpolationStart) = true ↔ k = .interpolationStart := by
  cases k with
  | interpolationStart => exact iff_of_true rfl rfl
  | _ => exact iff_of_false Bool.false_ne_true TokenKind.noConfusion

@[simp] theorem beq_interpolationEnd_iff {k : TokenKind} :
    (k == .interpolationEnd) = true ↔ k = .interpolationEnd := by
  cases k with
  | interpolationEnd => exact iff_of_true rfl rfl
  | _ => exact iff_of_false Bool.false_ne_true TokenKind.noConfusion

theorem nextPart_text {text : String} (here : s.current.kind = .templateText text) :
    nextPart inner before s =
      .ok ((.literal (.string text) :: before, s.advance.current.kind == .interpolationStart),
        s.advance) := by
  rw [nextPart, kind_bind, here]
  rfl

/-- Behind an interpolation there is more of the literal. -/
theorem nextPart_slot {value : Option Expr} (here : s.current.kind = .interpolationStart)
    (read : interpolation inner s.advance = .ok (value, t)) (more : BeginsTemplate t) :
    nextPart inner before s = .ok ((value.toList ++ before, true), t) := by
  rw [nextPart, kind_bind, here]
  dsimp only
  rw [advance_bind, bind_apply, read]
  obtain ⟨text, next⟩ | next := more <;>
  · dsimp only
    rw [kind_bind, next]
    rfl

theorem interpolation_blank (closes : s.current.kind = .interpolationEnd) :
    interpolation inner s = .ok (none, s.advance) := by
  rw [interpolation, isAt_bind, closes]
  rfl

theorem interpolation_slot {value : Expr} (nonblank : s.current.kind ≠ .interpolationEnd)
    (read : inner.expression s = .ok (value, t)) (closes : t.current.kind = .interpolationEnd) :
    interpolation inner s = .ok (some value, t.advance) := by
  have other : (s.current.kind == .interpolationEnd) = false :=
    Bool.eq_false_iff.mpr (mt beq_interpolationEnd_iff.mp nonblank)
  rw [interpolation, isAt_bind, other, if_neg Bool.false_ne_true, bind_apply, read]
  dsimp only
  rw [expect, bind_apply, isAt_bind, closes]
  rfl

theorem interpolation_cases {value : Option Expr} (ran : interpolation inner s = .ok (value, t)) :
    (s.current.kind = .interpolationEnd ∧ value = none ∧ t = s.advance) ∨
      ∃ e mid, inner.expression s = .ok (e, mid) ∧ mid.current.kind = .interpolationEnd ∧
        value = some e ∧ t = mid.advance := by
  rw [interpolation, isAt_bind] at ran
  cases blank : s.current.kind == .interpolationEnd with
  | true =>
      rw [blank] at ran
      cases ran
      exact .inl ⟨beq_interpolationEnd_iff.mp blank, rfl, rfl⟩
  | false =>
      rw [blank, if_neg Bool.false_ne_true] at ran
      obtain ⟨e, mid, read, ran⟩ := bind_ok ran
      rw [expect, bind_apply, isAt_bind] at ran
      cases closes : mid.current.kind == .interpolationEnd with
      | true =>
          rw [closes] at ran
          cases ran
          exact .inr ⟨e, mid, read, beq_interpolationEnd_iff.mp closes, rfl, rfl⟩
      | false =>
          rw [closes] at ran
          cases ran

/-- A literal is read part by part. -/
theorem TemplateAt.iterate_nextPart {depth : Nat} (template : TemplateAt (level rounds depth) parts s rest)
    (enough : s.ahead.length < rounds) (ends : rest.current.kind ≠ .interpolationStart) :
    iterate (nextPart (level rounds depth)) rounds before s =
      .ok ((parts.filterMap Part.value?).reverse ++ before, rest) := by
  have consuming : (level rounds depth).Consuming := level_consuming (by omega) depth
  have asks := Comparison.Levels.asksAt_nextPart consuming
  induction template generalizing before with
  | @last s text here =>
      have stops : (s.advance.current.kind == .interpolationStart) = false :=
        Bool.eq_false_iff.mpr (mt beq_interpolationStart_iff.mp ends)
      rw [iterate_unfold asks enough, bind_apply, nextPart_text here, stops]
      rfl
  | @text s rest text parts here opens later ih =>
      have goesOn : (s.advance.current.kind == .interpolationStart) = true :=
        beq_interpolationStart_iff.mpr opens
      have shorter := s.leads_advance.length_le
      rw [iterate_unfold asks enough, bind_apply, nextPart_text here, goesOn]
      dsimp only
      rw [if_pos rfl, ih (by omega) ends]
      simp [Part.value?]
  | @blank s rest parts here closes later ih =>
      have shorter := (s.leads_advance.trans s.advance.leads_advance).length_le
      rw [iterate_unfold asks enough, bind_apply,
        nextPart_slot here (interpolation_blank closes) later.begins]
      dsimp only
      rw [if_pos rfl, ih (by omega) ends]
      rfl
  | @slot s t rest value parts here read closes later ih =>
      have nonblank : s.advance.current.kind ≠ .interpolationEnd := by
        intro blank
        obtain ⟨e, failed⟩ := expression_at_interpolationEnd rounds depth blank
        cases failed.symm.trans read
      have passed := (consuming.expression _ _ _ read).toLeads
      have shorter := (s.leads_advance.trans (passed.trans t.leads_advance)).length_le
      rw [iterate_unfold asks enough, bind_apply,
        nextPart_slot here (interpolation_slot nonblank read closes) later.begins]
      dsimp only
      rw [if_pos rfl, ih (by omega) ends]
      simp [Part.value?]

/-- A literal is read to its end, unless an interpolation begins right behind it. -/
theorem TemplateAt.templateLiteral_eq {depth : Nat} (template : TemplateAt (level rounds depth) parts s rest)
    (enough : s.ahead.length < rounds) (ends : rest.current.kind ≠ .interpolationStart) :
    templateLiteral rounds (level rounds depth) s =
      .ok (joined (parts.filterMap Part.value?), rest) := by
  rw [Parser.templateLiteral, bind_apply, template.iterate_nextPart enough ends]
  simp

end Parser

end MinangScript
