import Mathlib.Logic.Relation
import MinangScript.Proofs.Lexer.Passes

/-! # The way of a pass

`Next` is one move of a pass, where an interpolation with the pass over its text counts as one move of the
pass around it. `Comes` is what a pass comes to by such moves. There is one way for a pass to go on and
one way to end, so how a pass ends is told by how anything ends that it comes to.
-/

namespace MinangScript

namespace Lexer.Pass

/-- One move of a pass. -/
inductive Next : Pass → Pass → Prop where
  | code {p next : Pass} {c : Char} {rest : List Char} (mode : p.mode = .code)
      (text : p.rest = c :: rest) (step : p.codeStep c rest = .ok next) : Next p next
  | close {p : Pass} {textStart : Position} {body after : List Char} {text : String}
      (mode : p.mode = .template textStart) (split : p.templateText = (body, text, after))
      (plain : ∀ more, after ≠ '$' :: '\x7b' :: more) :
      Next p (p.closeTemplate textStart body text after)
  | blank {p opened : Pass} {inner after : List Char} (opens : p.Interpolates opened inner after)
      (blank : inner.all isBlank = true) : Next p (opened.closeInterpolation inner [] after)
  | nested {p opened done : Pass} {inner after : List Char}
      (opens : p.Interpolates opened inner after) (written : inner.all isBlank = false)
      (inside : Ends (start inner .start) (.ok done)) :
      Next p (opened.closeInterpolation inner (done.tokens.map (·.shift opened.position)) after)

/-- What a pass comes to by any number of moves. -/
abbrev Comes : Pass → Pass → Prop :=
  Relation.ReflTransGen Next

variable {p q next : Pass} {o : Except LexError Pass}

theorem Next.ends (moves : Next p next) (ends : Ends next o) : Ends p o := by
  cases moves with
  | code mode text step => exact .code mode text step ends
  | close mode split plain => exact .close mode split plain ends
  | blank opens blank => exact .blank opens blank ends
  | nested opens written inside => exact .nested opens written inside ends

theorem Comes.ends (comes : Comes p q) (ends : Ends q o) : Ends p o := by
  induction comes using Relation.ReflTransGen.head_induction_on with
  | refl => exact ends
  | head moves _ ih => exact moves.ends ih

/-! ## A pass reads its text from the front -/

theorem CodeStep.suffix {text : List Char} (step : CodeStep p text (.ok next)) :
    next.rest <:+ text := by
  cases step with
  | trivia _ split | token _ split _ =>
      rw [split]
      exact List.suffix_append _ _
  | template split =>
      rw [split]
      exact List.suffix_cons _ _

theorem Interpolates.suffix {opened : Pass} {inner after : List Char}
    (opens : p.Interpolates opened inner after) (tokens : List Token) :
    (opened.closeInterpolation inner tokens after).rest <:+ p.rest := by
  obtain ⟨inside, body, whole⟩ := opens.split
  have behind : after <:+ p.rest := by
    rw [whole, inside]
    exact ⟨body ++ '$' :: '\x7b' :: inner, by simp⟩
  exact (List.drop_suffix 1 after).trans behind

theorem Next.suffix (moves : Next p next) : next.rest <:+ p.rest := by
  cases moves with
  | @code _ c rest _ text step =>
      rw [text]
      exact (step ▸ codeStep_spec p c rest).suffix
  | @close _ body after _ _ split _ =>
      rw [templateText_split split]
      exact (List.drop_suffix 1 after).trans (List.suffix_append body after)
  | blank opens | nested opens => exact opens.suffix _

theorem Comes.suffix (comes : Comes p q) : q.rest <:+ p.rest := by
  induction comes with
  | refl => exact List.suffix_rfl
  | tail _ moves ih => exact moves.suffix.trans ih

theorem Interpolates.mode_ne {opened : Pass} {inner after : List Char}
    (opens : p.Interpolates opened inner after) : p.mode ≠ .code := by
  obtain ⟨⟨_, _, _, _, inside, -⟩, -⟩ := opens
  simp [inside]

theorem Next.shorter (moves : Next p next) (mode : p.mode = .code) :
    next.rest.length < p.rest.length := by
  cases moves with
  | @code _ c rest _ text step =>
      rw [text]
      exact (step ▸ codeStep_spec p c rest).shorter
  | close inside => cases mode.symm.trans inside
  | blank opens | nested opens => exact absurd mode opens.mode_ne

/-- A pass in ordinary text never stands where it stood before. -/
theorem Comes.eq_of_rest (comes : Comes p q) (mode : p.mode = .code) (same : q.rest = p.rest) :
    q = p := by
  cases comes using Relation.ReflTransGen.head_induction_on with
  | refl => rfl
  | head moves later =>
      have shorter := moves.shorter mode
      have behind := (Comes.suffix later).length_le
      rw [same] at behind
      omega

/-! ## There is one end -/

/-- A pass that has something left to do has fuel for a step. -/
theorem Fueled.succ {fuel : Nat} (fueled : Fueled fuel p) (busy : p.mode ≠ .code ∨ p.rest ≠ []) :
    ∃ fuel', fuel = fuel' + 1 ∧ p.rest.length < fuel' + 1 := by
  obtain enough | ⟨mode, spent⟩ := fueled
  · cases fuel with
    | zero => exact absurd enough (Nat.not_lt_zero _)
    | succ fuel' => exact ⟨fuel', rfl, enough⟩
  · exact absurd spent (busy.resolve_left (not_not_intro mode))

theorem Ends.run_outcome {fuel : Nat} (ends : Ends p o) (sizes : List Nat) (fueled : Fueled fuel p) :
    (run fuel sizes p).outcome = o := by
  induction ends generalizing fuel sizes with
  | finished mode spent => rw [run_finished mode spent]
  | refused mode text step =>
      obtain ⟨fuel, rfl, -⟩ := fueled.succ (.inr (by simp [text]))
      rw [run_refused mode text step]
  | @code p next c rest o mode text step _ ih =>
      obtain ⟨fuel, rfl, enough⟩ := fueled.succ (.inr (by simp [text]))
      rw [run_code mode text step]
      have shorter := (Next.code mode text step).shorter mode
      exact ih sizes (.inl (by omega))
  | close mode split plain _ ih =>
      obtain ⟨fuel, rfl, enough⟩ := fueled.succ (.inl (by simp [mode]))
      rw [run_close mode split plain]
      exact ih sizes (fueled_closeTemplate split enough)
  | blank opens blank _ ih =>
      obtain ⟨fuel, rfl, enough⟩ := fueled.succ (.inl opens.mode_ne)
      rw [opens.run_blank blank]
      exact ih sizes (opens.fueled_later enough [])
  | nested opens written _ _ ihInside ih =>
      obtain ⟨fuel, rfl, enough⟩ := fueled.succ (.inl opens.mode_ne)
      have inside := ihInside sizes (opens.fueled_nested enough)
      generalize ran : run fuel sizes (start _ .start) = result at inside
      obtain ⟨outcome, sizes'⟩ := result
      obtain rfl := inside
      rw [opens.run_nested written ran]
      exact ih _ (opens.fueled_later enough _)
  | nestedRefused opens written _ ihInside =>
      obtain ⟨fuel, rfl, enough⟩ := fueled.succ (.inl opens.mode_ne)
      have inside := ihInside sizes (opens.fueled_nested enough)
      generalize ran : run fuel sizes (start _ .start) = result at inside
      obtain ⟨outcome, sizes'⟩ := result
      obtain rfl := inside
      rw [opens.run_nestedRefused written ran]

theorem Ends.unique {o' : Except LexError Pass} (ends : Ends p o) (ends' : Ends p o') : o = o' := by
  have fueled : Fueled (p.rest.length + 1) p := .inl (Nat.lt_succ_self _)
  exact (ends.run_outcome [] fueled).symm.trans (ends'.run_outcome [] fueled)

theorem exists_ends (p : Pass) : ∃ o, Ends p o :=
  ⟨_, run_ends [] (.inl (Nat.lt_succ_self p.rest.length))⟩

theorem tokenize_of_ends {source : String} (ends : Ends (start source.toList .start) o) :
    tokenize source = o.map fun done => (done.push .endOfText done.position).tokens.reverse := by
  obtain ⟨o', ends', same⟩ := tokenize_ends source
  rw [same, ends.unique ends']

end Lexer.Pass

end MinangScript
