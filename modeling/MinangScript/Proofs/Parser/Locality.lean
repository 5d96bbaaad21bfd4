import Mathlib.Data.List.TakeWhile
import MinangScript.Proofs.Lexer.Markers
import MinangScript.Proofs.Parser.ExpressionCompleteness
import MinangScript.Proofs.Parser.Templates

/-! # Parsers of expressions look no further than the next token

The same tokens are read twice, with more of them behind the second time and perhaps from another
place in a text. If the first parse leaves a token, then it has not noticed the end of its stream, and
the second parse gives the same value up to positions and leaves the same tokens with the others
behind them. What an expression takes closes the interpolations that it opens, so an expression in an
interpolation ends where the interpolation does.
-/

namespace MinangScript

/-- The kinds of the tokens that are still to be read. -/
def TokenStream.kinds (s : TokenStream) : List TokenKind :=
  s.ahead.map Token.kind

namespace TokenStream

variable {s t u : TokenStream}

theorem length_kinds (s : TokenStream) : s.kinds.length = s.ahead.length :=
  List.length_map _

theorem kinds_advance (s : TokenStream) : s.advance.kinds = s.kinds.tail :=
  List.map_tail

/-- The kind of the next token is the first of the kinds, if there is one. -/
theorem current_of_kinds {k : TokenKind} {rest : List TokenKind} (begins : s.kinds = k :: rest) :
    s.current.kind = k := by
  obtain ⟨first, later, all, rfl, -⟩ := List.map_eq_cons_iff.mp begins
  rw [current, all]

theorem kinds_eq_cons (more : s.ahead ≠ []) : s.kinds = s.current.kind :: s.advance.kinds := by
  obtain ⟨ahead, stop⟩ := s
  cases ahead with
  | nil => exact absurd rfl more
  | cons t rest => rfl

theorem ahead_ne_nil (other : s.current.kind ≠ .endOfText) : s.ahead ≠ [] := by
  intro empty
  rw [current, empty] at other
  exact other rfl

/-- What stands between two places of a stream closes the interpolations that it opens. -/
def Takes (s t : TokenStream) : Prop :=
  ∃ taken, s.kinds = taken ++ t.kinds ∧ Closed taken

theorem Takes.refl (s : TokenStream) : Takes s s :=
  ⟨[], rfl, .nil⟩

theorem Takes.trans (first : Takes s t) (later : Takes t u) : Takes s u := by
  obtain ⟨taken, same, closed⟩ := first
  obtain ⟨taken', same', closed'⟩ := later
  exact ⟨taken ++ taken', by rw [same, same', List.append_assoc], closed.append closed'⟩

theorem Takes.length_le (takes : Takes s t) : t.ahead.length ≤ s.ahead.length := by
  obtain ⟨taken, same, -⟩ := takes
  have lengths := congrArg List.length same
  rw [List.length_append, length_kinds, length_kinds] at lengths
  omega

theorem takes_advance (plain : Closed [s.current.kind]) : Takes s s.advance := by
  by_cases more : s.ahead = []
  · rw [show s.advance = s by rw [advance, more, List.tail_nil, ← more]]
    exact .refl s
  · exact ⟨[s.current.kind], kinds_eq_cons more, plain⟩

theorem kinds_dropWhile (skip : TokenKind → Bool) (s : TokenStream) :
    (s.dropWhile skip).kinds = s.kinds.dropWhile skip := by
  rw [kinds, kinds, List.dropWhile_map]
  rfl

theorem takes_skipNewlines (s : TokenStream) : Takes s (s.dropWhile Parser.isNewline) := by
  refine ⟨(s.ahead.takeWhile fun t => Parser.isNewline t.kind).map Token.kind, ?_, ?_⟩
  · rw [kinds, kinds, dropWhile, ← List.map_append, List.takeWhile_append_dropWhile]
  · refine .of_plain (List.forall_mem_map.mpr fun t member => ?_)
    have newline := List.mem_takeWhile_imp member
    cases is : t.kind with
    | newline => exact ⟨rfl, rfl⟩
    | _ => simp [is, Parser.isNewline] at newline

end TokenStream

namespace Parser

open Reader (iterate)
open TokenStream (Takes)

variable {α β γ δ : Type}

/-- How the second parse differs from the first one: in the bounds on its rounds, and in the tokens
    that only the second stream has. -/
structure Extension where
  rounds : Nat
  rounds' : Nat
  more : List TokenKind
  positive : 0 < rounds
  positive' : 0 < rounds'

namespace Extension

variable (X : Extension)

/-- The second stream has the tokens of the first one, wherever they stand, and the others behind
    them. -/
structure Extends (s s' : TokenStream) : Prop where
  kinds : s'.kinds = s.kinds ++ X.more
  enough : s.ahead.length < X.rounds
  enough' : s'.ahead.length < X.rounds'

/-- Both streams go on with the same token. -/
def Sees (s : TokenStream) : Prop :=
  X.more = [] ∨ s.ahead ≠ []

/-- What the first parser reads from `s` is closed, and the second one reads it too, if both streams go
    on with the same token. The values agree in what `view` sees of them. -/
def KeepsAt (s : TokenStream) (view : α → β) (p p' : Parser α) : Prop :=
  ∀ a t, p s = .ok (a, t) → Takes s t ∧
    ∀ s', X.Extends s s' → X.Sees t →
      ∃ a' t', p' s' = .ok (a', t') ∧ view a' = view a ∧ X.Extends t t'

def Keeps (view : α → β) (p p' : Parser α) : Prop :=
  ∀ s, s.ahead.length < X.rounds → X.KeepsAt s view p p'

variable {X} {s s' t t' : TokenStream} {view : α → γ} {view' : β → δ} {p p' : Parser α}
  {f f' : α → Parser β}

theorem Sees.before (sees : X.Sees t) (takes : Takes s t) : X.Sees s := by
  refine sees.imp_right fun more empty => more ?_
  have shorter := takes.length_le
  rw [empty, List.length_nil, Nat.le_zero] at shorter
  exact List.length_eq_zero_iff.mp shorter

theorem Extends.current (beside : X.Extends s s') (sees : X.Sees s) :
    s'.current.kind = s.current.kind := by
  by_cases more : s.ahead = []
  · have empty : s'.kinds = [] := by
      rw [beside.kinds, sees.resolve_right (not_not_intro more), TokenStream.kinds, more]
      rfl
    rw [TokenStream.current, TokenStream.current, more, List.map_eq_nil_iff.mp empty]
  · exact TokenStream.current_of_kinds (by rw [beside.kinds, TokenStream.kinds_eq_cons more]; rfl)

/-- A later place in both streams. -/
theorem Extends.later (beside : X.Extends s s') (shorter : t.ahead.length ≤ s.ahead.length)
    (kinds : t'.kinds = t.kinds ++ X.more) : X.Extends t t' where
  kinds := kinds
  enough := Nat.lt_of_le_of_lt shorter beside.enough
  enough' := by
    have enough' := beside.enough'
    rw [← TokenStream.length_kinds, beside.kinds, List.length_append, TokenStream.length_kinds]
      at enough'
    rw [← TokenStream.length_kinds, kinds, List.length_append, TokenStream.length_kinds]
    omega

theorem Extends.advance (beside : X.Extends s s') (sees : X.Sees s) :
    X.Extends s.advance s'.advance := by
  refine beside.later s.leads_advance.length_le ?_
  rw [TokenStream.kinds_advance, beside.kinds, TokenStream.kinds_advance]
  obtain same | more := sees
  · rw [same, List.append_nil, List.append_nil]
  · rw [TokenStream.kinds_eq_cons more]
    rfl

/-! ## Sequences -/

theorem keepsAt_pure {a a' : α} (same : view a' = view a) : X.KeepsAt s view (pure a) (pure a') := by
  rintro _ _ ⟨⟩
  exact ⟨.refl s, fun s' beside _ => ⟨a', s', rfl, same, beside⟩⟩

theorem keeps_pure {a a' : α} (same : view a' = view a) : X.Keeps view (pure a) (pure a') :=
  fun _ _ => keepsAt_pure same

theorem keeps_fail (problem : SyntaxProblem) {p' : Parser α} : X.Keeps view (fail problem) p' :=
  fun _ _ _ _ failed => nomatch failed

theorem KeepsAt.bind (first : X.KeepsAt s view p p') (enough : s.ahead.length < X.rounds)
    (next : ∀ a a', view a' = view a → X.Keeps view' (f a) (f' a')) :
    X.KeepsAt s view' (p >>= f) (p' >>= f') := by
  intro b t ran
  obtain ⟨a, mid, ran, rest⟩ := bind_ok ran
  obtain ⟨takes, kept⟩ := first a mid ran
  have enough' : mid.ahead.length < X.rounds := Nat.lt_of_le_of_lt takes.length_le enough
  obtain ⟨takes', -⟩ := next a a rfl mid enough' b t rest
  refine ⟨takes.trans takes', fun s' before sees => ?_⟩
  obtain ⟨a', mid', ran', same, between⟩ := kept s' before (sees.before takes')
  obtain ⟨-, kept'⟩ := next a a' same mid enough' b t rest
  rw [bind_apply, ran']
  exact kept' mid' between sees

theorem Keeps.bind (first : X.Keeps view p p')
    (next : ∀ a a', view a' = view a → X.Keeps view' (f a) (f' a')) :
    X.Keeps view' (p >>= f) (p' >>= f') :=
  fun s enough => (first s enough).bind enough next

/-! ## Steps -/

/-- The token of the second stream may stand elsewhere. -/
theorem keepsAt_current {f f' : Token → Parser α}
    (each : ∀ t, t.kind = s.current.kind → X.KeepsAt s view (f s.current) (f' t)) :
    X.KeepsAt s view (current >>= f) (current >>= f') := by
  intro a t ran
  obtain ⟨takes, -⟩ := each s.current rfl a t ran
  refine ⟨takes, fun s' beside sees => ?_⟩
  have same := beside.current (sees.before takes)
  exact (each s'.current same a t ran).2 s' beside sees

theorem keepsAt_kind {f f' : TokenKind → Parser α}
    (each : X.KeepsAt s view (f s.current.kind) (f' s.current.kind)) :
    X.KeepsAt s view (kind >>= f) (kind >>= f') := by
  change X.KeepsAt s view (current >>= fun t => f t.kind) (current >>= fun t => f' t.kind)
  refine keepsAt_current fun t same => ?_
  rw [same]
  exact each

theorem keepsAt_isAt {k : TokenKind} {f f' : Bool → Parser α}
    (each : X.KeepsAt s view (f (s.current.kind == k)) (f' (s.current.kind == k))) :
    X.KeepsAt s view (isAt k >>= f) (isAt k >>= f') := by
  change X.KeepsAt s view (kind >>= fun k' => f (k' == k)) (kind >>= fun k' => f' (k' == k))
  exact keepsAt_kind each

theorem keepsAt_advance (plain : Closed [s.current.kind]) :
    X.KeepsAt s (id : Unit → Unit) advance advance := by
  rintro _ _ ⟨⟩
  have takes := TokenStream.takes_advance plain
  exact ⟨takes, fun s' beside sees =>
    ⟨(), s'.advance, rfl, rfl, beside.advance (sees.before takes)⟩⟩

theorem KeepsAt.after_advance {f f' : Unit → Parser α} (plain : Closed [s.current.kind])
    (enough : s.ahead.length < X.rounds) (next : X.Keeps view (f ()) (f' ())) :
    X.KeepsAt s view (advance >>= f) (advance >>= f') :=
  (keepsAt_advance plain).bind enough fun _ _ _ => next

theorem keeps_skipNewlines : X.Keeps (id : Unit → Unit) skipNewlines skipNewlines := by
  rintro s _ _ _ ⟨⟩
  have takes := s.takes_skipNewlines
  refine ⟨takes, fun s' beside sees => ⟨(), _, rfl, rfl, beside.later takes.length_le ?_⟩⟩
  rw [TokenStream.kinds_dropWhile, beside.kinds]
  obtain noMore | more := sees
  · rw [noMore, List.append_nil, List.append_nil, TokenStream.kinds_dropWhile]
  · rw [List.dropWhile_append, ← TokenStream.kinds_dropWhile,
      if_neg (by simpa [TokenStream.kinds] using more)]

theorem keeps_expect (symbol : Symbol) :
    X.Keeps (id : Unit → Unit) (expect (.symbol symbol)) (expect (.symbol symbol)) := by
  intro s enough
  refine keepsAt_isAt ?_
  cases here : s.current.kind == .symbol symbol with
  | false => exact keeps_fail _ s enough
  | true =>
      refine keepsAt_advance ?_
      rw [beq_symbol_iff.mp here]
      exact .singleton rfl rfl

theorem keeps_identOr (problem : SyntaxProblem) :
    X.Keeps Ident.forgetPosition (identOr problem) (identOr problem) := by
  intro s enough
  refine keepsAt_current fun t same => ?_
  rw [same]
  split
  · rename_i here
    exact .after_advance (here ▸ .singleton rfl rfl) enough (keeps_pure rfl)
  · exact keeps_fail _ s enough

/-- Both loops go on as long as they ask for it. -/
theorem keeps_iterate {step step' : β → Parser (β × Bool)} {view : β → γ}
    (keeps : ∀ value value', view value' = view value →
      X.Keeps (fun round => (view round.1, round.2)) (step value) (step' value'))
    (asks : ∀ value s, AsksAt s (step value)) (asks' : ∀ value s, AsksAt s (step' value))
    {value value' : β} (same : view value' = view value) :
    X.Keeps view (iterate step X.rounds value) (iterate step' X.rounds' value') := by
  intro s enough
  induction n : s.ahead.length using Nat.strongRecOn generalizing value value' s with
  | ind n ih =>
      subst n
      intro a t ran
      rw [iterate_unfold asks enough] at ran
      obtain ⟨⟨next, again⟩, mid, first, rest⟩ := bind_ok ran
      obtain ⟨takes, kept⟩ := keeps value value' same s enough _ _ first
      have step' : ∀ s', X.Extends s s' → X.Sees mid → ∃ next' mid', view next' = view next ∧
          X.Extends mid mid' ∧ iterate step' X.rounds' value' s' =
            (if again then iterate step' X.rounds' next' else pure next') mid' := by
        intro s' beside sees
        obtain ⟨⟨next', again'⟩, mid', ran', views, between⟩ := kept s' beside sees
        obtain ⟨sameNext, rfl⟩ := Prod.mk.inj views
        refine ⟨next', mid', sameNext, between, ?_⟩
        rw [iterate_unfold asks' beside.enough', bind_apply, ran']
      cases again with
      | false =>
          cases rest
          refine ⟨takes, fun s' beside sees => ?_⟩
          obtain ⟨next', mid', sameNext, between, ran'⟩ := step' s' beside sees
          exact ⟨next', mid', ran', sameNext, between⟩
      | true =>
          have shorter := (asks value s next mid first).shorter
          have enough' := Nat.lt_trans shorter enough
          obtain ⟨takes', -⟩ := ih _ shorter (rfl : view next = view next) mid enough' rfl a t rest
          refine ⟨takes.trans takes', fun s' beside sees => ?_⟩
          obtain ⟨next', mid', sameNext, between, ran'⟩ := step' s' beside (sees.before takes')
          rw [ran']
          exact (ih _ shorter sameNext mid enough' rfl a t rest).2 mid' between sees

/-! ## The parsers of a level -/

/-- The expressions of two levels. -/
structure Levels (X : Extension) (inner inner' : Level) : Prop where
  expression : X.Keeps Expr.forgetPositions inner.expression inner'.expression
  operand : X.Keeps Expr.forgetPositions inner.operand inner'.operand
  consuming : inner.Consuming
  consuming' : inner'.Consuming
  /-- No expression begins where an interpolation ends. -/
  nonblank : ∀ {s e t}, inner'.expression s = .ok (e, t) → s.current.kind ≠ .interpolationEnd

/-- The expressions of a list, wherever their names stand. -/
abbrev forgetAll : List Expr → List Expr :=
  List.map Expr.forgetPositions

/-- The properties of an object, wherever the names in them stand. -/
abbrev forgetValues : List (String × Expr) → List (String × Expr) :=
  List.map fun property => (property.1, property.2.forgetPositions)

namespace Levels

variable {inner inner' : Level}

theorem keeps_comma : X.Keeps (id : Bool → Bool) comma comma := by
  refine keeps_skipNewlines.bind fun _ _ _ s enough => keepsAt_isAt ?_
  cases here : s.current.kind == .symbol .comma with
  | false => exact keepsAt_pure rfl
  | true =>
      have plain : Closed [s.current.kind] := by
        rw [beq_symbol_iff.mp here]
        exact .singleton rfl rfl
      exact .after_advance plain enough (keeps_skipNewlines.bind fun _ _ _ => keeps_pure rfl)

/-- After an item it is asked whether a comma promises another one. -/
theorem keeps_asks {view : β → γ} {items items' : β} (same : view items' = view items) :
    X.Keeps (fun round => (view round.1, round.2)) (do return (items, ← comma))
      (do return (items', ← comma)) := by
  refine keeps_comma.bind fun again again' sameAgain => keeps_pure ?_
  obtain rfl : again' = again := sameAgain
  exact Prod.ext same rfl

theorem keeps_closing (close : Symbol) {view : β → γ} {value value' : β}
    (same : view value' = view value) : X.Keeps view (do expect (.symbol close); return value)
      (do expect (.symbol close); return value') :=
  (keeps_expect close).bind fun _ _ _ => keeps_pure same

theorem keeps_nextArg (levels : X.Levels inner inner') {args args' : List Expr}
    (same : forgetAll args' = forgetAll args) :
    X.Keeps (fun round => (forgetAll round.1, round.2)) (nextArg inner args)
      (nextArg inner' args') := by
  refine levels.expression.bind fun arg arg' sameArg => keeps_asks ?_
  exact congrArg₂ List.cons sameArg same

theorem keeps_callArgs (levels : X.Levels inner inner') :
    X.Keeps forgetAll (callArgs X.rounds inner) (callArgs X.rounds' inner') := by
  have asks := fun args s => (consumes_nextArg levels.consuming args s).asksAt
  have asks' := fun args s => (consumes_nextArg levels.consuming' args s).asksAt
  have close : ∀ args args' : List Expr, forgetAll args' = forgetAll args → X.Keeps forgetAll
      (do expect (.symbol .rightParen); return args.reverse)
      (do expect (.symbol .rightParen); return args'.reverse) := by
    intro args args' same
    refine keeps_closing _ ?_
    simpa only [forgetAll, List.map_reverse, List.reverse_inj] using same
  refine (keeps_expect _).bind fun _ _ _ => keeps_skipNewlines.bind fun _ _ _ s enough => ?_
  refine keepsAt_isAt ?_
  cases s.current.kind == .symbol .rightParen with
  | true => exact ((keeps_pure rfl).bind close) s enough
  | false =>
      exact ((keeps_iterate (fun _ _ => levels.keeps_nextArg) asks asks' rfl).bind close) s enough

theorem keeps_nextItem (levels : X.Levels inner inner') {items items' : List Expr}
    (same : forgetAll items' = forgetAll items) :
    X.Keeps (fun round => (forgetAll round.1, round.2)) (nextItem inner items)
      (nextItem inner' items') := by
  intro s enough
  refine keepsAt_isAt ?_
  cases s.current.kind == .symbol .rightBracket with
  | true => exact keepsAt_pure (Prod.ext same rfl)
  | false =>
      refine (levels.expression.bind fun item item' sameItem => keeps_asks ?_) s enough
      exact congrArg₂ List.cons sameItem same

theorem keeps_arrayLiteral (levels : X.Levels inner inner') :
    X.Keeps Expr.forgetPositions (arrayLiteral X.rounds inner) (arrayLiteral X.rounds' inner') := by
  have items := keeps_iterate (fun _ _ => levels.keeps_nextItem) (asksAt_nextItem levels.consuming)
    (asksAt_nextItem levels.consuming') (rfl : forgetAll [] = forgetAll [])
  refine (keeps_expect _).bind fun _ _ _ => keeps_skipNewlines.bind fun _ _ _ => ?_
  refine items.bind fun items items' same => keeps_closing _ ?_
  simp only [Expr.forgetPositions, Expr.forgetEach_eq_map, List.map_reverse, same]

theorem keeps_propertyKey : X.Keeps (id : String → String) propertyKey propertyKey := by
  intro s enough
  refine keepsAt_kind ?_
  split
  · rename_i here
    exact .after_advance (here ▸ .singleton rfl rfl) enough (keeps_pure rfl)
  · rename_i here
    exact .after_advance (here ▸ .singleton rfl rfl) enough (keeps_pure rfl)
  · rename_i here
    exact .after_advance (here ▸ .singleton rfl rfl) enough (keeps_pure rfl)
  · exact keeps_fail _ s enough

theorem keeps_nextProperty (levels : X.Levels inner inner')
    {properties properties' : List (String × Expr)}
    (same : forgetValues properties' = forgetValues properties) :
    X.Keeps (fun round => (forgetValues round.1, round.2)) (nextProperty inner properties)
      (nextProperty inner' properties') := by
  intro s enough
  refine keepsAt_isAt ?_
  cases s.current.kind == .symbol .rightBrace with
  | true => exact keepsAt_pure (Prod.ext same rfl)
  | false =>
      refine (keeps_propertyKey.bind fun key key' sameKey => (keeps_expect _).bind fun _ _ _ =>
        levels.expression.bind fun value value' sameValue => keeps_asks ?_) s enough
      obtain rfl : key' = key := sameKey
      exact congrArg₂ List.cons (Prod.ext rfl sameValue) same

theorem keeps_objectLiteral (levels : X.Levels inner inner') :
    X.Keeps Expr.forgetPositions (objectLiteral X.rounds inner)
      (objectLiteral X.rounds' inner') := by
  have properties := keeps_iterate (fun _ _ => levels.keeps_nextProperty)
    (asksAt_nextProperty levels.consuming) (asksAt_nextProperty levels.consuming')
    (rfl : forgetValues [] = forgetValues [])
  refine (keeps_expect _).bind fun _ _ _ => keeps_skipNewlines.bind fun _ _ _ => ?_
  refine properties.bind fun properties properties' same => keeps_closing _ ?_
  simp only [Expr.forgetPositions, Expr.forgetProperties_eq_map, List.map_reverse, same]

/-! ### Template literals -/

/-- An interpolation with both markers. -/
theorem keepsAt_interpolation (levels : X.Levels inner inner')
    (opens : s.current.kind = .interpolationStart) (enough : s.ahead.length < X.rounds) :
    X.KeepsAt s (Option.map Expr.forgetPositions) (do advance; interpolation inner)
      (do advance; interpolation inner') := by
  intro value t ran
  have start : s.ahead ≠ [] := TokenStream.ahead_ne_nil (opens ▸ TokenKind.noConfusion)
  have begins := TokenStream.kinds_eq_cons start
  rw [opens] at begins
  rw [advance_bind] at ran
  obtain ⟨closes, rfl, rfl⟩ | ⟨e, mid, read, closes, rfl, rfl⟩ := interpolation_cases ran
  · have more : s.advance.ahead ≠ [] :=
      TokenStream.ahead_ne_nil (closes ▸ TokenKind.noConfusion)
    have ends := TokenStream.kinds_eq_cons more
    rw [closes] at ends
    refine ⟨⟨[.interpolationStart, .interpolationEnd], by rw [begins, ends]; rfl,
      .enclosed rfl rfl rfl rfl .nil⟩, fun s' beside _ => ?_⟩
    have inside := beside.advance (.inr start)
    have closes' := (inside.current (.inr more)).trans closes
    exact ⟨none, s'.advance.advance, interpolation_blank closes', rfl, inside.advance (.inr more)⟩
  · have shorter : s.advance.ahead.length < X.rounds :=
      Nat.lt_of_le_of_lt s.leads_advance.length_le enough
    obtain ⟨⟨taken, same, closed⟩, kept⟩ := levels.expression _ shorter e mid read
    have more : mid.ahead ≠ [] := TokenStream.ahead_ne_nil (closes ▸ TokenKind.noConfusion)
    have ends := TokenStream.kinds_eq_cons more
    rw [closes] at ends
    refine ⟨⟨.interpolationStart :: taken ++ [.interpolationEnd], ?_,
      .enclosed rfl rfl rfl rfl closed⟩, fun s' beside _ => ?_⟩
    · rw [begins, same, ends]
      simp
    · have inside := beside.advance (.inr start)
      obtain ⟨e', mid', read', sameValue, between⟩ := kept s'.advance inside (.inr more)
      have closes' := (between.current (.inr more)).trans closes
      refine ⟨some e', mid'.advance, ?_, congrArg some sameValue, between.advance (.inr more)⟩
      exact interpolation_slot (levels.nonblank read') read' closes'

theorem keeps_nextPart (levels : X.Levels inner inner') {parts parts' : List Expr}
    (same : forgetAll parts' = forgetAll parts) :
    X.Keeps (fun round => (forgetAll round.1, round.2)) (nextPart inner parts)
      (nextPart inner' parts') := by
  intro s enough
  refine keepsAt_kind ?_
  split
  · rename_i text here
    refine .after_advance (here ▸ .singleton rfl rfl) enough fun s _ => keepsAt_isAt ?_
    exact keepsAt_pure (Prod.ext (congrArg (Expr.literal (.string text) :: ·) same) rfl)
  · rename_i here
    rw [← bind_assoc, ← bind_assoc]
    refine (levels.keepsAt_interpolation here enough).bind enough fun value value' sameValue s _ => ?_
    have sameParts : forgetAll (value'.toList ++ parts') = forgetAll (value.toList ++ parts) := by
      simp only [forgetAll, List.map_append, ← Option.toList_map, sameValue] at same ⊢
      rw [same]
    refine keepsAt_kind ?_
    split <;> exact keepsAt_pure (Prod.ext sameParts rfl)
  · exact keepsAt_pure (Prod.ext same rfl)

/-- Joining parts has nothing to do with positions. -/
theorem forgetPositions_joined (parts : List Expr) :
    (joined parts).forgetPositions = joined (forgetAll parts) := by
  have summed : ∀ (left : Expr) (rest : List Expr),
      (rest.foldl (fun left right => .binary left .add right) left).forgetPositions =
        (forgetAll rest).foldl (fun left right => .binary left .add right) left.forgetPositions := by
    intro left rest
    induction rest generalizing left with
    | nil => rfl
    | cons e rest ih => exact ih _
  cases parts with
  | nil => rfl
  | cons first rest =>
      cases first with
      | literal value => cases value <;> exact summed _ _
      | _ => exact summed _ _

theorem keeps_templateLiteral (levels : X.Levels inner inner') :
    X.Keeps Expr.forgetPositions (templateLiteral X.rounds inner)
      (templateLiteral X.rounds' inner') := by
  have parts := keeps_iterate (fun _ _ => levels.keeps_nextPart)
    (Comparison.Levels.asksAt_nextPart levels.consuming)
    (Comparison.Levels.asksAt_nextPart levels.consuming') (rfl : forgetAll [] = forgetAll [])
  refine parts.bind fun parts parts' same => keeps_pure ?_
  rw [forgetPositions_joined, forgetPositions_joined]
  refine congrArg joined ?_
  simpa only [forgetAll, List.map_reverse, List.reverse_inj] using same

/-! ### Operands -/

theorem keeps_parenthesized (levels : X.Levels inner inner') :
    X.Keeps Expr.forgetPositions (parenthesized inner) (parenthesized inner') :=
  (keeps_expect _).bind fun _ _ _ => levels.expression.bind fun _ _ same => keeps_closing _ same

theorem keeps_primary (levels : X.Levels inner inner') :
    X.Keeps Expr.forgetPositions (primary X.rounds inner) (primary X.rounds' inner') := by
  intro s enough
  refine keepsAt_current fun t same => ?_
  have taken : ∀ (value value' : Expr), value'.forgetPositions = value.forgetPositions →
      Closed [s.current.kind] → X.KeepsAt s Expr.forgetPositions (do advance; return value)
        (do advance; return value') := fun value value' alike plain =>
    .after_advance plain enough (keeps_pure alike)
  dsimp only
  rw [same]
  split
  -- eight kinds of tokens are expressions by themselves
  iterate 8
    · rename_i here
      exact taken _ _ rfl (here ▸ .singleton rfl rfl)
  · exact levels.keeps_templateLiteral s enough
  · exact levels.keeps_templateLiteral s enough
  · exact levels.keeps_parenthesized s enough
  · exact levels.keeps_arrayLiteral s enough
  · exact levels.keeps_objectLiteral s enough
  · exact keeps_fail _ s enough

theorem forgetPositions_stepped (target : Ident) (op : BinaryOp) :
    (stepped target op).forgetPositions = stepped target.forgetPosition op :=
  rfl

/-- The step operators are no markers. -/
theorem closed_of_stepOp? {k : TokenKind} {op : BinaryOp} (is : stepOp? k = some op) :
    Closed [k] := by
  cases k with
  | symbol => exact .singleton rfl rfl
  | _ => cases is

theorem keeps_nextSuffix (levels : X.Levels inner inner') {value value' : Expr}
    (same : value'.forgetPositions = value.forgetPositions) :
    X.Keeps (fun round => (round.1.forgetPositions, round.2)) (nextSuffix X.rounds inner value)
      (nextSuffix X.rounds' inner' value') := by
  intro s enough
  refine keepsAt_kind ?_
  split
  · refine (levels.keeps_callArgs.bind fun args args' sameArgs => keeps_pure ?_) s enough
    simp only [Expr.forgetPositions, Expr.forgetEach_eq_map, same, sameArgs]
  · rename_i here
    refine .after_advance (here ▸ .singleton rfl rfl) enough ?_
    refine (keeps_identOr _).bind fun property property' sameProperty => keeps_pure ?_
    simp only [Expr.forgetPositions, same, sameProperty]
  · split
    · exact keepsAt_pure (Prod.ext same rfl)
    · rename_i op is
      split
      · rename_i target
        obtain ⟨target', rfl, sameName⟩ := eq_ident_of_forgetPositions same
        refine .after_advance (closed_of_stepOp? is) enough (keeps_pure ?_)
        simp only [forgetPositions_stepped, Ident.forgetPosition, sameName]
      · exact keeps_fail _ s enough

theorem keeps_postfixed (levels : X.Levels inner inner') :
    X.Keeps Expr.forgetPositions (postfixed X.rounds inner) (postfixed X.rounds' inner') :=
  levels.keeps_primary.bind fun _ _ same =>
    keeps_iterate (fun _ _ => levels.keeps_nextSuffix) (asksAt_nextSuffix levels.consuming)
      (asksAt_nextSuffix levels.consuming') same

theorem keeps_prefixed (levels : X.Levels inner inner') :
    X.Keeps Expr.forgetPositions (prefixed X.rounds inner) (prefixed X.rounds' inner') := by
  intro s enough
  refine keepsAt_kind ?_
  split
  · rename_i here
    refine .after_advance (here ▸ .singleton rfl rfl) enough ?_
    exact levels.operand.bind fun _ _ same => keeps_pure (congrArg (Expr.unary .not) same)
  · rename_i here
    refine .after_advance (here ▸ .singleton rfl rfl) enough ?_
    exact levels.operand.bind fun _ _ same => keeps_pure (congrArg (Expr.unary .neg) same)
  · split
    · exact levels.keeps_postfixed s enough
    · rename_i op is
      refine .after_advance (closed_of_stepOp? is) enough ?_
      refine levels.keeps_postfixed.bind fun value value' same => ?_
      split
      · rename_i target
        obtain ⟨target', rfl, sameName⟩ := eq_ident_of_forgetPositions same
        refine keeps_pure ?_
        simp only [forgetPositions_stepped, Ident.forgetPosition, sameName]
      · exact keeps_fail _

/-- The binary operators are no markers. -/
theorem closed_of_binaryOp? {k : TokenKind} {found : BinaryOp × Nat × Nat}
    (is : binaryOp? k = some found) : Closed [k] := by
  cases k with
  | symbol => exact .singleton rfl rfl
  | _ => cases is

theorem keeps_joinRight {right right' : Nat → Parser Expr}
    (keeps : ∀ power, X.Keeps Expr.forgetPositions (right power) (right' power)) (power : Nat)
    {left left' : Expr} (same : left'.forgetPositions = left.forgetPositions) :
    X.Keeps (fun round => (round.1.forgetPositions, round.2)) (joinRight right power left)
      (joinRight right' power left') := by
  intro s enough
  refine keepsAt_kind ?_
  split
  · exact keepsAt_pure (Prod.ext same rfl)
  · rename_i op leftPower rightPower is
    split
    · exact keepsAt_pure (Prod.ext same rfl)
    · refine .after_advance (closed_of_binaryOp? is) enough ?_
      refine (keeps _).bind fun operand operand' sameOperand => keeps_pure ?_
      simp only [Expr.forgetPositions, same, sameOperand]

theorem keeps_binary (levels : X.Levels inner inner') (steps power : Nat) :
    X.Keeps Expr.forgetPositions (binary X.rounds inner steps power)
      (binary X.rounds' inner' steps power) := by
  induction steps generalizing power with
  | zero => exact levels.keeps_prefixed
  | succ steps ih =>
      have forward := fun power =>
        (consumes_binary levels.consuming X.positive steps power).forward
      have forward' := fun power =>
        (consumes_binary levels.consuming' X.positive' steps power).forward
      refine levels.keeps_prefixed.bind fun first first' same => ?_
      exact keeps_iterate (fun _ _ => keeps_joinRight ih power) (asksAt_joinRight forward power)
        (asksAt_joinRight forward' power) same

/-- The assignment operators are no markers. -/
theorem closed_of_assignment? {k : TokenKind} {op : Option BinaryOp}
    (is : assignment? k = some op) : Closed [k] := by
  cases k with
  | symbol => exact .singleton rfl rfl
  | _ => cases is

theorem keeps_expressionBody (levels : X.Levels inner inner') :
    X.Keeps Expr.forgetPositions (expressionBody X.rounds inner)
      (expressionBody X.rounds' inner') := by
  refine (levels.keeps_binary powerSteps 0).bind fun left left' same s enough => keepsAt_kind ?_
  split
  · exact keepsAt_pure same
  · rename_i op is
    split
    · rename_i target
      obtain ⟨target', rfl, sameName⟩ := eq_ident_of_forgetPositions same
      refine .after_advance (closed_of_assignment? is) enough ?_
      refine levels.expression.bind fun right right' sameRight => keeps_pure ?_
      cases op <;> simp only [Expr.forgetPositions, Ident.forgetPosition, sameName, sameRight]
    · exact keeps_fail _ s enough

end Levels

/-- Levels at which equally much may still be nested. -/
theorem levels_level (X : Extension) (depth : Nat) :
    X.Levels (level X.rounds depth) (level X.rounds' depth) := by
  have nonblank : ∀ depth {s e t}, (level X.rounds' depth).expression s = .ok (e, t) →
      s.current.kind ≠ .interpolationEnd := by
    intro depth s e t read here
    obtain ⟨error, failed⟩ := expression_at_interpolationEnd X.rounds' depth here
    cases failed.symm.trans read
  induction depth with
  | zero =>
      exact
        { expression := keeps_fail _
          operand := keeps_fail _
          consuming := level_consuming X.positive 0
          consuming' := level_consuming X.positive' 0
          nonblank := nonblank 0 }
  | succ depth ih =>
      exact
        { expression := ih.keeps_expressionBody
          operand := ih.keeps_binary powerSteps unaryPower
          consuming := level_consuming X.positive (depth + 1)
          consuming' := level_consuming X.positive' (depth + 1)
          nonblank := nonblank (depth + 1) }

end Extension

end Parser

end MinangScript
