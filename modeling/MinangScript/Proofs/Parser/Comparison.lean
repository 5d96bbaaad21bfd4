import MinangScript.Proofs.Parser.Progress

/-! # Two parses side by side

The same tokens are read twice, with bounds on the rounds of loops that may differ, and in the second
stream more tokens may stand behind those of the first one. If there are none, both parses come to
the same end. If there are some, a separator is the first of them; then a value that the first parse
gives is given by the second one too, which has the additional tokens still ahead. The difficulty is
the end of the first stream: a parser that skips line feeds there skips a part of what is behind it
in the second stream. Where that happens, the first parse has to fail in what it does next.
-/

namespace MinangScript

namespace Parser

open Reader (iterate)
open TokenStream (Leads Passes)

variable {α β : Type}

/-- How two parses differ: in the bounds on their rounds, and in the tokens that only the second
    stream has. -/
structure Comparison where
  rounds : Nat
  rounds' : Nat
  more : List Token
  positive : 0 < rounds
  positive' : 0 < rounds'
  separates : ∀ t ∈ more.head?, isSeparator t.kind = true
  /-- Nothing behind the first stream belongs to a conditional at its end. -/
  noBranch : ∀ t ∈ (more.dropWhile fun t => isNewline t.kind).head?,
    t.kind ≠ .keyword .elseWord ∧ t.kind ≠ .keyword .elseIfWord

namespace Comparison

variable (C : Comparison)

/-- The second stream is the first one with more tokens behind it, if there are more. -/
structure Beside (s s' : TokenStream) : Prop where
  ahead : s'.ahead = s.ahead ++ C.more
  stop : C.more = [] → s'.stop = s.stop
  noEnd : C.more ≠ [] → ∀ t ∈ s.ahead, t.kind ≠ .endOfText
  enough : s.ahead.length < C.rounds
  enough' : s'.ahead.length < C.rounds'

/-- Nothing is left of the first stream, but something of the second one. -/
structure Spent (s : TokenStream) : Prop where
  ahead : s.ahead = []
  goesOn : C.more ≠ []

/-- What the second parse has to do with the first one, which begins at `s`. Where it is `loose`, all
    is lost once the first stream is spent. -/
inductive Follows (loose : Prop) (s : TokenStream) :
    Except SyntaxError (α × TokenStream) → Except SyntaxError (α × TokenStream) → Prop where
  | ok {a : α} {t t' : TokenStream} (leads : Leads s t) (beside : C.Beside t t') :
      Follows loose s (.ok (a, t)) (.ok (a, t'))
  | error {e : SyntaxError} {o' : Except SyntaxError (α × TokenStream)}
      (same : C.more = [] → o' = .error e ∧ ∃ t, Leads s t ∧ e.token = t.current) :
      Follows loose s (.error e) o'
  | spent {a : α} {t : TokenStream} {o' : Except SyntaxError (α × TokenStream)} (allowed : loose)
      (leads : Leads s t) (spent : C.Spent t) : Follows loose s (.ok (a, t)) o'

/-- The parsers follow each other from streams that are beside each other. -/
def Sim (loose : Prop) (p p' : Parser α) : Prop :=
  ∀ s s', C.Beside s s' → C.Follows loose s (p s) (p' s')

/-- The parsers follow each other as long as the first stream is not spent, so that the next token
    is the same for both. -/
def SimAhead (loose : Prop) (p p' : Parser α) : Prop :=
  ∀ s s', C.Beside s s' → ¬C.Spent s → C.Follows loose s (p s) (p' s')

end Comparison

/-- The parser fails where nothing is left to read. -/
def FailsAtEnd (p : Parser α) : Prop :=
  ∀ s, s.ahead = [] → ∃ e, p s = .error e

theorem Consumes.failsAtEnd {p : Parser α} (consumes : Consumes p) : FailsAtEnd p := by
  intro s ended
  cases ran : p s with
  | error e => exact ⟨e, rfl⟩
  | ok result =>
      have shorter := (consumes s result.1 result.2 ran).shorter
      rw [ended] at shorter
      exact absurd shorter (Nat.not_lt_zero _)

namespace Comparison

variable {C : Comparison} {loose : Prop} {s s' : TokenStream}

/-! ## The next token -/

theorem Beside.eq (beside : C.Beside s s') (same : C.more = []) : s' = s := by
  obtain ⟨ahead, stop⟩ := s
  obtain ⟨ahead', stop'⟩ := s'
  have same' := beside.ahead
  rw [same, List.append_nil] at same'
  obtain rfl : ahead' = ahead := same'
  obtain rfl : stop' = stop := beside.stop same
  rfl

theorem Beside.current (beside : C.Beside s s') (left : ¬C.Spent s) : s'.current = s.current := by
  by_cases same : C.more = []
  · rw [beside.eq same]
  · cases all : s.ahead with
    | nil => exact absurd ⟨all, same⟩ left
    | cons t rest => simp [TokenStream.current, beside.ahead, all]

theorem Beside.ended (spent : C.Spent s) : s.current.kind = .endOfText := by
  simp [TokenStream.current, spent.ahead]

theorem more_of_not_spent (left : ¬C.Spent s) (ended : s.ahead = []) : C.more = [] :=
  Classical.byContradiction fun goesOn => left ⟨ended, goesOn⟩

/-- Behind the first stream comes a separator. -/
theorem Beside.separator (beside : C.Beside s s') (spent : C.Spent s) :
    isSeparator s'.current.kind = true := by
  have ahead := beside.ahead
  rw [spent.ahead, List.nil_append] at ahead
  cases all : C.more with
  | nil => exact absurd all spent.goesOn
  | cons t rest =>
      rw [TokenStream.current, ahead, all]
      exact C.separates t (by simp [all])

/-- A later part of the first stream, with the same part of the second one. -/
theorem Beside.later (beside : C.Beside s s') {t t' : TokenStream} (leads : Leads s t)
    (ahead : t'.ahead = t.ahead ++ C.more) (stop : t'.stop = s'.stop) : C.Beside t t' where
  ahead := ahead
  stop := fun same => by rw [stop, leads.stop, beside.stop same]
  noEnd := fun goesOn t member => beside.noEnd goesOn t (leads.ahead.subset member)
  enough := Nat.lt_of_le_of_lt leads.length_le beside.enough
  enough' := by
    have shorter := leads.length_le
    have enough' := beside.enough'
    rw [beside.ahead, List.length_append] at enough'
    rw [ahead, List.length_append]
    omega

theorem Beside.advance (beside : C.Beside s s') (left : ¬C.Spent s) :
    C.Beside s.advance s'.advance := by
  refine beside.later s.leads_advance ?_ rfl
  cases all : s.ahead with
  | nil => simp [TokenStream.advance, beside.ahead, all, more_of_not_spent left all]
  | cons t rest => simp [TokenStream.advance, beside.ahead, all]

/-- Skipping stops at the same token of both streams, or else the first one is spent. -/
theorem Beside.dropWhile (beside : C.Beside s s') (skip : TokenKind → Bool) :
    C.Spent (s.dropWhile skip) ∨
      ¬C.Spent (s.dropWhile skip) ∧ C.Beside (s.dropWhile skip) (s'.dropWhile skip) := by
  by_cases spent : C.Spent (s.dropWhile skip)
  · exact .inl spent
  · refine .inr ⟨spent, beside.later (s.leads_dropWhile skip) ?_ rfl⟩
    simp only [TokenStream.dropWhile, beside.ahead, List.dropWhile_append]
    split
    · rename_i isEmpty
      have empty := List.isEmpty_iff.mp isEmpty
      simp [empty, more_of_not_spent spent empty]
    · rfl

/-! ## Sequences -/

theorem Follows.after {t : TokenStream} {o o' : Except SyntaxError (α × TokenStream)}
    (leads : Leads s t) (follows : C.Follows loose t o o') : C.Follows loose s o o' := by
  cases follows with
  | ok later beside => exact .ok (leads.trans later) beside
  | error same =>
      refine .error fun noMore => ?_
      obtain ⟨failed, u, later, here⟩ := same noMore
      exact ⟨failed, u, leads.trans later, here⟩
  | spent allowed later spent => exact .spent allowed (leads.trans later) spent

/-- From a spent stream a parser cannot get away. -/
theorem follows_of_spent {p : Parser α} (forward : Forward p) (spent : C.Spent s)
    (o' : Except SyntaxError (α × TokenStream)) : C.Follows True s (p s) o' := by
  cases ran : p s with
  | error e => exact .error fun noMore => absurd noMore spent.goesOn
  | ok result =>
      have leads := forward s result.1 result.2 ran
      have ended := leads.ahead
      rw [spent.ahead, List.suffix_nil] at ended
      exact .spent trivial leads ⟨ended, spent.goesOn⟩

theorem follows_of_failsAtEnd {p : Parser α} (fails : FailsAtEnd p) (spent : C.Spent s)
    (o' : Except SyntaxError (α × TokenStream)) : C.Follows loose s (p s) o' := by
  obtain ⟨e, failed⟩ := fails s spent.ahead
  rw [failed]
  exact .error fun noMore => absurd noMore spent.goesOn

/-- Without additional tokens both come to the same end, and an error is about the next token of what
    was left. -/
theorem Follows.same {o o' : Except SyntaxError (α × TokenStream)}
    (follows : C.Follows loose s o o') (noMore : C.more = []) :
    o' = o ∧ ∀ e, o = .error e → ∃ t, Leads s t ∧ e.token = t.current := by
  cases follows with
  | ok leads beside => exact ⟨by rw [beside.eq noMore], fun e failed => by cases failed⟩
  | error same =>
      obtain ⟨failed, found⟩ := same noMore
      exact ⟨failed, fun e is => Except.error.inj is ▸ found⟩
  | spent allowed leads spent => exact absurd noMore spent.goesOn

/-- What comes after a spent stream is up to the caller. -/
theorem Follows.bind {loose' : Prop} {p p' : Parser α} {f f' : α → Parser β}
    (first : C.Follows loose s (p s) (p' s'))
    (next : ∀ a t t', p s = .ok (a, t) → C.Beside t t' → C.Follows loose' t (f a t) (f' a t'))
    (ended : ∀ a t, loose → C.Spent t → ∀ o', C.Follows loose' t (f a t) o') :
    C.Follows loose' s ((p >>= f) s) ((p' >>= f') s') := by
  rw [bind_apply, bind_apply]
  generalize p s = o at first next
  generalize p' s' = o' at first
  cases first with
  | ok leads beside => exact (next _ _ _ rfl beside).after leads
  | error same =>
      refine .error fun noMore => ?_
      obtain ⟨rfl, found⟩ := same noMore
      exact ⟨rfl, found⟩
  | spent allowed leads spent => exact (ended _ _ allowed spent _).after leads

variable {p p' : Parser α} {f f' : α → Parser β}

theorem Sim.ahead (sim : C.Sim loose p p') : C.SimAhead loose p p' :=
  fun s s' beside _ => sim s s' beside

/-- A parser that needs a token needs to be looked at only where there is one. -/
theorem SimAhead.sim (sim : C.SimAhead loose p p') (fails : FailsAtEnd p) : C.Sim loose p p' := by
  intro s s' beside
  by_cases spent : C.Spent s
  · exact follows_of_failsAtEnd fails spent _
  · exact sim s s' beside spent

theorem Sim.bind (first : C.Sim False p p') (next : ∀ a, C.Sim loose (f a) (f' a)) :
    C.Sim loose (p >>= f) (p' >>= f') :=
  fun s s' beside => (first s s' beside).bind (fun a t t' _ => next a t t') fun _ _ => False.elim

theorem SimAhead.bind (first : C.SimAhead False p p') (next : ∀ a, C.Sim loose (f a) (f' a)) :
    C.SimAhead loose (p >>= f) (p' >>= f') :=
  fun s s' beside left =>
    (first s s' beside left).bind (fun a t t' _ => next a t t') fun _ _ => False.elim

theorem Sim.bind_loose (first : C.Sim True p p') (next : ∀ a, C.Sim True (f a) (f' a))
    (forward : ∀ a, Forward (f a)) : C.Sim True (p >>= f) (p' >>= f') :=
  fun s s' beside => (first s s' beside).bind (fun a t t' _ => next a t t') fun a _ _ spent =>
    follows_of_spent (forward a) spent

/-- What needs a token closes what was loose. -/
theorem Sim.close (first : C.Sim True p p') (next : ∀ a, C.Sim loose (f a) (f' a))
    (fails : ∀ a, FailsAtEnd (f a)) : C.Sim loose (p >>= f) (p' >>= f') :=
  fun s s' beside => (first s s' beside).bind (fun a t t' _ => next a t t') fun a _ _ spent =>
    follows_of_failsAtEnd (fails a) spent

/-! ## Steps -/

theorem sim_pure (a : α) : C.Sim loose (pure a) (pure a) :=
  fun s _ beside => .ok (Leads.refl s) beside

theorem sim_fail (problem : SyntaxProblem) :
    C.Sim loose (fail problem : Parser α) (fail problem) := by
  intro s s' beside
  refine .error fun noMore => ?_
  rw [beside.eq noMore]
  exact ⟨rfl, s, Leads.refl s, rfl⟩

theorem simAhead_advance : C.SimAhead loose advance advance :=
  fun s _ beside left => .ok s.leads_advance (beside.advance left)

theorem simAhead_current {f f' : Token → Parser α} (each : ∀ t, C.SimAhead loose (f t) (f' t)) :
    C.SimAhead loose (current >>= f) (current >>= f') := by
  intro s s' beside left
  rw [current_bind, current_bind, beside.current left]
  exact each _ s s' beside left

theorem simAhead_kind {f f' : TokenKind → Parser α} (each : ∀ k, C.SimAhead loose (f k) (f' k)) :
    C.SimAhead loose (kind >>= f) (kind >>= f') := by
  intro s s' beside left
  rw [kind_bind, kind_bind, beside.current left]
  exact each _ s s' beside left

theorem simAhead_isAt {k : TokenKind} {f f' : Bool → Parser α}
    (each : ∀ found, C.SimAhead loose (f found) (f' found)) :
    C.SimAhead loose (isAt k >>= f) (isAt k >>= f') := by
  intro s s' beside left
  rw [isAt_bind, isAt_bind, beside.current left]
  exact each _ s s' beside left

/-- Where the first stream is spent, the first parse sees the end and the second one a separator. -/
theorem sim_kind {f f' : TokenKind → Parser α} (each : ∀ k, C.SimAhead loose (f k) (f' k))
    (ended : ∀ s s' k, C.Beside s s' → C.Spent s → isSeparator k = true →
      C.Follows loose s (f .endOfText s) (f' k s')) :
    C.Sim loose (kind >>= f) (kind >>= f') := by
  intro s s' beside
  by_cases spent : C.Spent s
  · rw [kind_bind, kind_bind, Beside.ended spent]
    exact ended s s' _ beside spent (beside.separator spent)
  · exact simAhead_kind each s s' beside spent

/-- Neither the end of the text nor a separator is of this kind. -/
structure IsInner (k : TokenKind) : Prop where
  endOfText : (TokenKind.endOfText == k) = false
  newline : (TokenKind.newline == k) = false
  semicolon : (TokenKind.symbol .semicolon == k) = false

theorem IsInner.separator {k sep : TokenKind} (inner : IsInner k) (is : isSeparator sep = true) :
    (sep == k) = false := by
  unfold isSeparator at is
  split at is
  · exact inner.newline
  · exact inner.semicolon
  · cases is

theorem sim_isAt {k : TokenKind} {f f' : Bool → Parser α} (inner : IsInner k)
    (yes : C.SimAhead loose (f true) (f' true)) (no : C.Sim loose (f false) (f' false)) :
    C.Sim loose (isAt k >>= f) (isAt k >>= f') := by
  intro s s' beside
  by_cases spent : C.Spent s
  · rw [isAt_bind, isAt_bind, Beside.ended spent, inner.endOfText,
      inner.separator (beside.separator spent)]
    exact no s s' beside
  · refine simAhead_isAt (fun found => ?_) s s' beside spent
    cases found with
    | true => exact yes
    | false => exact no.ahead

theorem sim_skip (skip : TokenKind → Bool) :
    C.Sim True (modify (TokenStream.dropWhile skip) : Parser Unit)
      (modify (TokenStream.dropWhile skip)) := by
  intro s s' beside
  have leads := s.leads_dropWhile skip
  obtain spent | ⟨-, later⟩ := beside.dropWhile skip
  · exact .spent trivial leads spent
  · exact .ok leads later

theorem sim_expect {k : TokenKind} (inner : IsInner k) : C.Sim loose (expect k) (expect k) :=
  sim_isAt inner simAhead_advance (sim_fail _)

/-- A symbol is needed even if it is a separator. -/
theorem sim_expect_symbol (symbol : Symbol) :
    C.Sim loose (expect (.symbol symbol)) (expect (.symbol symbol)) := by
  refine SimAhead.sim (simAhead_isAt fun found => ?_) (consumes_expect_symbol symbol).failsAtEnd
  cases found with
  | true => exact simAhead_advance
  | false => exact (sim_fail _).ahead

theorem sim_identOr (problem : SyntaxProblem) : C.Sim loose (identOr problem) (identOr problem) := by
  refine SimAhead.sim (simAhead_current fun t => ?_) (consumes_identOr problem).failsAtEnd
  split
  · exact simAhead_advance.bind fun _ => sim_pure _
  · exact (sim_fail _).ahead

/-! ## Loops -/

/-- Either bound is large enough for its stream, so both loops go on as long as they ask for it. -/
theorem sim_iterate {step step' : β → Parser (β × Bool)}
    (sim : ∀ value, C.Sim loose (step value) (step' value))
    (forward : ∀ value, Forward (step value)) (asks : ∀ value s, AsksAt s (step value))
    (asks' : ∀ value s, AsksAt s (step' value)) (value : β) :
    C.Sim loose (iterate step C.rounds value) (iterate step' C.rounds' value) := by
  intro s s' beside
  induction n : s.ahead.length using Nat.strongRecOn generalizing value s s' with
  | ind n ih =>
      subst n
      rw [iterate_unfold asks beside.enough, iterate_unfold asks' beside.enough']
      refine (sim value s s' beside).bind (fun (next, again) t t' ran later => ?_)
        fun (next, again) t allowed spent o' => ?_
      · cases again with
        | true => exact ih _ (asks value s next t ran).shorter next t t' later rfl
        | false => exact sim_pure next t t' later
      · have rest : Forward (if again = true then iterate step C.rounds next else pure next) := by
          cases again with
          | true => exact forward_iterate forward C.rounds next
          | false => exact forward_pure next
        cases eq_true allowed
        exact follows_of_spent rest spent o'

end Comparison

end Parser

end MinangScript
