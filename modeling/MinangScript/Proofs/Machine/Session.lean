import MinangScript.Proofs.Machine.CallLimit
import MinangScript.Proofs.Machine.Likeness
import MinangScript.Proofs.Parser.Pieces

/-! # One text and a session

A text may be run at once or piece by piece on the same machine. The statements do the same in both
cases, since each of them learns only of the machine that the ones before it leave. What differs is
where the value of the whole comes from: a piece that no statement gives a value has the value null,
whatever the pieces before it gave.
-/

namespace MinangScript

/-- Environments that are the same. -/
def Environment.same : Likeness Unit where
  Alike := fun _ e e' => e' = e
  get? := fun is _ => by rw [is]
  set := fun is _ _ => by rw [is]
  call := fun is _ => ⟨(), by rw [is], fun same => by rw [same]⟩

/-- Machines that have everything in common but perhaps the notes in their journals. -/
def Machine.SameButNotes (m m' : Machine) : Prop :=
  Environment.same.OnMachines () m m'

namespace Machine.SameButNotes

variable {m m' : Machine}

theorem symm (same : SameButNotes m m') : SameButNotes m' m where
  env := same.env.symm
  functions := same.functions.symm
  depth := same.depth.symm
  nextTag := same.nextTag.symm
  lines := same.lines.symm

theorem trans {m'' : Machine} (first : SameButNotes m m') (second : SameButNotes m' m'') :
    SameButNotes m m'' where
  env := second.env.trans first.env
  functions := second.functions.trans first.functions
  depth := second.depth.trans first.depth
  nextTag := second.nextTag.trans first.nextTag
  lines := second.lines.trans first.lines

theorem note (m : Machine) (note : Note) : SameButNotes m (m.record (.noted note)) where
  env := rfl
  functions := rfl
  depth := rfl
  nextTag := rfl
  lines := by rw [Machine.record, Journal.lines_add]; simp [Entry.printed?]

end Machine.SameButNotes

namespace Eval

open Machine (SameButNotes)

variable {limit : Nat} {m m' : Machine}

/-! ## What the statements of a body yield -/

/-- A statement of the body that the run comes to ends with the signal. The run goes on behind a
    statement unless it gave the result. -/
inductive Yields (limit : Nat) : List Stmt → Machine → Signal → Prop where
  | here {fuel : Nat} {s : Stmt} {rest : List Stmt} {m m' : Machine} {signal : Signal} :
      stmt limit fuel s m = .done signal m' → Yields limit (s :: rest) m signal
  | later {fuel : Nat} {s : Stmt} {rest : List Stmt} {m m' : Machine} {signal later : Signal} :
      stmt limit fuel s m = .done signal m' → signal.isResult = false →
      Yields limit rest m' later → Yields limit (s :: rest) m later

/-- Some statement of the body yields a value or the result. -/
def HasValue (limit : Nat) (body : List Stmt) (m : Machine) : Prop :=
  ∃ v, Yields limit body m (.value v) ∨ Yields limit body m (.result v)

/-- A statement ends in one way only, whatever the fuel. -/
theorem stmt_unique {fuel fuel' : Nat} {s : Stmt} {signal signal' : Signal} {mid mid' : Machine}
    (ended : stmt limit fuel s m = .done signal mid)
    (ended' : stmt limit fuel' s m = .done signal' mid') : signal' = signal ∧ mid' = mid := by
  have first := stmt_goesOn (Nat.le_max_left fuel fuel') limit s m
  have second := stmt_goesOn (Nat.le_max_right fuel fuel') limit s m
  rw [ended] at first
  rw [ended'] at second
  rcases first with gaveUp | same
  · cases gaveUp
  rcases second with gaveUp | same'
  · cases gaveUp
  cases same.symm.trans same'
  exact ⟨rfl, rfl⟩

theorem stmt_of_same {fuel : Nat} {s : Stmt} {signal : Signal} {mid : Machine}
    (ended : stmt limit fuel s m = .done signal mid) (same : SameButNotes m m') :
    ∃ mid', stmt limit fuel s m' = .done signal mid' ∧ SameButNotes mid mid' := by
  have agree := Environment.same.agree_stmt () limit fuel s same
  rw [ended] at agree
  generalize stmt limit fuel s m' = o at agree ⊢
  cases agree with
  | @done _ mid' _ related => exact ⟨mid', rfl, related⟩

theorem Yields.of_same {body : List Stmt} {signal : Signal} (yields : Yields limit body m signal)
    (same : SameButNotes m m') : Yields limit body m' signal := by
  induction yields generalizing m' with
  | here ended =>
      obtain ⟨mid', ended', -⟩ := stmt_of_same ended same
      exact .here ended'
  | later ended goesOn _ ih =>
      obtain ⟨mid', ended', related⟩ := stmt_of_same ended same
      exact .later ended' goesOn (ih related)

theorem HasValue.of_same {body : List Stmt} (hasValue : HasValue limit body m)
    (same : SameButNotes m m') : HasValue limit body m' := by
  obtain ⟨v, value | result⟩ := hasValue
  · exact ⟨v, .inl (value.of_same same)⟩
  · exact ⟨v, .inr (result.of_same same)⟩

/-- If the first statement has no value, it is one behind it that has. -/
theorem HasValue.of_cons {fuel : Nat} {s : Stmt} {rest : List Stmt} {signal : Signal}
    {mid : Machine} (hasValue : HasValue limit (s :: rest) m)
    (ended : stmt limit fuel s m = .done signal mid)
    (stray : signal = .breakLoop ∨ signal = .continueLoop) : HasValue limit rest mid := by
  have behind : ∀ other, Yields limit (s :: rest) m other → other ≠ signal →
      Yields limit rest mid other := by
    intro other yields differs
    cases yields with
    | here ended' => exact absurd (stmt_unique ended ended').1 differs
    | later ended' _ later =>
        obtain ⟨-, rfl⟩ := stmt_unique ended ended'
        exact later
  obtain ⟨v, value | result⟩ := hasValue
  · exact ⟨v, .inl (behind _ value (by rcases stray with rfl | rfl <;> exact Signal.noConfusion))⟩
  · exact ⟨v, .inr (behind _ result (by rcases stray with rfl | rfl <;> exact Signal.noConfusion))⟩

/-! ## Bodies one after the other -/

/-- Two outcomes that have everything in common but perhaps notes, and values if the runs give the
    same value only where they are `valued`. -/
inductive EndsAlike (valued : Prop) : Outcome RuntimeError Value → Outcome RuntimeError Value → Prop
  where
  | done {v v' : Value} {m m' : Machine} (same : SameButNotes m m') (value : valued → v' = v) :
      EndsAlike valued (.done v m) (.done v' m')
  | failed {e : RuntimeError} {m m' : Machine} (same : SameButNotes m m') :
      EndsAlike valued (.failed e m) (.failed e m')
  | outOfFuel : EndsAlike valued .outOfFuel .outOfFuel

theorem EndsAlike.mono {valued valued' : Prop} {o o' : Outcome RuntimeError Value}
    (alike : EndsAlike valued o o') (weaker : valued' → valued) : EndsAlike valued' o o' := by
  cases alike with
  | done same value => exact .done same fun holds => value (weaker holds)
  | failed same => exact .failed same
  | outOfFuel => exact .outOfFuel

/-- The value of what ran before counts only as long as no statement has a value. -/
theorem statements_alike {fuel : Nat} {body : List Stmt} {last last' : Value}
    (same : SameButNotes m m') :
    EndsAlike (last' = last ∨ HasValue limit body m)
      (statements limit fuel body last m) (statements limit fuel body last' m') := by
  induction body generalizing last last' m m' with
  | nil =>
      refine .done same ?_
      rintro (value | ⟨v, yields | yields⟩)
      · exact value
      · cases yields
      · cases yields
  | cons s rest ih =>
      have agree := Environment.same.agree_stmt () limit fuel s same
      simp only [statements, Bind.bind, Eval.bind]
      cases first : stmt limit fuel s m with
      | done signal mid =>
          rw [first] at agree
          generalize stmt limit fuel s m' = o at agree ⊢
          cases agree with
          | done related =>
              cases signal with
              | result v => exact .done related fun _ => rfl
              | value v => exact (ih related).mono fun _ => .inl rfl
              | breakLoop =>
                  exact (ih related).mono (Or.imp_right (·.of_cons first (.inl rfl)))
              | continueLoop =>
                  exact (ih related).mono (Or.imp_right (·.of_cons first (.inr rfl)))
      | failed e mid =>
          rw [first] at agree
          generalize stmt limit fuel s m' = o at agree ⊢
          cases agree with
          | failed related => exact .failed related
      | outOfFuel =>
          rw [first] at agree
          generalize stmt limit fuel s m' = o at agree ⊢
          cases agree with
          | outOfFuel => exact .outOfFuel

/-- A body that comes to its end without a result is followed by the other one. -/
theorem statements_append {fuel : Nat} {body more : List Stmt} {last v : Value} {mid : Machine}
    (ended : statements limit fuel body last m = .done v mid)
    (noResult : ∀ v, ¬Yields limit body m (.result v)) :
    statements limit fuel (body ++ more) last m = statements limit fuel more v mid := by
  induction body generalizing last m with
  | nil =>
      cases ended
      rfl
  | cons s rest ih =>
      simp only [List.cons_append, statements, Bind.bind, Eval.bind] at ended ⊢
      cases first : stmt limit fuel s m with
      | done signal after =>
          rw [first] at ended
          cases signal with
          | result v => exact absurd (.here first) (noResult v)
          | value _ | breakLoop | continueLoop =>
              exact ih ended fun v yields => noResult v (.later first rfl yields)
      | failed e after =>
          rw [first] at ended
          cases ended
      | outOfFuel =>
          rw [first] at ended
          cases ended

/-! ## Programs -/

/-- After a first piece that came to its end, the whole goes on as the second piece does. -/
theorem program_pieces {p q : Program} {v : Value} {mid : Machine}
    (ran : Runs limit p m (.done v mid)) (noResult : ∀ v, ¬Yields limit p.body m (.result v)) :
    ∃ enough, ∀ fuel, enough ≤ fuel →
      EndsAlike (HasValue limit q.body mid) (program limit fuel q mid)
        (program limit fuel ⟨p.body ++ q.body⟩ m) := by
  obtain ⟨enough, all⟩ := ran.eventually
  refine ⟨enough, fun fuel le => ?_⟩
  have first : statements limit fuel p.body .null
      (m.record (.noted (.executing p.body.length m.env.scoping))) = .done v mid := all fuel le
  have begins := SameButNotes.note m (.executing (p.body ++ q.body).length m.env.scoping)
  have notes := (SameButNotes.note m (.executing p.body.length m.env.scoping)).symm.trans begins
  obtain ⟨mid', second, related⟩ : ∃ mid', statements limit fuel p.body .null
      (m.record (.noted (.executing (p.body ++ q.body).length m.env.scoping))) = .done v mid' ∧
      SameButNotes mid mid' := by
    have alike := @statements_alike limit _ _ fuel p.body .null .null notes
    rw [first] at alike
    generalize statements limit fuel p.body .null
      (m.record (.noted (.executing (p.body ++ q.body).length m.env.scoping))) = o at alike
    cases alike with
    | @done _ _ _ mid' same value => exact ⟨mid', by rw [value (.inl rfl)], same⟩
  have whole : program limit fuel ⟨p.body ++ q.body⟩ m = statements limit fuel q.body v mid' :=
    statements_append second fun v yields => noResult v (yields.of_same begins.symm)
  rw [whole]
  have noted := SameButNotes.note mid (.executing q.body.length mid.env.scoping)
  have alike := @statements_alike limit _ _ fuel q.body .null v (noted.symm.trans related)
  exact alike.mono fun hasValue => .inr (hasValue.of_same noted)

theorem EndsAlike.ended_iff {valued : Prop} {o o' : Outcome RuntimeError Value}
    (alike : EndsAlike valued o o') : o = .outOfFuel ↔ o' = .outOfFuel := by
  cases alike with
  | done | failed => exact ⟨nofun, nofun⟩
  | outOfFuel => exact Iff.rfl

/-- Two pieces that are programs on their own are a program together, whose statements are those of
    the pieces. Where the first piece comes to its end without a result, the whole and the second
    piece after the first come to the same end, if they come to one: with the same error, if any, on
    machines that have all but notes in common, and with the same value if the second piece has a
    value at all. -/
theorem one_text_runs_like_its_pieces {first second : List Token} {separator : Token}
    {p q : Program} (noEnd : ∀ t ∈ first, t.kind ≠ .endOfText)
    (noEnd' : ∀ t ∈ second, t.kind ≠ .endOfText)
    (separates : separator.kind = .newline ∨ separator.kind = .symbol .semicolon)
    (read : parseTokens first = .ok p) (read' : parseTokens second = .ok q) :
    ∃ whole, parseTokens (first ++ separator :: second) = .ok whole ∧
      whole.body = p.body ++ q.body ∧
      ∀ limit m v mid, Runs limit p m (.done v mid) →
        (∀ v, ¬Yields limit p.body m (.result v)) →
        (∀ o, Runs limit q mid o →
          ∃ o', Runs limit whole m o' ∧ EndsAlike (HasValue limit q.body mid) o o') ∧
        (∀ o', Runs limit whole m o' →
          ∃ o, Runs limit q mid o ∧ EndsAlike (HasValue limit q.body mid) o o') := by
  have is : Parser.isSeparator separator.kind = true := by
    rcases separates with is | is <;> rw [is] <;> rfl
  refine ⟨_, Parser.parseTokens_pieces noEnd noEnd' is read read', rfl, ?_⟩
  intro limit m v mid ran noResult
  obtain ⟨enough, alike⟩ := program_pieces ran noResult
  constructor
  · intro o runs
    obtain ⟨fuel, all⟩ := runs.eventually
    have here := alike (max enough fuel) (Nat.le_max_left ..)
    rw [all _ (Nat.le_max_right ..)] at here
    exact ⟨_, ⟨mt here.ended_iff.mpr runs.1, _, rfl⟩, here⟩
  · intro o' runs
    obtain ⟨fuel, all⟩ := runs.eventually
    have here := alike (max enough fuel) (Nat.le_max_left ..)
    rw [all _ (Nat.le_max_right ..)] at here
    exact ⟨_, ⟨mt here.ended_iff.mp runs.1, _, rfl⟩, here⟩

/-- A conditional that could go on, and a statement behind a line feed. -/
theorem one_text_runs_like_its_pieces_conditional :
    let token (kind : TokenKind) : Token := ⟨kind, .origin⟩
    let first := [.keyword .ifWord, .keyword .trueWord, .symbol .leftBrace, .symbol .rightBrace].map
      token
    let second := [.keyword .printWord, .string "x"].map token
    let p : Program := ⟨[.conditional (.literal (.bool true)) [] none]⟩
    let q : Program := ⟨[.print (.literal (.string "x"))]⟩
    parseTokens first = .ok p ∧ parseTokens second = .ok q ∧
      parseTokens (first ++ token .newline :: second) = .ok ⟨p.body ++ q.body⟩ ∧
      ∃ mid m m', Runs 5 p (.start .dynamic) (.done .null mid) ∧
        (∀ v, ¬Yields 5 p.body (.start .dynamic) (.result v)) ∧
        Runs 5 q mid (.done (.string "x") m) ∧
        Runs 5 ⟨p.body ++ q.body⟩ (.start .dynamic) (.done (.string "x") m') ∧
        SameButNotes m m' := by
  intro token first second p q
  have read : parseTokens first = .ok p := rfl
  have read' : parseTokens second = .ok q := rfl
  have noEnd : ∀ t ∈ first, t.kind ≠ .endOfText := by simp [first, token]
  have noEnd' : ∀ t ∈ second, t.kind ≠ .endOfText := by simp [second, token]
  obtain ⟨⟨body⟩, parsed, is, runs⟩ :=
    @one_text_runs_like_its_pieces first second (token .newline) p q noEnd noEnd' (.inl rfl)
      read read'
  obtain rfl : body = p.body ++ q.body := is
  obtain ⟨mid, ran⟩ : ∃ mid, Runs 5 p (.start .dynamic) (.done .null mid) := ⟨_, nofun, 9, rfl⟩
  have noResult : ∀ v, ¬Yields 5 p.body (.start .dynamic) (.result v) := by
    intro v yields
    obtain ⟨after, ended⟩ : ∃ after, stmt 5 9 (.conditional (.literal (.bool true)) [] none)
        (.start .dynamic) = .done (.value .null) after := ⟨_, rfl⟩
    cases yields with
    | here ended' => cases (stmt_unique ended ended').1
    | later _ _ yields => cases yields
  obtain ⟨m', ran'⟩ : ∃ m', Runs 5 ⟨p.body ++ q.body⟩ (.start .dynamic) (.done (.string "x") m') :=
    ⟨_, nofun, 9, rfl⟩
  have printed : stmt 5 9 (.print (.literal (.string "x"))) mid =
      .done (.value (.string "x")) (mid.record (.printed .log "x")) := rfl
  obtain ⟨o, second, alike⟩ := (runs 5 _ .null mid ran noResult).2 _ ran'
  cases alike with
  | @done v' _ m _ same value =>
      obtain rfl := value ⟨_, .inl (.here printed)⟩
      exact ⟨read, read', parsed, mid, m, m', ran, noResult, second, ran', same⟩

end Eval

end MinangScript
