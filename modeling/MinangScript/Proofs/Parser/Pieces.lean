import MinangScript.Proofs.Parser.SideBySide

/-! # Programs in pieces

Two texts that are programs on their own are a program together, with a separator between them, and
its statements are those of the first and then those of the second. The first one ends where its
tokens do: no statement of it reaches over the separator, and the second one does not begin like the
continuation of a conditional, because nothing that begins so is a program.
-/

namespace MinangScript

namespace Parser

open Reader (iterate)

/-! ## The beginning of a program -/

/-- Tokens that belong to a conditional before them. -/
def IsBranch (k : TokenKind) : Prop :=
  k = .keyword .elseWord ∨ k = .keyword .elseIfWord

theorem IsBranch.ne_endOfText {k : TokenKind} (branch : IsBranch k) : k ≠ .endOfText := by
  rcases branch with rfl | rfl <;> exact TokenKind.noConfusion

theorem isSeparator_of_isBranch {k : TokenKind} (branch : IsBranch k) : isSeparator k = false := by
  rcases branch with rfl | rfl <;> rfl

/-- No statement begins like the continuation of a conditional. -/
theorem statement_of_isBranch {rounds depth : Nat} {s : TokenStream}
    (branch : IsBranch s.current.kind) :
    (level rounds (depth + 2)).statement s = .error ⟨.unexpectedToken, s.current⟩ := by
  let unexpected : SyntaxError := ⟨.unexpectedToken, s.current⟩
  have primaryFails : primary rounds (level rounds depth) s = .error unexpected := by
    rcases branch with here | here <;>
    · rw [primary, current_bind, here]
      rfl
  have postfixedFails : postfixed rounds (level rounds depth) s = .error unexpected := by
    rw [postfixed, bind_apply, primaryFails]
  have prefixedFails : prefixed rounds (level rounds depth) s = .error unexpected := by
    rcases branch with here | here <;>
    · rw [prefixed, kind_bind, here]
      exact postfixedFails
  have expressionFails : (level rounds (depth + 1)).expression s = .error unexpected := by
    change expressionBody rounds (level rounds depth) s = _
    rw [expressionBody, bind_apply, powerSteps, binary, bind_apply, prefixedFails]
  change statementBody rounds (level rounds (depth + 1)) s = _
  rcases branch with here | here <;>
  · rw [statementBody, kind_bind, here]
    dsimp only
    rw [bind_apply, expressionFails]

variable {inner : Level} {rounds : Nat}

/-- The loop over the statements of a program depends on its stream only from the first token on that
    is no separator. -/
theorem iterate_of_dropWhile (consuming : inner.Consuming) {before : List Stmt} {s s' : TokenStream}
    (enough : s.ahead.length < rounds) (enough' : s'.ahead.length < rounds)
    (same : s.dropWhile isSeparator = s'.dropWhile isSeparator) :
    iterate (nextInProgram inner) rounds before s =
      iterate (nextInProgram inner) rounds before s' := by
  have asks := asksAt_nextInProgram consuming
  rw [iterate_unfold asks enough, iterate_unfold asks enough', bind_apply, bind_apply]
  simp only [nextInProgram, skipSeparators_bind, same]

/-- What was read before stays in front of what is read. -/
theorem iterate_before (rounds : Nat) (before : List Stmt) (s : TokenStream) :
    iterate (nextInProgram inner) rounds before s =
      (iterate (nextInProgram inner) rounds [] s).map fun (body, t) => (body ++ before, t) := by
  induction rounds generalizing before s with
  | zero => rfl
  | succ rounds ih =>
      rw [iterate, iterate, bind_apply, bind_apply]
      by_cases ended : (s.dropWhile isSeparator).current.kind = .endOfText
      · rw [nextInProgram_of_end _ _ ended, nextInProgram_of_end _ _ ended]
        rfl
      · rw [nextInProgram_of_more _ _ ended, nextInProgram_of_more _ _ ended]
        cases inner.statement (s.dropWhile isSeparator) with
        | error e => rfl
        | ok result =>
            obtain ⟨read, t⟩ := result
            simp only [Except.map, if_true]
            rw [ih (read :: before), ih [read]]
            cases iterate (nextInProgram inner) rounds [] t with
            | error e => rfl
            | ok result => simp [Except.map]

/-- No program begins like the continuation of a conditional. -/
theorem not_isBranch_of_program {depth : Nat} {s s' : TokenStream} {body : List Stmt}
    (enough : s.ahead.length < rounds)
    (read : iterate (nextInProgram (level rounds (depth + 2))) rounds [] s = .ok (body, s')) :
    ¬IsBranch (s.dropWhile isSeparator).current.kind := by
  intro branch
  have positive : 0 < rounds := by omega
  have asks := asksAt_nextInProgram (level_consuming positive (depth + 2))
  rw [iterate_unfold asks enough, bind_apply, nextInProgram_of_more _ _ branch.ne_endOfText,
    statement_of_isBranch branch] at read
  cases read

/-! ## The end of the first piece -/

namespace Comparison

variable {C : Comparison} {inner' : Level}

/-- Unless the first stream is spent, there is a token that both streams have. -/
theorem Beside.ne_endOfText {s s' : TokenStream} (beside : C.Beside s s') (left : ¬C.Spent s)
    (goesOn : C.more ≠ []) : s.current.kind ≠ .endOfText := by
  cases all : s.ahead with
  | nil => exact absurd ⟨all, goesOn⟩ left
  | cons t rest =>
      have noEnd := beside.noEnd goesOn t (by simp [all])
      simpa [TokenStream.current, all] using noEnd

/-- With more tokens behind a piece, the same statements are read, and then what is behind it. -/
theorem iterate_more (levels : C.Levels inner inner') (goesOn : C.more ≠ [])
    {before body : List Stmt} {s s' t : TokenStream} (beside : C.Beside s s')
    (read : iterate (nextInProgram inner) C.rounds before s = .ok (body, t)) :
    iterate (nextInProgram inner') C.rounds' before s' =
      iterate (nextInProgram inner') C.rounds' body ⟨C.more, s'.stop⟩ := by
  have asks := asksAt_nextInProgram levels.consuming
  have asks' := asksAt_nextInProgram levels.consuming'
  induction n : s.ahead.length using Nat.strongRecOn generalizing before s s' with
  | ind n ih =>
      subst n
      rw [iterate_unfold asks beside.enough, bind_apply] at read
      rcases beside.dropWhile isSeparator with spent | ⟨left, later⟩
      · rw [nextInProgram_of_end _ _ (Beside.ended spent)] at read
        cases read
        have empty := spent.ahead
        have all := beside.ahead
        have enough' := beside.enough'
        apply iterate_of_dropWhile levels.consuming' enough'
        · rw [all, List.length_append] at enough'
          exact Nat.lt_of_le_of_lt (Nat.le_add_left ..) enough'
        · simp only [TokenStream.dropWhile] at empty
          simp only [TokenStream.dropWhile, all, List.dropWhile_append, empty, List.isEmpty_nil,
            if_true]
      · have more := later.ne_endOfText left goesOn
        have more' := later.current left ▸ more
        rw [nextInProgram_of_more _ _ more] at read
        rw [iterate_unfold asks' beside.enough', bind_apply, nextInProgram_of_more _ _ more']
        have follows := levels.statement _ _ later
        cases first : inner.statement (s.dropWhile isSeparator) with
        | error e =>
            rw [first] at read
            cases read
        | ok result =>
            obtain ⟨stmt, u⟩ := result
            have passes := levels.consuming.statement _ _ _ first
            have shorter := (s.leads_dropWhile isSeparator).trans_passes passes |>.shorter
            rw [first] at read follows
            generalize second : inner'.statement (s'.dropWhile isSeparator) = o at follows ⊢
            cases follows with
            | @ok _ _ u' leads after =>
                simp only [Except.map, if_true] at read ⊢
                have stop := (levels.consuming'.statement _ _ _ second).stop
                rw [ih _ shorter after read rfl, stop]
                rfl
            | spent allowed => exact allowed.elim

end Comparison

end Parser

/-! ## Both pieces -/

namespace TokenStream

theorem ahead_ofTokens {tokens : List Token} (noEnd : ∀ t ∈ tokens, t.kind ≠ .endOfText) :
    (ofTokens tokens).ahead = tokens := by
  unfold ofTokens
  cases last : tokens.getLast? with
  | none => exact (List.getLast?_eq_none_iff.mp last).symm
  | some t =>
      have other := noEnd t (List.mem_of_getLast? last)
      obtain ⟨k, position⟩ := t
      cases k with
      | endOfText => exact absurd rfl other
      | _ => rfl

theorem stop_ofTokens_append (first : List Token) {second : List Token} (more : second ≠ []) :
    (ofTokens (first ++ second)).stop = (ofTokens second).stop := by
  obtain ⟨t, last⟩ := Option.ne_none_iff_exists'.mp (mt List.getLast?_eq_none_iff.mp more)
  simp only [ofTokens, List.getLast?_append, last, Option.some_or]
  split <;> rfl

end TokenStream

namespace Parser

open Reader (iterate)

/-- The parse of tokens is a loop over statements. -/
theorem parseTokens_eq_ok_iff {tokens : List Token} {p : Program} :
    parseTokens tokens = .ok p ↔ ∃ t, iterate
      (nextInProgram (level (tokens.length + 1) maxNesting)) (tokens.length + 1) []
      (.ofTokens tokens) = .ok (p.body.reverse, t) := by
  rw [parseTokens, StateT.run, program, bind_apply]
  cases iterate (nextInProgram (level (tokens.length + 1) maxNesting)) (tokens.length + 1) []
      (.ofTokens tokens) with
  | error e => exact ⟨nofun, nofun⟩
  | ok result =>
      obtain ⟨body, t⟩ := result
      constructor
      · intro read
        cases read
        exact ⟨t, by rw [List.reverse_reverse]⟩
      · rintro ⟨t', same⟩
        cases same
        exact congrArg Except.ok (congrArg Program.mk (List.reverse_reverse _))

theorem parse_eq_ok_iff {source : String} {p : Program} :
    parse source = .ok p ↔ ∃ tokens, tokenize source = .ok tokens ∧ parseTokens tokens = .ok p := by
  unfold parse
  cases tokenize source with
  | error e => exact ⟨nofun, nofun⟩
  | ok tokens =>
      dsimp only
      cases parsed : parseTokens tokens with
      | error e =>
          refine ⟨nofun, ?_⟩
          rintro ⟨tokens', same, read⟩
          cases same
          rw [parsed] at read
          cases read
      | ok p' =>
          constructor
          · intro read
            cases read
            exact ⟨tokens, rfl, parsed⟩
          · rintro ⟨tokens', same, read⟩
            cases same
            rw [parsed] at read
            cases read
            rfl

/-- What stops skipping stops any skipping of more before it as well. -/
theorem head?_dropWhile_of_imp {α : Type} {p q : α → Bool} (imp : ∀ a, p a = true → q a = true)
    {l : List α} {t : α} (first : (l.dropWhile p).head? = some t) (stays : q t = false) :
    (l.dropWhile q).head? = some t := by
  induction l with
  | nil => cases first
  | cons a l ih =>
      rw [List.dropWhile_cons] at first ⊢
      cases skipped : p a with
      | true =>
          rw [skipped, if_pos rfl] at first
          rw [imp a skipped, if_pos rfl]
          exact ih first
      | false =>
          rw [skipped, if_neg Bool.false_ne_true] at first
          cases first
          rw [stays, if_neg Bool.false_ne_true]
          rfl

theorem isSeparator_of_isNewline {k : TokenKind} (is : isNewline k = true) :
    isSeparator k = true := by
  cases k with
  | newline => rfl
  | _ => cases is

/-- Neither the separator nor what comes after it continues a conditional. -/
theorem not_isBranch_of_piece {second : List Token} {q : Program} {separator : Token}
    (noEnd : ∀ t ∈ second, t.kind ≠ .endOfText) (separates : isSeparator separator.kind = true)
    (read : parseTokens second = .ok q) :
    ∀ t ∈ ((separator :: second).dropWhile fun t => isNewline t.kind).head?, ¬IsBranch t.kind := by
  intro t first branch
  have stops : ((separator :: second).dropWhile fun t => isSeparator t.kind).head? = some t :=
    head?_dropWhile_of_imp (fun _ => isSeparator_of_isNewline) first
      (isSeparator_of_isBranch branch)
  rw [List.dropWhile_cons, separates, if_pos rfl] at stops
  obtain ⟨_, loop⟩ := parseTokens_eq_ok_iff.mp read
  have ahead := TokenStream.ahead_ofTokens noEnd
  apply not_isBranch_of_program (by rw [ahead]; exact Nat.lt_succ_self _) loop
  obtain ⟨rest, all⟩ := List.head?_eq_some_iff.mp stops
  simpa only [TokenStream.dropWhile, TokenStream.current, ahead, all] using branch

/-- The first piece is read up to its end, and the separator behind it is skipped. -/
theorem iterate_first {first second : List Token} {p q : Program} {separator : Token}
    {rounds : Nat} (noEnd : ∀ t ∈ first, t.kind ≠ .endOfText)
    (noEnd' : ∀ t ∈ second, t.kind ≠ .endOfText) (separates : isSeparator separator.kind = true)
    (enough : (first ++ separator :: second).length < rounds)
    (read : parseTokens first = .ok p) (read' : parseTokens second = .ok q) (stop : Position) :
    iterate (nextInProgram (level rounds maxNesting)) rounds []
        ⟨first ++ separator :: second, stop⟩ =
      iterate (nextInProgram (level rounds maxNesting)) rounds p.body.reverse ⟨second, stop⟩ := by
  have ahead := TokenStream.ahead_ofTokens noEnd
  let C : Comparison :=
    { rounds := first.length + 1
      rounds' := rounds
      more := separator :: second
      positive := by omega
      positive' := by omega
      separates := by simpa using separates
      noBranch := fun t is => not_or.mp (not_isBranch_of_piece noEnd' separates read' t is) }
  have beside : C.Beside (.ofTokens first) ⟨first ++ separator :: second, stop⟩ :=
    { ahead := by rw [ahead]
      stop := nofun
      noEnd := fun _ => by rwa [ahead]
      enough := by rw [ahead]; exact Nat.lt_succ_self _
      enough' := enough }
  obtain ⟨_, loop⟩ := parseTokens_eq_ok_iff.mp read
  have shorter : (separator :: second).length < rounds := by
    rw [List.length_append] at enough
    omega
  refine (Comparison.iterate_more (C.levels_level maxNesting) nofun beside loop).trans ?_
  apply iterate_of_dropWhile (level_consuming C.positive' maxNesting)
  · exact shorter
  · exact Nat.lt_of_succ_lt shorter
  · simp [C, TokenStream.dropWhile, separates]

/-- What is behind a separator is read as it is on its own. -/
theorem iterate_second {second : List Token} {q : Program} {rounds : Nat}
    (noEnd : ∀ t ∈ second, t.kind ≠ .endOfText) (enough : second.length < rounds)
    (read : parseTokens second = .ok q) {stop : Position}
    (same : second ≠ [] → stop = (TokenStream.ofTokens second).stop) :
    ∃ t, iterate (nextInProgram (level rounds maxNesting)) rounds [] ⟨second, stop⟩ =
      .ok (q.body.reverse, t) := by
  obtain ⟨t, loop⟩ := parseTokens_eq_ok_iff.mp read
  have ahead := TokenStream.ahead_ofTokens noEnd
  by_cases empty : second = []
  · subst empty
    obtain ⟨rounds, rfl⟩ : ∃ n, rounds = n + 1 := ⟨rounds - 1, by omega⟩
    rw [List.length_nil, iterate, bind_apply, nextInProgram_of_end _ _ rfl] at loop
    have body := (Prod.mk.inj (Except.ok.inj loop)).1
    rw [← body, iterate, bind_apply, nextInProgram_of_end _ _ rfl]
    exact ⟨_, rfl⟩
  · let C : Comparison :=
      { rounds := second.length + 1
        rounds' := rounds
        more := []
        positive := by omega
        positive' := by omega
        separates := by simp
        noBranch := by simp }
    have beside : C.Beside (.ofTokens second) ⟨second, stop⟩ :=
      { ahead := by rw [ahead, List.append_nil]
        stop := fun _ => same empty
        noEnd := fun goesOn => absurd rfl goesOn
        enough := by rw [ahead]; exact Nat.lt_succ_self _
        enough' := enough }
    have levels := C.levels_level maxNesting
    have all := Comparison.sim_iterate levels.sim_nextInProgram
      (forward_nextInProgram levels.consuming) (asksAt_nextInProgram levels.consuming)
      (asksAt_nextInProgram levels.consuming') []
    exact ⟨t, ((all _ _ beside).same rfl).1.trans loop⟩

/-- A text after another one and a separator. -/
theorem parseTokens_pieces {first second : List Token} {p q : Program} {separator : Token}
    (noEnd : ∀ t ∈ first, t.kind ≠ .endOfText) (noEnd' : ∀ t ∈ second, t.kind ≠ .endOfText)
    (separates : isSeparator separator.kind = true)
    (read : parseTokens first = .ok p) (read' : parseTokens second = .ok q) :
    parseTokens (first ++ separator :: second) = .ok ⟨p.body ++ q.body⟩ := by
  have noEndWhole : ∀ t ∈ first ++ separator :: second, t.kind ≠ .endOfText := by
    simp only [List.forall_mem_append, List.forall_mem_cons]
    exact ⟨noEnd, fun ended => by simp [ended, isSeparator] at separates, noEnd'⟩
  have enough := Nat.lt_succ_self (first ++ separator :: second).length
  have stop : second ≠ [] → (TokenStream.ofTokens (first ++ separator :: second)).stop =
      (TokenStream.ofTokens second).stop := by
    intro more
    rw [List.append_cons, TokenStream.stop_ofTokens_append _ more]
  have stream : TokenStream.ofTokens (first ++ separator :: second) =
      ⟨first ++ separator :: second, (TokenStream.ofTokens (first ++ separator :: second)).stop⟩ :=
    congrArg (TokenStream.mk · _) (TokenStream.ahead_ofTokens noEndWhole)
  have enough' : second.length < (first ++ separator :: second).length + 1 := by
    rw [List.length_append, List.length_cons]
    omega
  obtain ⟨t, rest⟩ := iterate_second noEnd' enough' read' stop
  refine parseTokens_eq_ok_iff.mpr ⟨t, ?_⟩
  rw [stream, iterate_first noEnd noEnd' separates enough read read', iterate_before, rest,
    List.reverse_append]
  rfl

/-- A separator and the end of the text add nothing to a program. -/
theorem parseTokens_closed {tokens : List Token} {p : Program} {separator last : Token}
    (noEnd : ∀ t ∈ tokens, t.kind ≠ .endOfText) (separates : isSeparator separator.kind = true)
    (ends : last.kind = .endOfText) (read : parseTokens tokens = .ok p) :
    parseTokens (tokens ++ [separator, last]) = .ok p := by
  have stream : TokenStream.ofTokens (tokens ++ [separator, last]) =
      ⟨tokens ++ [separator], last.position⟩ := by
    rw [List.append_cons, TokenStream.ofTokens, List.getLast?_concat, List.dropLast_concat]
    dsimp only
    rw [ends]
  have enough : (tokens ++ [separator]).length < (tokens ++ [separator, last]).length + 1 := by
    simp
  have nothing : parseTokens [] = .ok ⟨[]⟩ := rfl
  refine parseTokens_eq_ok_iff.mpr ⟨⟨[], last.position⟩, ?_⟩
  rw [stream, iterate_first noEnd (List.forall_mem_nil _) separates enough read nothing,
    iterate, bind_apply, nextInProgram_of_end _ _ rfl]
  rfl

/-! ## Tokens at places -/

/-- Tokens of the given kinds, which stand at the given places. -/
def placed (place : Nat → Position) : List TokenKind → List Token
  | [] => []
  | kind :: others => ⟨kind, place 0⟩ :: placed (fun n => place (n + 1)) others

theorem exists_placed (tokens : List Token) :
    ∃ place, tokens = placed place (tokens.map Token.kind) := by
  induction tokens with
  | nil => exact ⟨fun _ => .start, rfl⟩
  | cons t others ih =>
      obtain ⟨place, same⟩ := ih
      refine ⟨fun n => Nat.casesOn n t.position place, ?_⟩
      exact congrArg (t :: ·) same

theorem placed_append (place : Nat → Position) (first second : List TokenKind) :
    placed place (first ++ second) =
      placed place first ++ placed (fun n => place (n + first.length)) second := by
  induction first generalizing place with
  | nil => rfl
  | cons kind others ih => exact congrArg (_ :: ·) (ih _)

theorem kind_mem_of_mem_placed {place : Nat → Position} {kinds : List TokenKind} {t : Token}
    (member : t ∈ placed place kinds) : t.kind ∈ kinds := by
  induction kinds generalizing place with
  | nil => cases member
  | cons kind others ih =>
      obtain rfl | member := List.mem_cons.mp member
      · exact List.mem_cons_self ..
      · exact List.mem_cons_of_mem _ (ih member)

theorem parse_placed_pieces {place : Nat → Position} {first second : List TokenKind}
    {p q : Program} (noEnd : .endOfText ∉ first) (noEnd' : .endOfText ∉ second)
    (read : parseTokens (placed place first) = .ok p)
    (read' : parseTokens (placed (fun n => place (n + 1 + first.length)) second) = .ok q) :
    parseTokens (placed place (first ++ .newline :: second)) = .ok ⟨p.body ++ q.body⟩ := by
  have separates : isSeparator .newline = true := rfl
  rw [placed_append, placed]
  exact parseTokens_pieces (fun t member is => noEnd (is ▸ kind_mem_of_mem_placed member))
    (fun t member is => noEnd' (is ▸ kind_mem_of_mem_placed member)) separates
    read read'

theorem parse_placed_closed {place : Nat → Position} {kinds : List TokenKind} {p : Program}
    (noEnd : .endOfText ∉ kinds) (read : parseTokens (placed place kinds) = .ok p) :
    parseTokens (placed place (kinds ++ [.newline, .endOfText])) = .ok p := by
  rw [placed_append]
  exact parseTokens_closed (fun t member is => noEnd (is ▸ kind_mem_of_mem_placed member))
    rfl rfl read

end Parser

end MinangScript
