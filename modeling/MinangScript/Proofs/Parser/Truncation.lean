import MinangScript.Proofs.Parser.Pieces
import MinangScript.Proofs.Parser.Scripted

/-! # Truncated programs

Where the first tokens of a program are a program on their own, it breaks off in its last statement
at most: every statement in front of another one was over before the tokens were, so nothing that
stands behind them can change it. The last one may still go on, as a conditional does with the
branch that was cut off.
-/

namespace MinangScript

namespace TokenStream

theorem ahead_ofTokens_begins (tokens : List Token) : (ofTokens tokens).ahead <+: tokens := by
  unfold ofTokens
  split
  · exact List.nil_prefix
  · split
    · exact List.dropLast_prefix tokens
    · exact List.prefix_rfl

theorem begins_ahead_ofTokens (first : List Token) {second : List Token} (nonempty : second ≠ []) :
    first <+: (ofTokens (first ++ second)).ahead := by
  have kept : first <+: (first ++ second).dropLast := by
    rw [List.dropLast_append_of_ne_nil nonempty]
    exact List.prefix_append ..
  unfold ofTokens
  split
  · rename_i empty
    simp [nonempty] at empty
  · split
    · exact kept
    · exact List.prefix_append ..

/-- The stream of the first tokens is the whole stream, less what stands behind. -/
theorem ofTokens_eq_followedBy {first tokens : List Token} (begins : first <+: tokens) :
    ∃ more, ofTokens tokens = (ofTokens first).followedBy more (ofTokens tokens).stop := by
  have ahead : (ofTokens first).ahead <+: (ofTokens tokens).ahead := by
    obtain ⟨second, rfl⟩ := begins
    cases second with
    | nil => simp
    | cons t second =>
        have within := begins_ahead_ofTokens first (List.cons_ne_nil t second)
        exact (ahead_ofTokens_begins first).trans within
  obtain ⟨more, all⟩ := ahead
  exact ⟨more, by rw [followedBy, all]⟩

/-- Whatever is no separator is no line feed either. -/
theorem goesOn_of_more {s : TokenStream}
    (more : (s.dropWhile Parser.isSeparator).current.kind ≠ .endOfText) : s.GoesOn := by
  by_contra ended
  apply more
  have allSkipped : s.ahead.dropWhile (fun t => Parser.isSeparator t.kind) = [] := by
    apply List.dropWhile_eq_nil_iff.mpr
    intro t member
    by_contra other
    refine ended ⟨t, member, ?_⟩
    exact Bool.eq_false_iff.mpr (mt Parser.isSeparator_of_isNewline other)
  simp [TokenStream.current, TokenStream.dropWhile, allSkipped]

end TokenStream

namespace Parser

open Reader (iterate)

variable {rounds : Nat} {inner : Level}

/-- A statement that leaves more than line feeds is the same one whatever stands behind. -/
theorem statement_followedBy (positive : 0 < rounds) {s s' : TokenStream} {stmt : Stmt}
    (more : List Token) (stop : Position)
    (read : (level rounds maxNesting).statement s = .ok (stmt, s')) (goesOn : s'.GoesOn) :
    (level rounds maxNesting).statement (s.followedBy more stop) =
      .ok (stmt, s'.followedBy more stop) := by
  have same := (Script.realizes_level positive (Nat.le_refl powerSteps) (Nat.zero_le maxNesting)
    (Nat.lt_succ_self maxNesting)).statement
  rw [Nat.sub_zero] at same
  rw [← same] at read ⊢
  exact Script.parser_followedBy _ more stop read goesOn

/-- The first statement of a program, if there is one, and the program that is left. -/
theorem iterate_nextInProgram_ok (consuming : inner.Consuming) {s t : TokenStream}
    {body : List Stmt} (enough : s.ahead.length < rounds)
    (read : iterate (nextInProgram inner) rounds [] s = .ok (body, t)) :
    (s.dropWhile isSeparator).current.kind = .endOfText ∧ body = [] ∨
    (s.dropWhile isSeparator).current.kind ≠ .endOfText ∧
    ∃ stmt u rest, inner.statement (s.dropWhile isSeparator) = .ok (stmt, u) ∧
      u.ahead.length < s.ahead.length ∧
      iterate (nextInProgram inner) rounds [] u = .ok (rest, t) ∧ body = rest ++ [stmt] := by
  rw [iterate_unfold (asksAt_nextInProgram consuming) enough, bind_apply] at read
  by_cases ended : (s.dropWhile isSeparator).current.kind = .endOfText
  · rw [nextInProgram_of_end _ _ ended] at read
    cases read
    exact .inl ⟨ended, rfl⟩
  · rw [nextInProgram_of_more _ _ ended] at read
    refine .inr ⟨ended, ?_⟩
    cases first : inner.statement (s.dropWhile isSeparator) with
    | error e =>
        rw [first] at read
        cases read
    | ok result =>
        obtain ⟨stmt, u⟩ := result
        have passes := consuming.statement _ _ _ first
        have shorter := (s.leads_dropWhile isSeparator).trans_passes passes |>.shorter
        rw [first] at read
        simp only [Except.map, if_true] at read
        rw [iterate_before] at read
        cases left : iterate (nextInProgram inner) rounds [] u with
        | error e =>
            rw [left] at read
            cases read
        | ok result =>
            obtain ⟨rest, t'⟩ := result
            rw [left] at read
            cases read
            exact ⟨stmt, u, rest, rfl, shorter, left, rfl⟩

/-- With more tokens behind them, the statements of a program are read again, except for the last.
    The latest statement stands first in what was read. -/
theorem tail_suffix_of_followedBy {s t t' : TokenStream} {body body' : List Stmt}
    {more : List Token} {stop : Position}
    (enough : (s.followedBy more stop).ahead.length < rounds)
    (read : iterate (nextInProgram (level rounds maxNesting)) rounds [] s = .ok (body, t))
    (read' : iterate (nextInProgram (level rounds maxNesting)) rounds [] (s.followedBy more stop) =
      .ok (body', t')) :
    body.tail <:+ body' := by
  have positive : 0 < rounds := by omega
  have consuming := level_consuming positive maxNesting
  induction n : s.ahead.length using Nat.strongRecOn generalizing s body body' with
  | ind n ih =>
      subst n
      have shorter : s.ahead.length ≤ (s.followedBy more stop).ahead.length := by
        simp [TokenStream.followedBy]
      rcases iterate_nextInProgram_ok consuming (by omega) read with ⟨-, rfl⟩ | ⟨here, found⟩
      · exact List.nil_suffix
      · obtain ⟨stmt, u, rest, first, fewer, left, rfl⟩ := found
        by_cases last : rest = []
        · subst last
          exact List.nil_suffix
        -- Another statement follows, so the tokens were not at their end when this one was.
        · have goesOn : u.GoesOn := by
            have enoughLeft : u.ahead.length < rounds := by omega
            rcases iterate_nextInProgram_ok consuming enoughLeft left with ⟨-, noMore⟩ | ⟨next, -⟩
            · exact absurd noMore last
            · exact TokenStream.goesOn_of_more next
          have passes := consuming.statement _ _ _ first
          have nonempty := (goesOn.before passes.toLeads).ne_nil
          have again := statement_followedBy positive more stop first goesOn
          rw [← TokenStream.dropWhile_followedBy nonempty] at again
          have enough' : (u.followedBy more stop).ahead.length < rounds := by
            simp only [TokenStream.followedBy, List.length_append] at enough ⊢
            omega
          rcases iterate_nextInProgram_ok consuming enough read' with ⟨ended, -⟩ | ⟨-, found'⟩
          · rw [TokenStream.dropWhile_followedBy nonempty, TokenStream.current_followedBy nonempty] at ended
            exact absurd ended here
          · obtain ⟨stmt', u', rest', first', -, left', rfl⟩ := found'
            rw [again] at first'
            cases first'
            have suffix := ih _ fewer enough' left left' rfl
            rw [List.tail_append_of_ne_nil last]
            obtain ⟨later, rfl⟩ := suffix
            exact ⟨later, (List.append_assoc ..).symm⟩

/-- The parse of tokens as a loop, with any number of rounds that is great enough. -/
theorem iterate_of_parseTokens {tokens : List Token} {p : Program}
    (parsed : parseTokens tokens = .ok p) (enough : tokens.length < rounds) :
    ∃ t, iterate (nextInProgram (level rounds maxNesting)) rounds [] (.ofTokens tokens) =
      .ok (p.body.reverse, t) := by
  have same := (endsWithin tokens).bound rounds enough
  rw [parsed, wholeProgram, program, bind_apply] at same
  cases ran : iterate (nextInProgram (level rounds maxNesting)) rounds [] (.ofTokens tokens) with
  | error e =>
      rw [ran] at same
      cases same
  | ok result =>
      obtain ⟨body, t⟩ := result
      rw [ran] at same
      cases same
      exact ⟨t, by rw [List.reverse_reverse]⟩

/-- Where tokens are a program, and the first of them are one as well, all statements of the second
    program but its last are the first statements of the first program. -/
theorem truncated_program_is_stable {tokens : List Token} {n : Nat} {p q : Program}
    (whole : parseTokens tokens = .ok p) (truncated : parseTokens (tokens.take n) = .ok q) :
    q.body.dropLast <+: p.body := by
  obtain ⟨more, all⟩ := TokenStream.ofTokens_eq_followedBy (List.take_prefix n tokens)
  have length := (TokenStream.ahead_ofTokens_begins tokens).length_le
  have fewer := (List.take_prefix n tokens).length_le
  obtain ⟨t, read⟩ := iterate_of_parseTokens truncated (Nat.lt_succ_of_le fewer)
  obtain ⟨t', read'⟩ := iterate_of_parseTokens whole (Nat.lt_succ_self _)
  rw [all] at read' length
  have suffix := tail_suffix_of_followedBy (by omega) read read'
  rw [List.tail_reverse] at suffix
  exact List.reverse_suffix.mp suffix

/-- The conditional that is cut off before its other branch is a shorter one; the statement before
    it stays. -/
theorem truncated_program_is_stable_branch :
    let token := fun k : TokenKind => (⟨k, .origin⟩ : Token)
    let block := [token (.symbol .leftBrace), token (.symbol .rightBrace)]
    let tokens := [token (.keyword .breakWord), token .newline, token (.keyword .ifWord),
      token (.keyword .trueWord)] ++ block ++ [token .newline, token (.keyword .elseWord)] ++ block
    let p : Program := ⟨[.breakLoop, .conditional (.literal (.bool true)) [] (some (.block []))]⟩
    let q : Program := ⟨[.breakLoop, .conditional (.literal (.bool true)) [] none]⟩
    parseTokens tokens = .ok p ∧ parseTokens (tokens.take 7) = .ok q ∧
    q.body.dropLast = [.breakLoop] ∧ q.body.dropLast <+: p.body := by
  intro token block tokens p q
  have whole : parseTokens tokens = .ok p := rfl
  have truncated : parseTokens (tokens.take 7) = .ok q := rfl
  exact ⟨whole, truncated, rfl, truncated_program_is_stable whole truncated⟩

end Parser

end MinangScript
