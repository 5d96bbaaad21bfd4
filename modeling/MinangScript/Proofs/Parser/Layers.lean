import MinangScript.Proofs.Parser.Progress

/-! # Binding powers and the layered grammar

The grammar of operators is usually written in layers: a disjunction joins conjunctions, these join
equations, and so on down to products, which join single operands; in each layer the operators
group to the left. The parser has no layers but one loop and a table of binding powers. Both read
every stream of tokens in the same way, errors included.

`Ladder` is what the table must satisfy for this, and `iterate_joinRight` the heart of the proof:
a loop over all operators from some power on is the loop over those of the tighter layers, followed
by the loop over the layer that begins at that power.
-/

namespace MinangScript

namespace Parser

open Reader (iterate)
open TokenStream (Leads Passes)

/-! ## The layered grammar -/

/-- The operator that a token is in a disjunction. -/
def disjunctive? : TokenKind → Option BinaryOp
  | .symbol .or => some .or
  | _ => none

/-- The operator that a token is in a conjunction. -/
def conjunctive? : TokenKind → Option BinaryOp
  | .symbol .and => some .and
  | _ => none

/-- The operator that a token is in an equation. -/
def equational? : TokenKind → Option BinaryOp
  | .symbol .equal => some .eq
  | .symbol .notEqual => some .ne
  | _ => none

/-- The operator that a token is in a comparison. -/
def relational? : TokenKind → Option BinaryOp
  | .symbol .less => some .lt
  | .symbol .atMost => some .le
  | .symbol .greater => some .gt
  | .symbol .atLeast => some .ge
  | _ => none

/-- The operator that a token is in a sum. -/
def additive? : TokenKind → Option BinaryOp
  | .symbol .plus => some .add
  | .symbol .minus => some .sub
  | _ => none

/-- The operator that a token is in a product. -/
def multiplicative? : TokenKind → Option BinaryOp
  | .symbol .star => some .mul
  | .symbol .slash => some .div
  | .symbol .percent => some .mod
  | _ => none

/-- Repeats `step` for as long as it asks for more. A round that asks has read a token, so one round
    more than there are tokens ahead is enough. -/
def loop {β : Type} (step : β → Parser (β × Bool)) (value : β) : Parser β := fun s =>
  iterate step (s.ahead.length + 1) value s

/-- Joins a left operand with another one, if an operator of the layer stands between them. -/
def joinSame (op? : TokenKind → Option BinaryOp) (operand : Parser Expr) (left : Expr) :
    Parser (Expr × Bool) := do
  match op? (← kind) with
  | none => return (left, false)
  | some op =>
    advance
    return (.binary left op (← operand), true)

/-- A layer: operands of the next tighter layer, joined from left to right while an operator of
    this layer follows. -/
def leftAssociative (op? : TokenKind → Option BinaryOp) (operand : Parser Expr) : Parser Expr := do
  let first ← operand
  loop (joinSame op? operand) first

/-- The layers of the grammar, the loosest first. -/
def layers : List (TokenKind → Option BinaryOp) :=
  [disjunctive?, conjunctive?, equational?, relational?, additive?, multiplicative?]

/-- The layered grammar over single operands. -/
def layered (operand : Parser Expr) : Parser Expr :=
  layers.foldr leftAssociative operand

/-! ## What the table of powers must satisfy -/

/-- The operators of at least the given power are those of the given layers, the loosest first.
    Where the right power of a layer's operators lies, there the tighter layers begin. -/
inductive Ladder : Nat → List (TokenKind → Option BinaryOp) → Prop where
  | top {power : Nat} : (∀ k op l r, binaryOp? k = some (op, l, r) → l < power) → Ladder power []
  | rung {power right : Nat} {op? : TokenKind → Option BinaryOp}
      {tighter : List (TokenKind → Option BinaryOp)} : power ≤ right →
      (∀ k op, op? k = some op → ∃ l, binaryOp? k = some (op, l, right) ∧ power ≤ l ∧ l < right) →
      (∀ k op l r, binaryOp? k = some (op, l, r) → power ≤ l → op? k = none → right ≤ l) →
      Ladder right tighter → Ladder power (op? :: tighter)

theorem eq_symbol_of_binaryOp? {k : TokenKind} {found : BinaryOp × Nat × Nat}
    (is : binaryOp? k = some found) : ∃ s, k = .symbol s := by
  cases k with
  | symbol s => exact ⟨s, rfl⟩
  | _ => simp [binaryOp?] at is

theorem left_lt_of_binaryOp? {k : TokenKind} {op : BinaryOp} {l r : Nat}
    (is : binaryOp? k = some (op, l, r)) : l < 21 := by
  obtain ⟨s, rfl⟩ := eq_symbol_of_binaryOp? is
  cases s <;> simp [binaryOp?] at is <;> omega

theorem ladder_unary : Ladder unaryPower [] := by
  refine .top fun k op l r is => ?_
  exact Nat.lt_trans (left_lt_of_binaryOp? is) (by decide)

/-- Whether a symbol that is `own` in a layer and `found` in the table is in its place: an operator of
    the layer has the layer's powers, and no other operator's power lies between them. -/
def inPlace (power right : Nat) : Option BinaryOp → Option (BinaryOp × Nat × Nat) → Bool
  | some op, some (found, l, r) => op = found ∧ r = right ∧ power ≤ l ∧ l < right
  | some _, none => false
  | none, some (_, l, _) => power ≤ l → right ≤ l
  | none, none => true

theorem eq_symbol_of_layer {op? : TokenKind → Option BinaryOp} (layer : op? ∈ layers)
    {k : TokenKind} {op : BinaryOp} (own : op? k = some op) : ∃ s, k = .symbol s := by
  simp only [layers, List.mem_cons, List.not_mem_nil, or_false] at layer
  cases k with
  | symbol s => exact ⟨s, rfl⟩
  | _ => obtain rfl | rfl | rfl | rfl | rfl | rfl := layer <;> cases own

/-- A layer below a ladder, if the table has every symbol in its place. -/
theorem Ladder.extend {power right : Nat} {op? : TokenKind → Option BinaryOp}
    {tighter : List (TokenKind → Option BinaryOp)} (ladder : Ladder right tighter)
    (le : power ≤ right) (layer : op? ∈ layers)
    (table : ∀ s, inPlace power right (op? (.symbol s)) (binaryOp? (.symbol s)) = true) :
    Ladder power (op? :: tighter) := by
  refine .rung le ?_ ?_ ladder
  · intro k op own
    obtain ⟨s, rfl⟩ := eq_symbol_of_layer layer own
    have placed := table s
    rw [own] at placed
    cases is : binaryOp? (.symbol s) with
    | none =>
        rw [is] at placed
        cases placed
    | some found =>
        obtain ⟨found, l, r⟩ := found
        rw [is] at placed
        obtain ⟨rfl, rfl, above, under⟩ := of_decide_eq_true placed
        exact ⟨l, rfl, above, under⟩
  · intro k op l r is above other
    obtain ⟨s, rfl⟩ := eq_symbol_of_binaryOp? is
    have placed := table s
    rw [is, other] at placed
    exact of_decide_eq_true placed above

theorem ladder_layers : Ladder 0 layers := by
  have top : Ladder 21 [] := .top fun k op l r is => left_lt_of_binaryOp? is
  have products : Ladder 11 [multiplicative?] :=
    top.extend (by decide) (by simp [layers]) fun s => by cases s <;> rfl
  have sums : Ladder 8 [additive?, multiplicative?] :=
    products.extend (by decide) (by simp [layers]) fun s => by cases s <;> rfl
  have comparisons : Ladder 6 [relational?, additive?, multiplicative?] :=
    sums.extend (by decide) (by simp [layers]) fun s => by cases s <;> rfl
  have equations : Ladder 4 [equational?, relational?, additive?, multiplicative?] :=
    comparisons.extend (by decide) (by simp [layers]) fun s => by cases s <;> rfl
  have conjunctions :
      Ladder 2 [conjunctive?, equational?, relational?, additive?, multiplicative?] :=
    equations.extend (by decide) (by simp [layers]) fun s => by cases s <;> rfl
  exact conjunctions.extend (by decide) (by simp [layers]) fun s => by cases s <;> rfl

/-! ## Single rounds -/

/-- The next token is no operator of at least the given power. -/
def Settled (power : Nat) (s : TokenStream) : Prop :=
  ∀ op l r, binaryOp? s.current.kind = some (op, l, r) → l < power

theorem settled_or_operator (power : Nat) (s : TokenStream) :
    Settled power s ∨ ∃ op l r, binaryOp? s.current.kind = some (op, l, r) ∧ power ≤ l := by
  cases is : binaryOp? s.current.kind with
  | none => exact .inl fun op l r found => by simp [is] at found
  | some found =>
      obtain ⟨op, l, r⟩ := found
      by_cases enough : power ≤ l
      · exact .inr ⟨op, l, r, rfl, enough⟩
      · refine .inl fun op' l' r' found => ?_
        obtain ⟨-, rfl, -⟩ : op = op' ∧ l = l' ∧ r = r' := by simpa [is] using found
        exact Nat.lt_of_not_le enough

theorem joinRight_of_settled {right : Nat → Parser Expr} {power : Nat} {s : TokenStream}
    (settled : Settled power s) (left : Expr) :
    joinRight right power left s = .ok ((left, false), s) := by
  simp only [joinRight, kind_bind]
  cases is : binaryOp? s.current.kind with
  | none => rfl
  | some found =>
      obtain ⟨op, l, r⟩ := found
      simp only [settled op l r is, if_true]
      rfl

theorem joinRight_of_operator {right : Nat → Parser Expr} {power l r : Nat} {op : BinaryOp}
    {s : TokenStream} (is : binaryOp? s.current.kind = some (op, l, r)) (enough : power ≤ l)
    (left : Expr) :
    joinRight right power left s = (do
      let value ← right r
      return (.binary left op value, true) : Parser (Expr × Bool)) s.advance := by
  simp only [joinRight, kind_bind, is, Nat.not_lt.mpr enough, if_false]
  rfl

theorem joinSame_of_none {op? : TokenKind → Option BinaryOp} {s : TokenStream}
    (other : op? s.current.kind = none) (operand : Parser Expr) (left : Expr) :
    joinSame op? operand left s = .ok ((left, false), s) := by
  simp only [joinSame, kind_bind, other]
  rfl

theorem joinSame_of_some {op? : TokenKind → Option BinaryOp} {s : TokenStream} {op : BinaryOp}
    (own : op? s.current.kind = some op) (operand : Parser Expr) (left : Expr) :
    joinSame op? operand left s = (do
      let value ← operand
      return (.binary left op value, true) : Parser (Expr × Bool)) s.advance := by
  simp only [joinSame, kind_bind, own]
  rfl

/-! ## Loops -/

section Loops

variable {rounds : Nat} {right : Nat → Parser Expr}

theorem iterate_of_settled (forward : ∀ power, Forward (right power)) {power : Nat}
    {s : TokenStream} (settled : Settled power s) (enough : s.ahead.length < rounds)
    (left : Expr) : iterate (joinRight right power) rounds left s = .ok (left, s) := by
  rw [iterate_unfold (asksAt_joinRight forward power) enough, bind_apply,
    joinRight_of_settled settled]
  rfl

theorem iterate_of_operator (forward : ∀ power, Forward (right power)) {power l r : Nat}
    {op : BinaryOp} {s : TokenStream} (is : binaryOp? s.current.kind = some (op, l, r))
    (above : power ≤ l) (enough : s.ahead.length < rounds) (left : Expr) :
    iterate (joinRight right power) rounds left s = (do
      let value ← right r
      iterate (joinRight right power) rounds (.binary left op value)) s.advance := by
  rw [iterate_unfold (asksAt_joinRight forward power) enough, bind_apply,
    joinRight_of_operator is above, bind_apply, bind_apply]
  cases right r s.advance <;> rfl

/-- A loop ends only where no operator of its power follows. -/
theorem settled_of_iterate (forward : ∀ power, Forward (right power)) {power : Nat}
    {left value : Expr} {s s' : TokenStream} (enough : s.ahead.length < rounds)
    (ran : iterate (joinRight right power) rounds left s = .ok (value, s')) :
    Settled power s' := by
  induction h : s.ahead.length using Nat.strongRecOn generalizing s left with
  | ind length ih =>
      obtain settled | ⟨op, l, r, is, above⟩ := settled_or_operator power s
      · rw [iterate_of_settled forward settled enough] at ran
        cases ran
        exact settled
      · rw [iterate_of_operator forward is above enough] at ran
        obtain ⟨operand, mid, taken, rest⟩ := bind_ok ran
        have passed : Passes s mid := by
          refine (TokenStream.passes_advance ?_).trans_leads (forward r _ _ _ taken)
          intro ended
          simp [ended, binaryOp?] at is
        have shorter := passed.shorter
        exact ih mid.ahead.length (by omega) (by omega) rest rfl

theorem asksAt_joinSame {op? : TokenKind → Option BinaryOp} {operand : Parser Expr}
    (forward : Forward operand) (ended : op? .endOfText = none) (left : Expr) (s : TokenStream) :
    AsksAt s (joinSame op? operand left) := by
  refine asksAt_kind ?_
  split
  · exact asksAt_stop s left
  · rename_i op own
    have more : s.current.kind ≠ .endOfText := by
      intro here
      rw [here, ended] at own
      cases own
    refine ConsumesAt.asksAt ((consumesAt_advance more).bind fun _ => ?_)
    exact forward.bind fun _ => forward_pure _

/-- A loop of the layered grammar, opened once. -/
theorem loop_unfold {β : Type} {step : β → Parser (β × Bool)}
    (asks : ∀ value s, AsksAt s (step value)) (value : β) (s : TokenStream) :
    loop step value s = (do
      let (next, more) ← step value
      if more then loop step next else pure next) s := by
  rw [loop, iterate_unfold asks (Nat.lt_succ_self _), bind_apply, bind_apply]
  cases ran : step value s with
  | error e => rfl
  | ok result =>
      obtain ⟨⟨next, more⟩, s'⟩ := result
      cases more with
      | false => rfl
      | true =>
          have shorter := (asks value s next s' ran).shorter
          exact iterate_rounds asks (by omega) (Nat.lt_succ_self _)

theorem loop_joinSame_of_none {op? : TokenKind → Option BinaryOp} {operand : Parser Expr}
    (forward : Forward operand) (ended : op? .endOfText = none) {s : TokenStream}
    (other : op? s.current.kind = none) (left : Expr) :
    loop (joinSame op? operand) left s = .ok (left, s) := by
  rw [loop_unfold (asksAt_joinSame forward ended), bind_apply, joinSame_of_none other]
  rfl

theorem loop_joinSame_of_some {op? : TokenKind → Option BinaryOp} {operand : Parser Expr}
    (forward : Forward operand) (ended : op? .endOfText = none) {s : TokenStream} {op : BinaryOp}
    (own : op? s.current.kind = some op) (left : Expr) :
    loop (joinSame op? operand) left s = (do
      let value ← operand
      loop (joinSame op? operand) (.binary left op value)) s.advance := by
  rw [loop_unfold (asksAt_joinSame forward ended), bind_apply, joinSame_of_some own, bind_apply,
    bind_apply]
  cases operand s.advance <;> rfl

/-- One layer is split off a loop: first the loop over the operators of the tighter layers runs
    dry, then the layer joins what it read with further operands. -/
theorem iterate_joinRight (forward : ∀ power, Forward (right power)) {power next : Nat}
    {op? : TokenKind → Option BinaryOp} {operand : Parser Expr} (tighter : power ≤ next)
    (own : ∀ k op, op? k = some op → ∃ l, binaryOp? k = some (op, l, next) ∧ power ≤ l ∧ l < next)
    (others : ∀ k op l r, binaryOp? k = some (op, l, r) → power ≤ l → op? k = none → next ≤ l)
    (operandForward : Forward operand)
    (same : ∀ s, s.ahead.length < rounds → right next s = operand s)
    (settles : ∀ s value s', s.ahead.length < rounds → operand s = .ok (value, s') →
      Settled next s')
    {s : TokenStream} (enough : s.ahead.length < rounds) (left : Expr) :
    iterate (joinRight right power) rounds left s =
      (iterate (joinRight right next) rounds left >>= loop (joinSame op? operand)) s := by
  have ended : op? .endOfText = none := by
    cases is : op? .endOfText with
    | none => rfl
    | some op =>
        obtain ⟨l, found, -⟩ := own _ op is
        cases found
  induction h : s.ahead.length using Nat.strongRecOn generalizing s left with
  | ind length ih =>
      obtain settled | ⟨op, l, r, is, above⟩ := settled_or_operator power s
      · have settledNext : Settled next s := fun op l r is =>
          Nat.lt_of_lt_of_le (settled op l r is) tighter
        have other : op? s.current.kind = none := by
          cases found : op? s.current.kind with
          | none => rfl
          | some op =>
              obtain ⟨l, is, above, -⟩ := own _ op found
              exact absurd (settled op l next is) (Nat.not_lt.mpr above)
        rw [iterate_of_settled forward settled enough, bind_apply,
          iterate_of_settled forward settledNext enough]
        exact (loop_joinSame_of_none operandForward ended other left).symm
      · have more : s.current.kind ≠ .endOfText := by
          intro here
          simp [here, binaryOp?] at is
        have moved := (TokenStream.passes_advance more).shorter
        cases found : op? s.current.kind with
        | none =>
            -- The operator is of a tighter layer, so both loops take it.
            have aboveNext := others _ op l r is above found
            rw [iterate_of_operator forward is above enough, bind_apply, bind_apply,
              iterate_of_operator forward is aboveNext enough, bind_apply]
            cases taken : right r s.advance with
            | error e => rfl
            | ok result =>
                obtain ⟨value, mid⟩ := result
                have shorter := (forward r _ _ _ taken).length_le
                exact (ih mid.ahead.length (by omega) (by omega) _ rfl).trans (bind_apply _ _ _)
        | some op' =>
            -- The operator is of this layer: the loop over the tighter ones stops in front of it,
            -- and again behind the operand.
            obtain ⟨l', is', -, below⟩ := own _ op' found
            obtain ⟨rfl, rfl, rfl⟩ : op = op' ∧ l = l' ∧ r = next := by simpa [is] using is'
            have settledNext : Settled r s := by
              intro op'' l'' r'' is''
              obtain ⟨-, rfl, -⟩ : op = op'' ∧ l = l'' ∧ r = r'' := by simpa [is] using is''
              exact below
            rw [iterate_of_operator forward is above enough, bind_apply,
              same s.advance (by omega), bind_apply,
              iterate_of_settled forward settledNext enough]
            refine Eq.trans ?_ (loop_joinSame_of_some operandForward ended found left).symm
            rw [bind_apply]
            cases taken : operand s.advance with
            | error e => rfl
            | ok result =>
                obtain ⟨value, mid⟩ := result
                have shorter := (operandForward _ _ _ taken).length_le
                have settledMid := settles s.advance value mid (by omega) taken
                refine (ih mid.ahead.length (by omega) (by omega) _ rfl).trans ?_
                rw [bind_apply, iterate_of_settled forward settledMid (by omega)]

end Loops

/-! ## The whole grammar -/

theorem forward_leftAssociative {operand : Parser Expr} (forward : Forward operand)
    (op? : TokenKind → Option BinaryOp) : Forward (leftAssociative op? operand) := by
  refine forward.bind fun first => ?_
  intro s value s' h
  refine forward_iterate (fun left => ?_) (s.ahead.length + 1) first s value s' h
  refine forward_kind.bind fun k => ?_
  split
  · exact forward_pure _
  · exact forward_advance.bind fun _ => forward.bind fun _ => forward_pure _

theorem forward_layers {operand : Parser Expr} (forward : Forward operand)
    (ops : List (TokenKind → Option BinaryOp)) : Forward (ops.foldr leftAssociative operand) := by
  induction ops with
  | nil => exact forward
  | cons op? tighter ih => exact forward_leftAssociative ih op?

section Grammar

variable {rounds : Nat} {inner : Level}

/-- Operands joined by operators of some power are read as far as these operators go. -/
theorem settled_of_binary (consuming : inner.Consuming) (positive : 0 < rounds)
    {steps power : Nat} {s s' : TokenStream} {value : Expr} (enough : s.ahead.length < rounds)
    (read : binary rounds inner (steps + 1) power s = .ok (value, s')) : Settled power s' := by
  obtain ⟨first, mid, taken, rest⟩ := bind_ok read
  have shorter := ((consumes_prefixed consuming positive).forward _ _ _ taken).length_le
  exact settled_of_iterate
    (fun power => (consumes_binary consuming positive steps power).forward) (by omega) rest

/-- The induction is on how often the power may still grow, so that the parsers of right operands
    are those of the layers; for these, layer by layer, the loop is taken apart. -/
theorem binary_eq_layers (consuming : inner.Consuming) (positive : 0 < rounds) {steps : Nat} :
    ∀ {power : Nat} {ops : List (TokenKind → Option BinaryOp)}, Ladder power ops →
      ops.length ≤ steps → ∀ s : TokenStream, s.ahead.length < rounds →
      binary rounds inner steps power s =
        ops.foldr leftAssociative (prefixed rounds inner) s := by
  have operandForward := (consumes_prefixed consuming positive).forward
  induction steps with
  | zero =>
      intro power ops _ few s enough
      obtain rfl := List.length_eq_zero_iff.mp (Nat.le_zero.mp few)
      rfl
  | succ steps ih =>
      intro power ops ladder
      have forward : ∀ power, Forward (binary rounds inner steps power) := fun power =>
        (consumes_binary consuming positive steps power).forward
      induction ladder with
      | top all =>
          intro _ s enough
          rw [binary, bind_apply]
          cases read : prefixed rounds inner s with
          | error e => exact read.symm
          | ok result =>
              obtain ⟨first, mid⟩ := result
              have shorter := (operandForward _ _ _ read).length_le
              refine Eq.trans ?_ read.symm
              exact iterate_of_settled forward (fun op l r is => all _ op l r is) (by omega) first
      | @rung power next op? tighter le own others ladder innerIh =>
          intro few s enough
          have fewer : tighter.length ≤ steps := Nat.le_of_succ_le_succ few
          have loops := innerIh (Nat.le_succ_of_le fewer)
          have layersForward := forward_layers operandForward tighter
          have settles : ∀ (s : TokenStream) (value : Expr) (s' : TokenStream),
              s.ahead.length < rounds →
              tighter.foldr leftAssociative (prefixed rounds inner) s = .ok (value, s') →
              Settled next s' := by
            intro s value s' enough read
            rw [← loops s enough] at read
            exact settled_of_binary consuming positive enough read
          have split := loops s enough
          rw [binary, bind_apply] at split
          rw [binary, bind_apply, List.foldr_cons, leftAssociative, bind_apply, ← split]
          cases taken : prefixed rounds inner s with
          | error e => rfl
          | ok result =>
              obtain ⟨first, mid⟩ := result
              have shorter := (operandForward _ _ _ taken).length_le
              refine Eq.trans ?_ (bind_apply _ _ _)
              exact iterate_joinRight forward le own others layersForward
                (ih ladder fewer) settles (by omega) first

/-- The operand of a unary operator is a single operand, since no operator binds as tightly. -/
theorem operand_eq_prefixed (positive : 0 < rounds) (depth : Nat) {s : TokenStream}
    (enough : s.ahead.length < rounds) :
    (level rounds (depth + 1)).operand s = prefixed rounds (level rounds depth) s :=
  binary_eq_layers (level_consuming positive depth) positive ladder_unary (Nat.zero_le _) s enough

end Grammar

/-- The unary operator that a token is. -/
def unary? : TokenKind → Option UnaryOp
  | .symbol .not => some .not
  | .symbol .minus => some .neg
  | _ => none

theorem prefixed_of_unary {rounds : Nat} {inner : Level} {s : TokenStream} {op : UnaryOp}
    (is : unary? s.current.kind = some op) :
    prefixed rounds inner s = (do
      let operand ← inner.operand
      return Expr.unary op operand) s.advance := by
  unfold unary? at is
  split at is
  · rename_i here
    cases is
    rw [prefixed, kind_bind, here]
    rfl
  · rename_i here
    cases is
    rw [prefixed, kind_bind, here]
    rfl
  · cases is

end Parser

/-- Moves on by a number of tokens. -/
def TokenStream.skip (s : TokenStream) (count : Nat) : TokenStream :=
  { s with ahead := s.ahead.drop count }

theorem TokenStream.length_skip_ofTokens (tokens : List Token) (index : Nat) :
    ((TokenStream.ofTokens tokens).skip index).ahead.length < tokens.length + 1 := by
  have all : (TokenStream.ofTokens tokens).ahead.length ≤ tokens.length := by
    unfold ofTokens
    split
    · exact Nat.zero_le _
    · split
      · simp
      · exact Nat.le_refl _
  have dropped : ((TokenStream.ofTokens tokens).skip index).ahead.length ≤
      (TokenStream.ofTokens tokens).ahead.length := by simp [skip]
  omega

/-- From every place of every list of tokens and at every nesting depth, the operators are read as by
    the layered grammar: the same expression and the same rest, or the same error. And the operand
    of a unary operator is one single operand. -/
theorem operators_read_as_layers (tokens : List Token) (index depth : Nat) :
    let rounds := tokens.length + 1
    let s := (TokenStream.ofTokens tokens).skip index
    Parser.binary rounds (Parser.level rounds depth) Parser.powerSteps 0 s =
      Parser.layered (Parser.prefixed rounds (Parser.level rounds depth)) s ∧
    ∀ op, Parser.unary? s.current.kind = some op →
      Parser.prefixed rounds (Parser.level rounds (depth + 1)) s = (do
        Parser.advance
        let operand ← Parser.prefixed rounds (Parser.level rounds depth)
        return Expr.unary op operand) s := by
  intro rounds s
  have positive : 0 < rounds := Nat.succ_pos _
  have enough : s.ahead.length < rounds := TokenStream.length_skip_ofTokens tokens index
  constructor
  · exact Parser.binary_eq_layers (Parser.level_consuming positive depth) positive
      Parser.ladder_layers (by decide) s enough
  · intro op is
    have shorter := s.leads_advance.length_le
    rw [Parser.prefixed_of_unary is, Parser.advance_bind, Parser.bind_apply, Parser.bind_apply,
      Parser.operand_eq_prefixed positive depth (by omega)]

theorem operators_read_as_layers_negation :
    let tokens : List Token := [⟨.symbol .not, .start⟩, ⟨.identifier "x", .start⟩]
    let s := (TokenStream.ofTokens tokens).skip 0
    Parser.unary? s.current.kind = some .not ∧
      Parser.prefixed 3 (Parser.level 3 1) s = (do
        Parser.advance
        let operand ← Parser.prefixed 3 (Parser.level 3 0)
        return Expr.unary .not operand) s := by
  intro tokens s
  have is : Parser.unary? s.current.kind = some .not := rfl
  exact ⟨is, (operators_read_as_layers tokens 0 0).2 .not is⟩

end MinangScript
