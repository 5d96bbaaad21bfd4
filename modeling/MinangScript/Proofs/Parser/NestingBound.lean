import MinangScript.Proofs.Parser.Scripted

/-! # The limit of nesting bounds the recursion

Following a script step by step shows which parsers are at work inside each other and where the
counter of nesting stands. Whatever the script, the counter comes back to where it was, also after
an error. The scripts of the language are shallow: between two places where a level is counted, at
most thirteen parsers call each other, because every right operand of a binary operator has a
greater power. So the activations at any moment are bounded by the counter, and with it by the
limit.
-/

namespace MinangScript

namespace Script

/-! ## Following a script step by step -/

/-- A parse under way: what is left to read, the counter of nesting, and the parsers that were
    called and have not returned, the innermost first. -/
structure Parsing where
  stream : TokenStream
  depth : Int
  active : List Activation

namespace Parsing

/-- A parse that is about to start. -/
def start (tokens : List Token) : Parsing :=
  ⟨.ofTokens tokens, 0, []⟩

def moveTo (p : Parsing) (s : TokenStream) : Parsing :=
  { p with stream := s }

def enter (p : Parsing) (f : Activation) : Parsing :=
  { p with active := f :: p.active }

def leave (p : Parsing) : Parsing :=
  { p with active := p.active.tail }

def count (p : Parsing) : Parsing :=
  { p with depth := p.depth + 1 }

def uncount (p : Parsing) : Parsing :=
  { p with depth := p.depth - 1 }

end Parsing

/-- A moment of a parse. -/
inductive Moment where
  /-- A step is about to be taken, or has just been taken. -/
  | standing (p : Parsing)
  /-- A parser returns, with the counter at its call and now. -/
  | returned (f : Activation) (before after : Int)

/-- How a script was followed: its result or its error, the parse at the end, and the moments on the
    way. -/
structure Account (α : Type) where
  outcome : Except SyntaxError α
  finish : Parsing
  moments : List Moment

namespace Account

variable {α β : Type}

/-- The account with moments before its own. -/
def after (moments : List Moment) (a : Account α) : Account α :=
  { a with moments := moments ++ a.moments }

/-- Goes on with the result, unless there is an error. -/
def andThen (a : Account β) (next : β → Parsing → Account α) : Account α :=
  match a.outcome with
  | .ok b => (next b a.finish).after a.moments
  | .error e => ⟨.error e, a.finish, a.moments⟩

/-- The result and what is left to read. -/
def reading (a : Account α) : Except SyntaxError (α × TokenStream) :=
  a.outcome.map fun value => (value, a.finish.stream)

/-- Changes the parse at the end, whether there is an error or not. -/
def closing (a : Account α) (told : List Moment) (tidy : Parsing → Parsing) : Account α :=
  ⟨a.outcome, tidy a.finish, a.moments ++ told ++ [.standing (tidy a.finish)]⟩

end Account

/-- Follows a script. A level is counted up before what is nested and down behind it. -/
def trace : {α : Type} → Script α → Parsing → Account α
  | _, done value, p => ⟨.ok value, p, [.standing p]⟩
  | _, fail problem, p => ⟨.error ⟨problem, p.stream.current⟩, p, [.standing p]⟩
  | _, look next, p => ((next p.stream.current).trace p).after [.standing p]
  | _, lookPast next, p =>
    ((next (p.stream.dropWhile Parser.isNewline).current).trace p).after [.standing p]
  | _, advance next, p => (next.trace (p.moveTo p.stream.advance)).after [.standing p]
  | _, skip what next, p =>
    (next.trace (p.moveTo (p.stream.dropWhile what))).after [.standing p]
  | _, call f body next, p =>
    let inner := body.trace (p.enter f)
    ((inner.closing [.returned f p.depth inner.finish.depth] Parsing.leave).andThen
      fun b q => (next b).trace q).after [.standing p]
  | _, nest body next, p =>
    if maxNesting ≤ p.depth then
      ⟨.error ⟨.nestingTooDeep, p.stream.current⟩, p, [.standing p]⟩
    else
      (((body.trace p.count).closing [] Parsing.uncount).andThen
        fun b q => (next b).trace q).after [.standing p]

/-! ## The counter comes back -/

/-- The counter and the active parsers are what they were. -/
structure Kept (p q : Parsing) : Prop where
  depth : q.depth = p.depth
  active : q.active = p.active

variable {α β : Type} {p q r : Parsing}

theorem Kept.trans (first : Kept p q) (next : Kept q r) : Kept p r :=
  ⟨next.depth.trans first.depth, next.active.trans first.active⟩

theorem Kept.andThen {a : Account β} {next : β → Parsing → Account α} (kept : Kept p a.finish)
    (later : ∀ b, Kept a.finish (next b a.finish).finish) : Kept p (a.andThen next).finish := by
  unfold Account.andThen
  cases a.outcome with
  | ok b => exact kept.trans (later b)
  | error e => exact kept

theorem Kept.leave {f : Activation} (kept : Kept (p.enter f) q) : Kept p q.leave :=
  ⟨kept.depth, congrArg List.tail kept.active⟩

theorem Kept.uncount (kept : Kept p.count q) : Kept p q.uncount :=
  ⟨by
    have depth : q.depth = p.depth + 1 := kept.depth
    simp only [Parsing.uncount]
    omega, kept.active⟩

theorem Kept.of_moveTo {s : TokenStream} (kept : Kept (p.moveTo s) q) : Kept p q :=
  ⟨kept.depth, kept.active⟩

theorem kept_trace (x : Script α) (p : Parsing) : Kept p (x.trace p).finish := by
  induction x generalizing p with
  | done | fail => exact ⟨rfl, rfl⟩
  | look next ih | lookPast next ih => exact ih _ p
  | advance next ih | skip what next ih => exact (ih (p.moveTo _)).of_moveTo
  | call f body next ihBody ih => exact (ihBody (p.enter f)).leave.andThen fun b => ih b _
  | nest body next ihBody ih =>
      unfold trace
      split
      · exact ⟨rfl, rfl⟩
      · exact (ihBody p.count).uncount.andThen fun b => ih b _

theorem mem_moments_of_first {a : Account β} {next : β → Parsing → Account α} {m : Moment}
    (member : m ∈ a.moments) : m ∈ (a.andThen next).moments := by
  unfold Account.andThen
  split
  · exact List.mem_append_left _ member
  · exact member

/-- Whatever is called returns, with a result or with an error. -/
theorem returned_calling (f : Activation) (body : Script α) (p : Parsing) :
    .returned f p.depth p.depth ∈ ((calling f body).trace p).moments := by
  have back : (body.trace (p.enter f)).finish.depth = p.depth := (kept_trace body _).depth
  rw [calling, trace]
  refine List.mem_append_right _ (mem_moments_of_first ?_)
  simp [Account.closing, back]

/-! ## Following a script is what its parser does -/

theorem bind_eq_reading {x : Parser β} {f : β → Parser α} {s : TokenStream} {a : Account β}
    {next : β → Parsing → Account α} (first : x s = a.reading)
    (later : ∀ b, f b a.finish.stream = (next b a.finish).reading) :
    (x >>= f) s = (a.andThen next).reading := by
  rw [Parser.bind_apply, first, Account.reading, Account.andThen]
  cases a.outcome with
  | ok b => exact later b
  | error e => rfl

theorem parser_eq_reading (x : Script α) {depth : Nat} {p : Parsing} (counted : p.depth = depth) :
    x.parser depth p.stream = (x.trace p).reading := by
  induction x generalizing depth p with
  | done | fail => rfl
  | look next ih | lookPast next ih => exact ih _ counted
  | advance next ih | skip what next ih => exact ih (p := p.moveTo _) counted
  | call f body next ihBody ih =>
      have kept := (kept_trace body (p.enter f)).leave
      exact bind_eq_reading (ihBody (p := p.enter f) counted) fun b =>
        ih b (kept.depth.trans counted)
  | nest body next ihBody ih =>
      unfold parser trace deeper
      have same : maxNesting ≤ depth ↔ (maxNesting : Int) ≤ p.depth := by omega
      split
      · rename_i full
        rw [if_pos (same.mp full)]
        rfl
      · rename_i left
        rw [if_neg (mt same.mpr left)]
        have kept := (kept_trace body p.count).uncount
        have deeper : p.count.depth = (depth + 1 : Nat) := congrArg (· + 1) counted
        exact bind_eq_reading (ihBody deeper) fun b => ih b (kept.depth.trans counted)

/-! ## Shallow scripts -/

/-- How many parsers call each other at most before a level is counted. -/
def callsPerLevel : Nat := 13

/-- Outside of what it nests the script has at most `room` parsers call each other, and inside at
    most as many as are allowed on each level. -/
def Shallow : {α : Type} → Nat → Script α → Prop
  | _, _, done _ => True
  | _, _, fail _ => True
  | _, room, look next => ∀ t, (next t).Shallow room
  | _, room, lookPast next => ∀ t, (next t).Shallow room
  | _, room, advance next => next.Shallow room
  | _, room, skip _ next => next.Shallow room
  | _, room, call _ body next => 0 < room ∧ body.Shallow (room - 1) ∧ ∀ b, (next b).Shallow room
  | _, room, nest body next => body.Shallow callsPerLevel ∧ ∀ b, (next b).Shallow room

/-- Seen from the parse `p`, where there is room for some more calls: the counter is not below its
    value and not above the limit, the calls on the levels counted since are not too many, and what
    returns finds the counter as it was. -/
def Moment.Within (p : Parsing) (room : Nat) : Moment → Prop
  | standing q => p.depth ≤ q.depth ∧ q.depth ≤ maxNesting ∧
      q.active.length ≤ p.active.length + room + callsPerLevel * (q.depth - p.depth)
  | returned _ before after => after = before

namespace Moment.Within

variable {room : Nat} {m : Moment}

theorem self (limited : p.depth ≤ maxNesting) (kept : Kept p q) : (standing q).Within p room := by
  simp only [Within, kept.depth, kept.active]
  omega

theorem of_kept (kept : Kept p q) (within : m.Within q room) : m.Within p room := by
  cases m with
  | standing r => simpa only [Within, kept.depth, kept.active] using within
  | returned => exact within

theorem of_enter {f : Activation} (roomLeft : 0 < room) (within : m.Within (p.enter f) (room - 1)) :
    m.Within p room := by
  cases m with
  | standing r =>
      simp only [Within, Parsing.enter, List.length_cons] at within ⊢
      omega
  | returned => exact within

/-- All calls of the level inside are allowed for, however many more there was room for outside. -/
theorem of_count (within : m.Within p.count callsPerLevel) : m.Within p room := by
  cases m with
  | standing r =>
      simp only [Within, Parsing.count, callsPerLevel] at within ⊢
      omega
  | returned => exact within

end Moment.Within

theorem mem_moments_andThen {a : Account β} {next : β → Parsing → Account α} {m : Moment}
    (member : m ∈ (a.andThen next).moments) :
    m ∈ a.moments ∨ ∃ b, m ∈ (next b a.finish).moments := by
  unfold Account.andThen at member
  split at member
  · rename_i b _
    exact (List.mem_append.mp member).imp_right fun later => ⟨b, later⟩
  · exact .inl member

/-- What is seen of a body, of its end and of what comes behind it. -/
theorem within_andThen {room : Nat} {a : Account β} {next : β → Parsing → Account α}
    {told : List Moment} {tidy : Parsing → Parsing} (limited : p.depth ≤ maxNesting)
    (kept : Kept p (tidy a.finish)) (inside : ∀ m ∈ a.moments, m.Within p room)
    (ends : ∀ m ∈ told, m.Within p room)
    (behind : ∀ b, ∀ m ∈ (next b (tidy a.finish)).moments, m.Within (tidy a.finish) room) :
    ∀ m ∈ (((a.closing told tidy).andThen next).after [.standing p]).moments, m.Within p room := by
  intro m member
  obtain rfl | member := List.mem_cons.mp member
  · exact .self limited ⟨rfl, rfl⟩
  obtain here | ⟨b, later⟩ := mem_moments_andThen member
  · simp only [Account.closing, List.mem_append, List.mem_singleton] at here
    obtain (own | end') | rfl := here
    · exact inside m own
    · exact ends m end'
    · exact .self limited kept
  · exact (behind b m later).of_kept kept

theorem within_after {room : Nat} {a : Account α} (limited : p.depth ≤ maxNesting)
    (kept : Kept p q) (later : ∀ m ∈ a.moments, m.Within q room) :
    ∀ m ∈ (a.after [.standing p]).moments, m.Within p room := by
  intro m member
  obtain rfl | member := List.mem_cons.mp member
  · exact .self limited ⟨rfl, rfl⟩
  · exact (later m member).of_kept kept

theorem within_trace (x : Script α) {room : Nat} (shallow : x.Shallow room) {p : Parsing}
    (limited : p.depth ≤ maxNesting) : ∀ m ∈ (x.trace p).moments, m.Within p room := by
  induction x generalizing room p with
  | done | fail =>
      intro m member
      obtain rfl := List.mem_singleton.mp member
      exact .self limited ⟨rfl, rfl⟩
  | look next ih | lookPast next ih =>
      exact within_after limited ⟨rfl, rfl⟩ (ih _ (shallow _) limited)
  | advance next ih | skip what next ih =>
      exact within_after (q := p.moveTo _) limited ⟨rfl, rfl⟩ (ih shallow limited)
  | call f body next ihBody ih =>
      obtain ⟨roomLeft, inside, behind⟩ := shallow
      have kept := kept_trace body (p.enter f)
      refine within_andThen limited kept.leave ?_ ?_ ?_
      · intro m member
        exact (ihBody inside (p := p.enter f) limited m member).of_enter roomLeft
      · intro m member
        obtain rfl := List.mem_singleton.mp member
        exact kept.depth
      · exact fun b => ih b (behind b) (kept.leave.depth.trans_le limited)
  | nest body next ihBody ih =>
      obtain ⟨inside, behind⟩ := shallow
      unfold trace
      split
      · intro m member
        obtain rfl := List.mem_singleton.mp member
        exact .self limited ⟨rfl, rfl⟩
      · rename_i left
        have kept := (kept_trace body p.count).uncount
        have limited' : p.count.depth ≤ maxNesting := by
          simp only [Parsing.count]
          omega
        refine within_andThen limited kept ?_ nofun ?_
        · exact fun m member => (ihBody inside limited' m member).of_count
        · exact fun b => ih b (behind b) (kept.depth.trans_le limited)

/-! ## The scripts of the language are shallow -/

theorem Shallow.mono {x : Script α} {room room' : Nat} (shallow : x.Shallow room)
    (more : room ≤ room') : x.Shallow room' := by
  induction x generalizing room room' with
  | done | fail => trivial
  | look next ih | lookPast next ih => exact fun t => ih t (shallow t) more
  | advance next ih | skip what next ih => exact ih shallow more
  | call f body next ihBody ih =>
      obtain ⟨roomLeft, inside, behind⟩ := shallow
      exact ⟨by omega, ihBody inside (by omega), fun b => ih b (behind b) more⟩
  | nest body next ihBody ih =>
      obtain ⟨inside, behind⟩ := shallow
      exact ⟨inside, fun b => ih b (behind b) more⟩

theorem Shallow.bind {x : Script α} {f : α → Script β} {room : Nat} (first : x.Shallow room)
    (next : ∀ a, (f a).Shallow room) : (x >>= f).Shallow room := by
  change (x.bind f).Shallow room
  induction x with
  | done value => exact next value
  | fail => trivial
  | look _ ih | lookPast _ ih => exact fun t => ih t (first t) next
  | advance _ ih | skip _ _ ih => exact ih first next
  | call g body _ _ ih =>
      obtain ⟨roomLeft, inside, behind⟩ := first
      exact ⟨roomLeft, inside, fun b => ih b (behind b) next⟩
  | nest body _ _ ih =>
      obtain ⟨inside, behind⟩ := first
      exact ⟨inside, fun b => ih b (behind b) next⟩

variable {room : Nat}

theorem shallow_pure (value : α) : (pure value : Script α).Shallow room := trivial

theorem shallow_fail (problem : SyntaxProblem) : (fail problem : Script α).Shallow room := trivial

theorem shallow_current : current.Shallow room := fun _ => trivial

theorem shallow_kind : kind.Shallow room := fun _ => trivial

theorem shallow_kindPast : kindPast.Shallow room := fun _ => trivial

theorem shallow_isAt (k : TokenKind) : (isAt k).Shallow room := fun _ => trivial

theorem shallow_move : move.Shallow room := trivial

theorem shallow_skipNewlines : skipNewlines.Shallow room := trivial

theorem shallow_skipSeparators : skipSeparators.Shallow room := trivial

theorem Shallow.ite {x y : Script α} (c : Prop) [Decidable c] (yes : x.Shallow room)
    (no : y.Shallow room) : (if c then x else y).Shallow room := by
  split
  · exact yes
  · exact no

theorem shallow_expect (k : TokenKind) : (expect k).Shallow room :=
  (shallow_isAt k).bind fun _ => .ite _ shallow_move (shallow_fail _)

theorem Shallow.calling {x : Script α} (shallow : x.Shallow room) (f : Activation) :
    (calling f x).Shallow (room + 1) :=
  ⟨Nat.succ_pos room, shallow, fun _ => trivial⟩

theorem Shallow.nested {x : Script α} (shallow : x.Shallow callsPerLevel) :
    (nested x).Shallow room :=
  ⟨shallow, fun _ => trivial⟩

theorem shallow_iterate {step : β → Script (β × Bool)}
    (shallow : ∀ value, (step value).Shallow room)
    (rounds : Nat) (value : β) : (iterate step rounds value).Shallow room := by
  induction rounds generalizing value with
  | zero => exact shallow_pure value
  | succ rounds ih =>
      exact (shallow value).bind fun (next, more) => .ite _ (ih next) (shallow_pure next)

theorem shallow_ident : ident.Shallow 1 := by
  refine Shallow.calling (shallow_current.bind fun t => ?_) .name
  split
  · exact shallow_move.bind fun _ => shallow_pure _
  · exact shallow_fail _

theorem shallow_propertyName : propertyName.Shallow 2 := by
  refine Shallow.calling (shallow_kind.bind fun k => ?_) .propertyName
  split
  · exact shallow_ident
  · exact shallow_fail _

theorem shallow_comma : comma.Shallow room := by
  refine shallow_skipNewlines.bind fun _ => (shallow_isAt _).bind fun _ => .ite _ ?_ ?_
  · exact shallow_move.bind fun _ => shallow_skipNewlines.bind fun _ => shallow_pure true
  · exact shallow_pure false

/-- The scripts of a level call one parser each before a level is counted, those of operands none.
    -/
structure Level.Shallow (inner : Level) : Prop where
  statement : inner.statement.Shallow 1
  expression : inner.expression.Shallow 1
  operand : inner.operand.Shallow 0
  elseIf : inner.elseIf.Shallow 1

namespace Level.Shallow

variable {rounds : Nat} {inner : Level}

theorem item (shallow : inner.Shallow) (items : Expr → β) :
    (do let item ← inner.expression
        return (items item, ← comma) : Script (β × Bool)).Shallow 1 :=
  shallow.expression.bind fun _ => shallow_comma.bind fun _ => shallow_pure _

theorem callArgs (shallow : inner.Shallow) : (callArgs rounds inner).Shallow 2 := by
  have close : ∀ args : List Expr, (do expect (.symbol .rightParen); return args.reverse :
      Script (List Expr)).Shallow 1 := fun _ => (shallow_expect _).bind fun _ => shallow_pure _
  refine Script.Shallow.calling ?_ .arguments
  refine (shallow_expect _).bind fun _ => shallow_skipNewlines.bind fun _ => ?_
  refine (shallow_isAt _).bind fun _ => .ite _ ?_ ?_
  · exact (shallow_pure []).bind close
  · exact (shallow_iterate (fun args => shallow.item (· :: args)) rounds []).bind close

theorem arrayLiteral (shallow : inner.Shallow) : (arrayLiteral rounds inner).Shallow 2 := by
  have items : ∀ items, (nextItem inner items).Shallow 1 := fun items =>
    (shallow_isAt _).bind fun _ => .ite _ (shallow_pure _) (shallow.item (· :: items))
  refine Script.Shallow.calling ?_ .array
  refine (shallow_expect _).bind fun _ => shallow_skipNewlines.bind fun _ => ?_
  refine (shallow_iterate items rounds []).bind fun _ => ?_
  exact (shallow_expect _).bind fun _ => shallow_pure _

theorem propertyKey : propertyKey.Shallow room := by
  refine shallow_kind.bind fun k => ?_
  split
  · exact shallow_move.bind fun _ => shallow_pure _
  · exact shallow_move.bind fun _ => shallow_pure _
  · exact shallow_move.bind fun _ => shallow_pure _
  · exact shallow_fail _

theorem objectLiteral (shallow : inner.Shallow) : (objectLiteral rounds inner).Shallow 2 := by
  have properties : ∀ properties, (nextProperty inner properties).Shallow 1 := fun properties =>
    (shallow_isAt _).bind fun _ => .ite _ (shallow_pure _) <|
      propertyKey.bind fun key => (shallow_expect _).bind fun _ =>
        shallow.item fun value => (key, value) :: properties
  refine Script.Shallow.calling ?_ .object
  refine (shallow_expect _).bind fun _ => shallow_skipNewlines.bind fun _ => ?_
  refine (shallow_iterate properties rounds []).bind fun _ => ?_
  exact (shallow_expect _).bind fun _ => shallow_pure _

theorem interpolation (shallow : inner.Shallow) : (interpolation inner).Shallow 1 := by
  refine (shallow_isAt _).bind fun _ => .ite _ ?_ ?_
  · exact shallow_move.bind fun _ => shallow_pure _
  · refine shallow.expression.bind fun _ => ?_
    exact (shallow_expect _).bind fun _ => shallow_pure _

theorem templateLiteral (shallow : inner.Shallow) : (templateLiteral rounds inner).Shallow 2 := by
  have parts : ∀ parts, (nextPart inner parts).Shallow 1 := by
    intro parts
    refine shallow_kind.bind fun k => ?_
    split
    · exact shallow_move.bind fun _ => (shallow_isAt _).bind fun _ => shallow_pure _
    · refine shallow_move.bind fun _ => shallow.interpolation.bind fun _ => ?_
      refine shallow_kind.bind fun k => ?_
      split <;> exact shallow_pure _
    · exact shallow_pure _
  refine Script.Shallow.calling ?_ .template
  exact (shallow_iterate parts rounds []).bind fun _ => shallow_pure _

theorem primary (shallow : inner.Shallow) : (primary rounds inner).Shallow 3 := by
  have taken : ∀ value : Expr, (do move; return value : Script Expr).Shallow 2 := fun value =>
    shallow_move.bind fun _ => shallow_pure value
  refine Script.Shallow.calling (shallow_current.bind fun t => ?_) .primary
  dsimp only
  split
  · exact taken _
  · exact taken _
  · exact taken _
  · exact (shallow_ident.mono (by decide)).bind fun _ => shallow_pure _
  · exact taken _
  · exact taken _
  · exact taken _
  · exact taken _
  · exact shallow.templateLiteral
  · exact shallow.templateLiteral
  · refine (shallow_expect _).bind fun _ => (shallow.expression.mono (by decide)).bind fun _ => ?_
    exact (shallow_expect _).bind fun _ => shallow_pure _
  · exact shallow.arrayLiteral
  · exact shallow.objectLiteral
  · exact shallow_fail _

theorem nextSuffix (shallow : inner.Shallow) (value : Expr) :
    (nextSuffix rounds inner value).Shallow 2 := by
  refine shallow_kind.bind fun k => ?_
  split
  · exact shallow.callArgs.bind fun _ => shallow_pure _
  · exact shallow_move.bind fun _ => shallow_propertyName.bind fun _ => shallow_pure _
  · split
    · exact shallow_pure _
    · split
      · exact shallow_move.bind fun _ => shallow_pure _
      · exact shallow_fail _

theorem postfixed (shallow : inner.Shallow) : (postfixed rounds inner).Shallow 4 := by
  refine Script.Shallow.calling (shallow.primary.bind fun first => ?_) .postfixed
  exact shallow_iterate (fun value => (shallow.nextSuffix value).mono (by decide)) rounds first

theorem prefixed (shallow : inner.Shallow) : (prefixed rounds inner).Shallow 5 := by
  have operand : ∀ op : UnaryOp, (do
      move
      return Expr.unary op (← inner.operand) : Script Expr).Shallow 4 := fun op =>
    shallow_move.bind fun _ => (shallow.operand.mono (by decide)).bind fun _ => shallow_pure _
  refine Script.Shallow.calling (shallow_kind.bind fun k => ?_) .prefixed
  split
  · exact operand .not
  · exact operand .neg
  · split
    · exact shallow.postfixed
    · refine shallow_move.bind fun _ => shallow.postfixed.bind fun value => ?_
      split
      · exact shallow_pure _
      · exact shallow_fail _

/-- Every right operand leaves fewer powers to its own operators, so it is their number that bounds
    how operands call each other, and not how far the script is written out. -/
theorem operands (shallow : inner.Shallow) (steps power : Nat) :
    (operands rounds inner steps power).Shallow (Parser.rank power + 6) := by
  have first : (Script.prefixed rounds inner).Shallow (Parser.rank power + 5) :=
    shallow.prefixed.mono (by omega)
  induction steps generalizing power with
  | zero => exact first.calling .operands
  | succ steps ih =>
      refine Script.Shallow.calling (first.bind fun left => ?_) .operands
      refine shallow_iterate (fun left => shallow_kind.bind fun k => ?_) rounds left
      split
      · exact shallow_pure _
      · rename_i op l r is
        split
        · exact shallow_pure _
        · rename_i enough
          have fewer := Parser.rank_lt is (Nat.not_lt.mp enough)
          have right := (ih r (shallow.prefixed.mono (by omega))).mono
            (by omega : _ ≤ Parser.rank power + 5)
          exact shallow_move.bind fun _ => right.bind fun _ => shallow_pure _

theorem expressionBody (shallow : inner.Shallow) (steps : Nat) :
    (expressionBody rounds inner steps).Shallow 13 := by
  have left : (Script.operands rounds inner steps 0).Shallow 12 := shallow.operands steps 0
  refine Script.Shallow.calling (left.bind fun left => shallow_kind.bind fun k => ?_) .assignment
  split
  · exact shallow_pure _
  · split
    · refine shallow_move.bind fun _ => (shallow.expression.mono (by decide)).bind fun _ => ?_
      exact shallow_pure _
    · exact shallow_fail _

theorem block (shallow : inner.Shallow) : (block rounds inner).Shallow 2 := by
  have statements : ∀ body, (nextInBlock inner body).Shallow 1 := by
    intro body
    refine shallow_skipSeparators.bind fun _ => shallow_kind.bind fun k => ?_
    split
    · exact shallow_pure _
    · exact shallow_fail _
    · exact shallow.statement.bind fun _ => shallow_pure _
  refine Script.Shallow.calling ((shallow_expect _).bind fun _ => ?_) .block
  refine (shallow_iterate statements rounds []).bind fun _ => ?_
  exact (shallow_expect _).bind fun _ => shallow_pure _

theorem declaration (shallow : inner.Shallow) (declKind : DeclKind) :
    (declaration inner declKind).Shallow 2 := by
  refine Script.Shallow.calling (shallow_move.bind fun _ => ?_) .declaration
  refine shallow_ident.bind fun _ => (shallow_isAt _).bind fun _ => .ite _ ?_ (.ite _ ?_ ?_)
  · exact shallow_move.bind fun _ => shallow.expression.bind fun _ => shallow_pure _
  · exact shallow_fail _
  · exact shallow_pure _

theorem functionDeclaration (shallow : inner.Shallow) :
    (functionDeclaration rounds inner).Shallow 3 := by
  have name : ident.Shallow 2 := shallow_ident.mono (by decide)
  have next : ∀ params, (nextParam params).Shallow 2 := fun params =>
    name.bind fun _ => (shallow_isAt _).bind fun _ => .ite _
      (shallow_move.bind fun _ => shallow_pure _) (shallow_pure _)
  have close : ∀ params : List Ident, (do expect (.symbol .rightParen); return params.reverse :
      Script (List Ident)).Shallow 2 := fun _ => (shallow_expect _).bind fun _ => shallow_pure _
  have params : (parameters rounds).Shallow 2 :=
    (shallow_expect _).bind fun _ => (shallow_isAt _).bind fun _ => .ite _
      ((shallow_pure []).bind close) ((shallow_iterate next rounds []).bind close)
  refine Script.Shallow.calling (shallow_move.bind fun _ => name.bind fun _ => ?_) .function
  exact params.bind fun _ => shallow.block.bind fun _ => shallow_pure _

theorem otherBranch (shallow : inner.Shallow) : (otherBranch rounds inner).Shallow 2 := by
  refine shallow_kindPast.bind fun k => ?_
  split
  · refine shallow_skipNewlines.bind fun _ => shallow_move.bind fun _ => ?_
    refine (shallow_isAt _).bind fun _ => .ite _ ?_ ?_
    · exact (shallow.statement.mono (by decide)).bind fun _ => shallow_pure _
    · exact shallow.block.bind fun _ => shallow_pure _
  · refine shallow_skipNewlines.bind fun _ => ?_
    exact (shallow.elseIf.mono (by decide)).bind fun _ => shallow_pure _
  · exact shallow_pure _

theorem conditional (shallow : inner.Shallow) : (conditional rounds inner).Shallow 3 := by
  refine Script.Shallow.calling (shallow_move.bind fun _ => ?_) .conditional
  refine (shallow.expression.mono (by decide)).bind fun _ => shallow.block.bind fun _ => ?_
  exact shallow.otherBranch.bind fun _ => shallow_pure _

theorem whileLoop (shallow : inner.Shallow) : (whileLoop rounds inner).Shallow 3 := by
  refine Script.Shallow.calling (shallow_move.bind fun _ => ?_) .whileLoop
  refine (shallow.expression.mono (by decide)).bind fun _ => ?_
  exact shallow.block.bind fun _ => shallow_pure _

theorem clause (close : Symbol) {x : Script α} (shallow : x.Shallow 1) :
    (clause close x).Shallow 2 := by
  have ended : ∀ value : Option α, (do expect (.symbol close); return value :
      Script (Option α)).Shallow 2 := fun _ => (shallow_expect _).bind fun _ => shallow_pure _
  refine (shallow_isAt _).bind fun _ => .ite _ ((shallow_pure none).bind ended) ?_
  exact Script.Shallow.bind ((shallow.mono (by decide)).bind fun _ => shallow_pure _) ended

theorem forLoop (shallow : inner.Shallow) : (forLoop rounds inner).Shallow 3 := by
  refine Script.Shallow.calling (shallow_move.bind fun _ => (shallow_expect _).bind fun _ => ?_)
    .forLoop
  refine (clause _ shallow.statement).bind fun _ => (clause _ shallow.expression).bind fun _ => ?_
  refine (clause _ shallow.expression).bind fun _ => ?_
  exact shallow.block.bind fun _ => shallow_pure _

theorem resultStatement (shallow : inner.Shallow) : (resultStatement inner).Shallow 2 := by
  refine Script.Shallow.calling (shallow_move.bind fun _ => shallow_kind.bind fun k => ?_) .result
  split
  · exact shallow_pure _
  · exact shallow_pure _
  · exact shallow_pure _
  · exact shallow_pure _
  · exact shallow.expression.bind fun _ => shallow_pure _

theorem printStatement (shallow : inner.Shallow) : (printStatement inner).Shallow 3 := by
  have arg : inner.expression.Shallow 2 := shallow.expression.mono (by decide)
  refine Script.Shallow.calling (shallow_current.bind fun t => shallow_move.bind fun _ => ?_) .print
  refine (shallow_isAt _).bind fun _ => .ite _ ?_ ?_
  · refine shallow_move.bind fun _ => shallow_propertyName.bind fun _ => ?_
    exact arg.bind fun _ => shallow_pure _
  · exact arg.bind fun _ => shallow_pure _

theorem statementBody (shallow : inner.Shallow) : (statementBody rounds inner).Shallow 4 := by
  have word : ∀ stmt : Stmt, (do move; return stmt : Script Stmt).Shallow 3 := fun stmt =>
    shallow_move.bind fun _ => shallow_pure stmt
  refine Script.Shallow.calling (shallow_kind.bind fun k => ?_) .statementBody
  split
  · exact (shallow.declaration _).mono (by decide)
  · exact (shallow.declaration _).mono (by decide)
  · exact (shallow.declaration _).mono (by decide)
  · exact shallow.functionDeclaration
  · exact shallow.conditional
  · exact shallow.whileLoop
  · exact shallow.forLoop
  · exact shallow.resultStatement.mono (by decide)
  · exact word _
  · exact word _
  · exact shallow.printStatement
  · exact (shallow.block.mono (by decide)).bind fun _ => shallow_pure _
  · exact (shallow.expression.mono (by decide)).bind fun _ => shallow_pure _

end Level.Shallow

theorem shallow_level (rounds steps recursion : Nat) : (level rounds steps recursion).Shallow := by
  induction recursion with
  | zero => exact ⟨trivial, trivial, trivial, trivial⟩
  | succ recursion ih =>
      exact
        { statement := .calling (.nested (ih.statementBody.mono (by decide))) .statement
          expression := .calling (.nested (ih.expressionBody steps)) .expression
          operand := .nested ((ih.operands steps Parser.unaryPower).mono (by decide))
          elseIf := .calling (.nested (ih.conditional.mono (by decide))) .elseIf }

theorem shallow_whole (rounds steps recursion : Nat) :
    (whole rounds steps recursion).Shallow 4 := by
  have statements : ∀ body, (nextInProgram (level rounds steps recursion) body).Shallow 1 := by
    intro body
    refine shallow_skipSeparators.bind fun _ => shallow_kind.bind fun k => ?_
    split
    · exact shallow_pure _
    · exact (shallow_level rounds steps recursion).statement.bind fun _ => shallow_pure _
  have program : (program rounds (level rounds steps recursion)).Shallow 2 :=
    .calling ((shallow_iterate statements rounds []).bind fun _ => shallow_pure _) .program
  exact .calling (.calling program .tokens) .text

/-! ## The result -/

/-- For every list of tokens, however far the scripts are written out. Following them gives what
    the parser gives. At every moment the counter of nesting is neither negative nor above the
    limit, and not more than sixteen parsers are at work inside each other for each level that may
    be nested, and for the one around them all. Whatever returns, with a result or with an error,
    finds the counter as it was at its call; at the end it is at zero again. -/
theorem nesting_bounds_recursion (tokens : List Token) {rounds steps recursion : Nat}
    (all : tokens.length < rounds) (powers : Parser.powerSteps ≤ steps)
    (beyond : maxNesting < recursion) :
    let account := (whole rounds steps recursion).trace (.start tokens)
    account.outcome = parseTokens tokens ∧
    account.finish.depth = 0 ∧ account.finish.active = [] ∧
    (∀ p, .standing p ∈ account.moments →
      0 ≤ p.depth ∧ p.depth ≤ (maxNesting : Int) ∧ p.active.length ≤ 16 * (maxNesting + 1)) ∧
    ∀ f before after, .returned f before after ∈ account.moments → after = before := by
  intro account
  have kept := kept_trace (whole rounds steps recursion) (.start tokens)
  have within := within_trace (whole rounds steps recursion)
    (shallow_whole rounds steps recursion) (p := .start tokens) (Int.natCast_nonneg _)
  refine ⟨?_, kept.depth, kept.active, ?_, fun f before after => within _⟩
  · have counted : (Parsing.start tokens).depth = (0 : Nat) := rfl
    have followed := parser_eq_reading (whole rounds steps recursion) counted
    rw [parser_whole (by omega) powers beyond] at followed
    rw [← (Parser.endsWithin tokens).bound rounds all, Parser.wholeProgram]
    refine Eq.trans ?_ (congrArg (Except.map Prod.fst) followed.symm)
    rw [Account.reading]
    cases account.outcome <;> rfl
  · intro p member
    obtain ⟨positive, limited, calls⟩ := within _ member
    refine ⟨positive, limited, ?_⟩
    simp only [Parsing.start, List.length_nil, callsPerLevel, maxNesting] at *
    omega

/-- Whether a step is taken at this depth, inside of so many parsers. -/
def Moment.stands (depth : Int) (calls : Nat) : Moment → Bool
  | standing p => p.depth = depth ∧ p.active.length = calls
  | returned _ _ _ => false

theorem exists_standing {moments : List Moment} {depth : Int} {calls : Nat}
    (seen : moments.any (·.stands depth calls) = true) :
    ∃ p, .standing p ∈ moments ∧ p.depth = depth ∧ p.active.length = calls := by
  obtain ⟨m, member, stands⟩ := List.any_eq_true.mp seen
  cases m with
  | standing p => exact ⟨p, member, of_decide_eq_true stands⟩
  | returned => cases stands

/-- Two hundred negations in a row are more than may be nested. Ten levels down, twenty-three parsers are
    at work inside each other; in spite of the error, the outermost of all returns. -/
theorem nesting_bounds_recursion_negations :
    let tokens : List Token := List.replicate 200 ⟨.symbol .not, .origin⟩
    let account := (whole 201 8 129).trace (.start tokens)
    tokens.length < 201 ∧ Parser.powerSteps ≤ 8 ∧ maxNesting < 129 ∧
    account.outcome = parseTokens tokens ∧ account.outcome.isOk = false ∧
    account.finish.depth = 0 ∧
    (∀ p, .standing p ∈ account.moments → p.depth ≤ 128 ∧ p.active.length ≤ 2064) ∧
    (∃ p, .standing p ∈ account.moments ∧ p.depth = 10 ∧ p.active.length = 23) ∧
    .returned .text 0 0 ∈ account.moments := by
  intro tokens account
  have all : tokens.length < 201 := List.length_replicate.trans_lt (by decide)
  have powers : Parser.powerSteps ≤ 8 := by decide
  have beyond : maxNesting < 129 := by decide
  obtain ⟨outcome, depth, -, limits, -⟩ := nesting_bounds_recursion tokens all powers beyond
  refine ⟨all, powers, beyond, outcome, ?_, depth, fun p member => (limits p member).2,
    exists_standing ?_, returned_calling _ _ _⟩
  all_goals decide +kernel

end Script

end MinangScript
