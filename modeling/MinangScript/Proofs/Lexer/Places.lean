import MinangScript.Proofs.Lexer.Passes

/-! # Where tokens stand in a text

`Position.after` counts the lines and columns of a text from its characters alone, and moving a
position of an inner text to where that text begins is the same as counting from the front.
`TokenKind.StandsAt` says what has to be found at the offset of a token, and `Located` says it of
tokens in a row, with their positions.
-/

namespace MinangScript

namespace Position

/-- The position behind a text: how many line feeds it has, and how many characters come after the
    last of them, both counted from one. -/
def after (text : List Char) : Position where
  line := 1 + text.count '\n'
  column := 1 + (text.reverse.takeWhile (· ≠ '\n')).length

theorem after_concat (text : List Char) (c : Char) :
    after (text ++ [c]) = (after text).advance c := by
  by_cases feed : c = '\n' <;> simp [after, advance, feed, Nat.add_assoc]

theorem advanceBy_after (first second : List Char) :
    (after first).advanceBy second = after (first ++ second) := by
  induction second generalizing first with
  | nil => simp [advanceBy]
  | cons c second ih =>
      have step := ih (first ++ [c])
      rw [after_concat] at step
      simpa [advanceBy] using step

/-- Moving a position commutes with going on from it by one character. -/
theorem shift_advance {p : Position} (line : 1 ≤ p.line) (column : 1 ≤ p.column) (base : Position)
    (c : Char) : (p.advance c).shift base = (p.shift base).advance c := by
  by_cases feed : c = '\n' <;> by_cases first : p.line = 1
  · simp [shift, advance, feed, first]
  · have later : p.line ≠ 0 := by omega
    have lines : base.line + (p.line + 1) - 1 = base.line + p.line - 1 + 1 := by omega
    simp [shift, advance, feed, first, later, lines]
  · have columns : base.column + (p.column + 1) - 1 = base.column + p.column - 1 + 1 := by omega
    simp [shift, advance, feed, first, columns]
  · simp [shift, advance, feed, first]

theorem shift_advanceBy {p : Position} (line : 1 ≤ p.line) (column : 1 ≤ p.column)
    (base : Position) (text : List Char) :
    (p.advanceBy text).shift base = (p.shift base).advanceBy text := by
  induction text generalizing p with
  | nil => rfl
  | cons c text ih =>
      have line' : 1 ≤ (p.advance c).line := by unfold advance; split <;> simp [line]
      have column' : 1 ≤ (p.advance c).column := by unfold advance; split <;> simp
      have step := ih line' column'
      rwa [shift_advance line column] at step

/-- What is read alone and then moved behind a text is read behind that text. -/
theorem shift_after (first second : List Char) :
    (after second).shift (after first) = after (first ++ second) := by
  have alone : start.advanceBy second = after second := advanceBy_after [] second
  calc (after second).shift (after first)
      = (start.shift (after first)).advanceBy second := by
        rw [← alone, shift_advanceBy (by decide) (by decide)]
    _ = (after first).advanceBy second := by simp [start, shift]
    _ = after (first ++ second) := advanceBy_after first second

end Position

/-- The place `stop` closes a brace that was opened just before `start`: between them no brace is
    closed that was not opened there. Either the brace at `stop` is the one that does, or the text
    is over. -/
def ClosesAt (text : List Char) (start stop : Nat) : Prop :=
  let inner := (text.drop start).take (stop - start)
  (∀ n, (inner.take n).count '\x7d' ≤ (inner.take n).count '\x7b') ∧
  (stop = text.length ∨ inner.count '\x7d' = inner.count '\x7b' ∧ ['\x7d'] <+: text.drop stop)

theorem closesAt_append {before inner later : List Char} :
    ClosesAt (before ++ inner ++ later) before.length (before ++ inner).length ↔
      (∀ n, (inner.take n).count '\x7d' ≤ (inner.take n).count '\x7b') ∧
      (later = [] ∨ inner.count '\x7d' = inner.count '\x7b' ∧ ['\x7d'] <+: later) := by
  have text : ((before ++ inner ++ later).drop before.length).take
      ((before ++ inner).length - before.length) = inner := by
    simp
  have stop : (before ++ inner ++ later).drop (before ++ inner).length = later := List.drop_left
  have spent : (before ++ inner).length = (before ++ inner ++ later).length ↔ later = [] := by
    simp
  simp only [ClosesAt, text, stop, spent]

/-- The end of an interpolation, if it is the latest of several tokens with their offsets. -/
def interpolationBehind? : List (Token × Nat) → Option Nat
  | (⟨.interpolationEnd, _⟩, offset) :: _ => some offset
  | _ => none

/-- What stands in a text at the offset of a token of this kind, when the given tokens, the latest
    first, stand before it. The text of a template literal counts as standing at the backtick if no
    interpolation is before it, and otherwise right behind the interpolation. -/
def TokenKind.StandsAt (text : List Char) (earlier : List (Token × Nat)) (offset : Nat) :
    TokenKind → Prop
  | templateText _ =>
    match interpolationBehind? earlier with
    | none => [Lexeme.backtick] <+: text.drop offset
    | some stop => (['\x7d'] <+: text.drop stop ∧ offset = stop + 1) ∨
        (stop = text.length ∧ offset = stop)
  | interpolationStart => ['$', '\x7b'] <+: text.drop offset
  | interpolationEnd => ∃ begun ∈ earlier, begun.1.kind = interpolationStart ∧
      ClosesAt text (begun.2 + 2) offset
  | endOfText => offset = text.length
  | kind => ∃ lexeme, kind.SpelledBy lexeme ∧ lexeme <+: text.drop offset

/-- Tokens with their offsets, the latest first: each has the position that belongs to its offset,
    and stands there. -/
def Located (text : List Char) (place : Nat → Position) : List (Token × Nat) → Prop
  | [] => True
  | (t, offset) :: earlier =>
    t.position = place offset ∧ t.kind.StandsAt text earlier offset ∧ Located text place earlier

def LexError.StandsAt (text : List Char) (offset : Nat) : LexError → Prop
  | unexpectedCharacter c _ => [c] <+: text.drop offset
  | malformedNumber number _ => number.toList ≠ [] ∧ number.toList <+: text.drop offset

/-- The position of an offset, seen from an offset before it where a text of its own begins. -/
def placeFrom (text : List Char) (base offset : Nat) : Position :=
  .after ((text.take offset).drop base)

/-- A place behind the text `seen`, first counted from behind it and then moved there. -/
theorem placeFrom_shift {full front seen later : List Char} (whole : full = front ++ seen ++ later)
    {offset : Nat} (inside : (front ++ seen).length ≤ offset) :
    (placeFrom full (front ++ seen).length offset).shift (.after seen) =
      placeFrom full front.length offset := by
  have split : full.take offset =
      front ++ seen ++ later.take (offset - (front ++ seen).length) := by
    rw [whole, List.take_append, List.take_of_length_le inside]
  simp only [placeFrom, split, Position.shift_after]
  rw [List.drop_left, List.append_assoc, List.drop_left]

theorem TokenKind.SpelledBy.standsAt {kind : TokenKind} {lexeme text : List Char}
    {earlier : List (Token × Nat)} {offset : Nat} (spelled : kind.SpelledBy lexeme)
    (there : lexeme <+: text.drop offset) : kind.StandsAt text earlier offset := by
  cases kind with
  | templateText | interpolationStart | interpolationEnd | endOfText => exact spelled.elim
  | _ => exact ⟨lexeme, spelled, there⟩

theorem TokenKind.StandsAt.append {text : List Char} {earlier outer : List (Token × Nat)}
    {offset : Nat} {kind : TokenKind} (outside : interpolationBehind? outer = none)
    (stands : kind.StandsAt text earlier offset) :
    kind.StandsAt text (earlier ++ outer) offset := by
  cases kind with
  | templateText s =>
      cases earlier with
      | nil =>
          simp only [StandsAt, List.nil_append, outside]
          exact stands
      | cons latest earlier =>
          have same : interpolationBehind? (latest :: earlier ++ outer) =
              interpolationBehind? (latest :: earlier) := by
            simp only [List.cons_append]
            unfold interpolationBehind?
            split <;> simp_all
          simpa only [StandsAt, same] using stands
  | interpolationEnd =>
      obtain ⟨begun, member, rest⟩ := stands
      exact ⟨begun, List.mem_append_left outer member, rest⟩
  | _ => exact stands

theorem Located.append {text : List Char} {place : Nat → Position}
    {inner outer : List (Token × Nat)} (outside : interpolationBehind? outer = none)
    (first : Located text place inner) (second : Located text place outer) :
    Located text place (inner ++ outer) := by
  induction inner with
  | nil => exact second
  | cons latest earlier ih =>
      obtain ⟨position, stands, located⟩ := first
      exact ⟨position, stands.append outside, ih located⟩

def shiftPlaced (base : Position) (placed : List (Token × Nat)) : List (Token × Nat) :=
  placed.map fun x => (x.1.shift base, x.2)

theorem interpolationBehind?_shift (base : Position) (placed : List (Token × Nat)) :
    interpolationBehind? (shiftPlaced base placed) = interpolationBehind? placed := by
  cases placed with
  | nil => rfl
  | cons latest earlier =>
    obtain ⟨⟨kind, position⟩, offset⟩ := latest
    cases kind <;> rfl

theorem TokenKind.StandsAt.shift {text : List Char} {earlier : List (Token × Nat)} {offset : Nat}
    {kind : TokenKind} (stands : kind.StandsAt text earlier offset) (base : Position) :
    kind.StandsAt text (shiftPlaced base earlier) offset := by
  cases kind with
  | templateText s => simpa only [StandsAt, interpolationBehind?_shift] using stands
  | interpolationEnd =>
      obtain ⟨begun, member, rest⟩ := stands
      exact ⟨(begun.1.shift base, begun.2), List.mem_map.mpr ⟨begun, member, rfl⟩, rest⟩
  | _ => exact stands

theorem Located.shift {text : List Char} {place place' : Nat → Position}
    {placed : List (Token × Nat)} {base : Position} (located : Located text place placed)
    (moved : ∀ x ∈ placed, (place x.2).shift base = place' x.2) :
    Located text place' (shiftPlaced base placed) := by
  induction placed with
  | nil => trivial
  | cons latest earlier ih =>
      obtain ⟨position, stands, located⟩ := located
      obtain ⟨here, elsewhere⟩ := List.forall_mem_cons.mp moved
      refine ⟨?_, stands.shift base, ih located elsewhere⟩
      simpa only [Token.shift, position] using here

end MinangScript
