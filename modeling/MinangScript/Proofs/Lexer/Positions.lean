import MinangScript.Proofs.Lexer.Places

/-! # Tokens stand at their positions

A pass over a part of a text keeps track of it: its position is the one behind what it has read, and
its tokens are located in the whole text, counted from where the part begins. Every kind of step
keeps this, so by induction on `Ends` every pass does, the passes over interpolations included:
those begin at a place of their own, and their tokens are moved to it afterwards. What is counted
from the front of a source text is what `tokens_stand_at_their_positions` says.
-/

namespace MinangScript

namespace Lexer.Pass

/-- Tokens with their offsets, the latest first, in the part of a text from `low` to `high`. Their
    positions are counted from `base`. -/
structure Placed (full : List Char) (base low high : Nat) (placed : List (Token × Nat)) :
    Prop where
  located : Located full (placeFrom full base) placed
  sorted : (placed.map (·.2)).Pairwise (· ≥ ·)
  within : ∀ x ∈ placed, low ≤ x.2 ∧ x.2 ≤ high

namespace Placed

variable {full : List Char} {base low middle high : Nat} {placed : List (Token × Nat)}

theorem nil : Placed full base low high [] :=
  ⟨trivial, .nil, by simp⟩

theorem mono (placement : Placed full base low middle placed) (more : middle ≤ high) :
    Placed full base low high placed where
  located := placement.located
  sorted := placement.sorted
  within := fun x member => (placement.within x member).imp_right (Nat.le_trans · more)

theorem append {later : List (Token × Nat)} (outside : interpolationBehind? placed = none)
    (first : Placed full base low middle placed) (second : Placed full base middle high later)
    (ordered : low ≤ middle ∧ middle ≤ high) : Placed full base low high (later ++ placed) where
  located := second.located.append outside first.located
  sorted := by
    rw [List.map_append, List.pairwise_append]
    refine ⟨second.sorted, first.sorted, ?_⟩
    intro late lateIs early earlyIs
    obtain ⟨x, member, rfl⟩ := List.mem_map.mp lateIs
    obtain ⟨y, member', rfl⟩ := List.mem_map.mp earlyIs
    exact Nat.le_trans (first.within y member').2 (second.within x member).1
  within := by
    intro x member
    obtain inside | before := List.mem_append.mp member
    · exact (second.within x inside).imp_left (Nat.le_trans ordered.1)
    · exact (first.within x before).imp_right (Nat.le_trans · ordered.2)

end Placed

/-- The pass `p` has read `seen`, which begins behind `front`, and its end is before `behind`. Its
    tokens stand in what it has read. -/
structure Tracks (full front behind : List Char) (p : Pass) (seen : List Char)
    (placed : List (Token × Nat)) : Prop
    extends Placed full front.length front.length (front ++ seen).length placed where
  whole : full = front ++ seen ++ p.rest ++ behind
  position : p.position = .after seen
  tokens : placed.map (·.1) = p.tokens

namespace Tracks

variable {full front behind seen lexeme after : List Char} {p : Pass} {placed : List (Token × Nat)}

theorem skip (tracks : Tracks full front behind p seen placed) (split : p.rest = lexeme ++ after) :
    Tracks full front behind (p.skip lexeme after) (seen ++ lexeme) placed where
  whole := by simpa [split, Pass.skip] using tracks.whole
  position := by simp only [Pass.skip, tracks.position, Position.advanceBy_after]
  tokens := tracks.tokens
  toPlaced := tracks.toPlaced.mono (by simp)

theorem push (tracks : Tracks full front behind p seen placed) {kind : TokenKind} {offset : Nat}
    (inside : front.length ≤ offset ∧ offset ≤ (front ++ seen).length)
    (latest : ∀ x ∈ placed, x.2 ≤ offset) (stands : kind.StandsAt full placed offset)
    {position : Position} (here : position = placeFrom full front.length offset) :
    Tracks full front behind (p.push kind position) seen
      ((⟨kind, position⟩, offset) :: placed) where
  whole := tracks.whole
  position := tracks.position
  tokens := by simp [Pass.push, tracks.tokens]
  located := ⟨here, stands, tracks.located⟩
  sorted := by simpa using ⟨fun n t => latest (t, n), tracks.sorted⟩
  within := List.forall_mem_cons.mpr ⟨inside, tracks.within⟩

theorem take_here (tracks : Tracks full front behind p seen placed) :
    full.take (front ++ seen).length = front ++ seen := by
  rw [tracks.whole, List.append_assoc (front ++ seen)]
  exact List.take_left

theorem drop_here (tracks : Tracks full front behind p seen placed) :
    full.drop (front ++ seen).length = p.rest ++ behind := by
  rw [tracks.whole, List.append_assoc (front ++ seen)]
  exact List.drop_left

theorem place_here (tracks : Tracks full front behind p seen placed) :
    placeFrom full front.length (front ++ seen).length = p.position := by
  rw [placeFrom, tracks.take_here, List.drop_left, tracks.position]

theorem inMode (tracks : Tracks full front behind p seen placed) (mode : Mode) :
    Tracks full front behind { p with mode := mode } seen placed :=
  ⟨tracks.toPlaced, tracks.whole, tracks.position, tracks.tokens⟩

theorem take (tracks : Tracks full front behind p seen placed) (split : p.rest = lexeme ++ after)
    {kind : TokenKind} (stands : kind.StandsAt full placed (front ++ seen).length) :
    Tracks full front behind (p.take kind lexeme after) (seen ++ lexeme)
      ((⟨kind, p.position⟩, (front ++ seen).length) :: placed) := by
  refine (tracks.skip split).push ?_ (fun x member => (tracks.within x member).2) stands
    tracks.place_here.symm
  simp only [List.length_append]
  omega

end Tracks

/-- What is known of the mode of a pass: outside of template literals no interpolation has just
    ended, and inside of one the present text has a place. -/
def Mode.Fits (full front seen : List Char) (placed : List (Token × Nat)) : Mode → Prop
  | .code => interpolationBehind? placed = none
  | .template textStart => ∃ offset, textStart = placeFrom full front.length offset ∧
      (front.length ≤ offset ∧ offset ≤ (front ++ seen).length) ∧
      (∀ x ∈ placed, x.2 ≤ offset) ∧
      ∀ text, (TokenKind.templateText text).StandsAt full placed offset

structure Reads (full front behind : List Char) (p : Pass) (seen : List Char)
    (placed : List (Token × Nat)) : Prop extends Tracks full front behind p seen placed where
  mode : Mode.Fits full front seen placed p.mode

theorem Reads.start {full front text behind : List Char}
    (whole : full = front ++ [] ++ text ++ behind) :
    Reads full front behind (Pass.start text .start) [] [] :=
  ⟨⟨.nil, whole, rfl, rfl⟩, rfl⟩

/-! ## Steps -/

section Steps

variable {full front behind seen : List Char} {p next opened : Pass} {placed : List (Token × Nat)}

theorem Reads.codeStep (reads : Reads full front behind p seen placed) (mode : p.mode = .code)
    (step : CodeStep p p.rest (.ok next)) :
    ∃ seen placed, Reads full front behind next seen placed := by
  have outside : interpolationBehind? placed = none := by
    have fits := reads.mode
    rwa [mode] at fits
  cases step with
  | @trivia lexeme after _ split =>
      refine ⟨seen ++ lexeme, placed, reads.toTracks.skip split, ?_⟩
      simpa only [Pass.skip, mode, Mode.Fits] using outside
  | @token kind lexeme after _ split spelled =>
      have there : lexeme <+: full.drop (front ++ seen).length := by
        rw [reads.drop_here, split, List.append_assoc]
        exact List.prefix_append lexeme _
      refine ⟨_, _, reads.toTracks.take split (TokenKind.SpelledBy.standsAt spelled there), ?_⟩
      simp only [Pass.take, Pass.push, Pass.skip, mode, Mode.Fits]
      cases kind with
      | interpolationEnd => exact spelled.elim
      | _ => rfl
  | @template after split =>
      have split : p.rest = [Lexeme.backtick] ++ after := split
      refine ⟨_, placed, (reads.toTracks.skip split).inMode _, ?_⟩
      refine ⟨(front ++ seen).length, reads.place_here.symm, ?_,
        fun x member => (reads.within x member).2, ?_⟩
      · simp only [List.length_append]
        omega
      · intro text
        simp only [TokenKind.StandsAt, outside, reads.drop_here, split]
        exact List.prefix_append [Lexeme.backtick] _

theorem Reads.codeStep_error (reads : Reads full front behind p seen placed) {e : LexError}
    (step : CodeStep p p.rest (.error e)) :
    ∃ offset, front.length ≤ offset ∧ e.position = placeFrom full front.length offset ∧
      e.StandsAt full offset := by
  refine ⟨(front ++ seen).length, by simp, ?_⟩
  rw [reads.place_here]
  cases step with
  | unknown split =>
      refine ⟨rfl, ?_⟩
      rw [LexError.StandsAt, reads.drop_here, split]
      exact List.prefix_append [_] _
  | malformed nonempty split =>
      refine ⟨rfl, nonempty, ?_⟩
      rw [reads.drop_here, split, List.append_assoc]
      exact List.prefix_append _ _

theorem Reads.closeTemplate (reads : Reads full front behind p seen placed) {textStart : Position}
    {body after : List Char} {text : String} (mode : p.mode = .template textStart)
    (split : p.templateText = (body, text, after)) :
    ∃ seen placed,
      Reads full front behind (p.closeTemplate textStart body text after) seen placed := by
  have fits := reads.mode
  rw [mode] at fits
  obtain ⟨offset, place, inside, latest, stands⟩ := fits
  have whole : p.rest = (body ++ after.take 1) ++ after.drop 1 := by
    rw [templateText_split split, List.append_assoc, List.take_append_drop]
  have closed := (reads.toTracks.skip whole).push
    ⟨inside.1, by simp only [List.length_append] at inside ⊢; omega⟩ latest (stands text) place
  exact ⟨_, _, closed.inMode .code, rfl⟩

/-- The tokens before an interpolation are its opening marker and perhaps a text. -/
theorem Reads.openInterpolation (reads : Reads full front behind p seen placed)
    {inner after : List Char} (opens : p.Interpolates opened inner after) :
    ∃ seen' marker earlier, Tracks full front behind opened seen' (marker :: earlier) ∧
      marker.1.kind = .interpolationStart ∧ marker.2 + 2 = (front ++ seen').length := by
  obtain ⟨⟨textStart, body, text, more, mode, split, rfl⟩, -⟩ := opens
  have fits := reads.mode
  rw [mode] at fits
  obtain ⟨offset, place, inside, latest, stands⟩ := fits
  have skipped := reads.toTracks.skip (templateText_split split)
  have bounds : front.length ≤ offset ∧ offset ≤ (front ++ (seen ++ body)).length := by
    simp only [List.length_append] at inside ⊢
    omega
  -- The text before the marker has a token only if there is one.
  have pushed : ∃ placed', Tracks full front behind (if text.isEmpty then
      p.skip body ('$' :: '\x7b' :: more)
      else (p.skip body ('$' :: '\x7b' :: more)).push (.templateText text) textStart)
      (seen ++ body) placed' := by
    split
    · exact ⟨placed, skipped⟩
    · exact ⟨_, skipped.push bounds latest (stands text) place⟩
  obtain ⟨placed', tracks⟩ := pushed
  have rest : Pass.rest (if text.isEmpty then p.skip body ('$' :: '\x7b' :: more)
      else (p.skip body ('$' :: '\x7b' :: more)).push (.templateText text) textStart) =
      ['$', '\x7b'] ++ more := by
    split <;> rfl
  have there : TokenKind.interpolationStart.StandsAt full placed'
      (front ++ (seen ++ body)).length := by
    rw [TokenKind.StandsAt, tracks.drop_here, rest, List.append_assoc]
    exact List.prefix_append _ _
  refine ⟨_, _, _, tracks.take rest there, rfl, ?_⟩
  simp only [List.length_append, List.length_cons, List.length_nil]
  omega

/-- Puts the tokens of a text inside the present one behind those that are there. -/
theorem Tracks.splice (tracks : Tracks full front behind p seen placed) {inner after : List Char}
    {nested : List (Token × Nat)} (split : p.rest = inner ++ after)
    (outside : interpolationBehind? placed = none)
    (inside : Placed full front.length (front ++ seen).length (front ++ (seen ++ inner)).length
      nested) :
    Tracks full front behind { p.skip inner after with tokens := nested.map (·.1) ++ p.tokens }
      (seen ++ inner) (nested ++ placed) where
  whole := (tracks.skip split).whole
  position := (tracks.skip split).position
  tokens := by simp [tracks.tokens]
  toPlaced := tracks.toPlaced.append outside inside (by simp)

/-- Behind an interpolation the template literal goes on. -/
theorem Tracks.closeInterpolation {earlier nested : List (Token × Nat)} {marker : Token × Nat}
    {inner after : List Char} (tracks : Tracks full front behind opened seen (marker :: earlier))
    (starts : marker.1.kind = .interpolationStart) (begun : marker.2 + 2 = (front ++ seen).length)
    (split : opened.rest = inner ++ after)
    (closes : ClosesAt full (front ++ seen).length (front ++ seen ++ inner).length)
    (unclosed : after = [] → behind = [])
    (inside : Placed full front.length (front ++ seen).length (front ++ (seen ++ inner)).length
      nested) :
    ∃ seen placed, Reads full front behind
      (opened.closeInterpolation inner (nested.map (·.1)) after) seen placed := by
  have outside : interpolationBehind? (marker :: earlier) = none := by
    obtain ⟨⟨kind, position⟩, offset⟩ := marker
    obtain rfl : kind = .interpolationStart := starts
    rfl
  have spliced := tracks.splice split outside inside
  have stands : TokenKind.interpolationEnd.StandsAt full (nested ++ marker :: earlier)
      (front ++ (seen ++ inner)).length := by
    refine ⟨marker, by simp, starts, ?_⟩
    rw [begun, ← List.append_assoc]
    exact closes
  have taken := spliced.take (List.take_append_drop 1 after).symm stands
  refine ⟨_, _, taken.inMode _, ?_⟩
  refine ⟨_, taken.place_here.symm, ⟨by simp, Nat.le_refl _⟩,
    fun x member => (taken.within x member).2, ?_⟩
  intro text
  have behindIt : full.drop (front ++ (seen ++ inner)).length = after ++ behind :=
    spliced.drop_here
  have spent : (front ++ (seen ++ inner)).length + (after ++ behind).length = full.length := by
    rw [spliced.whole]
    simp [Pass.skip]
    omega
  show _ ∨ _
  rw [behindIt]
  cases after with
  | nil =>
      refine .inr ⟨?_, by simp⟩
      simpa [unclosed rfl] using spent
  | cons c after =>
      obtain done | ⟨-, brace⟩ := closes.2
      · simp at spent done
        omega
      · refine .inl ⟨?_, by simp; omega⟩
        rwa [List.append_assoc, behindIt] at brace

/-- An interpolation can lack its closing brace only where the whole text is over: the text of an
    interpolation around it would lack one too. -/
theorem Tracks.over_of_unclosed (tracks : Tracks full front behind p seen placed)
    (closed : behind = [] ∨ ClosesAt full front.length (full.length - behind.length))
    {body inner : List Char} (split : p.rest = body ++ '$' :: '\x7b' :: inner)
    (opened : inner.count '\x7d' ≤ inner.count '\x7b') : behind = [] := by
  obtain spent | closed := closed
  · exact spent
  have whole : full = front ++ (seen ++ p.rest) ++ behind := by
    rw [tracks.whole, List.append_assoc front]
  have stop : full.length - behind.length = (front ++ (seen ++ p.rest)).length := by
    rw [whole]
    simp only [List.length_append]
    omega
  rw [stop, whole, closesAt_append] at closed
  obtain ⟨kept, spent | ⟨balanced, -⟩⟩ := closed
  · exact spent
  have before := kept (seen ++ body).length
  rw [split, ← List.append_assoc, List.take_left] at before
  simp [split] at balanced before
  omega

end Steps

/-- How the tokens of a pass over a part of a text, and its error, stand in the text. -/
def Settles (full front behind : List Char) : Except LexError Pass → Prop
  | .ok done => done.rest = [] ∧ ∃ seen placed, Tracks full front behind done seen placed
  | .error e => ∃ offset, front.length ≤ offset ∧ e.position = placeFrom full front.length offset ∧
      e.StandsAt full offset

/-- A pass over an interpolation alone settles, as it is a part of the whole text. -/
theorem Tracks.settles_inside {full front behind seen inner after : List Char} {opened : Pass}
    {placed : List (Token × Nat)} {o : Except LexError Pass}
    (tracks : Tracks full front behind opened seen placed) (split : opened.rest = inner ++ after)
    (closes : ClosesAt full (front ++ seen).length (front ++ seen ++ inner).length)
    (inside : ∀ {front behind seen placed},
      Reads full front behind (start inner .start) seen placed →
      (behind = [] ∨ ClosesAt full front.length (full.length - behind.length)) →
      Settles full front behind o) : Settles full (front ++ seen) (after ++ behind) o := by
  have whole : full = front ++ seen ++ inner ++ (after ++ behind) := by
    rw [tracks.whole, split]
    simp only [List.append_assoc]
  have stop : full.length - (after ++ behind).length = (front ++ seen ++ inner).length := by
    rw [whole, List.length_append]
    omega
  rw [← stop] at closes
  rw [← List.append_nil (front ++ seen)] at whole
  exact inside (.start whole) (.inr closes)

theorem Tracks.nested {full front behind seen inner after : List Char} {opened done : Pass}
    {placed : List (Token × Nat)} (tracks : Tracks full front behind opened seen placed)
    (split : opened.rest = inner ++ after)
    (settles : Settles full (front ++ seen) (after ++ behind) (.ok done)) :
    ∃ nested : List (Token × Nat), done.tokens.map (·.shift opened.position) = nested.map (·.1) ∧
      Placed full front.length (front ++ seen).length (front ++ (seen ++ inner)).length nested := by
  obtain ⟨spent, read, placed', inside⟩ := settles
  have whole : full = front ++ seen ++ inner ++ (after ++ behind) := by
    rw [tracks.whole, split]
    simp only [List.append_assoc]
  obtain rfl : read = inner := by
    have same := inside.whole
    rw [whole, spent, List.append_nil] at same
    simpa using same.symm
  refine ⟨shiftPlaced opened.position placed', ?_, ?_, ?_, ?_⟩
  · simp [shiftPlaced, ← inside.tokens]
  · refine inside.located.shift fun x member => ?_
    rw [List.append_assoc _ read] at whole
    rw [tracks.position]
    exact placeFrom_shift whole (inside.within x member).1
  · simpa [shiftPlaced, Function.comp_def] using inside.sorted
  · intro x member
    obtain ⟨y, shifted, rfl⟩ := List.mem_map.mp member
    rw [← List.append_assoc]
    exact inside.within y shifted

theorem Tracks.nestedRefused {full front behind seen : List Char} {opened : Pass} {e : LexError}
    {placed : List (Token × Nat)} (tracks : Tracks full front behind opened seen placed)
    {later : List Char} (settles : Settles full (front ++ seen) later (.error e)) :
    Settles full front behind (.error (e.shift opened.position)) := by
  obtain ⟨offset, inside, place, stands⟩ := settles
  refine ⟨offset, ?_, ?_, ?_⟩
  · rw [List.length_append] at inside
    omega
  · have moved : (e.shift opened.position).position = e.position.shift opened.position := by
      cases e <;> rfl
    have whole := tracks.whole
    rw [List.append_assoc _ opened.rest] at whole
    rw [moved, place, tracks.position]
    exact placeFrom_shift whole inside
  · cases e <;> exact stands

/-- The text of an interpolation reaches to the brace that closes it. -/
theorem Interpolates.closesAt {full front behind seen inner after : List Char} {p opened : Pass}
    {placed : List (Token × Nat)} (opens : p.Interpolates opened inner after)
    (tracks : Tracks full front behind opened seen placed) (unclosed : after = [] → behind = []) :
    ClosesAt full (front ++ seen).length (front ++ seen ++ inner).length := by
  obtain ⟨inner', after', same, split, kept, closed⟩ := Lexeme.interpolation_split 0 [] opened.rest
  rw [opens.inside, Prod.mk.injEq] at same
  obtain ⟨rfl, rfl⟩ := same
  have whole : full = front ++ seen ++ inner ++ (after ++ behind) := by
    rw [tracks.whole, split]
    simp only [List.append_assoc]
  rw [whole, closesAt_append]
  refine ⟨kept, ?_⟩
  obtain spent | ⟨balanced, brace⟩ := closed
  · exact .inl (by rw [spent, unclosed spent, List.append_nil])
  · exact .inr ⟨balanced, brace.trans (List.prefix_append after behind)⟩

/-- An interpolation is unclosed only if all the interpolations around it are. -/
theorem Interpolates.over_of_unclosed {full front behind seen inner after : List Char}
    {p opened : Pass} {placed : List (Token × Nat)} (opens : p.Interpolates opened inner after)
    (tracks : Tracks full front behind p seen placed)
    (closed : behind = [] ∨ ClosesAt full front.length (full.length - behind.length))
    (spent : after = []) : behind = [] := by
  obtain ⟨inner', after', same, split, kept, -⟩ := Lexeme.interpolation_split 0 [] opened.rest
  rw [opens.inside, Prod.mk.injEq] at same
  obtain ⟨rfl, rfl⟩ := same
  obtain ⟨-, body, whole⟩ := opens.split
  rw [split, spent, List.append_nil] at whole
  have opened := kept inner.length
  rw [List.take_length] at opened
  exact tracks.over_of_unclosed closed whole opened

theorem Ends.settles {full : List Char} {p : Pass} {o : Except LexError Pass} (ends : Ends p o) :
    ∀ {front behind seen placed}, Reads full front behind p seen placed →
      (behind = [] ∨ ClosesAt full front.length (full.length - behind.length)) →
      Settles full front behind o := by
  induction ends with
  | finished mode spent =>
      intro front behind seen placed reads closed
      exact ⟨spent, seen, placed, reads.toTracks⟩
  | @refused p c rest e mode text step =>
      intro front behind seen placed reads closed
      have spec := codeStep_spec p c rest
      rw [← text, step] at spec
      exact reads.codeStep_error spec
  | @code p next c rest o mode text step later ih =>
      intro front behind seen placed reads closed
      have spec := codeStep_spec p c rest
      rw [← text, step] at spec
      obtain ⟨seen', placed', reads'⟩ := reads.codeStep mode spec
      exact ih reads' closed
  | close mode split plain later ih =>
      intro front behind seen placed reads closed
      obtain ⟨seen', placed', reads'⟩ := reads.closeTemplate mode split
      exact ih reads' closed
  | blank opens written later ih =>
      intro front behind seen placed reads closed
      obtain ⟨seen', marker, earlier, tracks, starts, begun⟩ := reads.openInterpolation opens
      have unclosed := opens.over_of_unclosed reads.toTracks closed
      obtain ⟨seen', placed', reads'⟩ := tracks.closeInterpolation starts begun opens.split.1
        (opens.closesAt tracks unclosed) unclosed .nil
      exact ih reads' closed
  | @nested p opened done inner after o opens written inside later ihInside ih =>
      intro front behind seen placed reads closed
      obtain ⟨seen', marker, earlier, tracks, starts, begun⟩ := reads.openInterpolation opens
      have unclosed := opens.over_of_unclosed reads.toTracks closed
      have closes := opens.closesAt tracks unclosed
      obtain ⟨nested, tokens, placedInside⟩ :=
        tracks.nested opens.split.1 (tracks.settles_inside opens.split.1 closes ihInside)
      rw [tokens] at ih
      obtain ⟨seen', placed', reads'⟩ := tracks.closeInterpolation starts begun opens.split.1
        closes unclosed placedInside
      exact ih reads' closed
  | @nestedRefused p opened inner after e opens written inside ih =>
      intro front behind seen placed reads closed
      obtain ⟨seen', marker, earlier, tracks, starts, begun⟩ := reads.openInterpolation opens
      have unclosed := opens.over_of_unclosed reads.toTracks closed
      have closes := opens.closesAt tracks unclosed
      exact tracks.nestedRefused (tracks.settles_inside opens.split.1 closes ih)

end Lexer.Pass

open Lexer.Pass in
/-- Every token has the position of the place in the source where it stands, in the order of the
    source and at any depth of template literals inside interpolations, and so has the error of a
    source that has no tokens. -/
theorem tokens_stand_at_their_positions (source : String) :
    match tokenize source with
    | .ok tokens => ∃ offsets : List Nat, offsets.length = tokens.length ∧
        offsets.Pairwise (· ≤ ·) ∧
        Located source.toList (fun offset => .after (source.toList.take offset))
          (tokens.zip offsets).reverse
    | .error e => ∃ offset, e.position = .after (source.toList.take offset) ∧
        e.StandsAt source.toList offset := by
  obtain ⟨o, ends, same⟩ := tokenize_ends source
  have settles : Settles source.toList [] [] o :=
    ends.settles (.start (by simp)) (.inl rfl)
  rw [same]
  cases o with
  | error e =>
      obtain ⟨offset, -, position, stands⟩ := settles
      exact ⟨offset, position, stands⟩
  | ok done =>
      obtain ⟨spent, seen, placed, tracks⟩ := settles
      have stands : TokenKind.endOfText.StandsAt source.toList placed ([] ++ seen).length := by
        simp [TokenKind.StandsAt, tracks.whole, spent]
      have ended := tracks.push ⟨by simp, Nat.le_refl _⟩
        (fun x member => (tracks.within x member).2) stands tracks.place_here.symm
      generalize (_, _) :: placed = placed at ended
      refine ⟨(placed.map (·.2)).reverse, ?_, ?_, ?_⟩
      · simp [← ended.tokens]
      · rw [List.pairwise_reverse]
        exact ended.sorted
      · show Located _ _ ((done.push .endOfText done.position).tokens.reverse.zip _).reverse
        rw [← ended.tokens, ← List.map_reverse, ← List.map_reverse, List.zip_map']
        rw [List.map_id', List.reverse_reverse]
        exact ended.located

end MinangScript
