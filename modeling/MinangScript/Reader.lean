/-! # Readers

A reader takes something from the front of a source and leaves the rest, or fails. Tokens and
JSON text are both read this way.
-/

namespace MinangScript

/-- A computation that reads from a source of type `σ` and may fail with an `ε`. -/
abbrev Reader (σ ε : Type) := StateT σ (Except ε)

namespace Reader

variable {σ ε β : Type}

/-- Repeats `step` on a value as long as it asks for more, at most `rounds` times. -/
def iterate (step : β → Reader σ ε (β × Bool)) : Nat → β → Reader σ ε β
  | 0, value => pure value
  | rounds + 1, value => do
    let (next, more) ← step value
    if more then iterate step rounds next else pure next

end Reader

end MinangScript
