import MinangScript.Token.Basic

/-! # Streams of tokens

A stream is what remains to be read. It never runs out: behind its last token stands the end of
the text, which stays where it is however often one moves on.
-/

namespace MinangScript

/-- The tokens still to be read, and where the end of the text stands behind them. -/
structure TokenStream where
  ahead : List Token
  stop : Position
  deriving Repr, Inhabited

namespace TokenStream

/-- The stream of a list of tokens. If the list does not close with the end of the text, that end
counts as standing at the last token. -/
def ofTokens (tokens : List Token) : TokenStream :=
  match tokens.getLast? with
  | none => ⟨[], .origin⟩
  | some t =>
    match t.kind with
    | .endOfText => ⟨tokens.dropLast, t.position⟩
    | _ => ⟨tokens, t.position⟩

def current (s : TokenStream) : Token :=
  match s.ahead with
  | [] => ⟨.endOfText, s.stop⟩
  | t :: _ => t

def advance (s : TokenStream) : TokenStream :=
  { s with ahead := s.ahead.tail }

/-- Moves on over all tokens of which `skip` holds. -/
def dropWhile (skip : TokenKind → Bool) (s : TokenStream) : TokenStream :=
  { s with ahead := s.ahead.dropWhile fun t => skip t.kind }

end TokenStream

end MinangScript
