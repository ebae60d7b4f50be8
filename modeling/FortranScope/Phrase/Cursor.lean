import FortranScope.Diagnostic
import FortranScope.Token

/-!
# Cursors

A `Cursor` stands on a token of a sequence.  It never moves past a token of kind
`TokenKind.eof`, and it stays on the last token of a sequence that has none.
-/

namespace FortranScope

/-- A token and the tokens after it. -/
structure Cursor where
  current : Token
  rest : List Token
deriving DecidableEq, Repr

namespace Cursor

/-- The cursor on the first of `tokens`. -/
def ofTokens? : List Token → Option Cursor
  | [] => none
  | t :: rest => some ⟨t, rest⟩

/-- The tokens from the cursor on. -/
def tokens (c : Cursor) : List Token := c.current :: c.rest

/-- The cursor on the next token, if it may move there. -/
def advance (c : Cursor) : Cursor :=
  if c.current.kind = .eof then c
  else
    match c.rest with
    | [] => c
    | t :: rest => ⟨t, rest⟩

/-- The kind of the token `n` places after the current one, or of the last token if there are
not so many. -/
def peekKind (c : Cursor) (n : Nat) : TokenKind :=
  match c.rest.take n with
  | [] => c.current.kind
  | t :: ts => ((t :: ts).getLast (List.cons_ne_nil t ts)).kind

/-- The report that `t` may not stand where it stands. -/
def unexpected (t : Token) : Diagnostic :=
  .error (.unexpectedToken t.value) t.span.first

/-- The current token and the cursor after it, if the token has the given kind. -/
def expect (c : Cursor) (kind : TokenKind) : Except Diagnostic (Token × Cursor) :=
  if c.current.kind = kind then .ok (c.current, c.advance) else .error (unexpected c.current)

end Cursor

end FortranScope
