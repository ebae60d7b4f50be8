import FortranScope.Diagnostic
import FortranScope.Token.Lexeme

/-!
# The tokens of a source

`tokenize` cuts a source into lexemes from the left and gives the tokens that they spell,
with a token of kind `TokenKind.eof` after the last of them.  Spans count bytes.  The
first character that no lexeme begins with is reported, and then there are no tokens.
-/

namespace FortranScope

/-- The number of bytes that encode `s`. -/
def byteLength : List Char → Nat
  | [] => 0
  | c :: s => c.utf8Size + byteLength s

@[simp]
theorem byteLength_nil : byteLength [] = 0 := rfl

/-- The first character takes the bytes of its encoding, and the rest takes its own. -/
@[simp]
theorem byteLength_cons (c : Char) (s : List Char) :
  byteLength (c :: s) = c.utf8Size + byteLength s
  := rfl

/-- The bytes of two texts one after the other are the bytes of both. -/
@[simp]
theorem byteLength_append (s t : List Char) :
  byteLength (s ++ t) = byteLength s + byteLength t
  := by
  induction s with
  | nil => simp
  | cons c s ih => rw [List.cons_append, byteLength_cons, byteLength_cons, ih, Nat.add_assoc]

/-- The tokens of the characters that stand in `file` from `offset` on. -/
def tokensFrom (file : String) (offset : Nat) : List Char → Except Diagnostic (List Token)
  | [] => .ok [Token.ending file offset]
  | c :: s =>
    match Lexeme.first? c s with
    | none => .error (.error (.unrecognisedToken (String.singleton c)) ⟨offset, file⟩)
    | some lexeme =>
      let lexemeText := c :: s.take lexeme.more
      let next := offset + byteLength lexemeText
      match tokensFrom file next (s.drop lexeme.more) with
      | .error d => .error d
      | .ok tokens =>
        .ok ((lexeme.shape.token? lexemeText ⟨file, offset, next⟩).toList ++ tokens)
termination_by s => s.length
decreasing_by
  rw [List.length_drop, List.length_cons]
  omega

/-- The name of a source that belongs to no file. -/
def unnamedFile : String := "shell"

/-- The tokens of `source`, which stands in `file`. -/
def tokenize (source : String) (file : String) : Except Diagnostic (List Token) :=
  tokensFrom file 0 source.toList

end FortranScope
