import FortranScope.Phrase.Cursor
import FortranScope.Phrase.Literal
import FortranScope.Phrase.Power
import FortranScope.Token.Sequence

/-!
# Reading phrases

The tokens of a phrase are read one at a time.  A `Reading` is what the tokens read so far
amount to: the constructs that they left open, innermost first, and the `Focus`, which is
either the phrase just completed or what has to come next.  `Reading.step` is the effect of
one token; an operator first completes the operators before it that bind their right
operand at least as tightly.  `Phrase.parse` reads a whole sequence of tokens and
`Phrase.ofSource` a whole text.
-/

namespace FortranScope

/-- A construct that is open: an operator that lacks its right operand, an opening
parenthesis, or a reference with the arguments read so far and the keyword of the argument
to come. -/
inductive Frame where
  | prefixed (operator : PrefixOperator) (span : Span)
  | infixed (operator : InfixOperator) (left : Phrase)
  | group (opening : Span)
  | reference (callee : Name) (args : List (Option Name × Phrase)) (keyword : Option Name)
deriving DecidableEq

/-- What stands at the end of the tokens read so far: an operand has to follow; an argument or
the end of the argument list has to follow; a component name of the phrase given has to
follow; or the phrase given is complete. -/
inductive Focus where
  | operand
  | argument
  | component (base : Phrase)
  | complete (phrase : Phrase)
deriving DecidableEq

/-- The open constructs, innermost first, and the focus. -/
structure Reading where
  frames : List Frame
  focus : Focus
deriving DecidableEq

/-- The effect of a token on a reading.  The token is taken in; or it does not belong to the
phrase, which is complete without it; or it is a fault.  A fault is `taken` if the token
has its place but is no phrase. -/
inductive Step where
  | shift (reading : Reading)
  | stop (phrase : Phrase)
  | fault (diagnostic : Diagnostic) (taken : Bool)
deriving DecidableEq

namespace Reading

/-- Nothing read yet. -/
def start : Reading := ⟨[], .operand⟩

/-- The fault that `t` may not come next. -/
def refuse (t : Token) : Step := .fault (Cursor.unexpected t) false

/-- Completes the innermost operators with the operand `e` for as long as `power` does not
exceed their right power. -/
def reduce (power : Power) : List Frame → Phrase → List Frame × Phrase
  | .prefixed operator span :: frames, e =>
    if power ≤ operator.rightPower then
      reduce power frames (.unary operator e (span.through e.span))
    else (.prefixed operator span :: frames, e)
  | .infixed operator left :: frames, e =>
    if power ≤ operator.rightPower then reduce power frames (.binary operator left e)
    else (.infixed operator left :: frames, e)
  | frames, e => (frames, e)

/-- The effect of `t` where an operand has to follow. -/
def beginOperand (frames : List Frame) (t : Token) : Step :=
  match Phrase.literal? t with
  | some (some phrase) => .shift ⟨frames, .complete phrase⟩
  | some none => .fault (.error (.numberParseError t.value) t.span.first) true
  | none =>
    if t.kind = .openParen then .shift ⟨.group t.span :: frames, .operand⟩
    else
      match PrefixOperator.ofToken? t with
      | some operator => .shift ⟨.prefixed operator t.span :: frames, .operand⟩
      | none => refuse t

/-- The reference to `callee` with the given arguments, closed by the token `t`. -/
def closeReference (callee : Name) (args : List (Option Name × Phrase)) (t : Token) : Phrase :=
  .reference callee (.ofList args) (callee.span.through t.span)

/-- The effect of `t` where an argument or the end of the argument list has to follow. -/
def beginArgument (frames : List Frame) (t : Token) : Step :=
  match frames with
  | .reference callee args _ :: outer =>
    if t.kind = .closeParen then .shift ⟨outer, .complete (closeReference callee args t)⟩
    else beginOperand frames t
  | _ => beginOperand frames t

/-- The effect of `t` after the phrase `e`, which it takes as its operand. -/
def extend (frames : List Frame) (e : Phrase) (t : Token) : Step :=
  if t.kind = .openParen then
    match e with
    | .designator callee => .shift ⟨.reference callee [] none :: frames, .argument⟩
    | _ => refuse t
  else if t.kind = .percent then .shift ⟨frames, .component e⟩
  else
    match InfixOperator.ofToken? t with
    | some operator => .shift ⟨.infixed operator e :: frames, .operand⟩
    | none => refuse t

/-- The effect of `t` after the phrase `e` inside a parenthesis. -/
def endGroup (opening : Span) (outer : List Frame) (e : Phrase) (t : Token) : Step :=
  if t.kind = .closeParen then
    .shift ⟨outer, .complete (.parentheses e (opening.through t.span))⟩
  else refuse t

/-- The effect of `t` after the phrase `e` inside an argument list. -/
def endArgument (callee : Name) (args : List (Option Name × Phrase)) (keyword : Option Name)
    (outer : List Frame) (e : Phrase) (t : Token) : Step :=
  if t.kind = .closeParen then
    .shift ⟨outer, .complete (closeReference callee (args ++ [(keyword, e)]) t)⟩
  else if t.kind = .comma then
    .shift ⟨.reference callee (args ++ [(keyword, e)]) none :: outer, .argument⟩
  else if t.kind = .assignment then
    match e, keyword with
    | .designator word, none => .shift ⟨.reference callee args (some word) :: outer, .operand⟩
    | _, _ => refuse t
  else refuse t

/-- The effect of `t` after the phrase `e`, of which `t` takes no operand. -/
def finish (frames : List Frame) (e : Phrase) (t : Token) : Step :=
  match frames with
  | .group opening :: outer => endGroup opening outer e t
  | .reference callee args keyword :: outer => endArgument callee args keyword outer e t
  | _ => .stop e

/-- The effect of `t` after a complete phrase, where `limit` is the power that an operator has
to exceed to belong to the outermost phrase. -/
def afterPhrase (limit : Power) (frames : List Frame) (e : Phrase) (t : Token) : Step :=
  match reduce t.kind.leftPower frames e with
  | ([], e) => if t.kind.leftPower ≤ limit then .stop e else extend [] e t
  | (frames, e) =>
    if t.kind.leftPower = .lowest then finish frames e t else extend frames e t

/-- The effect of the token `t` on `r`, where `limit` is the power that an operator has to
exceed to belong to the outermost phrase. -/
def step (limit : Power) (r : Reading) (t : Token) : Step :=
  match r.focus with
  | .operand => beginOperand r.frames t
  | .argument => beginArgument r.frames t
  | .component base =>
    if t.kind = .identifier then
      .shift ⟨r.frames, .complete (.component base (Name.ofSpelling t.value t.span))⟩
    else refuse t
  | .complete e => afterPhrase limit r.frames e t

/-- The outcome of `r` when the last token `t` of a sequence that does not end properly comes
again and again, at most `n` times. -/
def stall (limit : Power) (t : Token) : Nat → Reading → Except Diagnostic Phrase
  | 0, _ => .error (Cursor.unexpected t)
  | n + 1, r =>
    match r.step limit t with
    | .stop phrase => .ok phrase
    | .fault d _ => .error d
    | .shift next => stall limit t n next

/-- The outcome of `r` on the token `t` and the tokens after it, and where the reading ends. -/
def run (limit : Power) (r : Reading) (t : Token) :
    List Token → Except Diagnostic Phrase × Cursor
  | [] =>
    match r.step limit t with
    | .stop phrase => (.ok phrase, ⟨t, []⟩)
    | .fault d _ => (.error d, ⟨t, []⟩)
    | .shift next => (stall limit t (next.frames.length + 2) next, ⟨t, []⟩)
  | u :: rest =>
    match r.step limit t with
    | .stop phrase => (.ok phrase, ⟨t, u :: rest⟩)
    | .fault d taken => (.error d, if taken then ⟨u, rest⟩ else ⟨t, u :: rest⟩)
    | .shift next => run limit next u rest

end Reading

/-- The longest phrase at the cursor whose outermost operators exceed `limit`, and the cursor
after it; on a fault, the cursor where it was found. -/
def Cursor.readPhrase (limit : Power) (c : Cursor) : Except Diagnostic Phrase × Cursor :=
  Reading.start.run limit c.current c.rest

namespace Phrase

/-- The phrase that the tokens from the cursor up to the first token of kind
`TokenKind.eof` spell. -/
def parse (c : Cursor) : Except Diagnostic Phrase :=
  match c.readPhrase .lowest with
  | (.error d, _) => .error d
  | (.ok phrase, next) =>
    if next.current.kind = .eof then .ok phrase else .error (Cursor.unexpected next.current)

/-- The phrase that `tokens` spell.  An empty sequence counts as one that ends at once. -/
def ofTokens (tokens : List Token) : Except Diagnostic Phrase :=
  parse ((Cursor.ofTokens? tokens).getD ⟨Token.ending unnamedFile 0, []⟩)

/-- The phrase that `source`, which stands in `file`, spells. -/
def ofSource (source file : String) : Except Diagnostic Phrase :=
  match tokenize source file with
  | .error d => .error d
  | .ok tokens => ofTokens tokens

end Phrase

end FortranScope
