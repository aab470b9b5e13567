import Jianpu.Source.CommandLine
/-!
# Bracket groups

The content of a command line is read as nested bracket pairs — `( )`, `[ ]`, `[[ ]]` and
`{ }` — whose inside is cut by commas into groups. Whether a comma cuts depends on the
command: always, never, or only inside brackets.

* `Bracket` — the four kinds of brackets.
* `Piece` — a token, or a bracket pair with its groups, span, text and whether it was
  closed.
* `Bracketed` — the fields of a pair, as a record.
* `Bracketed.ofTokens` — the pairs of a token list; a closing bracket with no partner is
  dropped with an error, and a pair still open at the end is closed there with an error.
* `GroupedLine` — a command line with its properties and content read as pairs.

Every group ends with an end-of-text token placed where the group ends. A `]]` that does not
close a `[[` closes two `[` pairs, as two brackets one character apart.
-/

namespace Jianpu

/-- A kind of bracket. -/
inductive Bracket where
  | paren | square | doubleSquare | curly
  deriving Inhabited, DecidableEq, Repr

namespace Bracket

def ofOpen : String → Option Bracket
  | "(" => some paren
  | "[" => some square
  | "[[" => some doubleSquare
  | "\x7b" => some curly
  | _ => none

def openGlyph : Bracket → String
  | paren => "(" | square => "[" | doubleSquare => "[[" | curly => "\x7b"

def closeGlyph : Bracket → String
  | paren => ")" | square => "]" | doubleSquare => "]]" | curly => "\x7d"

def name : Bracket → String
  | paren => "paren" | square => "square" | doubleSquare => "doubleSquare" | curly => "curly"

end Bracket

/-- A token, or a bracket pair: its span (brackets included), its kind (none for a whole
line's content), whether it was closed, its comma groups and its text. -/
inductive Piece where
  | token (t : Token)
  | pair (span : Span) (bracket : Option Bracket) (closed : Bool) (groups : List (List Piece))
      (text : String)
  deriving Inhabited

/-- A bracket pair as a record. -/
structure Bracketed where
  span : Span
  bracket : Option Bracket
  closed : Bool
  groups : List (List Piece)
  text : String
  deriving Inhabited

namespace Piece

def ofPair (b : Bracketed) : Piece := pair b.span b.bracket b.closed b.groups b.text

def asPair : Piece → Option Bracketed
  | pair s b c g t => some ⟨s, b, c, g, t⟩
  | token _ => none

def asToken : Piece → Option Token
  | token t => some t
  | pair .. => none

def span : Piece → Span
  | token t => t.span
  | pair s .. => s

def isEof : Piece → Bool
  | token t => t.isEof
  | pair .. => false

def isPairOf (p : Piece) (b : Bracket) : Bool :=
  match p with
  | pair _ (some b') .. => b' == b
  | _ => false

def text : Piece → String
  | token t => t.content
  | pair _ _ _ _ t => t

mutual
/-- The piece as a record tagged with its type. -/
def toJson : Piece → Json
  | token t =>
    .obj [("type", .str "token"), ("kind", .str t.kind.name), ("content", .str t.content),
      ("range", t.span.toJson), ("lineHead", .bool t.lineHead)]
  | pair s b c g t =>
    .obj [("type", .str "pair"), ("range", s.toJson), ("bracket", .opt (.str ·.name) b),
      ("closed", .bool c), ("groups", .arr (groupsJson g)), ("text", .str t)]

def groupsJson : List (List Piece) → List Json
  | [] => []
  | g :: gs => .arr (groupJson g) :: groupsJson gs

def groupJson : List Piece → List Json
  | [] => []
  | p :: ps => toJson p :: groupJson ps
end

mutual
def depth : Piece → Nat
  | token _ => 0
  | pair _ _ _ g _ => groupsDepth g + 1

def groupsDepth : List (List Piece) → Nat
  | [] => 0
  | g :: gs => max (groupDepth g) (groupsDepth gs)

def groupDepth : List Piece → Nat
  | [] => 0
  | p :: ps => max (depth p) (groupDepth ps)
end

end Piece

def trimEof (group : List Piece) : List Piece :=
  match group.getLast? with
  | some p => if p.isEof then group.dropLast else group
  | none => group

namespace Bracketed

def toJson (b : Bracketed) : Json :=
  .obj [("range", b.span.toJson), ("bracket", .opt (.str ·.name) b.bracket),
    ("closed", .bool b.closed), ("groups", .arr (Piece.groupsJson b.groups)),
    ("text", .str b.text)]

def items (b : Bracketed) : List Piece :=
  b.groups.flatten.filter (!·.isEof)

def nonEmptyGroups (b : Bracketed) : List (List Piece) :=
  (b.groups.map trimEof).filter (!·.isEmpty)

/-- A pair still being read: its kind, where it starts, its finished groups and the group
being filled. -/
structure Open where
  bracket : Option Bracket
  start : Nat
  groups : Array (List Piece)
  current : Array Piece

namespace Open

def endGroup (f : Open) (at' : Nat) : Open :=
  { f with groups := f.groups.push (f.current.push (.token (Token.eof at'))).toList,
           current := #[] }

/-- The finished pair, ending at `stop`; a closed pair's last group ends before its closing
glyph. The text is the line's characters in the span, as far as the line reaches. -/
def close (f : Open) (stop : Nat) (closed : Bool) (chars : Array Char) : Bracketed :=
  let innerEnd := if closed then stop - (f.bracket.map (·.closeGlyph.length)).getD 0 else stop
  let f := f.endGroup innerEnd
  let last := min stop chars.size
  let text := if f.start ≤ last then String.ofList ((chars.extract f.start last).toList) else ""
  ⟨⟨f.start, stop⟩, f.bracket, closed, f.groups.toList, text⟩

def add (f : Open) (p : Piece) : Open := { f with current := f.current.push p }

end Open

/-- The top of the stack is a pair of kind `b` above the outermost one. -/
def topIs (stack : List Open) (b : Bracket) : Bool :=
  match stack with
  | top :: _ :: _ => top.bracket == some b
  | _ => false

def closeTop (chars : Array Char) (stop : Nat) : List Open → List Open
  | top :: below :: rest => below.add (.ofPair (top.close stop true chars)) :: rest
  | stack => stack

/-- Closes the top pair when it is of kind `b`; otherwise the closing bracket is dropped
with an error at `at'`. -/
def closeOrDrop (line : Nat) (chars : Array Char) (b : Bracket) (stop at' : Nat)
    (stack : List Open) : Compiling (List Open) := do
  if topIs stack b then pure (closeTop chars stop stack)
  else
    error line at' (.unpairedBracket b.closeGlyph)
    pure stack

/-- Whether a comma at the given depth of brackets cuts a group. -/
def splits (mode : SplitMode) (depth : Nat) : Bool :=
  match mode with
  | .always => true
  | .never => false
  | .others => depth > 0

/-- Reads one token into the stack of open pairs. -/
def step (line : Nat) (chars : Array Char) (mode : SplitMode) (stack : List Open)
    (t : Token) : Compiling (List Open) := do
  let addTop (s : List Open) : List Open := match s with
    | top :: rest => top.add (.token t) :: rest
    | [] => []
  if t.kind == .symbol then
    if let some b := Bracket.ofOpen t.content then
      return ⟨some b, t.span.start, #[], #[]⟩ :: stack
    if t.content == "]]" then
      if topIs stack .doubleSquare then return closeTop chars t.span.stop stack
      let mid := t.span.start + 1
      let stack ← closeOrDrop line chars .square mid t.span.start stack
      return ← closeOrDrop line chars .square t.span.stop mid stack
    let closing : Option Bracket := match t.content with
      | ")" => some .paren
      | "]" => some .square
      | "\x7d" => some .curly
      | _ => none
    if let some b := closing then
      return ← closeOrDrop line chars b t.span.stop t.span.start stack
    if t.content == "," && splits mode (stack.length - 1) then
      return match stack with
        | top :: rest => top.endGroup t.span.start :: rest
        | [] => []
  return addTop stack

/-- Closes every pair still open at `stop`, each with an error at its start. -/
def closeAll (line : Nat) (chars : Array Char) (stop : Nat) : List Open → Compiling (List Open)
  | top :: below :: rest => do
    error line top.start (.unclosedBracket ((top.bracket.map (·.openGlyph)).getD ""))
    closeAll line chars stop (below.add (.ofPair (top.close stop false chars)) :: rest)
  | stack => pure stack
termination_by stack => stack.length

/-- The pair of a token list ending in an end-of-text token: the whole list as one pair of no
kind, spanning from the first token to the last. -/
def ofTokens (line : Nat) (chars : Array Char) (mode : SplitMode) (tokens : List Token) :
    Compiling Bracketed := do
  let start := (tokens.head?.map (·.span.start)).getD 0
  let stop := (tokens.getLast?.map (·.span.stop)).getD start
  let root : Open := ⟨none, start, #[], #[]⟩
  let stack ← (tokens.filter (!·.isEof)).foldlM (step line chars mode) [root]
  let stack ← closeAll line chars stop stack
  pure ((stack.head?.getD root).close stop true chars)

end Bracketed

/-- A command line with its properties and content read as bracket pairs. -/
structure GroupedLine where
  line : Nat
  command : Command
  head : String
  props : Option Bracketed
  content : Bracketed
  text : String
  textOffset : Nat
  comment : Option String
  deriving Inhabited

namespace GroupedLine

/-- Reads a command line's properties (commas always cut) and content (as the command
says). -/
def ofCommandLine (c : CommandLine) : Compiling GroupedLine := do
  let chars := c.lineText.toList.toArray
  let props ← match c.props with
    | some p => some <$> Bracketed.ofTokens c.line chars .always p
    | none => pure none
  let content ← Bracketed.ofTokens c.line chars c.command.split c.content
  pure ⟨c.line, c.command, c.head, props, content, c.text, c.textOffset, c.comment⟩

def toJson (g : GroupedLine) : Json :=
  .obj [("type", .str "command"), ("lineNumber", .nat g.line), ("command", .str g.command.longName),
    ("head", .str g.head), ("props", .opt Bracketed.toJson g.props),
    ("content", g.content.toJson), ("text", .str g.text), ("textOffset", .nat g.textOffset),
    ("comment", .opt .str g.comment)]

end GroupedLine

end Jianpu
