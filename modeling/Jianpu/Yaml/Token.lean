/-!
# YAML tokens

Scanning turns a YAML text into tokens: directives, indicators, node properties, scalars, and
the block starts and ends that indentation implies. Each token knows where it starts and stops.

A key written without `?` (a simple key) is only known to be a key when its `:` arrives. The
scanner keeps, for every flow depth, the place where such a key may stand; a `:` turns it into
a key token put back before the key's first token, with a block mapping start before that when
the key opens a deeper indentation. A reader may take the tokens before an unresolved key only,
so when scanning fails it has taken `available` tokens.

* `Mark`, `SyntaxError` — a place in the text (its byte offset, and line and column from 0)
  and a failure with what was being read.
* `TokenKind`, `Token` — the tokens.
* `Scan` — the scanner's state, with the moves that every kind of token shares: reading
  characters and line breaks, opening and closing blocks, and keeping simple key places.
-/

namespace Jianpu.Yaml

/-- A place in the text: the byte offset, line and column, all from 0. -/
structure Mark where
  index : Nat := 0
  line : Nat := 0
  column : Nat := 0
  deriving Inhabited, BEq

namespace Mark

def isOrigin (m : Mark) : Bool := m.line == 0 && m.column == 0

def display (m : Mark) : String :=
  "line " ++ toString (m.line + 1) ++ " column " ++ toString (m.column + 1)

def next (m : Mark) (c : Char) : Mark :=
  { m with index := m.index + c.utf8Size, column := m.column + 1 }

def newline (m : Mark) (width : Nat) : Mark := ⟨m.index + width, m.line + 1, 0⟩

end Mark

/-- A text that is not YAML: the problem and its place, what was being read and from where,
and for a character that may not appear at all its byte offset. -/
structure SyntaxError where
  problem : String
  mark : Mark
  context : Option (String × Mark) := none
  offset : Nat := 0
  deriving Inhabited

/-- The report of a syntax error. The place is left out at the very start of the text, and
the context's place when it is the start of the text or the problem's place. -/
def SyntaxError.message (e : SyntaxError) : String :=
  let place :=
    if !e.mark.isOrigin then " at " ++ e.mark.display
    else if e.offset != 0 then " at position " ++ toString e.offset
    else ""
  let context := match e.context with
    | none => ""
    | some (what, m) =>
      ", " ++ what ++
        (if !m.isOrigin && !(m.line == e.mark.line && m.column == e.mark.column) then
          " at " ++ m.display else "")
  e.problem ++ place ++ context

/-- How a scalar is written: plain, between single or double quotes, or as a literal or a
folded block. -/
inductive ScalarStyle where
  | plain | singleQuoted | doubleQuoted | literal | folded
  deriving Inhabited, BEq, DecidableEq

/-- What a token is. A tag is written as a handle and a suffix; a `%TAG` directive gives a
handle the text it expands to. -/
inductive TokenKind where
  | streamStart | streamEnd
  | versionDirective (major minor : Nat)
  | tagDirective (handle expansion : String)
  | documentStart | documentEnd
  | blockSequenceStart | blockMappingStart | blockEnd
  | flowSequenceStart | flowSequenceEnd | flowMappingStart | flowMappingEnd
  | blockEntry | flowEntry | key | value
  | reference (name : String)
  | anchor (name : String)
  | tag (handle suffix : String)
  | scalar (text : String) (style : ScalarStyle)
  deriving Inhabited, BEq

/-- A token with the places where it starts and stops. -/
structure Token where
  kind : TokenKind
  start : Mark
  stop : Mark
  deriving Inhabited

def isBreak (c : Char) : Bool :=
  c == '\n' || c == '\r' || c.toNat == 0x85 || c.toNat == 0x2028 || c.toNat == 0x2029

def isBlank (c : Char) : Bool := c == ' ' || c == '\t'

def isBlankOrEnd : Option Char → Bool
  | none => true
  | some c => isBlank c || isBreak c

/-- A character allowed in a YAML text: tab, line feed, carriage return, the printable ASCII
characters, next line, and the rest of Unicode but for the C1 controls and `U+FFFE`,
`U+FFFF`. -/
def isAllowed (c : Char) : Bool :=
  let v := c.toNat
  v == 0x09 || v == 0x0A || v == 0x0D || (0x20 ≤ v && v ≤ 0x7E) || v == 0x85 ||
    (0xA0 ≤ v && v ≤ 0xD7FF) || (0xE000 ≤ v && v ≤ 0xFFFD) || (0x10000 ≤ v && v ≤ 0x10FFFF)

/-- The byte offset of the first character not allowed in a YAML text. -/
def firstDisallowed (text : String) : Option Nat :=
  let step := fun (acc : Nat × Option Nat) (c : Char) =>
    match acc with
    | (_, some o) => (0, some o)
    | (bytes, none) => if isAllowed c then (bytes + c.utf8Size, none) else (bytes, some bytes)
  (text.toList.foldl step (0, none)).2

/-- A place where a simple key may stand: the number of the token it would come before. -/
structure SimpleKey where
  possible : Bool := false
  required : Bool := false
  tokenNumber : Nat := 0
  mark : Mark := {}
  deriving Inhabited

/-- The scanner's state: the text left and its place, the flow depth, the indentation and
the outer ones, whether a simple key may start here, the simple key place of every flow
depth (innermost first), and the tokens so far. -/
structure Scan where
  rest : List Char
  mark : Mark := {}
  flowLevel : Nat := 0
  indent : Int := -1
  indents : List Int := []
  keyAllowed : Bool := true
  keys : List SimpleKey := [{}]
  tokens : Array Token := #[]
  deriving Inhabited

abbrev ScanM := EStateM SyntaxError Scan

namespace Scan

def peekAt (s : Scan) (k : Nat) : Option Char := s.rest[k]?

def startsWith (s : Scan) (w : String) : Bool := w.toList.isPrefixOf s.rest

def atDocumentMarker (s : Scan) (w : String) : Bool :=
  s.mark.column == 0 && s.startsWith w && isBlankOrEnd (s.peekAt 3)

/-- The state after one character that is not a line break. -/
def advance (s : Scan) : Scan :=
  match s.rest with
  | [] => s
  | c :: cs => { s with rest := cs, mark := s.mark.next c }

/-- The state after a line break, and the break as a scalar keeps it: carriage return, line
feed, both together and next line read as a line feed, the others as themselves. -/
def readBreak (s : Scan) : Scan × String :=
  match s.rest with
  | '\r' :: '\n' :: cs => ({ s with rest := cs, mark := s.mark.newline 2 }, "\n")
  | c :: cs =>
    let kept := if c == '\r' || c == '\n' || c.toNat == 0x85 then "\n" else String.singleton c
    ({ s with rest := cs, mark := s.mark.newline c.utf8Size }, kept)
  | [] => (s, "")

def takeRun (p : Char → Bool) (s : Scan) : Scan × String :=
  go s.rest s.mark ""
where
  go : List Char → Mark → String → Scan × String
    | c :: cs, m, acc =>
      if p c then go cs (m.next c) (acc.push c) else ({ s with rest := c :: cs, mark := m }, acc)
    | [], m, acc => ({ s with rest := [], mark := m }, acc)

def skipWhile (p : Char → Bool) (s : Scan) : Scan :=
  go s.rest s.mark
where
  go : List Char → Mark → Scan
    | c :: cs, m => if p c then go cs (m.next c) else { s with rest := c :: cs, mark := m }
    | [], m => { s with rest := [], mark := m }

def push (s : Scan) (kind : TokenKind) (start : Mark) : Scan :=
  { s with tokens := s.tokens.push ⟨kind, start, s.mark⟩ }

def insertAt (s : Scan) (n : Nat) (t : Token) : Scan :=
  { s with tokens := (s.tokens.extract 0 n).push t ++ s.tokens.extract n s.tokens.size }

/-- The number of tokens a reader may take: those before the first place of a simple key
still undecided. -/
def available (s : Scan) : Nat :=
  s.keys.foldl (fun n k => if k.possible then min n k.tokenNumber else n) s.tokens.size

/-- The indentation after closing every block deeper than `column`, each with a block end. -/
def unrollFrom (column : Int) (mark : Mark) :
    Int → List Int → Array Token → Int × List Int × Array Token
  | indent, i :: is, toks =>
    if indent > column then unrollFrom column mark i is (toks.push ⟨.blockEnd, mark, mark⟩)
    else (indent, i :: is, toks)
  | indent, [], toks => (indent, [], toks)

/-- Closes the blocks deeper than `column`; flow content has no blocks. -/
def unroll (column : Int) (s : Scan) : Scan :=
  if s.flowLevel == 0 then
    let (indent, indents, tokens) := unrollFrom column s.mark s.indent s.indents s.tokens
    { s with indent, indents, tokens }
  else s

/-- Opens a block at `column` when it is deeper than the present one: its start token is put
before token `n`, or appended. -/
def roll (column : Nat) (n : Option Nat) (kind : TokenKind) (mark : Mark) (s : Scan) : Scan :=
  if s.flowLevel == 0 && s.indent < (column : Int) then
    let s := { s with indents := s.indent :: s.indents, indent := column }
    let t : Token := ⟨kind, mark, mark⟩
    match n with
    | some k => s.insertAt k t
    | none => { s with tokens := s.tokens.push t }
  else s

def key (s : Scan) : SimpleKey := s.keys.headD {}

def withKey (s : Scan) (k : SimpleKey) : Scan := { s with keys := k :: s.keys.tail }

end Scan

def keyWithoutColon (k : SimpleKey) (here : Mark) : SyntaxError :=
  ⟨"could not find expected ':'", here, some ("while scanning a simple key", k.mark), 0⟩

/-- Forgets the simple key place of the present depth; a required one is an error. -/
def removeKey : ScanM Unit := do
  let s ← get
  let k := s.key
  if k.possible && k.required then throw (keyWithoutColon k s.mark)
  modify fun s => s.withKey { k with possible := false }

/-- Remembers that a simple key may start here. It is required where a block key must stand:
outside flow content, at the column of the present indentation. -/
def saveKey : ScanM Unit := do
  let s ← get
  if s.keyAllowed then
    removeKey
    let required := s.flowLevel == 0 && s.indent == (s.mark.column : Int)
    modify fun s => s.withKey ⟨true, required, s.tokens.size, s.mark⟩

/-- A simple key cannot span lines or more than 1024 characters: such places are forgotten,
and a required one is an error. -/
def staleKeys : ScanM Unit := do
  let s ← get
  let keys ← s.keys.mapM fun k => do
    if k.possible && (k.mark.line < s.mark.line || k.mark.index + 1024 < s.mark.index) then
      if k.required then throw (keyWithoutColon k s.mark)
      pure { k with possible := false }
    else pure k
  modify fun s => { s with keys }

/-- Skips blanks, comments and line breaks before the next token; a line break outside flow
content lets a simple key start. Tabs are skipped only where they cannot be indentation. -/
def skipToToken : Nat → ScanM Unit
  | 0 => pure ()
  | fuel + 1 => do
    let s ← get
    let s := if s.mark.column == 0 && s.rest.head? == some (Char.ofNat 0xFEFF) then s.advance else s
    let s := s.skipWhile fun c => c == ' ' || ((s.flowLevel > 0 || !s.keyAllowed) && c == '\t')
    let s := if s.rest.head? == some '#' then s.skipWhile (!isBreak ·) else s
    match s.rest.head? with
    | some c =>
      if isBreak c then
        let s := s.readBreak.1
        modify fun _ => if s.flowLevel == 0 then { s with keyAllowed := true } else s
        skipToToken fuel
      else modify fun _ => s
    | none => modify fun _ => s

end Jianpu.Yaml
