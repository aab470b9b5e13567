import Jianpu.Yaml.Property
/-!
# The token stream of a YAML text

The scanner reads a text token by token. Before each token it skips blanks, comments and line
breaks, forgets the simple key places that can no longer be keys, and closes the blocks that
the token's column leaves; the token's first characters then tell what it is: a directive at
the start of a line, a document marker, a flow or block indicator, an alias, anchor or tag, a
block, quoted or plain scalar.

* `fetchNext` — scans one token.
* `Scanned`, `scanTokens` — the tokens of a text, how many a reader may take, and the error.
-/

namespace Jianpu.Yaml

/-- Ends the stream: the last line is closed, every block ends, and a simple key still
required is an error. -/
def fetchStreamEnd : ScanM Unit := do
  modify fun s =>
    if s.mark.column != 0 then { s with mark := ⟨s.mark.index, s.mark.line + 1, 0⟩ } else s
  modify (Scan.unroll (-1))
  removeKey
  modify fun s => { s with keyAllowed := false }
  modify fun s => s.push .streamEnd s.mark

/-- A document marker closes every block. -/
def fetchDocumentMarker (kind : TokenKind) : ScanM Unit := do
  modify (Scan.unroll (-1))
  removeKey
  modify fun s =>
    let start := s.mark
    let s := { s with keyAllowed := false }
    (s.advance.advance.advance).push kind start

/-- `[` or `{` may start a simple key, and opens a flow depth. -/
def fetchFlowStart (kind : TokenKind) : ScanM Unit := do
  saveKey
  modify fun s =>
    let start := s.mark
    let s := { s with keys := {} :: s.keys, flowLevel := s.flowLevel + 1, keyAllowed := true }
    s.advance.push kind start

/-- `]` or `}` closes a flow depth. -/
def fetchFlowEnd (kind : TokenKind) : ScanM Unit := do
  removeKey
  modify fun s =>
    let start := s.mark
    let s := if s.flowLevel > 0 then { s with flowLevel := s.flowLevel - 1, keys := s.keys.tail } else s
    { s with keyAllowed := false }.advance.push kind start

/-- `,` separates flow entries. -/
def fetchFlowEntry : ScanM Unit := do
  removeKey
  modify fun s =>
    let start := s.mark
    { s with keyAllowed := true }.advance.push .flowEntry start

/-- `-` starts a block sequence entry, and a block sequence at a deeper column. -/
def fetchBlockEntry : ScanM Unit := do
  let s ← get
  if s.flowLevel == 0 then
    if !s.keyAllowed then
      throw ⟨"block sequence entries are not allowed in this context", s.mark, none, 0⟩
    modify fun s => s.roll s.mark.column none .blockSequenceStart s.mark
  removeKey
  modify fun s =>
    let start := s.mark
    { s with keyAllowed := true }.advance.push .blockEntry start

/-- `?` starts a key, and a block mapping at a deeper column. -/
def fetchKey : ScanM Unit := do
  let s ← get
  if s.flowLevel == 0 then
    if !s.keyAllowed then
      throw ⟨"mapping keys are not allowed in this context", s.mark, none, 0⟩
    modify fun s => s.roll s.mark.column none .blockMappingStart s.mark
  removeKey
  modify fun s =>
    let start := s.mark
    { s with keyAllowed := s.flowLevel == 0 }.advance.push .key start

/-- `:` makes the simple key before it a key, or follows a key written with `?`. A simple key
cannot follow a simple key on one line. -/
def fetchValue : ScanM Unit := do
  let s ← get
  let k := s.key
  if k.possible then
    modify fun s =>
      let s := s.insertAt k.tokenNumber ⟨.key, k.mark, k.mark⟩
      let s := s.roll k.mark.column (some k.tokenNumber) .blockMappingStart k.mark
      { s.withKey { k with possible := false } with keyAllowed := false }
  else
    if s.flowLevel == 0 then
      if !s.keyAllowed then
        throw ⟨"mapping values are not allowed in this context", s.mark, none, 0⟩
      modify fun s => s.roll s.mark.column none .blockMappingStart s.mark
    modify fun s => { s with keyAllowed := s.flowLevel == 0 }
  modify fun s =>
    let start := s.mark
    s.advance.push .value start

/-- The next token, or the end of the stream (then `true`). Key places are checked for
staleness where the last token stopped, and again at the next token. -/
def fetchNext : ScanM Bool := do
  staleKeys
  skipToToken ((← get).rest.length + 1)
  staleKeys
  modify fun s => s.unroll s.mark.column
  let s ← get
  match s.rest with
  | [] => fetchStreamEnd; pure true
  | c :: _ =>
    let next := s.peekAt 1
    if s.mark.column == 0 && c == '%' then fetchDirective
    else if s.atDocumentMarker "---" then fetchDocumentMarker .documentStart
    else if s.atDocumentMarker "..." then fetchDocumentMarker .documentEnd
    else if c == '[' then fetchFlowStart .flowSequenceStart
    else if c == '{' then fetchFlowStart .flowMappingStart
    else if c == ']' then fetchFlowEnd .flowSequenceEnd
    else if c == '}' then fetchFlowEnd .flowMappingEnd
    else if c == ',' then fetchFlowEntry
    else if c == '-' && isBlankOrEnd next then fetchBlockEntry
    else if c == '?' && (s.flowLevel > 0 || isBlankOrEnd next) then fetchKey
    else if c == ':' && (s.flowLevel > 0 || isBlankOrEnd next) then fetchValue
    else if c == '*' then fetchAnchor true
    else if c == '&' then fetchAnchor false
    else if c == '!' then fetchTag
    else if c == '|' && s.flowLevel == 0 then fetchBlockScalar true
    else if c == '>' && s.flowLevel == 0 then fetchBlockScalar false
    else if c == '\'' then fetchQuoted true
    else if c == '"' then fetchQuoted false
    else if !(isBlank c || isBreak c || indicators.contains c) ||
        (c == '-' && !(next.map isBlank).getD false) ||
        (s.flowLevel == 0 && (c == '?' || c == ':') && !isBlankOrEnd next) then
      fetchPlain
    else
      throw ⟨"found character that cannot start any token", s.mark,
        some ("while scanning for the next token", s.mark), 0⟩
    pure false

/-- Fetches tokens up to the end of the stream; each round takes at least one character. -/
def fetchAll : Nat → ScanM Unit
  | 0 => pure ()
  | fuel + 1 => do
    if ← fetchNext then pure () else fetchAll fuel

/-- The tokens of a text, how many of them a reader may take, and the error that stopped the
scanning, if any. -/
structure Scanned where
  tokens : Array Token
  available : Nat
  failure : Option SyntaxError
  deriving Inhabited

/-- Scans a text. A character not allowed anywhere fails before any token; a leading byte
order mark is skipped. -/
def scanTokens (text : String) : Scanned :=
  match firstDisallowed text with
  | some offset =>
    ⟨#[], 0, some ⟨"control characters are not allowed", {}, none, offset⟩⟩
  | none =>
    let cs := match text.toList with
      | c :: rest => if c.toNat == 0xFEFF then rest else c :: rest
      | [] => []
    let start : Scan := { rest := cs, tokens := #[⟨.streamStart, {}, {}⟩] }
    match (fetchAll (cs.length + 2)).run start with
    | .ok _ s => ⟨s.tokens, s.tokens.size, none⟩
    | .error e s => ⟨s.tokens, s.available, some e⟩

end Jianpu.Yaml
