import Jianpu.Yaml.Stream
/-!
# YAML events

Parsing reads the tokens as the YAML grammar nests them and tells what it meets as events:
the starts and ends of the stream, of documents, sequences and mappings, scalars and aliases,
each at the place where it starts. A key or value that is left out is an empty plain scalar,
and so is a node that has an anchor or a tag and nothing else.

A node's tag is written with a handle, which the document's `%TAG` directives define; `!`
stands for itself and `!!` for the core schema's prefix `tag:yaml.org,2002:` unless a
directive says otherwise. The event carries the tag with the handle expanded.

* `EventKind`, `Event` — the events, with the anchor and tag of a node.
* `Parsing.stream` — the events of a token stream, failing with the grammar's error or, when
  it needs a token the scanner could not give, with the scanner's.
* `Document`, `firstDocument` — the events inside the first document, the error met inside
  it (an alias to an anchor not yet seen ends it), and whether anything follows it.
* `aliasTarget` — the node an alias reads. Anchors are numbered slots (`anchorSlots`) and an
  alias names a slot, so a name anchored twice shares its slot with the next new name, and an
  alias reads what the slot holds at the end of the document.
-/

namespace Jianpu.Yaml

/-- What an event is. An alias is a reference to the node that carries its anchor. -/
inductive EventKind where
  | streamStart | streamEnd | documentStart | documentEnd
  | reference (name : String)
  | scalar (text : String) (style : ScalarStyle)
  | sequenceStart | sequenceEnd | mappingStart | mappingEnd
  deriving Inhabited, BEq

/-- An event, the place where it starts, and for a node its anchor and tag. -/
structure Event where
  kind : EventKind
  mark : Mark
  anchor : Option String := none
  tag : Option String := none
  deriving Inhabited

/-- The parser's state: the tokens, the next one to take, the events so far, and the tag
handles of the present document with what they expand to. -/
structure Parsing where
  source : Scanned
  pos : Nat := 0
  events : Array Event := #[]
  handles : List (String × String) := []

abbrev ParseM := EStateM SyntaxError Parsing

namespace Parsing

def exhausted : SyntaxError := ⟨"did not find expected node content", {}, none, 0⟩

/-- The next token. Past the tokens a reader may take, the scanner's error. -/
def peek : ParseM Token := do
  let p ← get
  if p.pos < p.source.available then
    match p.source.tokens[p.pos]? with
    | some t => pure t
    | none => throw exhausted
  else throw (p.source.failure.getD exhausted)

def skip : ParseM Unit := modify fun p => { p with pos := p.pos + 1 }

def emitNode (kind : EventKind) (mark : Mark) (anchor tag : Option String) : ParseM Unit :=
  modify fun p => { p with events := p.events.push ⟨kind, mark, anchor, tag⟩ }

def emit (kind : EventKind) (mark : Mark) : ParseM Unit := emitNode kind mark none none

def emitEmpty (mark : Mark) : ParseM Unit := emit (.scalar "" .plain) mark

def isBlockStop (t : Token) : Bool :=
  t.kind == .key || t.kind == .value || t.kind == .blockEnd

/-- The token is a `%YAML` or `%TAG` directive. -/
def isDirective (t : Token) : Bool :=
  match t.kind with
  | .versionDirective .. | .tagDirective .. => true
  | _ => false

/-- The anchor and the tag before a node, in either order: the anchor's name, and the tag's
handle, suffix and place. -/
def properties : ParseM (Option String × Option (String × String × Mark)) := do
  let t ← peek
  match t.kind with
  | .anchor name =>
    skip
    let u ← peek
    match u.kind with
    | .tag handle suffix => skip; pure (some name, some (handle, suffix, u.start))
    | _ => pure (some name, none)
  | .tag handle suffix =>
    skip
    let u ← peek
    match u.kind with
    | .anchor name => skip; pure (some name, some (handle, suffix, t.start))
    | _ => pure (none, some (handle, suffix, t.start))
  | _ => pure (none, none)

/-- A tag with its handle expanded by the document's handles; a tag without a handle is its
suffix. A handle the document does not define is an error. -/
def expandTag (start : Mark) : Option (String × String × Mark) → ParseM (Option String)
  | none => pure none
  | some (handle, suffix, mark) => do
    if handle.isEmpty then return some suffix
    match (← get).handles.lookup handle with
    | some expansion => pure (some (expansion ++ suffix))
    | none => throw ⟨"found undefined tag handle", mark, some ("while parsing a node", start), 0⟩

/-- A node with no content: an empty scalar when it has an anchor or a tag, else an error. -/
def bareNode (block : Bool) (start here : Mark) (anchor tag : Option String) : ParseM Unit :=
  if anchor.isSome || tag.isSome then emitNode (.scalar "" .plain) start anchor tag
  else throw ⟨"did not find expected node content", here,
    some (if block then "while parsing a block node" else "while parsing a flow node", start), 0⟩

mutual

/-- A node: an alias, or after an anchor and a tag a scalar, a flow collection, or in block
content a block collection; a mapping value may also be a sequence of `-` entries at the
mapping's own column. A node with properties and none of these is an empty scalar. -/
def node (block indentless : Bool) : Nat → ParseM Unit
  | 0 => throw exhausted
  | fuel + 1 => do
    let t ← peek
    match t.kind with
    | .reference name => skip; emit (.reference name) t.start
    | _ =>
      let (anchor, written) ← properties
      let tag ← expandTag t.start written
      let u ← peek
      let enter (kind : EventKind) : ParseM Unit := do
        skip
        emitNode kind t.start anchor tag
      match u.kind with
      | .blockEntry =>
        if indentless then
          emitNode .sequenceStart t.start anchor tag
          indentlessSequence fuel
        else bareNode block t.start u.start anchor tag
      | .scalar text style => enter (.scalar text style)
      | .flowSequenceStart =>
        enter .sequenceStart
        flowSequence u.start true fuel
      | .flowMappingStart =>
        enter .mappingStart
        flowMapping u.start true fuel
      | .blockSequenceStart =>
        if block then
          enter .sequenceStart
          blockSequence u.start fuel
        else bareNode block t.start u.start anchor tag
      | .blockMappingStart =>
        if block then
          enter .mappingStart
          blockMapping u.start fuel
        else bareNode block t.start u.start anchor tag
      | _ => bareNode block t.start u.start anchor tag

/-- The entries of a block sequence after its start, each after a `-`. -/
def blockSequence (start : Mark) : Nat → ParseM Unit
  | 0 => throw exhausted
  | fuel + 1 => do
    let t ← peek
    match t.kind with
    | .blockEntry =>
      skip
      let u ← peek
      if u.kind == .blockEntry || u.kind == .blockEnd then emitEmpty t.stop
      else node true false fuel
      blockSequence start fuel
    | .blockEnd => skip; emit .sequenceEnd t.start
    | _ => throw ⟨"did not find expected '-' indicator", t.start,
        some ("while parsing a block collection", start), 0⟩

/-- The entries of a sequence of `-` entries at a mapping's column; it ends at anything else. -/
def indentlessSequence : Nat → ParseM Unit
  | 0 => throw exhausted
  | fuel + 1 => do
    let t ← peek
    if t.kind == .blockEntry then
      skip
      let u ← peek
      if u.kind == .blockEntry || isBlockStop u then emitEmpty t.stop
      else node true false fuel
      indentlessSequence fuel
    else emit .sequenceEnd t.start

/-- The keys of a block mapping after its start. -/
def blockMapping (start : Mark) : Nat → ParseM Unit
  | 0 => throw exhausted
  | fuel + 1 => do
    let t ← peek
    match t.kind with
    | .key =>
      skip
      let u ← peek
      if isBlockStop u then emitEmpty t.stop else node true true fuel
      blockMappingValue start fuel
    | .blockEnd => skip; emit .mappingEnd t.start
    | _ => throw ⟨"did not find expected key", t.start,
        some ("while parsing a block mapping", start), 0⟩

/-- The value of a block mapping's key, empty when no `:` follows. -/
def blockMappingValue (start : Mark) : Nat → ParseM Unit
  | 0 => throw exhausted
  | fuel + 1 => do
    let t ← peek
    if t.kind == .value then
      skip
      let u ← peek
      if isBlockStop u then emitEmpty t.stop else node true true fuel
    else emitEmpty t.start
    blockMapping start fuel

/-- The entries of a flow sequence, separated by `,`; a `key: value` entry is a mapping of
one pair. -/
def flowSequence (start : Mark) (first : Bool) : Nat → ParseM Unit
  | 0 => throw exhausted
  | fuel + 1 => do
    let t ← peek
    if t.kind == .flowSequenceEnd then
      skip; emit .sequenceEnd t.start
    else
      let t ← if first then pure t
        else if t.kind == .flowEntry then do skip; peek
        else throw ⟨"did not find expected ',' or ']'", t.start,
          some ("while parsing a flow sequence", start), 0⟩
      match t.kind with
      | .key =>
        emit .mappingStart t.start
        skip
        flowPair fuel
        flowSequence start false fuel
      | .flowSequenceEnd => skip; emit .sequenceEnd t.start
      | _ =>
        node false false fuel
        flowSequence start false fuel

/-- The key and value of a one-pair mapping inside a flow sequence, and its end. -/
def flowPair : Nat → ParseM Unit
  | 0 => throw exhausted
  | fuel + 1 => do
    let t ← peek
    if t.kind == .value || t.kind == .flowEntry || t.kind == .flowSequenceEnd then
      emitEmpty t.start
    else node false false fuel
    let t ← peek
    if t.kind == .value then
      skip
      let u ← peek
      if u.kind == .flowEntry || u.kind == .flowSequenceEnd then emitEmpty u.start
      else node false false fuel
    else emitEmpty t.start
    let t ← peek
    emit .mappingEnd t.start

/-- The entries of a flow mapping, separated by `,`. -/
def flowMapping (start : Mark) (first : Bool) : Nat → ParseM Unit
  | 0 => throw exhausted
  | fuel + 1 => do
    let t ← peek
    if t.kind == .flowMappingEnd then
      skip; emit .mappingEnd t.start
    else
      let t ← if first then pure t
        else if t.kind == .flowEntry then do skip; peek
        else throw ⟨"did not find expected ',' or '\x7d'", t.start,
          some ("while parsing a flow mapping", start), 0⟩
      match t.kind with
      | .key =>
        skip
        let u ← peek
        if u.kind == .value || u.kind == .flowEntry || u.kind == .flowMappingEnd then
          emitEmpty u.start
        else node false false fuel
        flowMappingValue start false fuel
      | .flowMappingEnd => skip; emit .mappingEnd t.start
      | _ =>
        node false false fuel
        flowMappingValue start true fuel

/-- The value of a flow mapping's key: empty for a key without `:`. -/
def flowMappingValue (start : Mark) (empty : Bool) : Nat → ParseM Unit
  | 0 => throw exhausted
  | fuel + 1 => do
    let t ← peek
    if empty then emitEmpty t.start
    else if t.kind == .value then
      skip
      let u ← peek
      if u.kind == .flowEntry || u.kind == .flowMappingEnd then emitEmpty u.start
      else node false false fuel
    else emitEmpty t.start
    flowMapping start false fuel

end

/-- Takes the extra `...` markers between documents. -/
def skipDocumentEnds : Nat → ParseM Unit
  | 0 => pure ()
  | fuel + 1 => do
    let t ← peek
    if t.kind == .documentEnd then skip; skipDocumentEnds fuel

/-- The end of a document, with or without `...`; its tag handles end with it. -/
def closeDocument : ParseM Unit := do
  let t ← peek
  if t.kind == .documentEnd then skip
  modify fun p => { p with handles := [] }
  emit .documentEnd t.start

/-- The directives before a document: at most one `%YAML`, of version 1.1 or 1.2, and `%TAG`
directives of different handles, in order. -/
def directives : Nat → List (String × String) → Bool → ParseM (List (String × String))
  | 0, handles, _ => pure handles
  | fuel + 1, handles, versioned => do
    let t ← peek
    match t.kind with
    | .versionDirective major minor =>
      if versioned then throw ⟨"found duplicate %YAML directive", t.start, none, 0⟩
      if major != 1 || (minor != 1 && minor != 2) then
        throw ⟨"found incompatible YAML document", t.start, none, 0⟩
      skip
      directives fuel handles true
    | .tagDirective handle expansion =>
      if handles.any (·.1 == handle) then throw ⟨"found duplicate %TAG directive", t.start, none, 0⟩
      skip
      directives fuel (handles ++ [(handle, expansion)]) versioned
    | _ => pure handles

def withDefaultHandles (handles : List (String × String)) : List (String × String) :=
  handles ++ ([("!", "!"), ("!!", "tag:yaml.org,2002:")].filter fun d =>
    !handles.any (·.1 == d.1))

/-- The documents of a stream. The first may start without `---` when no directive comes
first; any other starts with directives, if any, and `---`. -/
def documents (implicit : Bool) : Nat → ParseM Unit
  | 0 => throw exhausted
  | fuel + 1 => do
    if !implicit then skipDocumentEnds fuel
    let t ← peek
    if implicit && !(isDirective t || t.kind == .documentStart || t.kind == .streamEnd) then
      modify fun p => { p with handles := withDefaultHandles [] }
      emit .documentStart t.start
      node true false fuel
      closeDocument
      documents false fuel
    else if t.kind == .streamEnd then
      skip; emit .streamEnd t.start
    else
      let handles ← directives fuel [] false
      let u ← peek
      if u.kind != .documentStart then
        throw ⟨"did not find expected <document start>", u.start, none, 0⟩
      modify fun p => { p with handles := withDefaultHandles handles }
      skip; emit .documentStart t.start
      let v ← peek
      if isDirective v || v.kind == .documentStart || v.kind == .documentEnd ||
          v.kind == .streamEnd then
        emitEmpty v.start
      else node true false fuel
      closeDocument
      documents false fuel

/-- The events of a whole token stream. -/
def stream : Nat → ParseM Unit
  | 0 => throw exhausted
  | fuel + 1 => do
    let t ← peek
    skip
    emit .streamStart t.start
    documents true fuel

end Parsing

/-- The events of a scanned text and the error that stopped them, if any. -/
def Scanned.events (s : Scanned) : Array Event × Option SyntaxError :=
  match (Parsing.stream (2 * s.tokens.size + 4)).run { source := s } with
  | .ok _ p => (p.events, none)
  | .error e p => (p.events, some e)

/-- The first document of a stream: its events, whether the stream held no document at all,
and the error met before its end. -/
structure Document where
  events : Array Event
  empty : Bool
  failure : Option SyntaxError
  deriving Inhabited

def EventKind.endsDocument (k : EventKind) : Bool :=
  k == .documentEnd || k == .streamEnd

/-- The events before the first alias whose anchor no node before it carries, and that
alias's place. -/
def unknownAlias (events : List Event) : List Event × Option Mark :=
  go events []
where
  /-- Walks the events with the anchors seen so far. -/
  go : List Event → List String → List Event × Option Mark
    | [], _ => ([], none)
    | e :: rest, seen =>
      match e.kind with
      | .reference name =>
        if seen.contains name then
          let (kept, bad) := go rest seen
          (e :: kept, bad)
        else ([], some e.mark)
      | _ =>
        let (kept, bad) := go rest (match e.anchor with
          | some a => a :: seen
          | none => seen)
        (e :: kept, bad)

/-- The anchors of the events as `(place, name, slot)`, in order. Anchors are kept in numbered
slots: each takes the slot numbered by how many distinct names were anchored before it. A name
anchored again thus takes the slot that the next new name also takes, and the later anchor
holds the slot in the end. -/
def anchorSlots (events : List Event) : List (Nat × String × Nat) :=
  go events 0 []
where
  /-- Walks the events from place `i` with the distinct names anchored so far. -/
  go : List Event → Nat → List String → List (Nat × String × Nat)
    | [], _, _ => []
    | e :: rest, i, names =>
      match e.anchor with
      | some a => (i, a, names.length) :: go rest (i + 1) (if names.contains a then names else a :: names)
      | none => go rest (i + 1) names

/-- The place of the node an alias of `name` at place `pos` reads: the slot the name was last
anchored into before the alias, and the last anchor of the whole document in that slot. -/
def aliasTarget (events : List Event) (name : String) (pos : Nat) : Option Nat :=
  let slots := anchorSlots events
  match (slots.filter fun (i, n, _) => i < pos && n == name).getLast? with
  | some (_, _, slot) => ((slots.filter fun (_, _, k) => k == slot).getLast?).map (·.1)
  | none => none

/-- The first document of the events, and whether anything but the end of the stream follows
it: a second document, or an error after the first. An alias to an unknown anchor ends the
document with an error there. -/
def firstDocument (events : Array Event) (failure : Option SyntaxError) : Document × Bool :=
  let body := events.toList.dropWhile fun e =>
    e.kind == .streamStart || e.kind == .documentStart
  let inside := body.takeWhile fun e => !e.kind.endsDocument
  match unknownAlias inside with
  | (kept, some mark) => (⟨kept.toArray, false, some ⟨"unknown anchor", mark, none, 0⟩⟩, false)
  | (_, none) =>
    let content := inside.toArray
    match body.dropWhile fun e => !e.kind.endsDocument with
    | [] => (⟨content, false, failure⟩, false)
    | e :: rest =>
      if e.kind == .streamEnd then (⟨content, content.isEmpty, none⟩, false)
      else
        let more := match rest with
          | [] => failure.isSome
          | f :: _ => f.kind != .streamEnd
        (⟨content, false, none⟩, more)

def readDocument (text : String) : Document × Bool :=
  let (events, failure) := (scanTokens text).events
  firstDocument events failure

end Jianpu.Yaml
