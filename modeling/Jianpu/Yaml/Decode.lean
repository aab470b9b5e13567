import Jianpu.Yaml.Event
import Jianpu.Decimal.Read
import Jianpu.Decimal.Text
import Jianpu.Text.Quoted
/-!
# Reading typed values from YAML

A settings record is read from the events of the first document. Plain scalars stand for
values of their own: empty, `~` and `null` for nothing, `true` and `false` (also
capitalised or upper-case) for booleans, integers with an optional sign and an optional
`0x`, `0o` or `0b` radix, and decimal numbers with `.inf` and `.nan`. A quoted scalar is
always text.

An unsigned number accepts a plain integer without a `-`, a decimal number a plain number,
and text any scalar, whatever their tags; a literal block scalar tagged with the core
schema's `int` or `float` is read as a plain one would be. A value of the wrong kind is reported
with what it is and what was expected, at its place, under the path of keys that leads to it.
What a scalar is, for the report, follows its tag when the tag is one of the core schema's
`bool`, `int`, `float` and `null` (text that does not fit the tag is reported as such), or a
local tag `!…` on a plain scalar; a scalar with any other tag is text.

An alias is read as the node its anchor slot holds (`aliasTarget`), under the alias's own path.

* `unsignedOf`, `signedOf`, `floatOf` — the numbers plain scalars stand for.
* `Found` — what a value turned out to be, for reports.
* `DecodeError` — the failures and their reports.
* `Decoder` — reading values, mappings and records from the events.
-/

namespace Jianpu.Yaml

/-- A digit's value in a radix up to 36. -/
def digitIn (radix : Nat) (c : Char) : Option Nat :=
  let v :=
    if '0' ≤ c && c ≤ '9' then c.toNat - 48
    else if 'a' ≤ c && c ≤ 'z' then c.toNat - 87
    else if 'A' ≤ c && c ≤ 'Z' then c.toNat - 55
    else 36
  if v < radix then some v else none

def digitsValue (radix : Nat) (cs : List Char) : Option Nat :=
  if cs.isEmpty then none
  else cs.foldlM (fun acc c => (digitIn radix c).map (acc * radix + ·)) 0

/-- An integer as written in a radix: an optional `+`, or `-` when `signed`, then digits.
It must lie in `[lo, hi)`. -/
def radixInt (radix : Nat) (signed : Bool) (lo hi : Int) (cs : List Char) : Option Int :=
  let v : Option Int := match cs with
    | ['+'] | ['-'] => none
    | '+' :: r => (digitsValue radix r).map Int.ofNat
    | '-' :: r => if signed then (digitsValue radix r).map fun n => -(n : Int) else none
    | r => (digitsValue radix r).map Int.ofNat
  v.filter fun n => lo ≤ n && n < hi

/-- Digits with a leading zero, which YAML reads as text rather than a number. -/
def zeroLed (cs : List Char) : Bool :=
  let cs := match cs with
    | '+' :: r | '-' :: r => r
    | r => r
  match cs with
  | '0' :: r => !r.isEmpty && r.all Char.isDigit
  | _ => false

/-- A non-negative integer below `bound`: an optional `+`, then `0x`, `0o` or `0b` digits or
decimal digits without a leading zero. -/
def unsignedOf (bound : Nat) (cs : List Char) : Option Nat :=
  let body := match cs with
    | '+' :: r => r
    | r => r
  let prefixed (p : List Char) (radix : Nat) : Option Nat :=
    if p.isPrefixOf body then
      let r := body.drop 2
      if r.head? == some '+' || r.head? == some '-' then none
      else (radixInt radix false 0 bound r).map Int.toNat
    else none
  match prefixed ['0', 'x'] 16 with
  | some n => some n
  | none => match prefixed ['0', 'o'] 8 with
    | some n => some n
    | none => match prefixed ['0', 'b'] 2 with
      | some n => some n
      | none =>
        if body.head? == some '+' || body.head? == some '-' || zeroLed cs then none
        else (radixInt 10 false 0 bound body).map Int.toNat

/-- A negative or other signed integer in `[-bound, bound)`: `-0x`, `-0o` or `-0b` digits, or
signed decimal digits without a leading zero. -/
def signedOf (bound : Nat) (cs : List Char) : Option Int :=
  let lo := -(bound : Int)
  let prefixed (p : List Char) (radix : Nat) : Option Int :=
    if p.isPrefixOf cs then radixInt radix true lo bound ('-' :: cs.drop 3) else none
  match prefixed ['-', '0', 'x'] 16 with
  | some n => some n
  | none => match prefixed ['-', '0', 'o'] 8 with
    | some n => some n
    | none => match prefixed ['-', '0', 'b'] 2 with
      | some n => some n
      | none => if zeroLed cs then none else radixInt 10 true lo bound cs

/-- The number a plain scalar stands for: an optional `+` once, the words `.inf`, `-.inf` and
`.nan` in three spellings each, or a finite decimal number. -/
def floatOf (text : String) : Option Float :=
  let cs := text.toList
  let unsigned := match cs with
    | '+' :: r => if r.head? == some '+' || r.head? == some '-' then none else some r
    | r => some r
  match unsigned with
  | none => none
  | some u =>
    let us := String.ofList u
    if us == ".inf" || us == ".Inf" || us == ".INF" then some (1.0 / 0.0)
    else if text == "-.inf" || text == "-.Inf" || text == "-.INF" then some (-(1.0 / 0.0))
    else if text == ".nan" || text == ".NaN" || text == ".NAN" then some (0.0 / 0.0)
    else
      match Decimal.readFloat us with
      | some x => if x.isFinite then some x else none
      | none => none

/-- What a scalar or collection turned out to be, for a report. -/
inductive Found where
  | nothing
  | boolean (b : Bool)
  | unsigned (n : Nat)
  | signed (n : Int)
  | wideUnsigned (n : Nat)
  | wideSigned (n : Int)
  | float (x : Float)
  | text (s : String)
  | sequence
  | mapping
  | misfit (text kind : String)

def floatReport (x : Float) : String :=
  let t := Decimal.plainText x
  if x.isFinite && !t.contains '.' then t ++ ".0" else t

def ticked (s : String) : String :=
  String.singleton (Char.ofNat 96) ++ s ++ String.singleton (Char.ofNat 96)

def quotedText (s : String) : String :=
  "string " ++ Text.quoted s

/-- What a value is, as a report says it. -/
def Found.describe : Found → String
  | .misfit t _ => quotedText t
  | .nothing => "unit value"
  | .boolean b => "boolean " ++ ticked (toString b)
  | .unsigned n => "integer " ++ ticked (toString n)
  | .signed n => "integer " ++ ticked (toString n)
  | .wideUnsigned n => "integer " ++ ticked (toString n) ++ " as u128"
  | .wideSigned n => "integer " ++ ticked (toString n) ++ " as i128"
  | .float x => "floating point " ++ ticked (floatReport x)
  | .text s => quotedText s
  | .sequence => "sequence"
  | .mapping => "map"

def isNullWord (text : String) : Bool :=
  text == "~" || text == "null" || text == "Null" || text == "NULL"

/-- The boolean words, in three spellings each. -/
def boolOf (text : String) : Option Bool :=
  if text == "true" || text == "True" || text == "TRUE" then some true
  else if text == "false" || text == "False" || text == "FALSE" then some false
  else none

/-- The integer a text stands for: unsigned below `2^64`, negative from `-2^63`, then the same
at 128 bits. -/
def intFound (text : String) : Option Found :=
  let cs := text.toList
  match unsignedOf (Nat.pow 2 64) cs with
  | some n => some (.unsigned n)
  | none => match signedOf (Nat.pow 2 63) cs with
    | some n => some (.signed n)
    | none => match unsignedOf (Nat.pow 2 128) cs with
      | some n => some (.wideUnsigned n)
      | none => (signedOf (Nat.pow 2 127) cs).map .wideSigned

/-- What a plain scalar stands for. -/
def plainFound (text : String) : Found :=
  if text.isEmpty || isNullWord text then .nothing
  else match boolOf text with
    | some b => .boolean b
    | none => match intFound text with
      | some f => f
      | none =>
        match (if zeroLed text.toList then none else floatOf text) with
        | some x => .float x
        | none => .text text

def coreTag (name : String) : String := "tag:yaml.org,2002:" ++ name

/-- What a scalar with a tag stands for. -/
def taggedFound (tag text : String) (plain : Bool) : Found :=
  if tag == coreTag "bool" then
    match boolOf text with
    | some b => .boolean b
    | none => .misfit text "a boolean"
  else if tag == coreTag "int" then (intFound text).getD (.misfit text "an integer")
  else if tag == coreTag "float" then
    match floatOf text with
    | some x => .float x
    | none => .misfit text "a float"
  else if tag == coreTag "null" then
    if isNullWord text then .nothing else .misfit text "null"
  else if tag.startsWith "!" && plain then plainFound text
  else .text text

/-- What an event's value is. -/
def Event.found (e : Event) : Found :=
  match e.kind with
  | .scalar text style =>
    match e.tag with
    | some tag => taggedFound tag text (style == .plain)
    | none => if style == .plain then plainFound text else .text text
  | .sequenceStart => .sequence
  | .mappingStart => .mapping
  | _ => .nothing

/-- The text of a scalar that may be read as a number of the core schema's kind `name`: a
plain scalar whatever its tag, or a literal block tagged with that kind. -/
def Event.numeral (e : Event) (name : String) : Option String :=
  match e.kind with
  | .scalar text .plain => some text
  | .scalar text .literal => if e.tag == some (coreTag name) then some text else none
  | _ => none

/-- Why reading settings failed. -/
inductive DecodeError where
  | malformed (e : SyntaxError)
  | invalid (text : String) (mark : Mark) (path : String)
  | endOfStream
  | severalDocuments

/-- The report of a failure: an invalid value under its path (left out at the top) and at its
place (left out at the start of the text). -/
def DecodeError.message : DecodeError → String
  | .malformed e => e.message
  | .invalid text mark path =>
    (if path == "." then "" else path ++ ": ") ++ text ++
      (if mark.isOrigin then "" else " at " ++ mark.display)
  | .endOfStream => "EOF while parsing a value"
  | .severalDocuments => "deserializing from YAML containing more than one document is not supported"

def childPath (path key : String) : String :=
  if path == "." then key else path ++ "." ++ key

def unnamedChildPath (path : String) : String :=
  if path == "." then "?" else path ++ ".?"

/-- A value of the wrong kind: of the wrong type, or text that does not fit its tag. -/
def invalidType (e : Event) (expected path : String) : DecodeError :=
  let text := match e.found with
    | .misfit t kind => "invalid value: " ++ quotedText t ++ ", expected " ++ kind
    | f => "invalid type: " ++ f.describe ++ ", expected " ++ expected
  .invalid text e.mark path

abbrev Decoder := StateT Nat (Except DecodeError)

namespace Decoder

variable (doc : Document)

/-- The next event without taking it; past the events, the document's error. -/
def peek : Decoder Event := do
  match doc.events[← get]? with
  | some e => pure e
  | none => throw (match doc.failure with
    | some e => .malformed e
    | none => .endOfStream)

def next : Decoder Event := do
  let e ← peek doc
  modify (· + 1)
  pure e

def anchored (name : String) (pos : Nat) : Option Nat :=
  aliasTarget doc.events.toList name pos

/-- Reads a value with `read`; at an alias the value is read at the node the alias stands
for, and reading goes on after the alias. -/
def deref {α : Type} (read : Decoder α) : Decoder α := do
  let pos ← get
  match (← peek doc).kind with
  | .reference name =>
    match anchored doc name pos with
    | some target =>
      set target
      let v ← read
      set (pos + 1)
      pure v
    | none => read
  | _ => read

/-- Skips a whole value, a collection with everything inside it; an alias is one value. -/
def skipValue : Nat → Nat → Decoder Unit
  | 0, _ => throw .endOfStream
  | fuel + 1, depth => do
    let e ← next doc
    let depth := match e.kind with
      | .sequenceStart | .mappingStart => depth + 1
      | .sequenceEnd | .mappingEnd => depth - 1
      | _ => depth
    if depth == 0 then pure () else skipValue fuel depth

/-- An unsigned number below `2^64`. -/
def unsigned (path : String) : Decoder Nat := deref doc do
  let e ← next doc
  match (e.numeral "int").bind fun t => unsignedOf (Nat.pow 2 64) t.toList with
  | some n => pure n
  | none => throw (invalidType e "usize" path)

def float (path : String) : Decoder Float := deref doc do
  let e ← next doc
  match (e.numeral "float").bind floatOf with
  | some x => pure x
  | none => throw (invalidType e "f64" path)

/-- Text: any scalar. -/
def text (path : String) : Decoder String := deref doc do
  let e ← next doc
  match e.kind with
  | .scalar t _ => pure t
  | _ => throw (invalidType e "a string" path)

/-- The entries of a mapping whose start is taken, each read by `entry` from its key and the
key's path, up to the mapping's end. A key that is not a scalar is refused as `keyKind`; a key
given by an alias is read where its anchor is, and its value's path does not name it. -/
def entries {σ : Type} (path keyKind : String) (entry : σ → String → String → Decoder σ) :
    Nat → σ → Decoder σ
  | 0, st => pure st
  | fuel + 1, st => do
    let e ← peek doc
    match e.kind with
    | .mappingEnd => modify (· + 1); pure st
    | .scalar key _ =>
      modify (· + 1)
      let st ← entry st key (childPath path key)
      entries path keyKind entry fuel st
    | .reference _ =>
      let key ← deref doc do
        let k ← next doc
        match k.kind with
        | .scalar key _ => pure key
        | _ => throw (invalidType k keyKind path)
      let st ← entry st key (unnamedChildPath path)
      entries path keyKind entry fuel st
    | _ => throw (invalidType e keyKind path)

/-- A mapping read entry by entry; an empty plain scalar is an empty mapping. `entry` gets
the place of the mapping too, for reports about the mapping as a whole. -/
def mapping {σ : Type} (path expected keyKind : String) (init : σ)
    (entry : Mark → σ → String → String → Decoder σ) : Decoder σ := deref doc do
  let e ← next doc
  match e.kind with
  | .mappingStart => entries doc path keyKind (entry e.mark) doc.events.size init
  | .scalar "" .plain => pure init
  | _ => throw (invalidType e expected path)

/-- A mapping of text to text, sorted by key; a later key replaces an earlier equal one. -/
def textMap (path : String) : Decoder (List (String × String)) :=
  mapping doc path "a map" "a string" [] fun _ m key keyPath => do
    let v ← text doc keyPath
    pure (insertSorted key v m)
where
  insertSorted (k v : String) : List (String × String) → List (String × String)
    | [] => [(k, v)]
    | (k', v') :: rest =>
      if k == k' then (k, v) :: rest
      else if k < k' then (k, v) :: (k', v') :: rest
      else (k', v') :: insertSorted k v rest

def duplicate (mark : Mark) (path field : String) : DecodeError :=
  .invalid ("duplicate field " ++ ticked field) mark path

/-- Sets a record's field that has not been set; a second setting is an error about the
record, at the record's place. -/
def once {α σ : Type} (mark : Mark) (path field : String) (current : Option α)
    (read : Decoder α) (put : α → σ) : Decoder σ := do
  if current.isSome then throw (duplicate mark path field)
  pure (put (← read))

end Decoder

/-- Reads the first document of a text with `read`; an empty stream is read by `ifEmpty`.
The document's own error and any second document fail after a successful read. -/
def decodeDocument {α : Type} (text : String) (ifEmpty : α) (read : Document → Decoder α) :
    Except DecodeError α :=
  let (doc, more) := readDocument text
  let value : Except DecodeError α :=
    if doc.empty then .ok ifEmpty
    else match (read doc).run 0 with
      | .ok (v, _) => .ok v
      | .error e => .error e
  match value with
  | .error e => .error e
  | .ok v =>
    match doc.failure with
    | some e => .error (.malformed e)
    | none => if more then .error .severalDocuments else .ok v

end Jianpu.Yaml
