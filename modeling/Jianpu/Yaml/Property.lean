import Jianpu.Yaml.Scalar
/-!
# YAML node properties and directives

A node may carry an anchor `&name`, which a later alias `*name` stands for, and a tag: written
out as `!<uri>`, or as a handle and a suffix, `!suffix`, `!!suffix` or `!handle!suffix`. A
tag's characters are those of a URI, where `%` and two hexadecimal digits stand for a byte of
its UTF-8 text. A document may open with directives at the start of a line: `%YAML 1.2` for
the version and `%TAG !handle! expansion` for what a handle stands for.

* `isNameChar` — the characters of anchor names, tag handles and directive names.
* `fetchAnchor`, `fetchTag`, `fetchDirective` — scan them into tokens.
-/

namespace Jianpu.Yaml

/-- A character of an anchor name, a tag handle or a directive name: an ASCII letter or digit,
`_` or `-`. -/
def isNameChar (c : Char) : Bool :=
  ('0' ≤ c && c ≤ '9') || ('A' ≤ c && c ≤ 'Z') || ('a' ≤ c && c ≤ 'z') || c == '_' || c == '-'

/-- A character that may follow an anchor or alias name: a blank, a line break, the end of the
text, or one of `?:,]}%@` and the grave accent. -/
def endsName : Option Char → Bool
  | none => true
  | some c =>
    isBlank c || isBreak c || c == '?' || c == ':' || c == ',' || c == ']' || c == '}' ||
      c == '%' || c == '@' || c == Char.ofNat 96

/-- Scans an anchor `&name`, or an alias `*name` (a reference). Either may start a simple key,
and no simple key may start right after it. -/
def fetchAnchor (reference : Bool) : ScanM Unit := do
  saveKey
  modify fun s => { s with keyAllowed := false }
  let s ← get
  let start := s.mark
  let (s, name) := s.advance.takeRun isNameChar
  if name.isEmpty || !endsName s.rest.head? then
    throw ⟨"did not find expected alphabetic or numeric character", s.mark,
      some (if reference then "while scanning an alias" else "while scanning an anchor", start), 0⟩
  set (s.push (if reference then .reference name else .anchor name) start)

/-- A character of a tag's URI. Where `wide` (a tag written out, or a directive's expansion)
the flow indicators `,`, `[` and `]` count too. -/
def isUriChar (wide : Bool) (c : Char) : Bool :=
  isNameChar c || ";/?:@&=+$.%!~*'()".contains c || (wide && (c == ',' || c == '[' || c == ']'))

/-- The byte that `%` and two hexadecimal digits stand for, and the place after them. -/
def uriEscape (s : Scan) : Option (Scan × Nat) :=
  match s.rest with
  | '%' :: a :: b :: _ => (hexValue [a, b]).map fun v => (s.advance.advance.advance, v)
  | _ => none

/-- The number of bytes of a UTF-8 character with this leading byte, `0` for a byte that
cannot lead. -/
def utf8Width (b : Nat) : Nat :=
  if b % 128 == b then 1
  else if b / 32 == 6 then 2
  else if b / 16 == 14 then 3
  else if b / 8 == 30 then 4
  else 0

/-- The escaped bytes of one UTF-8 character: a leading byte, then `more` bytes of the form
`10xxxxxx`. -/
def uriCharBytes (context : Option (String × Mark)) : Nat → Scan → Option Nat → ByteArray →
    Except SyntaxError (Scan × ByteArray)
  | 0, s, _, acc => .ok (s, acc)
  | fuel + 1, s, more, acc =>
    match uriEscape s with
    | none => .error ⟨"did not find URI escaped octet", s.mark, context, 0⟩
    | some (s', v) =>
      match more with
      | none =>
        let w := utf8Width v
        if w == 0 then .error ⟨"found an incorrect leading UTF-8 octet", s.mark, context, 0⟩
        else if w == 1 then .ok (s', acc.push v.toUInt8)
        else uriCharBytes context fuel s' (some (w - 1)) (acc.push v.toUInt8)
      | some n =>
        if v / 64 != 2 then .error ⟨"found an incorrect trailing UTF-8 octet", s.mark, context, 0⟩
        else if n ≤ 1 then .ok (s', acc.push v.toUInt8)
        else uriCharBytes context fuel s' (some (n - 1)) (acc.push v.toUInt8)

/-- The text of UTF-8 bytes; bytes that do not form UTF-8 are read one character each. -/
def bytesText (b : ByteArray) : String :=
  match String.fromUTF8? b with
  | some t => t
  | none => String.ofList (b.toList.map fun x => Char.ofNat x.toNat)

/-- The URI read, unless it is empty. -/
def uriResult (context : Option (String × Mark)) (s : Scan) (count : Nat) (acc : ByteArray) :
    Except SyntaxError (Scan × String) :=
  if count == 0 then .error ⟨"did not find expected tag URI", s.mark, context, 0⟩
  else .ok (s, bytesText acc)

/-- Reads URI characters and escaped characters; `count` counts those read so far. -/
def uriRun (wide : Bool) (context : Option (String × Mark)) : Nat → Scan → Nat → ByteArray →
    Except SyntaxError (Scan × String)
  | 0, s, count, acc => uriResult context s count acc
  | fuel + 1, s, count, acc =>
    match s.rest.head? with
    | some c =>
      if !isUriChar wide c then uriResult context s count acc
      else if c == '%' then
        match uriCharBytes context 4 s none ByteArray.empty with
        | .error e => .error e
        | .ok (s, bytes) => uriRun wide context fuel s (count + 1) (acc ++ bytes)
      else uriRun wide context fuel s.advance (count + 1) (acc ++ (String.singleton c).toUTF8)
    | none => uriResult context s count acc

/-- The URI of a tag or of a `%TAG` directive's expansion, after `head`: a handle that turned
out to be part of the tag, whose `!` is dropped and whose characters count as read. The URI
may not be empty. -/
def tagUri (wide directive : Bool) (head : String) (start : Mark) (s : Scan) :
    Except SyntaxError (Scan × String) :=
  let context :=
    some (if directive then "while parsing a %TAG directive" else "while parsing a tag", start)
  let initial := (String.ofList (head.toList.drop 1)).toUTF8
  uriRun wide context (s.rest.length + 1) s head.length initial

/-- A tag handle: `!`, word characters, and a closing `!` if one follows. In a `%TAG`
directive the handle must close with `!` unless it is `!` alone. -/
def tagHandle (directive : Bool) (start : Mark) (s : Scan) : Except SyntaxError (Scan × String) :=
  if s.rest.head? != some '!' then
    .error ⟨"did not find expected '!'", s.mark,
      some (if directive then "while scanning a tag directive" else "while scanning a tag", start), 0⟩
  else
    let (s, word) := s.advance.takeRun isNameChar
    if s.rest.head? == some '!' then .ok (s.advance, "!" ++ word ++ "!")
    else if directive && !word.isEmpty then
      .error ⟨"did not find expected '!'", s.mark, some ("while parsing a tag directive", start), 0⟩
    else .ok (s, "!" ++ word)

/-- A tag's handle and suffix. Written out in `<` `>` it has no handle; a handle that does not
close with `!` is the primary handle `!` followed by the rest, and `!` alone is the suffix `!`
without a handle. -/
def tagParts (start : Mark) (s : Scan) : Except SyntaxError (Scan × String × String) := do
  if s.peekAt 1 == some '<' then
    let (s, suffix) ← tagUri true false "" start s.advance.advance
    if s.rest.head? != some '>' then
      throw ⟨"did not find the expected '>'", s.mark, some ("while scanning a tag", start), 0⟩
    pure (s.advance, "", suffix)
  else
    let (s, handle) ← tagHandle false start s
    if handle.length > 1 && handle.endsWith "!" then
      let (s, suffix) ← tagUri false false "" start s
      pure (s, handle, suffix)
    else
      let (s, suffix) ← tagUri false false handle start s
      if suffix.isEmpty then pure (s, "", "!") else pure (s, "!", suffix)

/-- Scans a tag. It may start a simple key, and no simple key may start right after it; a
blank, a line break or the end of the text must follow it, or in flow content a `,`. -/
def fetchTag : ScanM Unit := do
  saveKey
  modify fun s => { s with keyAllowed := false }
  let s ← get
  let start := s.mark
  match tagParts start s with
  | .error e => throw e
  | .ok (s, handle, suffix) =>
    let fits := match s.rest.head? with
      | none => true
      | some c => isBlank c || isBreak c || (s.flowLevel > 0 && c == ',')
    if !fits then
      throw ⟨"did not find expected whitespace or line break", s.mark,
        some ("while scanning a tag", start), 0⟩
    set (s.push (.tag handle suffix) start)

/-- Up to `n` decimal digits. -/
def takeDigits : Nat → Scan → String → Scan × String
  | 0, s, acc => (s, acc)
  | n + 1, s, acc =>
    match s.rest.head? with
    | some c => if c.isDigit then takeDigits n s.advance (acc.push c) else (s, acc)
    | none => (s, acc)

/-- A number of a `%YAML` version: one to nine digits. -/
def versionNumber (start : Mark) (s : Scan) : Except SyntaxError (Scan × Nat) :=
  let context := some ("while scanning a %YAML directive", start)
  let (s, digits) := takeDigits 9 s ""
  if (s.rest.head?.map Char.isDigit).getD false then
    .error ⟨"found extremely long version number", s.mark, context, 0⟩
  else if digits.isEmpty then .error ⟨"did not find expected version number", s.mark, context, 0⟩
  else .ok (s, digits.foldl (fun n c => 10 * n + (c.toNat - 48)) 0)

/-- The value of a `%YAML` directive: `major.minor`. -/
def versionValue (start : Mark) (s : Scan) : Except SyntaxError (Scan × TokenKind) := do
  let (s, major) ← versionNumber start (s.skipWhile isBlank)
  if s.rest.head? != some '.' then
    throw ⟨"did not find expected digit or '.' character", s.mark,
      some ("while scanning a %YAML directive", start), 0⟩
  let (s, minor) ← versionNumber start s.advance
  pure (s, .versionDirective major minor)

/-- The value of a `%TAG` directive: a handle, blanks, and the text it expands to. -/
def tagDirectiveValue (start : Mark) (s : Scan) : Except SyntaxError (Scan × TokenKind) := do
  let context := some ("while scanning a %TAG directive", start)
  let (s, handle) ← tagHandle true start (s.skipWhile isBlank)
  if !((s.rest.head?.map isBlank).getD false) then
    throw ⟨"did not find expected whitespace", s.mark, context, 0⟩
  let (s, expansion) ← tagUri true true "" start (s.skipWhile isBlank)
  if !isBlankOrEnd s.rest.head? then
    throw ⟨"did not find expected whitespace or line break", s.mark, context, 0⟩
  pure (s, .tagDirective handle expansion)

/-- A directive from its `%`: the name, the value, and the rest of the line, which may hold
only blanks and a comment. The token ends after the value. -/
def directive (start : Mark) (s : Scan) : Except SyntaxError (Scan × TokenKind × Mark) := do
  let context := some ("while scanning a directive", start)
  let (s, name) := s.advance.takeRun isNameChar
  if name.isEmpty then throw ⟨"could not find expected directive name", s.mark, context, 0⟩
  if !isBlankOrEnd s.rest.head? then
    throw ⟨"found unexpected non-alphabetical character", s.mark, context, 0⟩
  let (s, kind) ←
    if name == "YAML" then versionValue start s
    else if name == "TAG" then tagDirectiveValue start s
    else throw ⟨"found unknown directive name", s.mark, context, 0⟩
  let stop := s.mark
  let s := s.skipWhile isBlank
  let s := if s.rest.head? == some '#' then s.skipWhile (!isBreak ·) else s
  match s.rest.head? with
  | none => pure (s, kind, stop)
  | some c =>
    if isBreak c then pure (s.readBreak.1, kind, stop)
    else throw ⟨"did not find expected comment or line break", s.mark, context, 0⟩

/-- Scans a directive. Like a document marker it closes every block and ends any simple key
place. -/
def fetchDirective : ScanM Unit := do
  modify (Scan.unroll (-1))
  removeKey
  modify fun s => { s with keyAllowed := false }
  let s ← get
  let start := s.mark
  match directive start s with
  | .error e => throw e
  | .ok (s, kind, stop) => set { s with tokens := s.tokens.push ⟨kind, start, stop⟩ }

end Jianpu.Yaml
