import Jianpu.Yaml.Token
/-!
# YAML scalars

A scalar is written plain, in single or double quotes, or as a block after `|` (literal) or
`>` (folded). Its text is what the lines say once the line breaks are folded:

* a plain or quoted scalar folds a single line break between two lines into a space and keeps
  the breaks of empty lines; blanks around a break are dropped;
* single quotes write a quote twice; double quotes take backslash escapes, and a backslash at
  the end of a line joins it to the next without a space;
* a literal block keeps its line breaks; a folded block joins lines with a space unless a line
  starts with a blank or empty lines stand between them. The indentation of a block is given
  by its header or by its first line, and the header says whether the final line breaks are
  dropped (`-`), kept (`+`) or kept but one.

* `Folding` — the text of a plain or quoted scalar with the blanks and breaks met.
* `fetchPlain`, `fetchQuoted`, `fetchBlockScalar` — scan a scalar into a token.
-/

namespace Jianpu.Yaml

/-- The text of a scalar being scanned, with the blanks and line breaks met since its last
character: blanks on the line, the first line break, and the breaks after it. -/
structure Folding where
  text : String := ""
  blanks : String := ""
  leadingBreak : String := ""
  trailingBreaks : String := ""
  leadingBlanks : Bool := false

namespace Folding

/-- Puts the blanks and breaks met into the text: a single line feed folds to a space, more
line feeds leave all but the first, other breaks stay; blanks on one line stay. -/
def join (f : Folding) : Folding :=
  if f.leadingBlanks then
    let text :=
      if f.leadingBreak.startsWith "\n" then
        f.text ++ (if f.trailingBreaks.isEmpty then " " else f.trailingBreaks)
      else f.text ++ f.leadingBreak ++ f.trailingBreaks
    { f with text, leadingBreak := "", trailingBreaks := "", leadingBlanks := false }
  else { f with text := f.text ++ f.blanks, blanks := "" }

def takeBreak (f : Folding) (b : String) : Folding :=
  if f.leadingBlanks then { f with trailingBreaks := f.trailingBreaks ++ b }
  else { f with blanks := "", leadingBreak := b, leadingBlanks := true }

end Folding

def indicators : List Char :=
  ['-', '?', ':', ',', '[', ']', '{', '}', '#', '&', '*', '!', '|', '>', '\'', '"', '%', '@',
    Char.ofNat 96]

def flowIndicators : List Char := [',', '[', ']', '{', '}']

/-- The blanks and line breaks after a plain scalar's characters. A tab in the indentation
of a continuation line is an error. -/
def plainBlanks (start : Mark) (indent : Int) : Nat → Scan → Folding → Except SyntaxError (Scan × Folding)
  | 0, s, f => .ok (s, f)
  | fuel + 1, s, f =>
    match s.rest.head? with
    | some c =>
      if isBlank c then
        if f.leadingBlanks && (s.mark.column : Int) < indent && c == '\t' then
          .error ⟨"found a tab character that violates indentation", s.mark,
            some ("while scanning a plain scalar", start), 0⟩
        else
          let f := if f.leadingBlanks then f else { f with blanks := f.blanks.push c }
          plainBlanks start indent fuel s.advance f
      else if isBreak c then
        let (s, b) := s.readBreak
        plainBlanks start indent fuel s (f.takeBreak b)
      else .ok (s, f)
    | none => .ok (s, f)

/-- The characters of one line of a plain scalar, up to a blank, a `:` before a blank, or in
flow content a flow indicator. In flow content a `:` before a flow indicator or a `?` is an
error: it could be neither part of the scalar nor a value indicator after it. -/
def plainRun (start : Mark) : Nat → Scan → Folding → Mark → Except SyntaxError (Scan × Folding × Mark)
  | 0, s, f, stop => .ok (s, f, stop)
  | fuel + 1, s, f, stop =>
    match s.rest with
    | c :: _ =>
      if s.flowLevel > 0 && c == ':' &&
          ((s.peekAt 1).map fun d => d == '?' || flowIndicators.contains d).getD false then
        .error ⟨"found unexpected ':'", s.mark, some ("while scanning a plain scalar", start), 0⟩
      else if isBlank c || isBreak c || (c == ':' && isBlankOrEnd (s.peekAt 1)) ||
          (s.flowLevel > 0 && flowIndicators.contains c) then .ok (s, f, stop)
      else
        let f := if f.leadingBlanks || !f.blanks.isEmpty then f.join else f
        let s := s.advance
        plainRun start fuel s { f with text := f.text.push c } s.mark
    | [] => .ok (s, f, stop)

/-- The lines of a plain scalar: a line ends at a comment or a document marker, and a line
less indented than the block ends the scalar. -/
def plainLines (start : Mark) (indent : Int) : Nat → Scan → Folding → Mark →
    Except SyntaxError (Scan × Folding × Mark)
  | 0, s, f, stop => .ok (s, f, stop)
  | fuel + 1, s, f, stop =>
    if s.atDocumentMarker "---" || s.atDocumentMarker "..." || s.rest.head? == some '#' then
      .ok (s, f, stop)
    else
      match plainRun start s.rest.length s f stop with
      | .error e => .error e
      | .ok (s, f, stop) =>
        match s.rest.head? with
        | some c =>
          if isBlank c || isBreak c then
            match plainBlanks start indent s.rest.length s f with
            | .error e => .error e
            | .ok (s, f) =>
              if s.flowLevel == 0 && (s.mark.column : Int) < indent then .ok (s, f, stop)
              else plainLines start indent fuel s f stop
          else .ok (s, f, stop)
        | none => .ok (s, f, stop)

/-- Scans a plain scalar. A line break inside it lets a simple key start after it. -/
def fetchPlain : ScanM Unit := do
  saveKey
  modify fun s => { s with keyAllowed := false }
  let s ← get
  let start := s.mark
  match plainLines start (s.indent + 1) (s.rest.length + 1) s {} start with
  | .error e => throw e
  | .ok (s, f, stop) =>
    let s := { s with tokens := s.tokens.push ⟨.scalar f.text .plain, start, stop⟩ }
    modify fun _ => if f.leadingBlanks then { s with keyAllowed := true } else s

def hexValue (cs : List Char) : Option Nat :=
  cs.foldlM (fun acc c =>
    if '0' ≤ c && c ≤ '9' then some (acc * 16 + (c.toNat - 48))
    else if 'a' ≤ c && c ≤ 'f' then some (acc * 16 + (c.toNat - 87))
    else if 'A' ≤ c && c ≤ 'F' then some (acc * 16 + (c.toNat - 55))
    else none) 0

/-- The character a one-letter escape stands for. -/
def simpleEscape (c : Char) : Option Char :=
  match c with
  | '0' => some (Char.ofNat 0) | 'a' => some (Char.ofNat 7) | 'b' => some (Char.ofNat 8)
  | 't' => some '\t' | '\t' => some '\t' | 'n' => some '\n' | 'v' => some (Char.ofNat 11)
  | 'f' => some (Char.ofNat 12) | 'r' => some '\r' | 'e' => some (Char.ofNat 27)
  | ' ' => some ' ' | '"' => some '"' | '/' => some '/' | '\'' => some '\''
  | '\\' => some '\\' | 'N' => some (Char.ofNat 0x85) | '_' => some (Char.ofNat 0xA0)
  | 'L' => some (Char.ofNat 0x2028) | 'P' => some (Char.ofNat 0x2029)
  | _ => none

def hexEscapeWidth (c : Char) : Option Nat :=
  match c with
  | 'x' => some 2 | 'u' => some 4 | 'U' => some 8 | _ => none

/-- Reads the escape at a backslash of a double-quoted scalar. -/
def readEscape (start : Mark) (s : Scan) : Except SyntaxError (Scan × Char) :=
  let quoted := some ("while parsing a quoted scalar", start)
  match s.peekAt 1 with
  | none => .error ⟨"found unknown escape character", s.mark, quoted, 0⟩
  | some e =>
    match simpleEscape e with
    | some c => .ok (s.advance.advance, c)
    | none =>
      match hexEscapeWidth e with
      | none => .error ⟨"found unknown escape character", s.mark, quoted, 0⟩
      | some n =>
        let s := s.advance.advance
        let digits := s.rest.take n
        match (if digits.length == n then hexValue digits else none) with
        | none => .error ⟨"did not find expected hexadecimal number", s.mark, quoted, 0⟩
        | some v =>
          if (0xD800 ≤ v && v ≤ 0xDFFF) || v > 0x10FFFF then
            .error ⟨"found invalid Unicode character escape code", s.mark, quoted, 0⟩
          else .ok ((List.range n).foldl (fun s _ => s.advance) s, Char.ofNat v)

/-- The characters of one line of a quoted scalar, up to a blank or the closing quote. In
single quotes a doubled quote is one quote; in double quotes a backslash escapes, and one
before a line break joins the lines. -/
def quotedRun (single : Bool) (start : Mark) : Nat → Scan → Folding →
    Except SyntaxError (Scan × Folding)
  | 0, s, f => .ok (s, f)
  | fuel + 1, s, f =>
    match s.rest with
    | c :: d :: _ =>
      if isBlank c || isBreak c then .ok (s, f)
      else if single && c == '\'' && d == '\'' then
        quotedRun single start fuel s.advance.advance { f with text := f.text.push '\'' }
      else if c == (if single then '\'' else '"') then .ok (s, f)
      else if !single && c == '\\' && isBreak d then
        .ok (s.advance.readBreak.1, { f with leadingBlanks := true })
      else if !single && c == '\\' then
        match readEscape start s with
        | .error e => .error e
        | .ok (s, ch) => quotedRun single start fuel s { f with text := f.text.push ch }
      else quotedRun single start fuel s.advance { f with text := f.text.push c }
    | [c] =>
      if isBlank c || isBreak c || c == (if single then '\'' else '"') then .ok (s, f)
      else if !single && c == '\\' then
        match readEscape start s with
        | .error e => .error e
        | .ok (s, ch) => quotedRun single start fuel s { f with text := f.text.push ch }
      else quotedRun single start fuel s.advance { f with text := f.text.push c }
    | [] => .ok (s, f)

/-- The blanks and line breaks inside a quoted scalar. -/
def quotedBlanks : Nat → Scan → Folding → Scan × Folding
  | 0, s, f => (s, f)
  | fuel + 1, s, f =>
    match s.rest.head? with
    | some c =>
      if isBlank c then
        let f := if f.leadingBlanks then f else { f with blanks := f.blanks.push c }
        quotedBlanks fuel s.advance f
      else if isBreak c then
        let (s, b) := s.readBreak
        quotedBlanks fuel s (f.takeBreak b)
      else (s, f)
    | none => (s, f)

/-- The lines of a quoted scalar up to its closing quote. The end of the text or a document
marker inside it is an error. -/
def quotedLines (single : Bool) (start : Mark) : Nat → Scan → Folding →
    Except SyntaxError (Scan × Folding)
  | 0, s, f => .ok (s, f)
  | fuel + 1, s, f =>
    let quoted := some ("while scanning a quoted scalar", start)
    if s.atDocumentMarker "---" || s.atDocumentMarker "..." then
      .error ⟨"found unexpected document indicator", s.mark, quoted, 0⟩
    else if s.rest.isEmpty then .error ⟨"found unexpected end of stream", s.mark, quoted, 0⟩
    else
      match quotedRun single start (s.rest.length + 1) s { f with leadingBlanks := false } with
      | .error e => .error e
      | .ok (s, f) =>
        if s.rest.head? == some (if single then '\'' else '"') then .ok (s.advance, f)
        else
          let (s, f) := quotedBlanks s.rest.length s f
          quotedLines single start fuel s f.join

/-- Scans a quoted scalar. -/
def fetchQuoted (single : Bool) : ScanM Unit := do
  saveKey
  modify fun s => { s with keyAllowed := false }
  let s ← get
  let start := s.mark
  match quotedLines single start (s.rest.length + 1) s.advance {} with
  | .error e => throw e
  | .ok (s, f) => modify fun _ => { s with tokens := s.tokens.push ⟨.scalar f.text (if single then .singleQuoted else .doubleQuoted), start, s.mark⟩ }

/-- A block scalar's header after `|` or `>`: how its final line breaks are kept (`-1` none,
`0` one, `1` all) and its indentation indicator (`0` when left out), written in either order,
then blanks, a comment and the end of the line. -/
def blockHeader (start : Mark) (s : Scan) : Except SyntaxError (Scan × Int × Nat) := do
  let context := some ("while scanning a block scalar", start)
  let chompOf (c : Char) : Option Int :=
    if c == '+' then some 1 else if c == '-' then some (-1) else none
  let zero (s : Scan) : SyntaxError :=
    ⟨"found an indentation indicator equal to 0", s.mark, context, 0⟩
  let (s, chomping, increment) ← match s.rest with
    | c :: _ =>
      match chompOf c with
      | some k =>
        let s := s.advance
        match s.rest.head? with
        | some d =>
          if d == '0' then throw (zero s)
          else if d.isDigit then pure (s.advance, k, d.toNat - 48)
          else pure (s, k, 0)
        | none => pure (s, k, 0)
      | none =>
        if c == '0' then throw (zero s)
        else if c.isDigit then
          let s := s.advance
          match s.rest.head? >>= chompOf with
          | some k => pure (s.advance, k, c.toNat - 48)
          | none => pure (s, 0, c.toNat - 48)
        else pure (s, 0, 0)
    | [] => pure (s, 0, 0)
  let s := s.skipWhile isBlank
  let s := if s.rest.head? == some '#' then s.skipWhile (!isBreak ·) else s
  match s.rest.head? with
  | none => pure (s, chomping, increment)
  | some c =>
    if isBreak c then pure (s.readBreak.1, chomping, increment)
    else throw ⟨"did not find expected comment or line break", s.mark, context, 0⟩

/-- Skips the spaces of a block scalar's indentation: those before column `indent`, or all of
them while the indentation is not known (`0`). -/
def indentSpaces (indent : Nat) : Nat → Scan → Scan
  | 0, s => s
  | fuel + 1, s =>
    if (indent == 0 || s.mark.column < indent) && s.rest.head? == some ' ' then
      indentSpaces indent fuel s.advance
    else s

/-- The indentation and the empty lines before a block scalar's next line: the line breaks of
the empty lines, the deepest column reached, and the place after the last break. A tab where
the indentation should be is an error. -/
def blockBreaks (start : Mark) (indent : Nat) : Nat → Scan → String → Nat → Mark →
    Except SyntaxError (Scan × String × Nat × Mark)
  | 0, s, breaks, deepest, stop => .ok (s, breaks, deepest, stop)
  | fuel + 1, s, breaks, deepest, stop =>
    let s := indentSpaces indent s.rest.length s
    let deepest := max deepest s.mark.column
    match s.rest.head? with
    | some c =>
      if (indent == 0 || s.mark.column < indent) && c == '\t' then
        .error ⟨"found a tab character where an indentation space is expected", s.mark,
          some ("while scanning a block scalar", start), 0⟩
      else if isBreak c then
        let (s, b) := s.readBreak
        blockBreaks start indent fuel s (breaks ++ b) deepest s.mark
      else .ok (s, breaks, deepest, stop)
    | none => .ok (s, breaks, deepest, stop)

/-- A block scalar being read: its text, the line break after the last line read, the breaks
of the empty lines after that, and whether that line started with a blank. -/
structure BlockText where
  text : String := ""
  leadingBreak : String := ""
  trailingBreaks : String := ""
  leadingBlank : Bool := false

/-- The lines of a block scalar, while they stand at its indentation. A folded scalar joins a
line to the one before with a space, unless either starts with a blank or empty lines stand
between them; a literal one keeps every break. -/
def blockLines (literal : Bool) (start : Mark) (indent : Nat) : Nat → Scan → BlockText → Mark →
    Except SyntaxError (Scan × BlockText × Mark)
  | 0, s, b, stop => .ok (s, b, stop)
  | fuel + 1, s, b, stop =>
    if s.mark.column != indent || s.rest.isEmpty then .ok (s, b, stop)
    else
      let startsBlank := (s.rest.head?.map isBlank).getD false
      let text :=
        if !literal && b.leadingBreak.startsWith "\n" && !b.leadingBlank && !startsBlank then
          if b.trailingBreaks.isEmpty then b.text.push ' ' else b.text
        else b.text ++ b.leadingBreak
      let text := text ++ b.trailingBreaks
      let (s, line) := s.takeRun (!isBreak ·)
      let (s, brk) := s.readBreak
      match blockBreaks start indent (s.rest.length + 1) s "" 0 s.mark with
      | .error e => .error e
      | .ok (s, breaks, _, stop) =>
        blockLines literal start indent fuel s ⟨text ++ line, brk, breaks, startsBlank⟩ stop

/-- Scans a block scalar from its indicator: the header, then the lines. Without an
indentation indicator the indentation is that of the first line that is not empty, at least
one more than the enclosing block's. -/
def blockScalar (literal : Bool) (start : Mark) (s : Scan) :
    Except SyntaxError (Scan × String × Mark) := do
  let (s, chomping, increment) ← blockHeader start s.advance
  let given : Nat :=
    if increment == 0 then 0
    else if s.indent ≥ 0 then s.indent.toNat + increment
    else increment
  let (s, breaks, deepest, stop) ← blockBreaks start given (s.rest.length + 1) s "" 0 s.mark
  let indent := if given != 0 then given else max (max deepest (s.indent + 1).toNat) 1
  let (s, b, stop) ←
    blockLines literal start indent (s.rest.length + 1) s ⟨"", "", breaks, false⟩ stop
  let text := if chomping != -1 then b.text ++ b.leadingBreak else b.text
  let text := if chomping == 1 then text ++ b.trailingBreaks else text
  pure (s, text, stop)

/-- Scans a block scalar. It ends any simple key place, and a simple key may follow it. -/
def fetchBlockScalar (literal : Bool) : ScanM Unit := do
  removeKey
  modify fun s => { s with keyAllowed := true }
  let s ← get
  let start := s.mark
  match blockScalar literal start s with
  | .error e => throw e
  | .ok (s, text, stop) => set { s with tokens := s.tokens.push ⟨.scalar text (if literal then .literal else .folded), start, stop⟩ }

end Jianpu.Yaml
