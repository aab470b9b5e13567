import Jianpu.Content.Chunk
import Jianpu.Music.Props
import Jianpu.Music.Render
import Jianpu.Text.Digit
import Jianpu.Issue
/-!
# Property items

A word of a properties line is one of:

* a transposition: a sign and digits, perhaps with a fraction (`+2`, `-1.5`), held to at
  most 88 semitones either way with a warning;
* a key: `1=` and a tuning;
* a tempo: `qpm=`, `spm=` or `hpm=` and its value;
* a time signature: a word starting with digits, `/` and digits;
* a reduction: `r=` and a positive fraction;
* anything else, kept as an extra.

A word that starts like a key, tempo, time signature or reduction but is malformed is
dropped with a warning. Digits here are those of any script, as patterns match them; a number
that then cannot be read is dropped without one.

* `PropItem.parse` — one word.
* `readMusicPatch` — a properties line as a patch.
* `readRenderProps` — a render properties line, `key=value` words, a quoted value taken
  without its quotes.
-/

namespace Jianpu

/-- One word of a properties line. -/
inductive PropItem where
  | transpose (v : Float)
  | base (t : Tuning)
  | tempo (t : Tempo)
  | meter (m : Meter)
  | reduction (r : Frac)
  | extra (text : String)
  deriving Inhabited

namespace PropItem

def isDigitRun (cs : List Char) : Bool := !cs.isEmpty && cs.all Text.isDecimalDigit

/-- A sign, digits, and perhaps a point and more digits. -/
def looksLikeTranspose : List Char → Bool
  | c :: rest =>
    (c = '+' || c = '-') &&
      match Text.splitOnceChars rest '.' with
      | none => isDigitRun rest
      | some (a, b) => isDigitRun a && isDigitRun b
  | [] => false

/-- Digits, `/`, digits, at the start. -/
def looksLikeMeter (cs : List Char) : Bool :=
  let (a, rest) := (cs.takeWhile Text.isDecimalDigit, cs.dropWhile Text.isDecimalDigit)
  match rest with
  | '/' :: b => !a.isEmpty && !b.isEmpty && Text.isDecimalDigit (b.headD ' ')
  | _ => false

/-- A transposition held to 88 semitones either way, with a warning when it is not already
within. -/
def clampTranspose (line index : Nat) (v : Float) : Compiling Float := do
  if v.abs ≤ 88.0 then return v
  let clamped := if v < -88.0 then -88.0 else if v > 88.0 then 88.0 else v
  warn line index (.transposeRange v clamped)
  return clamped

/-- Reads one word of a properties line; warnings go to `line` at `index`. -/
def parse (line index : Nat) (text : String) : Compiling (Option PropItem) := do
  let cs := text.toList
  if looksLikeTranspose cs then
    match Decimal.readFloat (String.ofList (cs.dropWhile (· = '+'))) with
    | some v => return some (.transpose (← clampTranspose line index v))
    | none => return none
  if let some name := Text.dropPrefix text "1=" then
    match Tuning.parse name with
    | some t => return some (.base t)
    | none =>
      warn line index (.badTuning text)
      return none
  if (cs.take 4 = ['q', 'p', 'm', '='] || cs.take 4 = ['s', 'p', 'm', '='] ||
      cs.take 4 = ['h', 'p', 'm', '=']) then
    match Tempo.parse text with
    | some t => return some (.tempo t)
    | none =>
      warn line index (.badQpm text)
      return none
  if looksLikeMeter cs then
    match Meter.parse text with
    | some (m, problem) =>
      if let some (sum, value) := problem then warn line index (.unequalBeats sum value)
      return some (.meter m)
    | none =>
      warn line index (.badBeats text)
      return none
  if let some ratio := Text.dropPrefix text "r=" then
    match (Frac.parse ratio).filter fun r => r.isFinite && !r.isZero && !r.isNegative with
    | some r => return some (.reduction r)
    | none =>
      warn line index (.badReduction text)
      return none
  return some (.extra text)

/-- The item as a tagged record; a tempo also gives its quarters per minute, a time
signature its written form, beat and section length. -/
def toJson : PropItem → Json
  | transpose v => .obj [("type", .str "transpose"), ("value", .num v)]
  | base t => .obj [("type", .str "base"), ("value", t.toJson)]
  | tempo t => .obj [("type", .str "qpm"), ("value", t.toJson),
      ("quartersPerMinute", .num t.quartersPerMinute)]
  | meter m => .obj [("type", .str "beats"), ("value", m.toJson), ("display", .str m.display),
      ("unit", .str m.unit.toString), ("sectionQuarters", .str m.sectionQuarters.toString)]
  | reduction r => .obj [("type", .str "reduction"), ("value", .str r.toString)]
  | extra t => .obj [("type", .str "extra"), ("value", .str t)]

end PropItem

/-- A properties line as a patch, word by word, later words winning. -/
def readMusicPatch (line : Nat) (cs : List Chunk) : Compiling MusicPatch :=
  cs.foldlM (fun patch c => do
    match ← PropItem.parse line c.span.start c.text with
    | some (.transpose v) => pure { patch with transpose := some v }
    | some (.base b) => pure { patch with base := some b }
    | some (.tempo t) => pure { patch with tempo := some t }
    | some (.meter m) => pure { patch with meter := some m }
    | some (.reduction r) => pure { patch with reduction := some r }
    | some (.extra e) => pure { patch with extras := patch.extras ++ [e] }
    | none => pure patch) {}

/-- A render properties line: `key=value` words, a value that is one whole string literal
taken as its content. -/
def readRenderProps (line : Nat) (src : LineText) (cs : List Chunk) : Compiling RenderProps :=
  cs.foldlM (fun props c => do
    match Text.splitOnce c.text '=' with
    | none =>
      warn line c.span.start (.renderBadFormat c.text)
      pure props
    | some (key, raw) =>
      let quoted := (c.items.getLast?.bind Piece.asToken).filter fun t =>
        t.kind == .stringLiteral && src.slice t.span == raw
      let value := (quoted.map (·.content)).getD raw
      match props.set key value with
      | .ok p => pure p
      | .error .unknownKey =>
        warn line c.span.start (.renderUnknownKey key)
        pure props
      | .error .badValue =>
        warn line c.span.start (.renderUnknownValue key value)
        pure props) {}

end Jianpu
