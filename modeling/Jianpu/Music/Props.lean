import Jianpu.Frac
import Jianpu.Json
import Jianpu.Text.Split
import Jianpu.Decimal.Read
/-!
# Musical properties

What a passage is played with: a transposition in semitones, the key note that `1` stands for,
a tempo, a time signature, the reduction that each level of parentheses applies to note
values, and free-form extras.

* `Tuning` — `1=C`, `1=#F`, `1=bB`, or `1=?` for an unknown key.
* `Tempo` — `qpm=`, `spm=` or `hpm=` a positive number of quarters, dotted quarters or halves
  per minute, with an optional label after `/`.
* `Meter` — `n/d`, optionally with swing (`T` eighths, `t` sixteenths) and beat grouping
  (`=a+b+…`); a section of it lasts `4 n / d` quarters.
* `MusicProps` — the properties in effect; `MusicPatch` — properties to put over them.

The readers refuse what cannot be meant: non-positive or overflowing numbers, unknown
letters, malformed grouping.
-/

namespace Jianpu

/-- The key note of the scale degrees. -/
inductive Tuning where
  | named (name : String) (semitones : Int)
  | unknown
  deriving Inhabited, DecidableEq, Repr

namespace Tuning

def letterSemitones : Char → Option Int
  | 'C' => some 0 | 'D' => some 2 | 'E' => some 4 | 'F' => some 5
  | 'G' => some 7 | 'A' => some 9 | 'B' => some 11
  | _ => none

/-- Reads sharps `#` and flats `b` and then exactly one note letter, in either case; `?` is an
unknown key. -/
def parse (text : String) : Option Tuning :=
  if text = "?" then some unknown
  else
    let cs := text.toList
    let marks := cs.takeWhile (fun c => c = '#' || c = 'b')
    let shift : Int := (marks.filter (· = '#')).length - (marks.filter (· = 'b')).length
    match cs.dropWhile (fun c => c = '#' || c = 'b') with
    | [letter] => (letterSemitones letter.toUpper).map fun s => named text (s + shift)
    | _ => none

def semitones : Tuning → Int
  | named _ s => s
  | unknown => 0

def toJson : Tuning → Json
  | named n s => .obj [("type", .str "named"), ("name", .str n), ("semitones", .int s)]
  | unknown => .obj [("type", .str "unknown")]

end Tuning

/-- The note value a tempo counts. -/
inductive TempoUnit where
  | quarter | dottedQuarter | half
  deriving Inhabited, DecidableEq, Repr

namespace TempoUnit

def quarters : TempoUnit → Frac
  | quarter => 1
  | dottedQuarter => Frac.make 3 2
  | half => 2

def name : TempoUnit → String
  | quarter => "quarter" | dottedQuarter => "dottedQuarter" | half => "half"

end TempoUnit

/-- A tempo: a positive number of counted notes per minute and an optional label. -/
structure Tempo where
  value : Float
  unit : TempoUnit
  label : Option String
  deriving Inhabited

namespace Tempo

/-- Reads `qpm=`, `spm=` or `hpm=`, a positive finite number, and perhaps `/label`. -/
def parse (text : String) : Option Tempo := do
  let (key, rest) ← Text.splitOnce text '='
  let unit ← match key with
    | "qpm" => some TempoUnit.quarter
    | "spm" => some TempoUnit.dottedQuarter
    | "hpm" => some TempoUnit.half
    | _ => none
  let (number, label) := match Text.splitOnce rest '/' with
    | some (n, l) => (n, some l)
    | none => (rest, none)
  let value ← Decimal.readFloat number
  if value.isFinite && value > 0 then some ⟨value, unit, label⟩ else none

def quartersPerMinute (t : Tempo) : Float :=
  t.value * t.unit.quarters.toFloat

def same (a b : Tempo) : Bool :=
  a.value == b.value && a.unit == b.unit && a.label == b.label

def toJson (t : Tempo) : Json :=
  .obj [("value", .num t.value), ("symbol", .str t.unit.name), ("text", .opt .str t.label)]

end Tempo

/-- Swing of eighths or sixteenths. -/
inductive Swing where
  | none | eighth | sixteenth
  deriving Inhabited, DecidableEq, Repr

namespace Swing

/-- The span in quarters over which a swung pair of notes is played long-short. -/
def period : Swing → Option Frac
  | none => Option.none
  | eighth => some 1
  | sixteenth => some (Frac.make 1 2)

def name : Swing → String
  | none => "none" | eighth => "eighth" | sixteenth => "sixteenth"

end Swing

/-- A time signature: `value` beats of `1/defaults` notes, a swing and a beat grouping. -/
structure Meter where
  value : Int
  defaults : Int
  swing : Swing
  components : List Int
  deriving Inhabited, DecidableEq

/-- Why a time signature is refused. -/
inductive MeterProblem where
  | invalid
  deriving Inhabited, DecidableEq

namespace Meter

def readComponents (g : String) : Option (List Int) :=
  (Text.splitOn g '+').mapM fun c =>
    (Decimal.readI64 c).filter (· > 0)

/-- Reads `n/d`, an optional swing mark and an optional grouping. The second component holds
the grouping's sum and the beat count when they differ. -/
def parse (text : String) : Option (Meter × Option (Int × Int)) := do
  let (sig, grouping) := match Text.splitOnce text '=' with
    | some (s, g) => (s, some g)
    | none => (text, none)
  let (num, rest) ← Text.splitOnce sig '/'
  let (den, swing) := match Text.dropSuffix rest "T" with
    | some d => (d, Swing.eighth)
    | none => match Text.dropSuffix rest "t" with
      | some d => (d, Swing.sixteenth)
      | none => (rest, Swing.none)
  let value ← Decimal.readI64 num
  let defaults ← Decimal.readI64 den
  if value ≤ 0 || defaults ≤ 0 || !Frac.fitsWord (value * 4) then none
  let components ← match grouping with
    | some g => readComponents g
    | none => some []
  let sum ← components.foldlM (fun acc c =>
    if Frac.fitsWord (acc + c) then some (acc + c) else none) (0 : Int)
  let problem := if !components.isEmpty && sum != value then some (sum, value) else none
  pure (⟨value, defaults, swing, components⟩, problem)

def unit (m : Meter) : Frac := Frac.make 4 m.defaults

def sectionQuarters (m : Meter) : Frac := Frac.ofInt m.value * Frac.make 4 m.defaults

/-- The written form: `n/d`, the swing mark, and `=` with the grouping. -/
def display (m : Meter) : String :=
  let swing := match m.swing with
    | .eighth => "T"
    | .sixteenth => "t"
    | .none => ""
  let grouping := if m.components.isEmpty then ""
    else "=" ++ "+".intercalate (m.components.map toString)
  s!"{m.value}/{m.defaults}" ++ swing ++ grouping

def toJson (m : Meter) : Json :=
  .obj [("value", .int m.value), ("defaults", .int m.defaults), ("swing", .str m.swing.name),
    ("components", .list .int m.components)]

end Meter

/-- The properties in effect for a passage. -/
structure MusicProps where
  transpose : Float := 0.0
  base : Option Tuning := none
  tempo : Option Tempo := none
  meter : Option Meter := none
  reduction : Frac := Frac.make 1 2
  extras : List String := []
  deriving Inhabited

/-- Properties to put over others; an absent field keeps what is there, extras add up. -/
structure MusicPatch where
  transpose : Option Float := none
  base : Option Tuning := none
  tempo : Option Tempo := none
  meter : Option Meter := none
  reduction : Option Frac := none
  extras : List String := []
  deriving Inhabited

namespace MusicPatch

def isEmpty (p : MusicPatch) : Bool :=
  p.transpose.isNone && p.base.isNone && p.tempo.isNone && p.meter.isNone &&
    p.reduction.isNone && p.extras.isEmpty

/-- The patch `q` put over the patch `p`. -/
def merge (p q : MusicPatch) : MusicPatch :=
  { transpose := q.transpose <|> p.transpose, base := q.base <|> p.base,
    tempo := q.tempo <|> p.tempo, meter := q.meter <|> p.meter,
    reduction := q.reduction <|> p.reduction, extras := p.extras ++ q.extras }

def toJson (p : MusicPatch) : Json :=
  .obj [("transpose", .opt .num p.transpose), ("base", .opt Tuning.toJson p.base),
    ("qpm", .opt Tempo.toJson p.tempo), ("beats", .opt Meter.toJson p.meter),
    ("reduction", .opt (.str ·.toString) p.reduction), ("extras", .list .str p.extras)]

end MusicPatch

namespace MusicProps

def unit (p : MusicProps) : Frac := (p.meter.map Meter.unit).getD 1

def apply (p : MusicProps) (q : MusicPatch) : MusicProps :=
  { transpose := q.transpose.getD p.transpose, base := q.base <|> p.base,
    tempo := q.tempo <|> p.tempo, meter := q.meter <|> p.meter,
    reduction := q.reduction.getD p.reduction, extras := p.extras ++ q.extras }

def toJson (p : MusicProps) : Json :=
  .obj [("transpose", .num p.transpose), ("base", .opt Tuning.toJson p.base),
    ("qpm", .opt Tempo.toJson p.tempo), ("beats", .opt Meter.toJson p.meter),
    ("reduction", .str p.reduction.toString), ("extras", .list .str p.extras)]

end MusicProps

end Jianpu
