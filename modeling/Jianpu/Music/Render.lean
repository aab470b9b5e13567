import Jianpu.Json
import Jianpu.Decimal.Read
/-!
# Render properties

Settings for drawing a score — page size, margins, font sizes and faces, spacings, switches
and choices — written `key=value`. Each key has a kind that decides which values it takes:
an integer or a finite number within bounds, a switch (`true`, `yes`, `on`, `1` or `false`,
`no`, `off`, `0`), a non-empty text, or one of a few words.

* `RenderValue` — an integer, a number, a switch or a text.
* `RenderKind`, `RenderProps.keys` — the kinds and the table of keys.
* `RenderProps` — the settings made, at most one per key, and `RenderProps.set` to make one.
* `RenderProps.overlay` — settings put over others, key by key.
* `lineWidth`, `noteSize`, … — the settings the layout reads, with their defaults.
-/

namespace Jianpu

/-- The value of a render setting. -/
inductive RenderValue where
  | int (v : Int)
  | num (v : Float)
  | flag (v : Bool)
  | text (v : String)
  deriving Inhabited

def RenderValue.toJson : RenderValue → Json
  | .int v => .int v
  | .num v => .num v
  | .flag v => .bool v
  | .text v => .str v

/-- What values a key takes. -/
inductive RenderKind where
  | int (lo hi : Int)
  | num (lo hi : Float)
  | flag
  | text
  | choice (options : List String)

namespace RenderKind

def fontSize : RenderKind := num 1.0 200.0
def spacing : RenderKind := num 0.0 500.0
def margin : RenderKind := num 0.0 1000.0

/-- The value a text stands for under this kind, if it is one. -/
def convert (k : RenderKind) (raw : String) : Option RenderValue :=
  match k with
  | int lo hi => (Decimal.readI64 raw).bind fun v =>
      if lo ≤ v ∧ v ≤ hi then some (.int v) else none
  | num lo hi => (Decimal.readFloat raw).bind fun v =>
      if v.isFinite && v ≥ lo && v ≤ hi then some (.num v) else none
  | flag =>
    if ["true", "yes", "on", "1"].contains raw then some (.flag true)
    else if ["false", "no", "off", "0"].contains raw then some (.flag false)
    else none
  | text => if raw.isEmpty then none else some (.text raw)
  | choice options => if options.contains raw then some (.text raw) else none

end RenderKind

/-- Why a setting was refused. -/
inductive RenderError where
  | unknownKey
  | badValue
  deriving DecidableEq

/-- Render settings, at most one per key. -/
structure RenderProps where
  values : List (String × RenderValue) := []
  deriving Inhabited

namespace RenderProps

/-- The keys and their kinds. -/
def keys : List (String × RenderKind) :=
  [("n", .int 1 64), ("page_width", .num 1.0 5000.0),
   ("margin_top", .margin), ("margin_bottom", .margin), ("margin_left", .margin),
   ("margin_right", .margin), ("scale", .num 0.1 10.0),
   ("title_size", .fontSize), ("subtitle_size", .fontSize), ("author_size", .fontSize),
   ("note_size", .fontSize), ("lyric_size", .fontSize), ("annotation_size", .fontSize),
   ("chord_size", .fontSize), ("force_size", .fontSize), ("footnote_size", .fontSize),
   ("text_size", .fontSize),
   ("font_title", .text), ("font_note", .text), ("font_lyric", .text), ("font_text", .text),
   ("line_spacing", .spacing), ("part_spacing", .spacing), ("lyric_spacing", .spacing),
   ("article_spacing", .spacing), ("fragment_spacing", .spacing),
   ("separator_inset", .num 0.0 100.0), ("grace_scale", .num 0.1 1.0),
   ("debug", .flag), ("debug_columns", .flag), ("show_measure_number", .flag),
   ("hide_empty_voices", .flag), ("compact", .flag), ("show_jumpers", .flag),
   ("measure_number_start", .int 0 9999),
   ("lyric_align", .choice ["left", "center"]), ("tie_style", .choice ["arc", "line"]),
   ("color_scheme", .choice ["light", "dark"]), ("pagination", .choice ["none", "page"])]

/-- Sets `key` to the value of `raw`, replacing an earlier setting of it. -/
def set (p : RenderProps) (key raw : String) : Except RenderError RenderProps :=
  match keys.lookup key with
  | none => .error .unknownKey
  | some kind =>
    match kind.convert raw with
    | none => .error .badValue
    | some v => .ok ⟨(p.values.filter (·.1 != key)) ++ [(key, v)]⟩

def get (p : RenderProps) (key : String) : Option RenderValue := p.values.lookup key

def overlay (p q : RenderProps) : RenderProps :=
  ⟨(p.values.filter fun (k, _) => (q.values.lookup k).isNone) ++ q.values⟩

def int (p : RenderProps) (key : String) : Option Int :=
  match p.get key with
  | some (.int v) => some v
  | _ => none

/-- A number setting; an integer counts as a number. -/
def num (p : RenderProps) (key : String) : Option Float :=
  match p.get key with
  | some (.num v) => some v
  | some (.int v) => some (Float.ofInt v)
  | _ => none

def sectionsPerLine (p : RenderProps) : Int := (p.int "n").getD 4

def pageWidth (p : RenderProps) : Float := (p.num "page_width").getD 800.0

/-- The width between the side margins (40 each by default), never negative. -/
def lineWidth (p : RenderProps) : Float :=
  let left := (p.num "margin_left").getD 40.0
  let right := (p.num "margin_right").getD 40.0
  let w := p.pageWidth - left - right
  if w < 0.0 then 0.0 else w

def noteSize (p : RenderProps) : Float := (p.num "note_size").getD 20.0

def lyricSize (p : RenderProps) : Float := (p.num "lyric_size").getD 16.0

def separatorInset (p : RenderProps) : Float := (p.num "separator_inset").getD 4.0

def toJson (p : RenderProps) : Json :=
  .obj (p.values.map fun (k, v) => (k, v.toJson))

end RenderProps

end Jianpu
