import Jianpu.Yaml.Decode
import Jianpu.Layout.Space
import Jianpu.Music.Render
/-!
# Compiler settings

A host may set, in a YAML text, the most passes a performance may open, the speed where a
score sets none, render settings that stand under the score's own, and the glyph widths that
layout reckons with. Every field may be left out; unknown fields are ignored.

```yaml
iteration_limit: 512
default_qpm: 96
render:
  n: "3"
measure:
  char_width: 0.55
```

* `Settings` — the settings, with their defaults.
* `SettingsError` — why a settings text was refused, and `SettingsError.message`.
* `Settings.ofYaml` — reads and checks a settings text: the limit is positive, the speed a
  positive finite number, the widths positive and finite, and each render setting one of the
  known keys with a value of its kind, checked in the order of their keys.
-/

namespace Jianpu

open Yaml

/-- Settings for compiling scores. -/
structure Settings where
  iterationLimit : Nat := 2048
  defaultQpm : Float := 120.0
  render : RenderProps := {}
  metrics : GlyphMetrics := {}
  deriving Inhabited

/-- Why a settings text was refused. -/
inductive SettingsError where
  | unreadable (e : DecodeError)
  | limitNotPositive
  | speedNotPositive (qpm : Float)
  | widthNotPositive
  | unknownRenderKey (key : String)
  | badRenderValue (key value : String)

/-- The report of a refused settings text. -/
def SettingsError.message (e : SettingsError) : String :=
  "Invalid configuration: " ++
    match e with
    | .unreadable e => e.message
    | .limitNotPositive => "iteration_limit must be positive"
    | .speedNotPositive q => "default_qpm must be a positive number, got " ++ Decimal.plainText q
    | .widthNotPositive => "glyph widths must be positive"
    | .unknownRenderKey k => "unknown render property '" ++ k ++ "'"
    | .badRenderValue k v => "invalid value '" ++ v ++ "' for render property '" ++ k ++ "'"

def Settings.toJson (s : Settings) : Json :=
  .obj [("iterationLimit", .nat s.iterationLimit), ("defaultQpm", .num s.defaultQpm),
    ("render", s.render.toJson), ("measure", s.metrics.toJson)]

/-- The fields of a settings text as written, each at most once. -/
structure WrittenSettings where
  iterationLimit : Option Nat := none
  defaultQpm : Option Float := none
  render : Option (List (String × String)) := none
  metrics : Option GlyphMetrics := none

/-- The fields of the glyph widths as written, each at most once. -/
structure WrittenMetrics where
  charWidth : Option Float := none
  wideCharWidth : Option Float := none
  accidentalWidth : Option Float := none

/-- The glyph widths: a record of three numbers. -/
def WrittenMetrics.read (doc : Document) (path : String) : Decoder GlyphMetrics := do
  let w ← Decoder.mapping doc path "struct MeasureConfig" "field identifier" ({} : WrittenMetrics)
    fun mark w key keyPath =>
      match key with
      | "char_width" => Decoder.once mark path key w.charWidth (Decoder.float doc keyPath)
          fun x => { w with charWidth := some x }
      | "wide_char_width" => Decoder.once mark path key w.wideCharWidth (Decoder.float doc keyPath)
          fun x => { w with wideCharWidth := some x }
      | "accidental_width" =>
        Decoder.once mark path key w.accidentalWidth (Decoder.float doc keyPath)
          fun x => { w with accidentalWidth := some x }
      | _ => do Decoder.skipValue doc (doc.events.size + 1) 0; pure w
  let d : GlyphMetrics := {}
  pure ⟨w.charWidth.getD d.charWidth, w.wideCharWidth.getD d.wideCharWidth,
    w.accidentalWidth.getD d.accidentalWidth⟩

/-- The settings record as written. -/
def WrittenSettings.read (doc : Document) : Decoder WrittenSettings :=
  Decoder.mapping doc "." "struct ParserConfig" "field identifier" {} fun mark w key keyPath =>
    match key with
    | "iteration_limit" => Decoder.once mark "." key w.iterationLimit (Decoder.unsigned doc keyPath)
        fun n => { w with iterationLimit := some n }
    | "default_qpm" => Decoder.once mark "." key w.defaultQpm (Decoder.float doc keyPath)
        fun x => { w with defaultQpm := some x }
    | "render" => Decoder.once mark "." key w.render (Decoder.textMap doc keyPath)
        fun m => { w with render := some m }
    | "measure" => Decoder.once mark "." key w.metrics (WrittenMetrics.read doc keyPath)
        fun m => { w with metrics := some m }
    | _ => do Decoder.skipValue doc (doc.events.size + 1) 0; pure w

def GlyphMetrics.valid (m : GlyphMetrics) : Bool :=
  [m.charWidth, m.wideCharWidth, m.accidentalWidth].all fun w => w.isFinite && w > 0.0

/-- Render settings from text, in the order given. -/
def renderFromText (entries : List (String × String)) : Except SettingsError RenderProps :=
  entries.foldlM (fun p (key, value) =>
    match p.set key value with
    | .ok p => .ok p
    | .error .unknownKey => .error (.unknownRenderKey key)
    | .error .badValue => .error (.badRenderValue key value)) {}

/-- Checks written settings, filling in the defaults. -/
def WrittenSettings.check (w : WrittenSettings) : Except SettingsError Settings := do
  let limit := w.iterationLimit.getD 2048
  if limit == 0 then throw .limitNotPositive
  let qpm := w.defaultQpm.getD 120.0
  if !(qpm.isFinite && qpm > 0.0) then throw (.speedNotPositive qpm)
  let metrics := w.metrics.getD {}
  if !metrics.valid then throw .widthNotPositive
  let render ← renderFromText (w.render.getD [])
  pure ⟨limit, qpm, render, metrics⟩

/-- Reads and checks a settings text. An empty text gives the defaults. -/
def Settings.ofYaml (text : String) : Except SettingsError Settings :=
  match decodeDocument text {} WrittenSettings.read with
  | .error e => .error (.unreadable e)
  | .ok w => w.check

end Jianpu
