import Jianpu.Score.Columns
/-!
# Room on a line

Nothing here draws a glyph; it only reckons how much room glyphs take and where the time
positions of a section stand.

* `GlyphMetrics` — widths as fractions of the font size: a narrow (ASCII) character, a
  wide one, an accidental. `GlyphMetrics.measure` sums the widths of a text's characters.
* `Footprint` — the room asked around a position: occupied room, which neighbours may not
  enter, and preferred room, which is granted when the section has space.
* `SectionRequest`, `Gap` — a section's length, the room at its two ends and its positions;
  the gaps before, between and after the positions, each with the time it spans (its weight)
  and the room it needs.
* `relaxRound`, `relax` — share a width among gaps by weight; a gap that gets less than it
  needs becomes rigid, takes exactly its need and leaves the share, and the rest is shared
  again in the next round. It ends `pass` when every gap is satisfied within the width, else
  `dead` with the needs themselves.
* `dispatchCompute` — tries the preferred room first and the occupied room after; the
  offsets of the positions are the running sums of the gaps.
-/

namespace Jianpu

def layoutEpsilon : Float := 1e-9

/-- Glyph widths as fractions of the font size. -/
structure GlyphMetrics where
  charWidth : Float := 0.55
  wideCharWidth : Float := 1.0
  accidentalWidth : Float := 0.4
  deriving Inhabited

namespace GlyphMetrics

/-- The width of a text at a font size: its characters' widths summed, narrow for ASCII,
wide for the rest. -/
def measure (m : GlyphMetrics) (text : String) (size : Float) : Float :=
  text.toList.foldl (fun acc c => acc + if c.toNat < 128 then m.charWidth else m.wideCharWidth)
    (-0.0) * size

def accidental (m : GlyphMetrics) (size : Float) : Float := m.accidentalWidth * size

def toJson (m : GlyphMetrics) : Json :=
  .obj [("charWidth", .num m.charWidth), ("wideCharWidth", .num m.wideCharWidth),
    ("accidentalWidth", .num m.accidentalWidth)]

end GlyphMetrics

/-- The room asked around a position: occupied on each side, and preferred, at least the
occupied room. -/
structure Footprint where
  left : Float := 0.0
  right : Float := 0.0
  softLeft : Float := 0.0
  softRight : Float := 0.0
  deriving Inhabited

namespace Footprint

def hard (l r : Float) : Footprint := ⟨l, r, l, r⟩

def soft (l r : Float) : Footprint := ⟨0.0, 0.0, l, r⟩

/-- Two footprints at one position: the larger room on each side, the preferred room at
least the occupied. -/
def merge (a b : Footprint) : Footprint :=
  let left := fmax a.left b.left
  let right := fmax a.right b.right
  ⟨left, right, fmax (fmax a.softLeft b.softLeft) left, fmax (fmax a.softRight b.softRight) right⟩

end Footprint

/-- What a section asks of its width: its length in quarters, the room at its start and end,
and its positions in order with their footprints. -/
structure SectionRequest where
  length : Frac
  startInset : Float
  endInset : Float
  columns : List (Frac × Footprint)
  deriving Inhabited

/-- How a section's positions were set: all room granted, or the width was too narrow. -/
inductive DispatchStatus where
  | pass | dead
  deriving Inhabited, DecidableEq

def DispatchStatus.name : DispatchStatus → String
  | .pass => "pass" | .dead => "dead"

/-- The gaps of a section and the offsets of its positions from its start. -/
structure Dispatch where
  status : DispatchStatus
  gaps : List Float
  offsets : List Float
  deriving Inhabited

def Dispatch.total (d : Dispatch) : Float := d.gaps.foldl (· + ·) (-0.0)

/-- A gap: the time it spans, the room it must have and the room it would like. -/
structure Gap where
  weight : Float
  hard : Float
  soft : Float

/-- The gaps of a section: before the first position, between positions, after the last. -/
def SectionRequest.gaps (r : SectionRequest) : List Gap :=
  let stop := match r.columns.getLast? with
    | some (p, _) => Frac.max p r.length
    | none => r.length
  let (gaps, prevPos, prev) := r.columns.foldl
    (fun ((gs, prevPos, prev) : Array Gap × Frac × Float × Float) (pos, fp) =>
      (gs.push ⟨fmax (pos - prevPos).toFloat 0.0, prev.1 + fp.left, prev.2 + fp.softLeft⟩,
        pos, (fp.right, fp.softRight)))
    (#[], 0, (r.startInset, r.startInset))
  let (tailHard, tailSoft) := match r.columns.getLast? with
    | some (_, fp) => (fp.right + r.endInset, fp.softRight + r.endInset)
    | none => (prev.1 + r.endInset, prev.2 + r.endInset)
  (gaps.push ⟨fmax (stop - prevPos).toFloat 0.0, tailHard, tailSoft⟩).toList

def fsum (xs : List Float) : Float := xs.foldl (· + ·) (-0.0)

/-- One round of sharing `width` among gaps of the given weights, each needing `required`,
with the gaps marked in `rigid` held at their needs: the shares the round settles on, or, when
a free gap falls short of its need, the gaps rigid in the next round. -/
def relaxRound (weights required : List Float) (width : Float) (rigid : List Bool) :
    (DispatchStatus × List Float) ⊕ List Bool :=
  let rows := (weights.zip required).zip rigid
  let fixed := fsum (rows.filterMap fun ((_, r), g) => if g then some r else none)
  let pool := width - fixed
  let free := fsum (rows.filterMap fun ((w, _), g) => if g then none else some w)
  if free ≤ layoutEpsilon then
    if fixed > width + layoutEpsilon then .inl (.dead, required)
    else
      let total := fsum weights
      let n := weights.length
      .inl (.pass, (weights.zip required).map fun (w, r) =>
        r + pool * (if total > layoutEpsilon then w / total else 1.0 / n.toFloat))
  else
    let gaps := rows.map fun ((w, r), g) => if g then r else fmax pool 0.0 * w / free
    let failing := (rows.zip gaps).map fun (((_, r), g), x) => !g && x + layoutEpsilon < r
    if failing.any id then .inr ((rigid.zip failing).map fun (g, f) => g || f)
    else .inl ((if pool < -layoutEpsilon then .dead else .pass), gaps)

/-- Rounds of `relaxRound` until one settles; `fuel` bounds the rounds, one gap at least
turning rigid in each. -/
def relaxWith (weights required : List Float) (width : Float) :
    Nat → List Bool → DispatchStatus × List Float
  | 0, _ => (.dead, required)
  | fuel + 1, rigid =>
    match relaxRound weights required width rigid with
    | .inl shares => shares
    | .inr rigid => relaxWith weights required width fuel rigid

/-- Shares `width` among gaps of the given weights, each needing `required`; a gap of no
weight is rigid from the start. -/
def relax (weights required : List Float) (width : Float) : DispatchStatus × List Float :=
  relaxWith weights required width (weights.length + 1) (weights.map (· ≤ layoutEpsilon))

/-- The gaps and position offsets of a section laid out in `width`: its preferred room if
that fits, else its occupied room. -/
def dispatchCompute (r : SectionRequest) (width : Float) : Dispatch :=
  let gaps := r.gaps
  let weights := gaps.map (·.weight)
  let hard := gaps.map (·.hard)
  let soft := gaps.map fun g => fmax g.soft g.hard
  let (status, widths) := match relax weights soft width with
    | (.pass, ws) => (DispatchStatus.pass, ws)
    | _ => relax weights hard width
  let offsets := (widths.take r.columns.length).foldl (fun (acc : Array Float × Float) w =>
    (acc.1.push (acc.2 + w), acc.2 + w)) (#[], 0.0)
  ⟨status, widths, offsets.1.toList⟩

end Jianpu
