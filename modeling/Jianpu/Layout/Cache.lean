import Jianpu.Layout.Space
import Std.Data.HashMap
/-!
# Remembered widths

A cache in front of the glyph metrics. Every width it is asked for is remembered under the
text and the bits of the size, so a later call with the same text and the same bits answers
from the table and the metrics are not asked again. Widths depend on nothing else, which is
why one cache may serve every line of every document; the line layout measures with the
metrics themselves.

A shared cache guards its table with a lock; a call made while another holds it is not
modelled, so each call sees the table as the call before left it.

* `MeasureCache` — the metrics and the table of widths.
* `MeasureCache.measure` — a width from the table, or measured and remembered.
* `MeasureCache.len` — how many widths are remembered.
-/

namespace Jianpu

/-- The metrics that measure, and the widths measured so far, keyed by the text and the bits
of the size. -/
structure MeasureCache where
  inner : GlyphMetrics
  widths : Std.HashMap (String × UInt64) Float

namespace MeasureCache

def new (inner : GlyphMetrics) : MeasureCache := ⟨inner, ∅⟩

def len (c : MeasureCache) : Nat := c.widths.size

/-- The width of `text` at `size`, and the cache after the call: the remembered width if the
text was measured at a size of the same bits, else the metrics' width, now remembered. -/
def measure (c : MeasureCache) (text : String) (size : Float) : Float × MeasureCache :=
  let key := (text, size.toBits)
  match c.widths[key]? with
  | some w => (w, c)
  | none =>
    let width := c.inner.measure text size
    (width, { c with widths := c.widths.insert key width })

def accidental (c : MeasureCache) (size : Float) : Float := c.inner.accidental size

end MeasureCache

end Jianpu
