/-!
# Code point range tables

A character property of the Unicode standard is a set of code points. It is kept here as an
array of closed ranges, sorted and disjoint, so that membership is a binary search.

* `RangeTable` — the sorted ranges of one property.
* `RangeTable.contains` — whether a code point lies in one of them.

The search halves the window `[lo, hi)` of range positions at every step and answers `true`
only on a range that holds the point, so on a sorted disjoint table it finds the one range
that can hold it.
-/

namespace Jianpu.Text

/-- Closed ranges `(first, last)` of code points, sorted by `first` and pairwise disjoint. -/
structure RangeTable where
  ranges : Array (Nat × Nat)

namespace RangeTable

/-- Looks for a range that holds `n` among the ranges at positions `lo ≤ i < hi`. -/
def search (t : RangeTable) (n : Nat) (lo hi : Nat) : Bool :=
  if _h : lo < hi then
    let mid := (lo + hi) / 2
    match t.ranges[mid]? with
    | none => false
    | some (first, last) =>
      if n < first then search t n lo mid
      else if last < n then search t n (mid + 1) hi
      else true
  else false
termination_by hi - lo

def contains (t : RangeTable) (n : Nat) : Bool :=
  t.search n 0 t.ranges.size

end RangeTable

end Jianpu.Text
