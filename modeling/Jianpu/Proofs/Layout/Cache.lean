import Mathlib
import Jianpu.Layout.Cache
/-!
# The width cache answers what the metrics answer

Every call to a `MeasureCache` returns the metrics' own width of its text at its size, however
the calls before it went; and its table holds one width for each text and bits of size that
were asked for, that width the metrics' own. The table is keyed by the bits of the size while
the metrics read its value. The two agree because sizes with the same bits are one size
(`Float.toBits_inj`); `-0.0` and `0.0` are two sizes, with two keys.

* `cacheKey` — the key a call is remembered under.
* `measureAll` — calls made one after another: their answers, and the cache after them.
* `Remembers m done c` — the table of `c` is what the calls `done` leave: their keys, each
  with the metrics' width, and nothing else.
* `Remembers.again`, `Remembers.insert` — a call already made leaves the table as it is; a new
  one adds its key.
* `Remembers.measure`, `Remembers.measureAll` — one call, and then every run of calls, answers
  the metrics' widths and leaves a table that remembers it.
* `measureAll_agrees` — from an empty cache.
-/

namespace Jianpu
namespace MeasureCache

def cacheKey (call : String × Float) : String × UInt64 := (call.1, call.2.toBits)

theorem cacheKey_eq_iff {a b : String × Float} : cacheKey a = cacheKey b ↔ a = b := by
  obtain ⟨t, s⟩ := a
  obtain ⟨t', s'⟩ := b
  simp [cacheKey, Float.toBits_inj]

/-- Calls made one after another: their answers, and the cache after the last. -/
def measureAll (c : MeasureCache) : List (String × Float) → List Float × MeasureCache
  | [] => ([], c)
  | call :: calls =>
    let first := c.measure call.1 call.2
    let rest := first.2.measureAll calls
    (first.1 :: rest.1, rest.2)

theorem measure_of_getElem? {c : MeasureCache} {call : String × Float} {w : Float}
    (h : c.widths[cacheKey call]? = some w) : c.measure call.1 call.2 = (w, c) := by
  simp only [measure]
  rw [show (call.1, call.2.toBits) = cacheKey call from rfl, h]

theorem measure_of_getElem?_none {c : MeasureCache} {call : String × Float}
    (h : c.widths[cacheKey call]? = none) :
    c.measure call.1 call.2 = (c.inner.measure call.1 call.2,
      ⟨c.inner, c.widths.insert (cacheKey call) (c.inner.measure call.1 call.2)⟩) := by
  simp only [measure]
  rw [show (call.1, call.2.toBits) = cacheKey call from rfl, h]

/-- The table of `c` is what the calls `done` leave in front of the metrics `m`: a key for
each of them, holding the metrics' width, and no other key. -/
structure Remembers (m : GlyphMetrics) (done : List (String × Float)) (c : MeasureCache) :
    Prop where
  inner : c.inner = m
  width : ∀ call ∈ done, c.widths[cacheKey call]? = some (m.measure call.1 call.2)
  keys : ∀ key, key ∈ c.widths ↔ key ∈ done.map cacheKey
  len : c.len = (done.map cacheKey).toFinset.card

section Remembers

variable {m : GlyphMetrics} {done : List (String × Float)} {c : MeasureCache}

theorem remembers_new (m : GlyphMetrics) : Remembers m [] (MeasureCache.new m) where
  inner := rfl
  width := by simp
  keys := by simp [MeasureCache.new]
  len := rfl

/-- A call already made leaves the table as it is. -/
theorem Remembers.again (h : Remembers m done c) {call : String × Float} (hmem : call ∈ done) :
    Remembers m (done ++ [call]) c where
  inner := h.inner
  width := by
    intro x hx
    rcases List.mem_append.1 hx with hx | hx
    · exact h.width x hx
    · obtain rfl := List.mem_singleton.1 hx
      exact h.width x hmem
  keys := by
    intro key
    rw [h.keys, List.map_append, List.mem_append]
    simp only [List.map_cons, List.map_nil, List.mem_singleton]
    constructor
    · exact .inl
    · rintro (hkey | rfl)
      · exact hkey
      · exact List.mem_map_of_mem hmem
  len := by
    rw [h.len, List.map_append, List.toFinset_append]
    simp [List.mem_map_of_mem hmem]

/-- A new call adds its key, holding the metrics' width. -/
theorem Remembers.insert (h : Remembers m done c) {call : String × Float}
    (hnew : cacheKey call ∉ done.map cacheKey) :
    Remembers m (done ++ [call])
      ⟨c.inner, c.widths.insert (cacheKey call) (c.inner.measure call.1 call.2)⟩ where
  inner := h.inner
  width := by
    intro x hx
    rw [Std.HashMap.getElem?_insert, h.inner]
    by_cases hkey : cacheKey call = cacheKey x
    · -- the same key is the same call
      obtain rfl := cacheKey_eq_iff.1 hkey
      simp
    · have hx' : x ∈ done := by
        rcases List.mem_append.1 hx with hx | hx
        · exact hx
        · exact absurd (congrArg cacheKey (List.mem_singleton.1 hx)).symm hkey
      simp [hkey, h.width x hx']
  keys := by
    intro key
    rw [Std.HashMap.mem_insert, h.keys, List.map_append, List.mem_append]
    simp only [beq_iff_eq, List.map_cons, List.map_nil, List.mem_singleton]
    exact Or.comm.trans (or_congr_right eq_comm)
  len := by
    show (c.widths.insert _ _).size = _
    have hout : cacheKey call ∉ c.widths := fun hin => hnew ((h.keys _).1 hin)
    rw [Std.HashMap.size_insert, if_neg hout, List.map_append, List.toFinset_append]
    have hlen : c.widths.size = (done.map cacheKey).toFinset.card := h.len
    simp [hlen, Finset.card_insert_of_notMem (List.mem_toFinset.not.2 hnew)]

/-- One call answers the metrics' width, and the table after it remembers the call. -/
theorem Remembers.measure (h : Remembers m done c) (call : String × Float) :
    (c.measure call.1 call.2).1 = m.measure call.1 call.2 ∧
      Remembers m (done ++ [call]) (c.measure call.1 call.2).2 := by
  cases hw : c.widths[cacheKey call]? with
  | some w =>
    -- a remembered key was asked before, by this very call
    have hmem : cacheKey call ∈ done.map cacheKey :=
      (h.keys _).1 (Std.HashMap.mem_iff_isSome_getElem?.2 (by simp [hw]))
    obtain ⟨x, hx, hkey⟩ := List.mem_map.1 hmem
    obtain rfl := cacheKey_eq_iff.1 hkey
    have hwidth := h.width x hx
    rw [hw, Option.some.injEq] at hwidth
    rw [measure_of_getElem? hw, hwidth]
    exact ⟨rfl, h.again hx⟩
  | none =>
    have hnew : cacheKey call ∉ done.map cacheKey := fun hmem =>
      absurd ((h.keys _).2 hmem) (by simp [Std.HashMap.mem_iff_isSome_getElem?, hw])
    rw [measure_of_getElem?_none hw]
    exact ⟨by rw [h.inner], h.insert hnew⟩

/-- Every run of calls answers the metrics' widths, and the table after it remembers the
run. -/
theorem Remembers.measureAll (h : Remembers m done c) (calls : List (String × Float)) :
    (c.measureAll calls).1 = calls.map (fun call => m.measure call.1 call.2) ∧
      Remembers m (done ++ calls) (c.measureAll calls).2 := by
  induction calls generalizing done c with
  | nil =>
    rw [List.append_nil]
    exact ⟨rfl, h⟩
  | cons call calls ih =>
    obtain ⟨hfirst, hnext⟩ := h.measure call
    obtain ⟨hrest, hafter⟩ := ih hnext
    rw [List.append_assoc, List.singleton_append] at hafter
    exact ⟨by simp only [MeasureCache.measureAll, List.map_cons, hfirst, hrest], hafter⟩

end Remembers

/-- A cache in front of the metrics agrees with them: over every run of calls from an empty
cache, each call answers the metrics' width of its text at its size, and the table holds one
entry for each distinct text and bits of size asked, holding that width. -/
theorem measureAll_agrees (m : GlyphMetrics) (calls : List (String × Float)) :
    ((MeasureCache.new m).measureAll calls).1 = calls.map (fun call => m.measure call.1 call.2) ∧
      Remembers m calls ((MeasureCache.new m).measureAll calls).2 := by
  simpa using (remembers_new m).measureAll calls

end MeasureCache
end Jianpu
