import Mathlib
import Jianpu.Proofs.Places.Reach
import Jianpu.Proofs.Columns.Rows
/-!
# Barlines and sections alternate

A row is cut at its barlines. `barlineRuns` reads each maximal run of touching `|`, `/` and `:`
symbols, with the `{pre}`, `[own]` and `{post}` pairs around it; `sectionSlots` adds an empty
`/` at each edge of the row that no run holds; `readSections` reads one section between each
two slots.

* `BarlineRun.Reads` — a run read from pieces `i` to `stop - 1`: a maximal run of touching
  barline symbols, with its glyph, span and attribute pairs.
* `barlineRuns_read` — every run is read so, the runs come in order, and every barline symbol
  of the row lies in one of them.
* `Abutting`, `rowBlocks` — the barlines' extents and the sections' pieces, taken slot by slot,
  follow one another from the first piece of the row to the last.
* `readSections_slots` — the sections of a row, one per gap between two slots.
* `SectionInGap.between_slots` — a section of a row whose pieces stand in order lies between
  the separators of its two slots.
* `sections_alternate` — all of it together.
-/

namespace Jianpu

/-! ## Where a run of touching barline symbols ends -/

theorem extends_iff {items : Array Piece} {e : Nat} (he : e < items.size) :
    (0 < e && items[e].isBarlineSymbol &&
        items[e].span.start == (items[e - 1]?.map (·.span.stop)).getD 0) = true ↔
      0 < e ∧ items[e].isBarlineSymbol = true ∧ items[e].span.start = items[e - 1].span.stop := by
  constructor
  · intro h
    simp only [Bool.and_eq_true, decide_eq_true_eq, beq_iff_eq] at h
    obtain ⟨⟨hpos, hbar⟩, hstart⟩ := h
    rw [Array.getElem?_eq_getElem (by omega), Option.map_some, Option.getD_some] at hstart
    exact ⟨hpos, hbar, hstart⟩
  · rintro ⟨hpos, hbar, hstart⟩
    rw [Array.getElem?_eq_getElem (by omega), Option.map_some, Option.getD_some]
    simp [hpos, hbar, hstart]

theorem barlineEnd_extends (items : Array Piece) (e : Nat) :
    ∀ k (hk : k < items.size), e ≤ k → k < barlineEnd items e →
      0 < k ∧ items[k].isBarlineSymbol = true ∧ items[k].span.start = items[k - 1].span.stop := by
  fun_induction barlineEnd items e with
  | case1 e he hext ih =>
    intro k hk hek hkb
    rcases Nat.lt_or_eq_of_le hek with hlt | rfl
    · exact ih k hk hlt hkb
    · exact (extends_iff he).1 hext
  | case2 e he hno =>
    intro k hk hek hkb
    omega
  | case3 e he =>
    intro k hk hek hkb
    omega

theorem barlineEnd_stops (items : Array Piece) (e : Nat) :
    ∀ b, barlineEnd items e = b → ∀ hb : b < items.size,
      ¬(0 < b ∧ items[b].isBarlineSymbol = true ∧ items[b].span.start = items[b - 1].span.stop) := by
  fun_induction barlineEnd items e with
  | case1 e he hext ih => exact ih
  | case2 e he hno =>
    rintro b rfl _ h
    exact hno ((extends_iff he).2 h)
  | case3 e he =>
    rintro b rfl hb
    exact absurd hb he

theorem Piece.pairOf?_eq_some {p : Piece} {b : Bracket} {q : Bracketed} (h : p.pairOf? b = some q) :
    p = .ofPair q ∧ q.bracket = some b := by
  cases p with
  | token t => simp [Piece.pairOf?, Piece.isPairOf] at h
  | pair s b' c g t =>
    cases b' with
    | none => simp [Piece.pairOf?, Piece.isPairOf] at h
    | some b' =>
      simp only [Piece.pairOf?, Piece.isPairOf, beq_iff_eq, Piece.asPair] at h
      split at h
      · cases h
        subst b'
        exact ⟨rfl, rfl⟩
      · cases h

theorem Piece.not_isBarlineSymbol_of_pairOf? {p : Piece} {b : Bracket} {q : Bracketed}
    (h : p.pairOf? b = some q) : p.isBarlineSymbol = false := by
  rw [(Piece.pairOf?_eq_some h).1]
  rfl

/-! ## Runs read from the row -/

/-- The run `r` is read from the pieces `i` to `stop - 1`: barline symbols, each touching the one
before, that neither neighbour goes on; its glyph and span are theirs, and its extent takes in
a `{pre}` pair just before, an `[own]` pair touching its end and a `{post}` pair after that. -/
structure BarlineRun.Reads (items : List Piece) (r : BarlineRun) (i stop : Nat) : Prop where
  lt : i < stop
  le : stop ≤ items.length
  symbol : ∀ k (hk : k < items.length), i ≤ k → k < stop → items[k].isBarlineSymbol = true
  touching : ∀ k (hk : k < items.length), i < k → k < stop →
    items[k].span.start = items[k - 1].span.stop
  left : ∀ (hi : i < items.length), 0 < i →
    ¬(items[i - 1].isBarlineSymbol = true ∧ items[i].span.start = items[i - 1].span.stop)
  right : ∀ (hs : stop < items.length),
    ¬(items[stop].isBarlineSymbol = true ∧ items[stop].span.start = items[stop - 1].span.stop)
  glyph : r.glyph = String.join (((items.extract i stop).filterMap Piece.asToken).map (·.content))
  span : ∃ (hi : i < items.length) (hs : stop - 1 < items.length),
    r.span = items[i].span.join items[stop - 1].span
  attrStart : r.attrStart = if r.pre.isSome then i - 1 else i
  attrEnd : r.attrEnd = stop + (if r.own.isSome then 1 else 0) + (if r.post.isSome then 1 else 0)
  pre : ∀ p ∈ r.pre, 0 < i ∧ items[i - 1]? = some (.ofPair p) ∧ p.bracket = some .curly
  own : ∀ p ∈ r.own, items[stop]? = some (.ofPair p) ∧ p.bracket = some .square
  post : ∀ p ∈ r.post, items[r.attrEnd - 1]? = some (.ofPair p) ∧ p.bracket = some .curly

namespace BarlineRun.Reads

variable {items : List Piece} {r : BarlineRun} {i stop : Nat}

theorem attrStart_lt_attrEnd (h : r.Reads items i stop) : r.attrStart < r.attrEnd := by
  have := h.lt
  rw [h.attrStart, h.attrEnd]
  split <;> omega

theorem attrStart_le (h : r.Reads items i stop) : r.attrStart ≤ i := by
  rw [h.attrStart]
  split <;> omega

theorem stop_le_attrEnd (h : r.Reads items i stop) : stop ≤ r.attrEnd := by
  rw [h.attrEnd]
  omega

/-- The extent of a run stays within the row. -/
theorem attrEnd_le (h : r.Reads items i stop) : r.attrEnd ≤ items.length := by
  have hstop := h.le
  cases hpost : r.post with
  | some p =>
    have hp := (h.post p hpost).1
    have : r.attrEnd - 1 < items.length := (List.getElem?_eq_some_iff.1 hp).1
    omega
  | none =>
    cases hown : r.own with
    | some p =>
      have : stop < items.length := (List.getElem?_eq_some_iff.1 (h.own p hown).1).1
      rw [h.attrEnd, hpost, hown]
      simp only [Option.isSome_some, Option.isSome_none, if_true, Bool.false_eq_true, if_false]
      omega
    | none =>
      rw [h.attrEnd, hpost, hown]
      simpa using hstop

/-- The pieces after a run's symbols within its extent are its attribute pairs. -/
theorem not_symbol_after (h : r.Reads items i stop) :
    ∀ k (hk : k < items.length), stop ≤ k → k < r.attrEnd → items[k].isBarlineSymbol = false := by
  intro k hk hsk hke
  have hend := h.attrEnd
  -- only the `[own]` pair at `stop` and the `{post}` pair at the end can stand there
  by_cases hpost : k = r.attrEnd - 1 ∧ r.post.isSome
  · obtain ⟨rfl, hp⟩ := hpost
    obtain ⟨p, hp⟩ := Option.isSome_iff_exists.1 hp
    obtain ⟨hget, -⟩ := h.post p hp
    rw [List.getElem?_eq_getElem hk, Option.some.injEq] at hget
    rw [hget]
    rfl
  · have hk' : k = stop ∧ r.own.isSome := by
      constructor <;> split at hend <;> split at hend <;> simp_all <;> omega
    obtain ⟨rfl, ho⟩ := hk'
    obtain ⟨p, hp⟩ := Option.isSome_iff_exists.1 ho
    obtain ⟨hget, -⟩ := h.own p hp
    rw [List.getElem?_eq_getElem hk, Option.some.injEq] at hget
    rw [hget]
    rfl

theorem fresh (h : r.Reads items i stop) : ∀ (he : r.attrEnd < items.length), 0 < r.attrEnd →
    items[r.attrEnd].isBarlineSymbol = true →
    ¬(items[r.attrEnd - 1].isBarlineSymbol = true ∧
      items[r.attrEnd].span.start = items[r.attrEnd - 1].span.stop) := by
  intro he hpos hbar'
  rcases Nat.lt_or_eq_of_le h.stop_le_attrEnd with hlt | heq
  · rintro ⟨hbar, -⟩
    rw [h.not_symbol_after (r.attrEnd - 1) (by omega) (by omega) (by omega)] at hbar
    cases hbar
  · have hright := h.right (by omega)
    simp only [← heq] at hright hbar' ⊢
    exact fun ⟨_, htouch⟩ => hright ⟨hbar', htouch⟩

end BarlineRun.Reads

/-- What reading the row up to piece `i` has found: runs read in order, each ending by `i`,
every barline symbol before `i` in one of them, and no run that piece `i` could go on. -/
structure RunsRead (items : List Piece) (i : Nat) (runs : List BarlineRun) : Prop where
  reads : ∀ r ∈ runs, ∃ a b, r.Reads items a b
  ordered : runs.Pairwise fun r s => r.attrEnd ≤ s.attrStart
  ends : ∀ r ∈ runs, r.attrEnd ≤ i
  le : i ≤ items.length
  covered : ∀ k (hk : k < items.length), k < i → items[k].isBarlineSymbol = true →
    ∃ r ∈ runs, ∃ a b, r.Reads items a b ∧ a ≤ k ∧ k < b
  fresh : ∀ (hi : i < items.length), 0 < i → items[i].isBarlineSymbol = true →
    ¬(items[i - 1].isBarlineSymbol = true ∧ items[i].span.start = items[i - 1].span.stop)

namespace RunsRead

variable {items : List Piece} {i : Nat} {runs : List BarlineRun}

theorem init (items : List Piece) : RunsRead items 0 [] where
  reads := by simp
  ordered := List.Pairwise.nil
  ends := by simp
  le := Nat.zero_le _
  covered := fun k _ hk => absurd hk (Nat.not_lt_zero k)
  fresh := fun _ h => absurd h (Nat.lt_irrefl 0)

theorem skip (h : RunsRead items i runs) (hi : i < items.length)
    (hnot : items[i].isBarlineSymbol = false) : RunsRead items (i + 1) runs where
  reads := h.reads
  ordered := h.ordered
  ends r hr := Nat.le_succ_of_le (h.ends r hr)
  le := hi
  covered k hk hki hbar := by
    rcases Nat.lt_succ_iff_lt_or_eq.1 hki with hki | rfl
    · exact h.covered k hk hki hbar
    · rw [hnot] at hbar
      cases hbar
  fresh _ _ _ := fun ⟨hbar, _⟩ => by
    simp only [Nat.add_sub_cancel] at hbar
    rw [hnot] at hbar
    cases hbar

/-- A run read from piece `i`, starting after every run before it, is added, and reading goes
on after its extent. -/
theorem push (h : RunsRead items i runs) {r : BarlineRun} {stop : Nat} (hr : r.Reads items i stop)
    (hafter : ∀ s ∈ runs, s.attrEnd ≤ r.attrStart) : RunsRead items r.attrEnd (runs ++ [r]) where
  reads s hs := by
    rcases List.mem_append.1 hs with hs | hs
    · exact h.reads s hs
    · rw [List.mem_singleton.1 hs]
      exact ⟨i, stop, hr⟩
  ordered := List.pairwise_append.2 ⟨h.ordered, List.pairwise_singleton _ _, fun s hs t ht => by
    rw [List.mem_singleton.1 ht]
    exact hafter s hs⟩
  ends s hs := by
    rcases List.mem_append.1 hs with hs | hs
    · exact (hafter s hs).trans hr.attrStart_lt_attrEnd.le
    · rw [List.mem_singleton.1 hs]
  le := hr.attrEnd_le
  covered k hk hke hbar := by
    -- before `i` as before; the run's own symbols; no symbol among its attribute pairs
    by_cases hki : k < i
    · obtain ⟨s, hs, hread⟩ := h.covered k hk hki hbar
      exact ⟨s, List.mem_append_left _ hs, hread⟩
    · by_cases hks : k < stop
      · exact ⟨r, List.mem_append_right _ (List.mem_singleton_self r), i, stop, hr, by omega, hks⟩
      · rw [hr.not_symbol_after k hk (by omega) hke] at hbar
        cases hbar
  fresh := hr.fresh

end RunsRead

theorem RunsRead.le_last {items : List Piece} {i : Nat} {runs : List BarlineRun}
    (h : RunsRead items i runs) : ∀ s ∈ runs, s.attrEnd ≤ (runs.getLast?.map (·.attrEnd)).getD 0 := by
  intro s hs
  obtain ⟨front, last, rfl⟩ := List.eq_nil_or_concat runs |>.resolve_left (List.ne_nil_of_mem hs)
  simp only [List.concat_eq_append] at h hs ⊢
  rw [List.getLast?_concat, Option.map_some, Option.getD_some]
  rcases List.mem_append.1 hs with hs | hs
  · have hord := (List.pairwise_append.1 h.ordered).2.2 s hs last (List.mem_singleton_self _)
    obtain ⟨a, b, hread⟩ := h.reads last (List.mem_append_right _ (List.mem_singleton_self _))
    exact hord.trans hread.attrStart_lt_attrEnd.le
  · rw [List.mem_singleton.1 hs]

/-- Reading the row on from piece `i` reads it to the end. -/
theorem runsRead_barlineRunsFrom {items : List Piece} (i : Nat) (runs : Array BarlineRun)
    (h : RunsRead items i runs.toList) :
    ∃ i', items.length ≤ i' ∧ RunsRead items i' (barlineRunsFrom items.toArray i runs).toList := by
  fun_induction barlineRunsFrom items.toArray i runs with
  | case1 i runs hi hnot ih =>
    exact ih (h.skip (by simpa using hi) (by simpa using hnot))
  | case2 i runs hi hbar stop last runEnd glyph own cursor post cursor' taken pre run ih =>
    have hi' : i < items.length := by simpa using hi
    have hbar' : items[i].isBarlineSymbol = true := by simpa using hbar
    have hstart : i + 1 ≤ stop := le_barlineEnd _ _
    have hend : stop ≤ items.length := by
      simpa using barlineEnd_le items.toArray (i + 1) (by simpa using hi)
    have hlast : last = items[stop - 1] := by
      simp [last, List.getElem?_eq_getElem (by omega : stop - 1 < items.length)]
    have hr : run.Reads items i stop :=
      { lt := hstart
        le := hend
        symbol := fun k hk hik hks => by
          rcases Nat.lt_or_eq_of_le hik with hik | rfl
          · have hx := (barlineEnd_extends items.toArray (i + 1) k (by simpa) hik hks).2.1
            simpa only [List.getElem_toArray] using hx
          · exact hbar'
        touching := fun k hk hik hks => by
          have hx := (barlineEnd_extends items.toArray (i + 1) k (by simpa) hik hks).2.2
          simpa only [List.getElem_toArray] using hx
        left := fun hi hpos => h.fresh hi hpos hbar'
        right := fun hs hbt => barlineEnd_stops items.toArray (i + 1) stop rfl (by simpa)
          ⟨by omega, by simpa using hbt.1, by simpa using hbt.2⟩
        glyph := by simp [run, glyph]
        span := ⟨hi', by omega, by simp [run, hlast]⟩
        attrStart := rfl
        attrEnd := by
          simp only [run, cursor', cursor]
          split <;> split <;> simp_all
        pre := fun p hp => by
          simp only [run, pre] at hp
          split at hp
          · obtain ⟨q, hq, hpq⟩ := Option.bind_eq_some_iff.1 hp
            obtain ⟨rfl, hb⟩ := Piece.pairOf?_eq_some hpq
            exact ⟨by omega, by simpa using hq, hb⟩
          · cases hp
        own := fun p hp => by
          obtain ⟨q, hq, hpq⟩ := Option.bind_eq_some_iff.1 hp
          obtain ⟨hpq, -⟩ := Option.filter_eq_some_iff.1 hpq
          obtain ⟨rfl, hb⟩ := Piece.pairOf?_eq_some hpq
          exact ⟨by simpa using hq, hb⟩
        post := fun p hp => by
          have hp : post = some p := hp
          have hcur : cursor' - 1 = cursor := by
            simp only [cursor', hp, Option.isSome_some, dite_true]
            omega
          obtain ⟨q, hq, hpq⟩ := Option.bind_eq_some_iff.1 hp
          obtain ⟨rfl, hb⟩ := Piece.pairOf?_eq_some hpq
          show items[cursor' - 1]? = _ ∧ _
          rw [hcur]
          exact ⟨by simpa using hq, hb⟩ }
    -- a `{pre}` pair is taken only past the extent of the last run
    have hafter : ∀ s ∈ runs.toList, s.attrEnd ≤ run.attrStart := by
      intro s hs
      have hle := h.le_last s hs
      have htaken : (runs.toList.getLast?.map (·.attrEnd)).getD 0 = taken := by
        simp [taken]
      show s.attrEnd ≤ (if h : pre.isSome = true then i - 1 else i)
      split
      · rename_i hpre
        have hgt : i > taken := by
          by_contra hng
          simp [pre, hng] at hpre
        omega
      · exact h.ends s hs
    have hnext : max cursor' (i + 1) = run.attrEnd :=
      Nat.max_eq_left (hstart.trans hr.stop_le_attrEnd)
    apply ih
    rw [Array.toList_push, hnext]
    exact h.push hr hafter
  | case3 i runs hi => exact ⟨i, by simpa using hi, h⟩

theorem barlineRuns_read (items : List Piece) :
    ∃ i, items.length ≤ i ∧ RunsRead items i (barlineRuns items.toArray) :=
  runsRead_barlineRunsFrom 0 #[] (RunsRead.init items)

/-! ## Slots and the blocks of a row -/

def BarlineRun.extent (r : BarlineRun) : Nat × Nat := (r.attrStart, r.attrEnd)

/-- The row taken slot by slot: the extent of the barline of each slot (nothing for an empty `/`
at an edge), and after each slot but the last the pieces of the section there. -/
def rowBlocks : List (Option BarlineRun) → List (Nat × Nat) → List (Nat × Nat)
  | [], _ => []
  | slot :: slots, spans =>
    (slot.map BarlineRun.extent).toList ++ spans.head?.toList ++ rowBlocks slots spans.tail

/-- Ranges of pieces that follow one another from `a` to `b`, none ending before it starts. -/
inductive Abutting : List (Nat × Nat) → Nat → Nat → Prop
  | nil (n : Nat) : Abutting [] n n
  | cons {a b c : Nat} {rest : List (Nat × Nat)} : a ≤ b → Abutting rest b c →
      Abutting ((a, b) :: rest) a c

namespace Abutting

theorem le {bs : List (Nat × Nat)} {a c : Nat} (h : Abutting bs a c) : a ≤ c := by
  induction h with
  | nil => exact le_rfl
  | cons hab _ ih => exact hab.trans ih

theorem start_le {bs : List (Nat × Nat)} {a c : Nat} (h : Abutting bs a c) :
    ∀ blk ∈ bs, a ≤ blk.1 := by
  induction h with
  | nil => simp
  | cons hab _ ih =>
    intro blk hblk
    rcases List.mem_cons.1 hblk with rfl | hblk
    · exact le_rfl
    · exact hab.trans (ih blk hblk)

/-- Abutting ranges are a partition: every piece between the ends lies in exactly one range. -/
theorem unique {bs : List (Nat × Nat)} {a c : Nat} (h : Abutting bs a c) :
    ∀ k, a ≤ k → k < c → ∃! j : Nat, ∃ blk : Nat × Nat, bs[j]? = some blk ∧ blk.1 ≤ k ∧ k < blk.2 := by
  induction h with
  | nil => intro k h1 h2; omega
  | @cons a b c rest hab hrest ih =>
    intro k hak hkc
    by_cases hkb : k < b
    · -- the first range holds `k`, and every later one starts at `b` or after
      refine ⟨0, ⟨(a, b), rfl, hak, hkb⟩, ?_⟩
      rintro (_ | j) ⟨blk, hblk, hlo, -⟩
      · rfl
      · have := hrest.start_le blk (List.mem_of_getElem? hblk)
        omega
    · obtain ⟨j, hj, huniq⟩ := ih k (by omega) hkc
      refine ⟨j + 1, hj, ?_⟩
      rintro (_ | j') hj'
      · obtain ⟨blk, hblk, -, hhi⟩ := hj'
        simp only [List.getElem?_cons_zero, Option.some.injEq] at hblk
        subst hblk
        omega
      · exact congrArg (· + 1) (huniq j' hj')

theorem mem_le {bs : List (Nat × Nat)} {a c : Nat} (h : Abutting bs a c) :
    ∀ blk ∈ bs, a ≤ blk.1 ∧ blk.1 ≤ blk.2 ∧ blk.2 ≤ c := by
  induction h with
  | nil => simp
  | cons hab hrest ih =>
    intro blk hblk
    rcases List.mem_cons.1 hblk with rfl | hblk
    · exact ⟨le_rfl, hab, hrest.le⟩
    · obtain ⟨h1, h2, h3⟩ := ih blk hblk
      exact ⟨hab.trans h1, h2, h3⟩

end Abutting

theorem mem_rowBlocks : ∀ (slots : List (Option BarlineRun)) (gaps : List (Nat × Nat)),
    gaps.length ≤ slots.length → ∀ g ∈ gaps, g ∈ rowBlocks slots gaps
  | [], gaps, hle, g, hg => by
    obtain rfl : gaps = [] := List.eq_nil_of_length_eq_zero (by simpa using hle)
    cases hg
  | slot :: slots, gaps, hle, g, hg => by
    cases gaps with
    | nil => cases hg
    | cons g' gaps =>
      rcases List.mem_cons.1 hg with rfl | hg
      · simp [rowBlocks]
      · have := mem_rowBlocks slots gaps (by simpa using hle) g hg
        simp [rowBlocks, this]

theorem sectionSlots_cons (first : BarlineRun) (rest : List BarlineRun) (len : Nat) :
    sectionSlots (first :: rest) len =
      ((if 0 < first.attrStart then [none] else []) ++ (first :: rest).map some ++
          (if ((first :: rest).getLast (List.cons_ne_nil _ _)).attrEnd < len then [none] else []),
        (if 0 < first.attrStart then [(0, first.attrStart)] else []) ++
          (((first :: rest).zip rest).map fun (r, s) => (r.attrEnd, s.attrStart)) ++
          (if ((first :: rest).getLast (List.cons_ne_nil _ _)).attrEnd < len then
            [(((first :: rest).getLast (List.cons_ne_nil _ _)).attrEnd, len)] else [])) := by
  have hlast := List.getLast?_eq_some_getLast (List.cons_ne_nil first rest)
  unfold sectionSlots
  simp only [List.head?_cons, hlast, List.tail_cons]
  by_cases ha : 0 < first.attrStart <;>
    by_cases hb : ((first :: rest).getLast (List.cons_ne_nil _ _)).attrEnd < len <;>
    simp [ha, hb]

/-- From a run to the last one, barline extents and the gaps between them abut, and go on to
the row's end as the slots after the last run do. -/
theorem abutting_runs (len : Nat) (tail : List (Option BarlineRun)) (tailSpans : List (Nat × Nat)) :
    ∀ (r : BarlineRun) (rs : List BarlineRun),
      (r :: rs).Pairwise (fun r s => r.attrEnd ≤ s.attrStart) →
      (∀ s ∈ r :: rs, s.attrStart ≤ s.attrEnd) →
      Abutting (tailSpans.head?.toList ++ rowBlocks tail tailSpans.tail)
        ((r :: rs).getLast (List.cons_ne_nil r rs)).attrEnd len →
      Abutting (rowBlocks ((r :: rs).map some ++ tail)
        ((((r :: rs).zip rs).map fun (r, s) => (r.attrEnd, s.attrStart)) ++ tailSpans))
        r.attrStart len := by
  intro r rs
  induction rs generalizing r with
  | nil =>
    intro _ hext htail
    exact Abutting.cons (hext r List.mem_cons_self) htail
  | cons s rs ih =>
    intro hord hext htail
    have hrs : r.attrEnd ≤ s.attrStart := List.rel_of_pairwise_cons hord List.mem_cons_self
    have hrest := ih s (List.Pairwise.of_cons hord) (fun x hx => hext x (List.mem_cons_of_mem r hx))
      (by rwa [List.getLast_cons_cons] at htail)
    exact Abutting.cons (hext r List.mem_cons_self) (Abutting.cons hrs hrest)

/-- The slots of a row are its runs, with an empty `/` at each edge no run holds; there is one
section fewer than slots; and the barline extents and the sections' pieces, slot by slot, are a
partition of the row in order. -/
theorem sectionSlots_partition (runs : List BarlineRun) (len : Nat)
    (hord : runs.Pairwise fun r s => r.attrEnd ≤ s.attrStart)
    (hext : ∀ r ∈ runs, r.attrStart ≤ r.attrEnd) (hlen : ∀ r ∈ runs, r.attrEnd ≤ len) :
    (sectionSlots runs len).1 =
        (if 0 < (runs.head?.map (·.attrStart)).getD len then [none] else []) ++ runs.map some ++
          (if (runs.getLast?.map (·.attrEnd)).getD 0 < len then [none] else []) ∧
      (sectionSlots runs len).2.length = (sectionSlots runs len).1.length - 1 ∧
      Abutting (rowBlocks (sectionSlots runs len).1 (sectionSlots runs len).2) 0 len := by
  cases runs with
  | nil =>
    unfold sectionSlots
    by_cases hlen0 : 0 < len
    · simp only [List.head?_nil, List.getLast?_nil, hlen0, if_true]
      exact ⟨by simp [hlen0], rfl, Abutting.cons (Nat.zero_le len) (Abutting.nil len)⟩
    · have : len = 0 := by omega
      subst this
      exact ⟨rfl, rfl, Abutting.nil 0⟩
  | cons first rest =>
    have hlast := List.getLast?_eq_some_getLast (List.cons_ne_nil first rest)
    set last := (first :: rest).getLast (List.cons_ne_nil _ _) with hlast_def
    have hz : last.attrEnd ≤ len := hlen last (List.getLast_mem _)
    rw [sectionSlots_cons]
    refine ⟨by simp only [hlast, last, List.head?_cons, Option.map_some, Option.getD_some, List.map_cons, ← hlast_def]; congr, ?_, ?_⟩
    · have hzip : ((first :: rest).zip rest).length = rest.length := by simp
      simp only [List.length_append, List.length_map, hzip, List.length_cons]
      split <;> split <;> simp <;> omega
    · -- after the last run, a section up to the row's end when the run does not reach it
      have htail : Abutting ((if last.attrEnd < len then [(last.attrEnd, len)] else []).head?.toList ++
          rowBlocks (if last.attrEnd < len then [none] else [])
            (if last.attrEnd < len then [(last.attrEnd, len)] else []).tail) last.attrEnd len := by
        split
        · exact Abutting.cons hz (Abutting.nil len)
        · rw [show last.attrEnd = len by omega]
          exact Abutting.nil len
      have hruns := abutting_runs len _ _ first rest hord hext htail
      -- before the first run, a section from the row's start when the run does not start there
      split
      · exact Abutting.cons (Nat.zero_le _) hruns
      · rw [show first.attrStart = 0 by omega] at hruns
        simpa using hruns

/-- From the first run on, each gap lies between two runs, or after the last run up to the row's
end. -/
theorem runs_gap (first : BarlineRun) (rest : List BarlineRun) (len k : Nat)
    (post : List (Option BarlineRun)) (postSpans : List (Nat × Nat))
    (hpost : (post = [none] ∧ postSpans =
        [(((first :: rest).getLast (List.cons_ne_nil _ _)).attrEnd, len)] ∧
        ((first :: rest).getLast (List.cons_ne_nil _ _)).attrEnd < len) ∨
      (post = [] ∧ postSpans = []))
    (hk : k < rest.length + postSpans.length) :
    ∃ s t, ((first :: rest).map some ++ post)[k]? = some s ∧
      ((first :: rest).map some ++ post)[k + 1]? = some t ∧
      ((((first :: rest).zip rest).map fun (r, s) => (r.attrEnd, s.attrStart)) ++ postSpans)[k]? =
        some ((s.map (·.attrEnd)).getD 0, (t.map (·.attrStart)).getD len) ∧
      s.isSome ∧ (t = none → (s.map (·.attrEnd)).getD 0 < (t.map (·.attrStart)).getD len) := by
  have hgaps : ((first :: rest).zip rest).length = rest.length := by simp
  by_cases hkr : k < rest.length
  · -- between run `k` and run `k + 1`
    obtain ⟨r, hr⟩ : ∃ r, (first :: rest)[k]? = some r :=
      Option.isSome_iff_exists.1 (by simp; omega)
    obtain ⟨t, ht⟩ : ∃ t, rest[k]? = some t := Option.isSome_iff_exists.1 (by simp; omega)
    refine ⟨some r, some t, ?_, ?_, ?_, rfl, nofun⟩
    · rw [List.getElem?_append_left (by simp; omega), List.getElem?_map, hr]
      rfl
    · rw [List.getElem?_append_left (by simp; omega), List.getElem?_map, List.getElem?_cons_succ, ht]
      rfl
    · have hzip : ((first :: rest).zip rest)[k]? = some (r, t) :=
        List.getElem?_zip_eq_some.2 ⟨hr, ht⟩
      rw [List.getElem?_append_left (by simp; omega), List.getElem?_map, hzip]
      rfl
  · -- after the last run, when it does not reach the row's end
    rcases hpost with ⟨rfl, rfl, hlt⟩ | ⟨rfl, rfl⟩
    · obtain rfl : k = rest.length := by simp at hk; omega
      refine ⟨some ((first :: rest).getLast (List.cons_ne_nil _ _)), none, ?_, ?_, ?_, rfl,
        fun _ => hlt⟩
      · rw [List.getElem?_append_left (by simp), List.getElem?_map, List.getLast_eq_getElem,
          List.getElem?_eq_getElem (by simp)]
        simp
      · rw [List.getElem?_append_right (by simp)]
        simp
      · rw [List.getElem?_append_right (by simp)]
        simp
    · simp at hk
      omega

/-- Each section lies between its two slots: from the end of the barline before it, or the
row's start, to the start of the barline after it, or the row's end. -/
theorem sectionSlots_gap (runs : List BarlineRun) (len k : Nat)
    (hk : k < (sectionSlots runs len).2.length) :
    ∃ s t, (sectionSlots runs len).1[k]? = some s ∧ (sectionSlots runs len).1[k + 1]? = some t ∧
      (sectionSlots runs len).2[k]? =
        some ((s.map (·.attrEnd)).getD 0, (t.map (·.attrStart)).getD len) ∧
      (s = none → k = 0 ∧ (s.map (·.attrEnd)).getD 0 < (t.map (·.attrStart)).getD len) ∧
      (t = none → (s.map (·.attrEnd)).getD 0 < (t.map (·.attrStart)).getD len) := by
  cases runs with
  | nil =>
    unfold sectionSlots at hk ⊢
    by_cases hlen0 : 0 < len
    · simp only [List.head?_nil, List.getLast?_nil, hlen0, if_true, List.length_singleton] at hk ⊢
      obtain rfl : k = 0 := by omega
      exact ⟨none, none, rfl, rfl, rfl, fun _ => ⟨rfl, hlen0⟩, fun _ => hlen0⟩
    · simp [hlen0] at hk
  | cons first rest =>
    rw [sectionSlots_cons] at hk ⊢
    set last := (first :: rest).getLast (List.cons_ne_nil _ _) with hlast_def
    have hpost : ((if last.attrEnd < len then [none] else []) = [(none : Option BarlineRun)] ∧
        (if last.attrEnd < len then [(last.attrEnd, len)] else []) = [(last.attrEnd, len)] ∧
        last.attrEnd < len) ∨
        ((if last.attrEnd < len then [none] else []) = ([] : List (Option BarlineRun)) ∧
          (if last.attrEnd < len then [(last.attrEnd, len)] else []) = []) := by
      split
      · exact Or.inl ⟨rfl, rfl, by assumption⟩
      · exact Or.inr ⟨rfl, rfl⟩
    have hgaps : ((first :: rest).zip rest).length = rest.length := by simp
    simp only [List.length_append, hgaps, List.length_map] at hk
    -- before the first run, the section from the row's start when the run does not start there
    by_cases ha : 0 < first.attrStart
    · simp only [ha, if_true, List.length_singleton] at hk ⊢
      cases k with
      | zero => exact ⟨none, some first, rfl, rfl, rfl, fun _ => ⟨rfl, ha⟩, nofun⟩
      | succ k =>
        obtain ⟨s, t, hs, ht, hspan, hsome, hnone⟩ := runs_gap first rest len k _ _ hpost (by omega)
        refine ⟨s, t, hs, ht, hspan, fun h => ?_, hnone⟩
        rw [h] at hsome
        cases hsome
    · simp only [ha, if_false, List.length_nil] at hk ⊢
      obtain ⟨s, t, hs, ht, hspan, hsome, hnone⟩ := runs_gap first rest len k _ _ hpost (by omega)
      refine ⟨s, t, hs, ht, hspan, fun h => ?_, hnone⟩
      rw [h] at hsome
      cases hsome

/-! ## The sections between the slots -/

/-- The separator a row gives slot `k`: its run's glyph, read as `/|` when unknown, and its
span; or, where no run is, an empty `/` at the row's edge. -/
def SlotSeparator (edge : Nat × Nat) : Option BarlineRun × Nat → Separator → Prop
  | (some run, _), sep => sep.barline = (Barline.parse run.glyph).getD .slashBar ∧ sep.span = run.span
  | (none, k), sep => sep = Separator.virtualAt (if k = 0 then edge.1 else edge.2)

theorem separator_spec (rx : RowScope) (run : BarlineRun) (atBegin atEnd : Bool) :
    Always (rx.separator run atBegin atEnd) fun sep =>
      sep.barline = (Barline.parse run.glyph).getD .slashBar ∧ sep.span = run.span := by
  unfold RowScope.separator
  -- an unknown glyph is read as `/|`; the warnings and attributes leave glyph and span alone
  cases h : Barline.parse run.glyph
  all_goals
    simp only [pure_bind, Option.getD_none, Option.getD_some]
  on_goal 1 => refine Always.any.bind fun _ _ => ?_
  -- a warning may come before the end check and before the attributes, which are read last
  all_goals
    split
    on_goal 1 => refine Always.any.bind fun _ _ => ?_
    all_goals
      split
      on_goal 1 => refine Always.any.bind fun _ _ => ?_
      all_goals exact Always.any.bind fun _ _ => Always.any.bind fun _ _ =>
        Always.any.bind fun _ _ => Always.pure ⟨rfl, rfl⟩

/-- The range a section of the pieces `content` takes: from its first piece to its last, or
empty at the end of the separator before it. -/
def contentSpan (content : List Piece) (before : Separator) : Span :=
  match content.head?, content.getLast? with
  | some p, some q => p.span.join q.span
  | _, _ => Span.emptyAt before.span.stop

variable {α : Type}

/-- The `k`-th section of a row, read from the pieces `(a, b)` between the separators `before`
and `after`. -/
structure SectionBetween (items : List Piece) (k : Nat) (span : Nat × Nat)
    (before after : Separator) (sec : Section α) : Prop where
  index : sec.card.index = k
  opening : sec.separators.before = before
  closing : sec.separators.after = after
  range : sec.span = contentSpan (items.extract span.1 span.2) before

/-- The section read in a gap `((a, b), k)` of a row: the `k`-th, between the separators of
slots `k` and `k + 1`. -/
def SectionInGap (items : List Piece) (seps : List Separator) (gap : (Nat × Nat) × Nat)
    (sec : Section α) : Prop :=
  SectionBetween items gap.2 gap.1 (seps[gap.2]?.getD default) (seps[gap.2 + 1]?.getD default) sec

/-- The sections of a row, whatever the journal: one in each gap between two slots, between the
separators of those slots. -/
theorem readSections_slots [NoteHead α] (rx : RowScope) (items : List Piece) (source : PropsSource) :
    Always (readSections rx items source : Compiling (RowSections α)) fun rs =>
      ∃ seps : List Separator,
        List.Forall₂ (SlotSeparator (edges items.toArray))
          (sectionSlots (barlineRuns items.toArray) items.length).1.zipIdx seps ∧
        List.Forall₂ (SectionInGap items seps)
          (sectionSlots (barlineRuns items.toArray) items.length).2.zipIdx rs.sections := by
  unfold readSections
  simp only [List.size_toArray]
  refine (Always.mapM_list (SlotSeparator (edges items.toArray)) _ fun slotk _ => ?_).bind
    fun seps hseps => ?_
  · obtain ⟨slot, k⟩ := slotk
    cases slot with
    | some run => exact separator_spec rx run _ _
    | none => exact Always.pure (by simp [SlotSeparator])
  · refine (Always.foldlM (fun done (st : List (Section α) × MusicProps × MusicPatch) =>
        List.Forall₂ (SectionInGap items seps) done st.1)
        (fun done st gap hst => ?_) _ [] _ List.Forall₂.nil).bind fun res hres => ?_
    · -- one more section, whatever properties, body and serial it is read with
      obtain ⟨⟨a, b⟩, k⟩ := gap
      have hsec : ∀ (serial : Nat) (props : MusicProps) (body : SectionBody α),
          SectionInGap items seps ((a, b), k)
            ⟨⟨rx.line, k, serial⟩, contentSpan ((items.toArray.extract a b).toList)
              (seps[k]?.getD default), 0, 0, ⟨seps[k]?.getD default, seps[k + 1]?.getD default,
              (seps[k + 1]?.getD default).barline.before⟩, props, false, body⟩ :=
        fun _ _ _ => ⟨rfl, rfl, rfl, by simp⟩
      have hdone := fun serial props body => List.rel_append hst
        (List.Forall₂.cons (hsec serial props body) List.Forall₂.nil)
      dsimp only
      -- the properties come from the other row, or from the running context and a patch
      split
      · exact Always.any.bind fun _ _ => Always.any.bind fun _ _ => Always.any.bind fun _ _ =>
          Always.pure (hdone _ _ _)
      · refine Always.any.bind fun _ _ => ?_
        split
        all_goals exact Always.any.bind fun _ _ => Always.any.bind fun _ _ =>
          Always.any.bind fun _ _ => Always.pure (hdone _ _ _)
    · exact Always.pure ⟨seps, hseps, by simpa using hres⟩

/-! ## Each section lies between its barlines -/

theorem contentSpan_of_lt {items : List Piece} {a b : Nat} (hab : a < b) (hb : b ≤ items.length)
    (sep : Separator) :
    contentSpan (items.extract a b) sep = items[a].span.join items[b - 1].span := by
  have hhead : (items.extract a b).head? = some items[a] := by
    rw [List.head?_eq_getElem?, List.extract_eq_take_drop, List.getElem?_take_of_lt (by omega),
      List.getElem?_drop, Nat.add_zero, List.getElem?_eq_getElem]
  have hlast : (items.extract a b).getLast? = some items[b - 1] := by
    rw [List.getLast?_eq_getElem?]
    simp only [List.extract_eq_take_drop, List.length_take, List.length_drop]
    rw [show min (b - a) (items.length - a) - 1 = b - a - 1 by omega,
      List.getElem?_take_of_lt (by omega), List.getElem?_drop, show a + (b - a - 1) = b - 1 by omega,
      List.getElem?_eq_getElem]
  simp only [contentSpan, hhead, hlast]

theorem contentSpan_self (items : List Piece) (a : Nat) (sep : Separator) :
    contentSpan (items.extract a a) sep = Span.emptyAt sep.span.stop := by
  simp [contentSpan, List.extract_eq_take_drop]

namespace PiecesInOrder

variable {items : List Piece} (hin : PiecesInOrder items)
include hin

theorem span_of_reads {r : BarlineRun} {i stop : Nat} (h : r.Reads items i stop) :
    ∃ (hi : i < items.length) (hs : stop - 1 < items.length),
      r.span.start = items[i].span.start ∧ r.span.stop = items[stop - 1].span.stop := by
  obtain ⟨hi, hs, hspan⟩ := h.span
  have hle : i ≤ stop - 1 := by have := h.lt; omega
  refine ⟨hi, hs, ?_, ?_⟩
  · rw [hspan, Span.join]
    exact min_eq_left (hin.start_le_start hle hs)
  · rw [hspan, Span.join]
    exact max_eq_right (hin.stop_le_stop hle hs)

/-- The separator before a section ends before every piece of the section and after it. -/
theorem stop_le_of_slot {s : Option BarlineRun} {k : Nat} {sep : Separator}
    (hs : SlotSeparator (edges items.toArray) (s, k) sep) (hk : s = none → k = 0)
    (hread : ∀ r ∈ s, ∃ i stop, r.Reads items i stop) :
    ∀ n (hn : n < items.length), (s.map (·.attrEnd)).getD 0 ≤ n →
      sep.span.stop ≤ items[n].span.start := by
  intro n hn han
  cases s with
  | none =>
    -- the empty `/` at the row's start
    obtain rfl := hk rfl
    simp only [SlotSeparator, if_true] at hs
    subst hs
    have := hin.edge_le hn
    simpa [Separator.virtualAt, Span.emptyAt] using this
  | some r =>
    obtain ⟨i, stop, hr⟩ := hread r rfl
    obtain ⟨-, hs', -, hstop⟩ := hin.span_of_reads hr
    have hend := hr.stop_le_attrEnd
    have hlt := hr.lt
    simp only [SlotSeparator] at hs
    rw [hs.2, hstop]
    exact hin.stop_le_start (by simp at han; omega) hn

/-- The separator after a section starts after every piece of the section. -/
theorem le_start_of_slot {t : Option BarlineRun} {k : Nat} {sep : Separator}
    (ht : SlotSeparator (edges items.toArray) (t, k + 1) sep)
    (hread : ∀ r ∈ t, ∃ i stop, r.Reads items i stop) :
    ∀ n (hn : n < items.length), n < (t.map (·.attrStart)).getD items.length →
      items[n].span.stop ≤ sep.span.start := by
  intro n hn hnb
  cases t with
  | none =>
    -- the empty `/` at the row's end
    simp only [SlotSeparator, Nat.add_one_ne_zero, if_false] at ht
    subst ht
    have hlast : items.toArray.back? = some items[items.length - 1] := by
      simp [Array.back?, List.getElem?_eq_getElem (by omega : items.length - 1 < items.length)]
    simp only [Separator.virtualAt, Span.emptyAt, edges, hlast, Option.map_some, Option.getD_some]
    exact hin.stop_le_stop (by omega) (by omega)
  | some r =>
    obtain ⟨i, stop, hr⟩ := hread r rfl
    obtain ⟨hi, -, hstart, -⟩ := hin.span_of_reads hr
    have := hr.attrStart_le
    simp only [SlotSeparator] at ht
    rw [ht.2, hstart]
    exact hin.stop_le_start (by simp at hnb; omega) hi

/-- A section lies between the separators of its slots: its range starts where the barline
before it ends and ends where the barline after it starts. -/
theorem section_within {k a b : Nat} {s t : Option BarlineRun} {sep sep' : Separator}
    {sec : Section α} (hsec : SectionBetween items k (a, b) sep sep' sec)
    (hs : SlotSeparator (edges items.toArray) (s, k) sep)
    (ht : SlotSeparator (edges items.toArray) (t, k + 1) sep')
    (hreads : ∀ r ∈ s, ∃ i stop, r.Reads items i stop)
    (hreadt : ∀ r ∈ t, ∃ i stop, r.Reads items i stop)
    (ha : a = (s.map (·.attrEnd)).getD 0) (hb : b = (t.map (·.attrStart)).getD items.length)
    (hab : a ≤ b) (hbl : b ≤ items.length)
    (hnone : s = none → k = 0 ∧ a < b) (hnone' : t = none → a < b) :
    sep.span.stop ≤ sec.span.start ∧ sec.span.stop ≤ sep'.span.start := by
  rw [hsec.range]
  rcases Nat.lt_or_eq_of_le hab with hlt | rfl
  · -- a section with pieces spans from its first piece to its last
    rw [contentSpan_of_lt hlt hbl, Span.join]
    dsimp only
    rw [min_eq_left (hin.start_le_start (by omega) _), max_eq_right (hin.stop_le_stop (by omega) _)]
    exact ⟨hin.stop_le_of_slot hs (fun h => (hnone h).1) hreads a (by omega) (by omega),
      hin.le_start_of_slot ht hreadt (b - 1) (by omega) (by omega)⟩
  · -- an empty section stands at the end of its barline, before the next one
    rw [contentSpan_self]
    refine ⟨le_rfl, ?_⟩
    cases s with
    | none => exact absurd (hnone rfl).2 (Nat.lt_irrefl a)
    | some r =>
      obtain ⟨i, stop, hr⟩ := hreads r rfl
      obtain ⟨-, hs', -, hstop⟩ := hin.span_of_reads hr
      have hend := hr.stop_le_attrEnd
      have hlt := hr.lt
      simp only [SlotSeparator] at hs
      show sep.span.stop ≤ sep'.span.start
      rw [hs.2, hstop]
      exact hin.le_start_of_slot ht hreadt (stop - 1) hs' (by simp at ha; omega)

end PiecesInOrder

theorem forall₂_zipIdx_getElem? {β γ : Type} {R : β × Nat → γ → Prop} {xs : List β} {ys : List γ}
    (h : List.Forall₂ R xs.zipIdx ys) {k : Nat} {x : β} (hx : xs[k]? = some x) :
    ∃ y, ys[k]? = some y ∧ R (x, k) y := by
  have hk : k < xs.length := (List.getElem?_eq_some_iff.1 hx).1
  have hlen := h.length_eq
  simp only [List.length_zipIdx] at hlen
  have hget := h.get (by simpa using hk) (by omega : k < ys.length)
  simp only [List.get_eq_getElem, List.getElem_zipIdx, Nat.zero_add] at hget
  rw [List.getElem?_eq_getElem hk, Option.some.injEq] at hx
  exact ⟨ys[k], List.getElem?_eq_getElem _, hx ▸ hget⟩

theorem forall₂_zipIdx_getElem?_right {β γ : Type} {R : β × Nat → γ → Prop} {xs : List β}
    {ys : List γ} (h : List.Forall₂ R xs.zipIdx ys) {k : Nat} {y : γ} (hy : ys[k]? = some y) :
    ∃ x, xs[k]? = some x ∧ R (x, k) y := by
  have hlen := h.length_eq
  rw [List.length_zipIdx] at hlen
  have hk : k < xs.length := hlen ▸ (List.getElem?_eq_some_iff.1 hy).1
  obtain ⟨y', hy', hR⟩ := forall₂_zipIdx_getElem? h (List.getElem?_eq_getElem hk)
  rw [hy, Option.some.injEq] at hy'
  exact ⟨_, List.getElem?_eq_getElem hk, hy' ▸ hR⟩

/-- Next to each other in a row, a section ends with the separator the next one starts with:
both are the separator of the slot between their gaps. -/
theorem SectionInGap.after_eq_before {items : List Piece} {seps : List Separator}
    {gaps : List (Nat × Nat)} {secs : List (Section α)}
    (h : List.Forall₂ (SectionInGap items seps) gaps.zipIdx secs) (k : Nat)
    (hk : k + 1 < secs.length) :
    secs[k].separators.after = secs[k + 1].separators.before := by
  have hlen : gaps.length = secs.length := by
    simpa only [List.length_zipIdx] using h.length_eq
  have hg : gaps[k]? = some gaps[k] := List.getElem?_eq_getElem (by omega)
  have hg' : gaps[k + 1]? = some gaps[k + 1] := List.getElem?_eq_getElem (by omega)
  obtain ⟨y, hy, hk0⟩ := forall₂_zipIdx_getElem? h hg
  obtain ⟨y', hy', hk1⟩ := forall₂_zipIdx_getElem? h hg'
  rw [List.getElem?_eq_getElem (by omega), Option.some.injEq] at hy hy'
  rw [hy, hy', hk0.closing, hk1.opening]

/-- A section read in gap `k` of a row whose pieces stand in order lies between the separators
of slots `k` and `k + 1`, which it opens and closes with. -/
theorem SectionInGap.between_slots {items : List Piece} (hin : PiecesInOrder items)
    {seps : List Separator}
    (hseps : List.Forall₂ (SlotSeparator (edges items.toArray))
      (sectionSlots (barlineRuns items.toArray) items.length).1.zipIdx seps)
    {k a b : Nat} (hgk : (sectionSlots (barlineRuns items.toArray) items.length).2[k]? = some (a, b))
    {sec : Section α} (hgap : SectionInGap items seps ((a, b), k) sec) :
    ∃ s t sep sep', (sectionSlots (barlineRuns items.toArray) items.length).1[k]? = some s ∧
      (sectionSlots (barlineRuns items.toArray) items.length).1[k + 1]? = some t ∧
      SlotSeparator (edges items.toArray) (s, k) sep ∧
      SlotSeparator (edges items.toArray) (t, k + 1) sep' ∧ (s = none → k = 0) ∧
      sec.separators.before = sep ∧ sec.separators.after = sep' ∧
      sep.span.stop ≤ sec.span.start ∧ sec.span.stop ≤ sep'.span.start := by
  obtain ⟨i, -, hread⟩ := barlineRuns_read items
  change RunsRead items i (barlineRuns items.toArray) at hread
  have hext : ∀ r ∈ barlineRuns items.toArray, r.attrStart ≤ r.attrEnd := fun r hr => by
    obtain ⟨_, _, h⟩ := hread.reads r hr
    exact h.attrStart_lt_attrEnd.le
  have hlen : ∀ r ∈ barlineRuns items.toArray, r.attrEnd ≤ items.length := fun r hr => by
    obtain ⟨_, _, h⟩ := hread.reads r hr
    exact h.attrEnd_le
  obtain ⟨hslots, hcount, habut⟩ := sectionSlots_partition _ items.length hread.ordered hext hlen
  -- every run in a slot is a run read from the row
  have hslotReads : ∀ s ∈ (sectionSlots (barlineRuns items.toArray) items.length).1,
      ∀ r ∈ s, ∃ i stop, r.Reads items i stop := by
    intro s hs r hr
    rw [hslots] at hs
    simp only [List.mem_append, List.mem_map] at hs
    rcases hs with (hs | ⟨r', hr', rfl⟩) | hs
    · split at hs <;> simp_all
    · exact hread.reads r (Option.some_inj.1 hr ▸ hr')
    · split at hs <;> simp_all
  -- the gap lies between two slots, whose separators bound the section
  have hk := (List.getElem?_eq_some_iff.1 hgk).1
  obtain ⟨s, t, hs, ht, hspan, hnone, hnone'⟩ := sectionSlots_gap _ items.length k hk
  rw [hgk, Option.some.injEq, Prod.mk.injEq] at hspan
  obtain ⟨ha, hb⟩ := hspan
  obtain ⟨sep, hsep, hsepk⟩ := forall₂_zipIdx_getElem? hseps hs
  obtain ⟨sep', hsep', hsepk'⟩ := forall₂_zipIdx_getElem? hseps ht
  have hbetween : SectionBetween items k (a, b) sep sep' sec := by
    have h := hgap
    simp only [SectionInGap, hsep, hsep', Option.getD_some] at h
    exact h
  obtain ⟨-, hab, hbl⟩ := habut.mem_le (a, b) (mem_rowBlocks _ _ (by omega) _
    (List.mem_of_getElem? hgk))
  have hwithin := hin.section_within hbetween hsepk hsepk'
    (hslotReads s (List.mem_of_getElem? hs)) (hslotReads t (List.mem_of_getElem? ht))
    ha hb hab hbl (fun h => ha ▸ hb ▸ hnone h) (fun h => ha ▸ hb ▸ hnone' h)
  exact ⟨s, t, sep, sep', hs, ht, hsepk, hsepk', fun h => (hnone h).1, hbetween.opening,
    hbetween.closing, hwithin⟩

/-- **Sections and barlines alternate.** The barline runs of a row are its maximal runs of
touching barline symbols, in order, with every barline symbol in one of them. The slots are
the runs, with an empty `/` at each edge of the row that no run holds. The barlines' extents
and the sections' pieces, taken slot by slot, are a partition of the row's pieces in order. The
reaches are one per gap. Reading the row gives one section per gap, so one fewer than slots,
each between the separators of its two slots, each section's closing separator the next one's
opening separator; and, when the pieces stand in order, each section's range lies between the
end of the barline before it and the start of the barline after it. -/
theorem sections_alternate [NoteHead α] (rx : RowScope) (items : List Piece) (source : PropsSource) :
    let runs := barlineRuns items.toArray
    let slots := (sectionSlots runs items.length).1
    let gaps := (sectionSlots runs items.length).2
    ((∀ r ∈ runs, ∃ i stop, r.Reads items i stop) ∧
      runs.Pairwise (fun r s => r.attrEnd ≤ s.attrStart) ∧
      ∀ k (hk : k < items.length), items[k].isBarlineSymbol = true →
        ∃ r ∈ runs, ∃ i stop, r.Reads items i stop ∧ i ≤ k ∧ k < stop) ∧
    slots = (if 0 < (runs.head?.map (·.attrStart)).getD items.length then [none] else []) ++
      runs.map some ++ (if (runs.getLast?.map (·.attrEnd)).getD 0 < items.length then [none] else []) ∧
    Abutting (rowBlocks slots gaps) 0 items.length ∧
    (∀ k < items.length, ∃! j : Nat, ∃ blk : Nat × Nat,
      (rowBlocks slots gaps)[j]? = some blk ∧ blk.1 ≤ k ∧ k < blk.2) ∧
    (sectionReach items).length = gaps.length ∧
    Always (readSections rx items source : Compiling (RowSections α)) fun rs =>
      rs.sections.length = slots.length - 1 ∧
      (∃ seps : List Separator, List.Forall₂ (SlotSeparator (edges items.toArray)) slots.zipIdx seps ∧
        List.Forall₂ (SectionInGap items seps) gaps.zipIdx rs.sections) ∧
      (∀ k (hk : k + 1 < rs.sections.length),
        rs.sections[k].separators.after = rs.sections[k + 1].separators.before) ∧
      (PiecesInOrder items → ∀ sec ∈ rs.sections,
        sec.separators.before.span.stop ≤ sec.span.start ∧
          sec.span.stop ≤ sec.separators.after.span.start) := by
  intro runs slots gaps
  obtain ⟨i, hi, hread⟩ := barlineRuns_read items
  change RunsRead items i runs at hread
  have hext : ∀ r ∈ runs, r.attrStart ≤ r.attrEnd := fun r hr => by
    obtain ⟨_, _, h⟩ := hread.reads r hr
    exact h.attrStart_lt_attrEnd.le
  have hlen : ∀ r ∈ runs, r.attrEnd ≤ items.length := fun r hr => by
    obtain ⟨_, _, h⟩ := hread.reads r hr
    exact h.attrEnd_le
  obtain ⟨hslots, hcount, habut⟩ := sectionSlots_partition runs items.length hread.ordered hext hlen
  change slots = _ at hslots
  change gaps.length = slots.length - 1 at hcount
  change Abutting (rowBlocks slots gaps) 0 items.length at habut
  refine ⟨⟨hread.reads, hread.ordered, fun k hk hbar => hread.covered k hk (by omega) hbar⟩,
    hslots, habut, fun k hk => habut.unique k k.zero_le hk, by simp [sectionReach]; rfl, ?_⟩
  refine (readSections_slots rx items source).imp fun rs hrs => ?_
  obtain ⟨seps, hseps, hsecs⟩ := hrs
  have hsecLen : gaps.length = rs.sections.length := by
    simpa only [List.length_zipIdx] using hsecs.length_eq
  refine ⟨by omega, ⟨seps, hseps, hsecs⟩, fun k hk => ?_, fun hin sec hsec => ?_⟩
  · exact SectionInGap.after_eq_before hsecs k hk
  · -- the section sits in its gap, between the separators of the gap's two slots
    obtain ⟨⟨⟨a, b⟩, k⟩, hmem, hgap⟩ := forall₂_mem_right hsecs sec hsec
    obtain ⟨-, -, sep, sep', -, -, -, -, -, hbefore, hafter, hwithin⟩ :=
      SectionInGap.between_slots hin hseps (List.mem_zipIdx_iff_getElem?.1 hmem) hgap
    rw [hbefore, hafter]
    exact hwithin

end Jianpu
