import Mathlib
import Jianpu.Score.Columns
import Jianpu.Proofs.Frac.Order
/-!
# The time axis of a timeline

`Timeline.allocate` gives every column a start and a length. The starts are a running sum:

* `columnsOf_laid` — column `k` has index `k`, starts at `startOf k` and lasts
  `columnQuarters k`, where `startOf` adds the lengths of the columns before it;
* `columnQuarters_longest` — a column lasts the longest finite positive length its sections
  ask (`asked`), or one quarter where none does, as long as the lengths asked are proper and
  none is `+∞`;
* `EndToEnd.start_exact` — along columns laid end to end whose lengths are readable, proper
  and positive, each start is the exact sum of the lengths before it while every partial sum
  fits in words, and indeterminate from the first one that does not; `EndToEnd.start_lt` — so
  a finite start lies strictly after the one before it.

The sum is not always finite: a few columns of a large time signature overflow it, and from
there on every start is the indeterminate value.
-/

namespace Jianpu
open Frac

theorem foldl_range_induction {β : Type} (P : Nat → β → Prop) (f : β → Nat → β) (b : β)
    (h0 : P 0 b) (hstep : ∀ k x, P k x → P (k + 1) (f x k)) (n : Nat) :
    P n ((List.range n).foldl f b) := by
  induction n with
  | zero => exact h0
  | succ n ih =>
    rw [List.range_succ, List.foldl_append, List.foldl_cons, List.foldl_nil]
    exact hstep n _ ih

/-! ## The largest of a list -/

theorem maxFrac_foldl_some (xs : List Frac) (a : Frac) :
    ∃ m, xs.foldl (fun acc x => some (match acc with
      | some a => Frac.max a x
      | none => x)) (some a) = some m ∧ (m = a ∨ m ∈ xs) ∧
      ((Proper a ∧ ∀ x ∈ xs, Proper x) → rank a ≤ rank m ∧ ∀ x ∈ xs, rank x ≤ rank m) := by
  induction xs generalizing a with
  | nil => exact ⟨a, rfl, Or.inl rfl, fun _ => ⟨le_rfl, by simp⟩⟩
  | cons x xs ih =>
    obtain ⟨m, hm, hmem, hrank⟩ := ih (Frac.max a x)
    refine ⟨m, hm, ?_, fun ⟨ha, hxs⟩ => ?_⟩
    · -- the running maximum is one of the two it compared
      have hmax : Frac.max a x = a ∨ Frac.max a x = x := by
        unfold Frac.max
        split <;> simp
      rcases hmem with rfl | h
      · rcases hmax with h | h <;> simp [h]
      · exact Or.inr (List.mem_cons_of_mem x h)
    · have hx : Proper x := hxs x List.mem_cons_self
      have hmaxp : Proper (Frac.max a x) := by
        unfold Frac.max
        split
        · exact hx
        · exact ha
      obtain ⟨hle, hall⟩ := hrank ⟨hmaxp, fun y hy => hxs y (List.mem_cons_of_mem x hy)⟩
      rw [rank_max ha hx] at hle
      refine ⟨le_trans (le_max_left _ _) hle, ?_⟩
      intro y hy
      rcases List.mem_cons.1 hy with rfl | hy
      · exact le_trans (le_max_right _ _) hle
      · exact hall y hy

/-- `maxFrac` finds nothing only in the empty list, and otherwise a member of the highest
rank, when every member is proper. -/
theorem maxFrac_spec {xs : List Frac} (hxs : ∀ x ∈ xs, Proper x) :
    match maxFrac xs with
    | none => xs = []
    | some m => m ∈ xs ∧ ∀ x ∈ xs, rank x ≤ rank m := by
  cases xs with
  | nil => rfl
  | cons x xs =>
    obtain ⟨m, hm, hmem, hrank⟩ := maxFrac_foldl_some xs x
    have hfold : maxFrac (x :: xs) = some m := hm
    rw [hfold]
    obtain ⟨hle, hall⟩ := hrank ⟨hxs x List.mem_cons_self,
      fun y hy => hxs y (List.mem_cons_of_mem x hy)⟩
    refine ⟨?_, fun y hy => ?_⟩
    · rcases hmem with rfl | h
      · exact List.mem_cons_self
      · exact List.mem_cons_of_mem x h
    · rcases List.mem_cons.1 hy with rfl | hy
      · exact hle
      · exact hall y hy

/-- `q` is the longest finite positive length among `xs`, or one quarter where `xs` has
none. -/
def LongestOrOne (xs : List Frac) (q : Frac) : Prop :=
  ((∃ x ∈ xs, x.isFinite ∧ 0 < x) →
    q ∈ xs ∧ q.isFinite ∧ 0 < q ∧ ∀ x ∈ xs, x.isFinite → 0 < x → x ≤ q) ∧
  ((∀ x ∈ xs, ¬(x.isFinite ∧ 0 < x)) → q = 1)

/-- What a section asks of its column: for written notes, the time signature's section length
unless the barline after it has a `/` in its glyph or there is no time signature, and then the
written length; for an omission or an empty section, the section length when a time signature
is set; and nothing for a placeholder. -/
theorem Section.stat_eq {α : Type} (s : Section α) :
    s.stat = match s.body with
      | .content c => some (if '/' ∈ s.separators.after.barline.glyph.toList then c.totalQuarters
          else (s.props.meter.map Meter.sectionQuarters).getD c.totalQuarters)
      | .omit _ | .empty => s.props.meter.map Meter.sectionQuarters
      | .nullish => none := by
  unfold Section.stat constrainedLength Barline.isUnconstrained
  cases s.body
  case content c =>
    by_cases h : '/' ∈ s.separators.after.barline.glyph.toList
    · simp [h]
    · simp [h]
  all_goals rfl

namespace Timeline

/-! ## Columns, one per index -/

def width (t : Timeline) : Nat := (t.voices[0]?.map (·.notes.size)).getD 0

def startOf (t : Timeline) : Nat → Frac
  | 0 => 0
  | k + 1 => t.startOf k + t.columnQuarters k

def Laid (t : Timeline) (n : Nat) (cols : Array Column) : Prop :=
  cols.size = n ∧ ∀ k (h : k < cols.size), cols[k].index = k ∧ cols[k].startPos = t.startOf k ∧
    cols[k].quarters = t.columnQuarters k

theorem columnsOf_laid (t : Timeline) : t.Laid t.width t.columnsOf := by
  unfold columnsOf
  refine foldl_range_induction t.Laid _ _ ⟨rfl, fun k h => absurd h (by simp)⟩ ?_ _
  rintro n cols ⟨hsize, hcols⟩
  refine ⟨by simp [hsize], fun k hk => ?_⟩
  rw [Array.size_push] at hk
  rcases Nat.lt_or_ge k cols.size with hlt | hge
  · rw [Array.getElem_push_lt hlt]
    exact hcols k hlt
  · obtain rfl : k = n := by omega
    rw [Array.getElem_push, dif_neg (by omega)]
    refine ⟨rfl, ?_, rfl⟩
    -- the new column starts where the last one laid ends
    cases k with
    | zero =>
      have hb : cols.back? = none := by simp [Array.back?, hsize]
      simp only [hb]
      rfl
    | succ m =>
      have hb : cols.back? = some cols[m] := by
        simp [Array.back?, hsize]
      obtain ⟨-, hstart, hquarters⟩ := hcols m (by omega)
      simp only [hb, hstart, hquarters]
      rfl

/-! ## What the sections ask -/

def asked (t : Timeline) (k : Nat) : List Frac :=
  (t.voices.toList.flatMap (·.stats k)).filterMap id

theorem stat_placeRow {α : Type} (cols : Array Column) (row : Array (Section α)) (k : Nat) :
    (placeRow cols row)[k]?.map Section.stat = row[k]?.map Section.stat := by
  unfold placeRow
  rw [Array.getElem?_mapIdx]
  cases row[k]? with
  | none => rfl
  | some s =>
    simp only [Option.map_some]
    split <;> rfl

theorem stat_placeRow_bind (cols : Array Column) (sub : Option (Array (Section Pitch)))
    (k : Nat) :
    ((sub.map (placeRow cols)).bind (·[k]?)).map Section.stat =
      (sub.bind (·[k]?)).map Section.stat := by
  cases sub with
  | none => rfl
  | some row => exact stat_placeRow cols row k

theorem asked_allocate (t : Timeline) (k : Nat) : t.allocate.asked k = t.asked k := by
  unfold asked allocate
  simp only [Array.toList_map, List.flatMap_map]
  congr 2
  funext v
  simp only [Voice.stats, stat_placeRow, Array.toList_map, List.filterMap_map,
    Function.comp_def, stat_placeRow_bind]

/-- A column lasts the longest finite positive length its sections ask, or one quarter. -/
theorem columnQuarters_longest (t : Timeline) (k : Nat)
    (hp : ∀ x ∈ t.asked k, Proper x ∧ x ≠ infinite false) :
    LongestOrOne (t.asked k) (t.columnQuarters k) := by
  have hspec := maxFrac_spec fun x hx => (hp x hx).1
  show LongestOrOne _ (((maxFrac (t.asked k)).filter fun q =>
    q.isFinite && Frac.compare q 0 == .gt).getD 1)
  revert hspec
  cases maxFrac (t.asked k) with
  | none =>
    intro hnil
    rw [hnil]
    exact ⟨fun ⟨x, hx, _⟩ => absurd hx List.not_mem_nil, fun _ => rfl⟩
  | some m =>
    rintro ⟨hmem, hle⟩
    have hm : Proper m := (hp m hmem).1
    by_cases hpos : m.isFinite ∧ Frac.compare m 0 = .gt
    · have hkeep : (some m).filter (fun q => q.isFinite && Frac.compare q 0 == .gt) = some m := by
        simp [hpos.1, hpos.2]
      rw [hkeep, Option.getD_some]
      refine ⟨fun _ => ⟨hmem, hpos.1, (pos_iff_compare hm).2 hpos.2, ?_⟩, fun hnone => ?_⟩
      · intro x hx _ _
        exact (le_iff_rank (hp x hx).1 hm).2 (hle x hx)
      · exact absurd ⟨hpos.1, (pos_iff_compare hm).2 hpos.2⟩ (hnone m hmem)
    · have hdrop : (some m).filter (fun q => q.isFinite && Frac.compare q 0 == .gt) = none := by
        simp only [Option.filter_some, Bool.and_eq_true, beq_iff_eq]
        rw [if_neg hpos]
      rw [hdrop, Option.getD_none]
      refine ⟨fun ⟨x, hx, hfin, hxpos⟩ => ?_, fun _ => rfl⟩
      -- a finite positive length would lift the largest above zero
      have hx : Proper x := (hp x hx).1
      have h0 : rank 0 < rank m :=
        lt_of_lt_of_le ((lt_iff_rank proper_zero hx).1 hxpos) (hle x ‹_›)
      exact absurd (finite_pos_of_rank hm (hp m hmem).2 h0) hpos

/-- Over readable proper lengths, a column lasts a readable proper positive length. -/
theorem columnQuarters_sound (t : Timeline) (k : Nat)
    (hr : ∀ x ∈ t.asked k, Readable x ∧ Proper x) :
    ∃ v, (t.columnQuarters k).value? = some v ∧ 0 < v ∧ Readable (t.columnQuarters k) ∧
      Proper (t.columnQuarters k) := by
  have hone : ∃ v, (1 : Frac).value? = some v ∧ 0 < v ∧ Readable 1 ∧ Proper 1 :=
    ⟨1, by decide +kernel, one_pos, by decide, proper_make 1 1⟩
  have hspec := maxFrac_spec fun x hx => (hr x hx).2
  have hq : t.columnQuarters k = ((maxFrac (t.asked k)).filter fun q =>
    q.isFinite && Frac.compare q 0 == .gt).getD 1 := rfl
  rw [hq]
  revert hspec
  cases maxFrac (t.asked k) with
  | none => exact fun _ => hone
  | some m =>
    rintro ⟨hmem, -⟩
    by_cases hpos : m.isFinite ∧ Frac.compare m 0 = .gt
    · have hkeep : (some m).filter (fun q => q.isFinite && Frac.compare q 0 == .gt) = some m := by
        simp [hpos.1, hpos.2]
      rw [hkeep, Option.getD_some]
      obtain ⟨v, hv, hvpos⟩ := (finite_pos_iff (hr m hmem).2).1 hpos
      exact ⟨v, hv, hvpos, hr m hmem⟩
    · have hdrop : (some m).filter (fun q => q.isFinite && Frac.compare q 0 == .gt) = none := by
        simp only [Option.filter_some, Bool.and_eq_true, beq_iff_eq]
        rw [if_neg hpos]
      rw [hdrop, Option.getD_none]
      exact hone

end Timeline

/-! ## Starts laid end to end -/

def elapsed (cols : Array Column) : Nat → ℚ
  | 0 => 0
  | k + 1 => elapsed cols k + ((cols[k]?.bind (·.quarters.value?)).getD 0)

theorem elapsed_succ {cols : Array Column} {k : Nat} {v : ℚ} (h : k < cols.size)
    (hv : cols[k].quarters.value? = some v) : elapsed cols (k + 1) = elapsed cols k + v := by
  simp [elapsed, h, hv]

/-- Columns laid end to end: the first starts at zero and each next one where the one before
it ends. -/
structure EndToEnd (cols : Array Column) : Prop where
  first : ∀ h : 0 < cols.size, cols[0].startPos = 0
  next : ∀ k (h : k + 1 < cols.size), cols[k + 1].startPos = cols[k].startPos + cols[k].quarters

def Measured (cols : Array Column) : Prop :=
  ∀ k (h : k < cols.size), ∃ v, cols[k].quarters.value? = some v ∧ 0 < v ∧
    Readable cols[k].quarters ∧ Proper cols[k].quarters

theorem Measured.elapsed_lt {cols : Array Column} (hm : Measured cols) (k : Nat)
    (h : k < cols.size) : elapsed cols k < elapsed cols (k + 1) := by
  obtain ⟨v, hv, hpos, -⟩ := hm k h
  rw [elapsed_succ h hv]
  linarith

namespace EndToEnd

variable {cols : Array Column} (he : EndToEnd cols)
include he

theorem start_sound (k : Nat) (h : k < cols.size) :
    Readable cols[k].startPos ∧ Proper cols[k].startPos := by
  cases k with
  | zero =>
    rw [he.first h]
    exact ⟨by decide, proper_zero⟩
  | succ k =>
    rw [he.next k h]
    exact ⟨readable_add .., proper_add ..⟩

/-- **The running sum.** Each start is the exact sum of the lengths before it while every
partial sum up to it fits in words, and the indeterminate value from the first one that
does not. -/
theorem start_exact (hm : Measured cols) (k : Nat) (h : k < cols.size) :
    ((∀ j ≤ k, InWords (elapsed cols j)) ∧ cols[k].startPos.value? = some (elapsed cols k)) ∨
      ((∃ j ≤ k, ¬InWords (elapsed cols j)) ∧ cols[k].startPos = indeterminate) := by
  induction k with
  | zero =>
    have hzero : InWords (elapsed cols 0) := by
      simp [elapsed, InWords, Decimal.i64Min, Decimal.i64Max]
    refine Or.inl ⟨fun j hj => ?_, ?_⟩
    · obtain rfl : j = 0 := by omega
      exact hzero
    · rw [he.first h]
      show (0 : Frac).value? = some 0
      decide +kernel
  | succ k ih =>
    obtain ⟨v, hv, -, hrq, hpq⟩ := hm k (by omega)
    have hsum := elapsed_succ (by omega) hv
    rw [he.next k h]
    rcases ih (by omega) with ⟨hall, hval⟩ | ⟨⟨j, hj, hbad⟩, hind⟩
    · -- the start so far is exact: the next one is its exact sum, or the sum overflows here
      obtain ⟨hrs, hps⟩ := he.start_sound k (by omega)
      have hex := (add_exact_step hval hv hrs hrq hps hpq).1
      rw [← hsum] at hex
      unfold Exact at hex
      by_cases hw : InWords (elapsed cols (k + 1))
      · rw [if_pos hw] at hex
        refine Or.inl ⟨fun j hj => ?_, hex⟩
        rcases Nat.lt_or_ge j (k + 1) with hlt | hge
        · exact hall j (by omega)
        · obtain rfl : j = k + 1 := by omega
          exact hw
      · rw [if_neg hw] at hex
        exact Or.inr ⟨⟨k + 1, le_rfl, hw⟩, hex⟩
    · -- once indeterminate, the start stays so
      rw [hind, indeterminate_add]
      exact Or.inr ⟨⟨j, by omega, hbad⟩, rfl⟩

theorem start_lt (hm : Measured cols) (k : Nat) (h : k + 1 < cols.size)
    (hfin : cols[k + 1].startPos.isFinite = true) :
    cols[k].startPos.isFinite = true ∧ cols[k].startPos < cols[k + 1].startPos := by
  rcases he.start_exact hm (k + 1) h with ⟨hall, hnext⟩ | ⟨-, hind⟩
  · have hthis : cols[k].startPos.value? = some (elapsed cols k) := by
      rcases he.start_exact hm k (by omega) with ⟨-, hval⟩ | ⟨⟨j, hj, hbad⟩, -⟩
      · exact hval
      · exact absurd (hall j (by omega)) hbad
    refine ⟨Frac.isFinite_of_value? hthis, ?_⟩
    rw [lt_iff_rank (he.start_sound k (by omega)).2 (he.start_sound (k + 1) h).2,
      rank_of_value? hthis, rank_of_value? hnext]
    simp only [WithBot.coe_lt_coe, WithTop.coe_lt_coe]
    exact hm.elapsed_lt k (by omega)
  · rw [hind] at hfin
    cases hfin

end EndToEnd

namespace Timeline

theorem allocate_endToEnd (t : Timeline) : EndToEnd t.allocate.columns := by
  show EndToEnd t.columnsOf
  obtain ⟨-, hcols⟩ := t.columnsOf_laid
  refine ⟨fun h => (hcols 0 h).2.1, fun k h => ?_⟩
  rw [(hcols (k + 1) h).2.1, (hcols k (by omega)).2.1, (hcols k (by omega)).2.2]
  rfl

theorem allocate_measured (t : Timeline) (hr : ∀ k, ∀ x ∈ t.asked k, Readable x ∧ Proper x) :
    Measured t.allocate.columns := by
  show Measured t.columnsOf
  obtain ⟨-, hcols⟩ := t.columnsOf_laid
  intro k h
  rw [(hcols k h).2.2]
  exact t.columnQuarters_sound k (hr k)

/-- **The time axis.** A section asks of its column the length `Section.stat_eq` describes.
The columns `allocate` lays run end to end from zero, each next one
starting where the one before it ends. A column lasts the longest finite positive length that
any row's section asks of it, or one quarter where none does, when every length asked is proper
and none is `+∞`. When every length asked is readable and proper, each start is the exact sum of
the lengths of the columns before it as long as every partial sum up to it fits in words, and
the indeterminate value from the first partial sum that does not; so a finite start lies
strictly after the start before it, which is finite too. -/
theorem allocate_time_axis (t : Timeline) :
    (∀ (α : Type) (s : Section α), s.stat = match s.body with
      | .content c => some (if '/' ∈ s.separators.after.barline.glyph.toList then c.totalQuarters
          else (s.props.meter.map Meter.sectionQuarters).getD c.totalQuarters)
      | .omit _ | .empty => s.props.meter.map Meter.sectionQuarters
      | .nullish => none) ∧
    EndToEnd t.allocate.columns ∧
    (∀ k (h : k < t.allocate.columns.size),
      (∀ x ∈ t.allocate.asked k, Proper x ∧ x ≠ infinite false) →
        LongestOrOne (t.allocate.asked k) t.allocate.columns[k].quarters) ∧
    ((∀ k, ∀ x ∈ t.allocate.asked k, Readable x ∧ Proper x) →
      ∀ k (h : k < t.allocate.columns.size),
        (((∀ j ≤ k, InWords (elapsed t.allocate.columns j)) ∧
            t.allocate.columns[k].startPos.value? = some (elapsed t.allocate.columns k)) ∨
          ((∃ j ≤ k, ¬InWords (elapsed t.allocate.columns j)) ∧
            t.allocate.columns[k].startPos = indeterminate)) ∧
        (∀ h' : k + 1 < t.allocate.columns.size,
          t.allocate.columns[k + 1].startPos.isFinite = true →
            t.allocate.columns[k].startPos.isFinite = true ∧
              t.allocate.columns[k].startPos < t.allocate.columns[k + 1].startPos)) := by
  have he := t.allocate_endToEnd
  refine ⟨fun _ s => s.stat_eq, he, fun k h hp => ?_, fun hr k h => ?_⟩
  · obtain ⟨-, hcols⟩ := t.columnsOf_laid
    have hq : t.allocate.columns[k].quarters = t.columnQuarters k := (hcols k h).2.2
    rw [hq, asked_allocate] at *
    exact t.columnQuarters_longest k hp
  · have hm : Measured t.allocate.columns :=
      t.allocate_measured fun j x hx => hr j x (by rwa [asked_allocate])
    exact ⟨he.start_exact hm k h, fun h' hfin => he.start_lt hm k h' hfin⟩

/-- `n` sections of a time signature `value/1` with nothing written, in one voice: each asks
`4 * value` quarters of its column. -/
def ofMeasures (value : Int) (n : Nat) : Timeline :=
  let s : Section Pitch :=
    { (Section.nullish 0 0 { meter := some ⟨value, 1, .none, []⟩ } : Section Pitch) with
      body := .empty }
  ⟨0, none, {}, #[], #[⟨"", [], Array.replicate n s, #[], #[], #[], #[]⟩], #[], #[]⟩

theorem asked_ofMeasures (value : Int) (n k : Nat) :
    (ofMeasures value n).asked k =
      if k < n then [Meter.sectionQuarters ⟨value, 1, .none, []⟩] else [] := by
  unfold asked ofMeasures
  by_cases h : k < n
  · simp [Voice.stats, h, Section.stat, Section.nullish]
  · simp [Voice.stats, h]

/-- Two sections of `1/1` ask four quarters each, and the second column starts after four. -/
theorem ofMeasures_second_start :
    (∀ k, ∀ x ∈ (ofMeasures 1 2).allocate.asked k, Readable x ∧ Proper x) ∧
      ∃ h : 1 < (ofMeasures 1 2).allocate.columns.size,
        (ofMeasures 1 2).allocate.columns[1].startPos.value? = some 4 := by
  have hr : ∀ k, ∀ x ∈ (ofMeasures 1 2).allocate.asked k, Readable x ∧ Proper x := by
    intro k x hx
    rw [asked_allocate, asked_ofMeasures] at hx
    split at hx
    · rw [List.mem_singleton.1 hx]
      exact ⟨by decide, proper_mul ..⟩
    · cases hx
  have h : 1 < (ofMeasures 1 2).allocate.columns.size := by decide +kernel
  refine ⟨hr, h, ?_⟩
  rcases ((allocate_time_axis _).2.2.2 hr 1 h).1 with ⟨-, hv⟩ | ⟨⟨j, hj, hbad⟩, -⟩
  · rw [hv]
    decide +kernel
  · exfalso
    interval_cases j <;> exact hbad (by decide +kernel)

/-- Three sections of `2305843009213693951/1` ask `2^63 - 4` quarters each: the second column
starts there, and the third start, twice that, does not fit in words. -/
theorem ofMeasures_start_overflows :
    ∃ h : 2 < (ofMeasures 2305843009213693951 3).allocate.columns.size,
      (ofMeasures 2305843009213693951 3).allocate.columns[2].startPos = indeterminate :=
  ⟨by decide +kernel, by decide +kernel⟩

end Timeline

end Jianpu
