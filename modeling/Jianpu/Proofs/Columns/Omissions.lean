import Mathlib
import Jianpu.Proofs.Columns.Rows
/-!
# Omissions fill a row to the fragment's width

A row of sections is spread over a fragment's columns. Written out, each section takes its own
columns: an omission `...n` takes `n` of them (at least one), any other section one. What the
row lacks of the fragment's width, its slack, goes to the first bare `...`, which takes one
column more for each; a later bare `...` keeps its one. The row so stretched is cut at the
width, and padded with placeholders where no bare `...` took the slack. So the row always
covers the fragment exactly, every voice and every chord, annotation and force row landing on
the same axis.

* `Section.columns`, `written` — the columns a section takes, and the row written out.
* `stretched` — the row written out, the first bare `...` taking the slack.
* `spread_toList` — the spread row is the stretched row cut at the width.
* `expandRow_fills` — what the expanded row is, in each case.
-/

namespace Jianpu

variable {α : Type}

/-- The columns a written section takes: `...n` takes `n`, at least one; any other one. -/
def Section.columns (s : Section α) : Nat :=
  match s.body with
  | .omit (some n) => max n 1
  | _ => 1

/-- A bare `...`, an omission without a count. -/
def Section.isBareOmit (s : Section α) : Bool :=
  match s.body with
  | .omit none => true
  | _ => false

theorem Section.columns_of_isBareOmit {s : Section α} (h : s.isBareOmit = true) :
    s.columns = 1 := by
  unfold isBareOmit at h
  unfold columns
  split <;> simp_all

def written (ss : List (Section α)) : List (Section α) :=
  ss.flatMap fun s => List.replicate s.columns s

@[simp] theorem written_nil : written ([] : List (Section α)) = [] := rfl

@[simp] theorem written_cons (s : Section α) (ss : List (Section α)) :
    written (s :: ss) = List.replicate s.columns s ++ written ss := rfl

theorem written_append (ss ss' : List (Section α)) :
    written (ss ++ ss') = written ss ++ written ss' :=
  List.flatMap_append

theorem writtenWidth_eq (ss : List (Section α)) :
    writtenWidth ss = ss.foldl (fun n s => n + s.columns) 0 := rfl

theorem length_written (ss : List (Section α)) : (written ss).length = writtenWidth ss := by
  suffices h : ∀ n, n + (written ss).length = ss.foldl (fun n s => n + s.columns) n by
    rw [writtenWidth_eq, ← h 0, Nat.zero_add]
  induction ss with
  | nil => intro n; rfl
  | cons s ss ih =>
    intro n
    rw [written_cons, List.length_append, List.length_replicate, List.foldl_cons, ← ih,
      Nat.add_assoc]

/-- The row written out, the first bare `...` taking `fill` columns more. -/
def stretched : List (Section α) → Nat → List (Section α)
  | [], _ => []
  | s :: ss, fill =>
    if s.isBareOmit then List.replicate (1 + fill) s ++ stretched ss 0
    else List.replicate s.columns s ++ stretched ss fill

theorem stretched_zero (ss : List (Section α)) : stretched ss 0 = written ss := by
  induction ss with
  | nil => rfl
  | cons s ss ih =>
    unfold stretched
    split
    · rename_i h
      rw [ih, written_cons, Section.columns_of_isBareOmit h]
    · rw [ih, written_cons]

theorem stretched_of_no_bare {ss : List (Section α)} (h : ∀ t ∈ ss, t.isBareOmit = false)
    (fill : Nat) : stretched ss fill = written ss := by
  induction ss with
  | nil => rfl
  | cons s ss ih =>
    rw [stretched, if_neg (by simp [h s List.mem_cons_self]),
      ih fun t ht => h t (List.mem_cons_of_mem _ ht), written_cons]

/-- The first bare `...` of a row takes the slack; what comes before and after is written
out. -/
theorem stretched_of_first_bare {pre post : List (Section α)} {s : Section α}
    (hs : s.isBareOmit = true) (hpre : ∀ t ∈ pre, t.isBareOmit = false) (fill : Nat) :
    stretched (pre ++ s :: post) fill =
      written pre ++ List.replicate (1 + fill) s ++ written post := by
  induction pre with
  | nil => rw [List.nil_append, stretched, if_pos hs, stretched_zero, written_nil, List.nil_append]
  | cons t pre ih =>
    rw [List.cons_append, stretched, if_neg (by simp [hpre t List.mem_cons_self]),
      ih fun u hu => hpre u (List.mem_cons_of_mem _ hu), written_cons, List.append_assoc,
      List.append_assoc, List.append_assoc]

/-! ## The spread row -/

/-- A fold that appends each section's copies, the first bare `...` taking what is left to
fill, builds the stretched row. -/
theorem foldl_stretched {f : Array (Section α) × Nat → Section α → Array (Section α) × Nat}
    (hf : ∀ out fill s, f (out, fill) s =
      (out ++ Array.replicate (if s.isBareOmit then 1 + fill else s.columns) s,
        if s.isBareOmit then 0 else fill)) :
    ∀ (ss : List (Section α)) (out : Array (Section α)) (fill : Nat),
      (ss.foldl f (out, fill)).1.toList = out.toList ++ stretched ss fill
  | [], out, fill => by simp [stretched]
  | s :: ss, out, fill => by
    rw [List.foldl_cons, hf, foldl_stretched hf ss, stretched]
    split <;> simp

/-- The spread row is the stretched row, the slack being what the written width lacks of the
count, cut at the count. -/
theorem spread_toList (ss : List (Section α)) (count : Nat) :
    (spread ss count).toList = (stretched ss (count - writtenWidth ss)).take count := by
  unfold spread
  rw [Array.toList_extract, foldl_stretched ?_ ss #[] _, List.extract_eq_take_drop]
  · simp
  · intro out fill s
    unfold Section.isBareOmit Section.columns
    rcases s with ⟨_, _, _, _, _, _, _, body⟩
    -- the three arms of the step: a counted omission, a bare one, anything else
    rcases body with _ | (_ | n) | _ | _ <;> rfl

/-- **Omissions fill a row to the fragment's width.** Whatever the journal, a row expanded over
`count` columns has exactly `count` sections. When the row's written width is at most `count`,
it is the row written out with its first bare `...` repeated once more for each column the
width lacks, or, when the row has no bare `...`, the row written out followed by fresh
placeholders. When the row is wider, it is the first `count` sections of the row written out. -/
theorem expandRow_fills (ss : List (Section α)) (count : Nat) :
    Always (expandRow ss count) fun r =>
      r.size = count ∧
      (writtenWidth ss ≤ count →
        (∀ pre s post, ss = pre ++ s :: post → s.isBareOmit = true →
            (∀ t ∈ pre, t.isBareOmit = false) →
          r.toList = written pre ++ List.replicate (1 + (count - writtenWidth ss)) s ++
            written post) ∧
        ((∀ t ∈ ss, t.isBareOmit = false) →
          ∃ pads, r.toList = written ss ++ pads ∧
            ∀ p ∈ pads, ∃ serial, p = Section.nullish 0 serial {})) ∧
      (count < writtenWidth ss → r.toList = (written ss).take count) := by
  rw [expandRow_eq]
  refine (padRow_pads _ _).imp fun r ⟨pads, hr, hsize, hnull⟩ => ?_
  have hspread := spread_toList ss count
  have hle := spread_size_le ss count
  have hwidth := length_written ss
  subst hr
  -- a spread row of `count` sections gets no placeholders
  have hfull : (spread ss count).size = count → pads = #[] := fun h =>
    Array.eq_empty_of_size_eq_zero (by omega)
  refine ⟨by simp [hsize]; omega, fun hw => ⟨fun pre s post hss hs hpre => ?_, fun hno => ?_⟩,
    fun hw => ?_⟩
  · -- the first bare `...` takes the slack, so the stretched row is exactly `count` long
    have hst := @stretched_of_first_bare α pre post s hs hpre (count - writtenWidth ss)
    rw [← hss] at hst
    rw [hst] at hspread
    have hlen : (written pre ++ List.replicate (1 + (count - writtenWidth ss)) s ++
        written post).length = count := by
      have hparts : (written ss).length =
          (written pre).length + 1 + (written post).length := by
        rw [hss, written_append, written_cons, Section.columns_of_isBareOmit hs]
        simp only [List.length_append, List.length_replicate]
        omega
      simp only [List.length_append, List.length_replicate]
      omega
    rw [List.take_of_length_le hlen.le] at hspread
    have hpads := hfull (by rw [← Array.length_toList, hspread, hlen])
    simp [hpads, hspread]
  · -- nothing takes the slack: the row written out, then placeholders
    rw [stretched_of_no_bare hno, List.take_of_length_le (by omega)] at hspread
    exact ⟨pads.toList, by simp [hspread], fun p hp => hnull p (Array.mem_toList_iff.1 hp)⟩
  · -- no slack: the row written out, cut at `count`
    rw [Nat.sub_eq_zero_of_le hw.le, stretched_zero] at hspread
    have hpads := hfull (by rw [← Array.length_toList, hspread, List.length_take]; omega)
    simp [hpads, hspread]

end Jianpu
