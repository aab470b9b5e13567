import Mathlib.Data.List.Chain
import Jianpu.Proofs.Performance.Turns

/-!
# How a performance numbers its passes

A performance lists the single pass of the walk straight through, numbered 0, then the passes
of the performed walk. The performed walk numbers a pass it opens at a jump one more than the
pass before, and a pass it opens or renumbers at a reset 1.

* `passNumbers` — the numbers of a list of passes, in order.
* `Numbered` — numbers as the performed walk gives them: 1 first, then each one more than the
  one before or 1 again.
* `Keeps` — from a list of passes to a later one, every pass that has played a section keeps
  its place, its number and the sections it played.
* `Straight` — the passes of the walk straight through: one pass, numbered 0, playing the
  columns before a given one once each, in order.
* `Timeline.Rectangular` — the shape of a laid article: every voice has a section at every
  column, and an article with a column has a voice.

Main statement: `perform_pass_numbers`.
-/

namespace Jianpu

def passNumbers (ps : Array Pass) : List Nat := ps.toList.map (·.number)

@[simp] theorem passNumbers_push (ps : Array Pass) (p : Pass) :
    passNumbers (ps.push p) = passNumbers ps ++ [p.number] := by
  simp [passNumbers]

theorem passNumbers_getLast? (ps : Array Pass) :
    (passNumbers ps).getLast? = ps.back?.map (·.number) := by
  simp [passNumbers, List.getLast?_map, Array.getLast?_toList]

/-- Numbers as the performed walk gives its passes: the first is 1, and each next one is one
more than the one before (a jump back) or 1 again (a reset). -/
def Numbered (ns : List Nat) : Prop :=
  ns.head? = some 1 ∧ ns.IsChain fun a b => b = a + 1 ∨ b = 1

namespace Numbered

variable {ns : List Nat}

theorem ne_nil (h : Numbered ns) : ns ≠ [] := by
  rintro rfl
  simp [Numbered] at h

theorem append {y : Nat} (h : Numbered ns) (hy : ∀ x ∈ ns.getLast?, y = x + 1 ∨ y = 1) :
    Numbered (ns ++ [y]) := by
  refine ⟨?_, h.2.append (List.isChain_singleton y) fun x hx z hz => ?_⟩
  · rw [List.head?_append_of_ne_nil _ h.ne_nil]
    exact h.1
  · simp only [List.head?_cons, Option.mem_def, Option.some.injEq] at hz
    subst hz
    exact hy x hx

theorem renumber {x : Nat} (h : Numbered (ns ++ [x])) : Numbered (ns ++ [1]) := by
  by_cases hnil : ns = []
  · subst hnil
    exact ⟨rfl, List.isChain_singleton 1⟩
  · have hns : Numbered ns := by
      refine ⟨?_, h.2.left_of_append⟩
      have hhead := h.1
      rwa [List.head?_append_of_ne_nil ns hnil] at hhead
    exact hns.append fun _ _ => .inr rfl

theorem one_le (h : Numbered ns) : ∀ n ∈ ns, 1 ≤ n := by
  refine h.2.induction _ _ (fun x y hxy _ => by omega) fun hne => ?_
  have hhead := h.1
  rw [List.head?_eq_some_head hne, Option.some.injEq] at hhead
  omega

end Numbered

/-- From `ps` to `ps'`, every pass that has played a section keeps its place and its number,
and the sections it played begin its sections. -/
def Keeps (ps ps' : Array Pass) : Prop :=
  ∀ (i : Nat) (p : Pass), ps[i]? = some p → p.sections ≠ #[] →
    ∃ p' : Pass, ps'[i]? = some p' ∧ p'.number = p.number ∧
      p.sections.toList <+: p'.sections.toList

namespace Keeps

variable {ps ps' ps'' : Array Pass}

theorem refl (ps : Array Pass) : Keeps ps ps :=
  fun _ p hp _ => ⟨p, hp, rfl, List.prefix_refl _⟩

theorem trans (h₁ : Keeps ps ps') (h₂ : Keeps ps' ps'') : Keeps ps ps'' := by
  intro i p hp hne
  obtain ⟨p', hp', hnum, hpre⟩ := h₁ i p hp hne
  -- a pass with a section keeps it, so the second step applies to it too
  have hne' : p'.sections ≠ #[] := by
    intro hnil
    rw [hnil, Array.toList_empty, List.prefix_nil] at hpre
    exact hne (Array.toList_eq_nil_iff.1 hpre)
  obtain ⟨p'', hp'', hnum', hpre'⟩ := h₂ i p' hp' hne'
  exact ⟨p'', hp'', hnum'.trans hnum, hpre.trans hpre'⟩

theorem push (ps : Array Pass) (q : Pass) : Keeps ps (ps.push q) := by
  intro i p hp _
  have hi : i < ps.size := (Array.getElem?_eq_some_iff.1 hp).1
  refine ⟨p, ?_, rfl, List.prefix_refl _⟩
  rw [Array.getElem?_push, if_neg (Nat.ne_of_lt hi), hp]

theorem renumber {ys : Array Pass} {p : Pass} (hps : ps = ys.push p) (hempty : p.sections = #[])
    (m : Nat) : Keeps ps (ys.push { p with number := m }) := by
  intro i q hq hne
  subst hps
  rw [Array.getElem?_push] at hq ⊢
  by_cases hi : i = ys.size
  · rw [if_pos hi, Option.some.injEq] at hq
    exact absurd (hq ▸ hempty) hne
  · rw [if_neg hi] at hq ⊢
    exact ⟨q, hq, rfl, List.prefix_refl _⟩

theorem addSection (ps : Array Pass) (i : Nat) (s : PlayedSection) :
    Keeps ps (ps.modify i fun q => { q with sections := q.sections.push s }) := by
  intro j p hp _
  rw [Array.getElem?_modify, hp]
  split
  · exact ⟨_, rfl, rfl, by simp⟩
  · exact ⟨p, rfl, rfl, List.prefix_refl _⟩

end Keeps

/-- The passes of the walk straight through once it has played the columns before `n`: one
pass, numbered 0, playing them once each, in order. -/
def Straight (n : Nat) (ps : Array Pass) : Prop :=
  ∃ secs : Array PlayedSection, ps = #[⟨0, secs⟩] ∧ secs.toList.map (·.index) = List.range n

namespace Performer

variable {pf : Performer} {t : Timeline} {flat : Bool}

/-! ## The numbers of the performed walk -/

/-- Preparing a section of the performed walk keeps its passes numbered: a reset renumbers the
last pass 1 or opens one numbered 1. -/
theorem numbered_prepared {s : Separators} {w w₁ : Walk} (h : Numbered (passNumbers w.passes))
    (hp : Prepared pf false s w w₁) : Numbered (passNumbers w₁.passes) := by
  rcases prepared_cases hp with rfl | ⟨ys, p, hys, -, rfl⟩ | ⟨-, rfl⟩
  · exact h
  · rw [hys, passNumbers_push] at h
    simpa using h.renumber
  · simpa using h.append fun _ _ => .inr rfl

theorem numbered_jump {w₁ w₂ : Walk} (h : Numbered (passNumbers w₁.passes))
    (ho : pf.openPass w₁ (w₁.number + 1) = some w₂) : Numbered (passNumbers w₂.passes) := by
  obtain ⟨-, rfl⟩ := openPass_eq_some.1 ho
  simp only [Walk.mapPasses_passes, passNumbers_push]
  refine h.append fun x hx => .inl ?_
  rw [passNumbers_getLast?, Option.mem_def, Option.map_eq_some_iff] at hx
  obtain ⟨p, hp, rfl⟩ := hx
  rw [Walk.number_eq hp]

/-- **Every turn of the performed walk keeps its passes numbered.** -/
theorem numbered_turn {w : Walk} {r : Turn} (h : Numbered (passNumbers w.passes))
    (ht : Turns pf t false w r) :
    r.Lands (fun w => Numbered (passNumbers w.passes)) (fun w => Numbered (passNumbers w.passes)) := by
  cases ht with
  | atEnd _ => exact h
  | unmarked _ _ => exact h
  | skipped _ _ _ _ => exact h
  | cutAtReset _ _ _ _ _ _ => exact h
  | @played w₁ s r _ _ _ hprep hfollow =>
    -- playing adds a section, never a pass: the numbers are those after the reset
    have h₁ : Numbered (passNumbers (pf.play t false w₁).passes) := by
      rw [passNumbers, numbers_play]
      exact numbered_prepared h hprep
    cases hfollow with
    | next hc => simpa [Turn.Lands, passes_of_closing hc] using h₁
    | stop hc => simpa [Turn.Lands, passes_of_closing hc] using h₁
    | jump hc ho =>
      have h₂ := numbered_jump (by rw [passes_of_closing hc]; exact h₁) ho
      exact h₂
    | cutAtJump hc _ => simpa [Turn.Lands, passes_of_closing hc] using h₁

theorem walk_numbered (hlimit : 0 < pf.limit) : Numbered (passNumbers (pf.walk t false).passes) := by
  have ho : pf.openPass (start t) 1 = some ((start t).mapPasses (·.push ⟨1, #[]⟩)) :=
    openPass_eq_some.2 ⟨by simpa using hlimit, rfl⟩
  simp only [walk, Bool.false_eq_true, if_false, ho]
  refine run_invariant pf t false (fun _ _ hw ht => numbered_turn hw ht) _ ?_
  exact ⟨rfl, List.isChain_singleton 1⟩

/-! ## The walk straight through -/

theorem closing_straight (s : Separators) (w : Walk) : closing t true s w = (.next, w) := rfl

/-- Straight through, a turn ends the walk where it stands, past the last column or at one
without barlines, or plays the section at the cursor and moves to the next column. -/
theorem turns_straight {w : Walk} {r : Turn} (ht : Turns pf t true w r) :
    (r = .done w ∧ (t.sectionCount ≤ w.cursor ∨
      (w.cursor < t.sectionCount ∧ t.separatorsAt w.cursor = none))) ∨
    (w.cursor < t.sectionCount ∧ r = .more { pf.play t true w with cursor := w.cursor + 1 }) := by
  cases ht with
  | atEnd hk => exact .inl ⟨rfl, .inl hk⟩
  | unmarked hk hs => exact .inl ⟨rfl, .inr ⟨hk, hs⟩⟩
  | skipped _ _ hflat _ => cases hflat
  | cutAtReset _ _ hflat _ _ _ => cases hflat
  | @played w₁ s r hk _ _ hprep hfollow =>
    -- straight through nothing is reset, and every section is followed by the next column
    have hw₁ : w₁ = w := by simpa [Prepared] using hprep
    rw [hw₁] at hfollow
    cases hfollow with
    | next hc =>
      rw [closing_straight, Prod.mk.injEq] at hc
      obtain ⟨-, rfl⟩ := hc
      exact .inr ⟨hk, by rw [play_cursor]⟩
    | stop hc => simp [closing_straight] at hc
    | jump hc _ => simp [closing_straight] at hc
    | cutAtJump hc _ => simp [closing_straight] at hc

/-- **Every turn straight through plays the next column**, while every column has barlines,
and the walk ends past the last one. -/
theorem straight_turn {w : Walk} {r : Turn}
    (hsep : ∀ k < t.sectionCount, t.separatorsAt k ≠ none)
    (h : w.cursor ≤ t.sectionCount ∧ Straight w.cursor w.passes) (ht : Turns pf t true w r) :
    r.Lands (fun w => w.cursor ≤ t.sectionCount ∧ Straight w.cursor w.passes)
      (fun w => Straight t.sectionCount w.passes) := by
  obtain ⟨hle, secs, hps, hidx⟩ := h
  rcases turns_straight ht with ⟨rfl, hk | ⟨hk, hs⟩⟩ | ⟨hk, rfl⟩
  · have hend : w.cursor = t.sectionCount := Nat.le_antisymm hle hk
    exact ⟨secs, hps, hend ▸ hidx⟩
  · exact absurd hs (hsep _ hk)
  · obtain ⟨sec, hsec, hplay⟩ := @play_passes_push pf t true w #[] ⟨0, secs⟩ hps
    refine ⟨by simp; omega, secs.push sec, by simpa using hplay, ?_⟩
    simp [hidx, hsec, List.range_succ]

/-- **Straight through, the walk plays every column once, in order, on one pass numbered 0**,
when every column has barlines and at least one pass is allowed. -/
theorem walk_straight (hlimit : 0 < pf.limit)
    (hsep : ∀ k < t.sectionCount, t.separatorsAt k ≠ none) :
    Straight t.sectionCount (pf.walk t true).passes := by
  have ho : pf.openPass (start t) 0 = some ((start t).mapPasses (·.push ⟨0, #[]⟩)) :=
    openPass_eq_some.2 ⟨by simpa using hlimit, rfl⟩
  simp only [walk, if_true, ho]
  refine run_invariant pf t true (fun _ _ hw ht => straight_turn hsep hw ht) _ ?_
  exact ⟨by simp, #[], by simp, by simp⟩

/-! ## What a pass keeps -/

theorem keeps_play (w : Walk) : Keeps w.passes (pf.play t flat w).passes := by
  rw [play_passes]
  exact Keeps.addSection _ _ _

theorem keeps_run (w : Walk) : Keeps w.passes (pf.run t flat w).passes :=
  passes_run pf t flat (fun ps _ h => h.trans (Keeps.push ps _))
    (fun _ _ m h hempty => h.trans (Keeps.renumber rfl hempty m))
    (fun w' h => h.trans (keeps_play w')) w (Keeps.refl _)

end Performer

/-- The shape of an article once its columns are laid: every voice has a section at every
column, and an article with a column has a voice, since the columns are counted on the first
voice. -/
def Timeline.Rectangular (t : Timeline) : Prop :=
  (0 < t.sectionCount → 0 < t.voices.size) ∧ ∀ v ∈ t.voices, v.notes.size = t.sectionCount

theorem Timeline.Rectangular.separatorsAt_ne_none {t : Timeline} (h : t.Rectangular) {k : Nat}
    (hk : k < t.sectionCount) : t.separatorsAt k ≠ none := by
  have hv : 0 < t.voices.size := h.1 (by omega)
  have hn : k < t.voices[0].notes.size := by
    rw [h.2 _ (Array.getElem_mem hv)]
    exact hk
  unfold Timeline.separatorsAt
  split
  · simp
  · simp [Array.getElem?_eq_getElem hv, Array.getElem?_eq_getElem hn]

namespace Performer

/-- **How a performance numbers its passes.** In a rectangular article, with at least one pass
allowed, a performance lists first the walk straight through: one pass numbered 0 that plays
every column once, in order. The passes after it are the performed walk's: the first numbered
1, each next one more than the one before or 1 again, so none is numbered 0. A pass that has
played a section keeps its number and its sections to the end of any walk, and the sections
performed, from which a performance's length and notes are read, are exactly those of the
passes after the first. -/
theorem perform_pass_numbers (pf : Performer) (t : Timeline) (j : Journal)
    (hlimit : 0 < pf.limit) (ht : t.Rectangular) :
    let p := ((pf.perform t).run j).1.1
    (∃ secs : Array PlayedSection, p.passes[0]? = some ⟨0, secs⟩ ∧
      secs.toList.map (·.index) = List.range t.sectionCount) ∧
    Numbered ((p.passes.toList.drop 1).map (·.number)) ∧
    (∀ q ∈ p.passes.toList.drop 1, 1 ≤ q.number) ∧
    (∀ (flat : Bool) (w : Walk), Keeps w.passes (pf.run t flat w).passes) ∧
    p.performed = (p.passes.toList.drop 1).flatMap (·.sections.toList) := by
  intro p
  obtain ⟨secs, hflat, hidx⟩ := walk_straight hlimit fun _ hk => ht.separatorsAt_ne_none hk
  have hp : p.passes.toList = ⟨0, secs⟩ :: (pf.walk t false).passes.toList := by
    show ((pf.walk t true).passes ++ (pf.walk t false).passes).toList = _
    simp [hflat]
  have hrest : p.passes.toList.drop 1 = (pf.walk t false).passes.toList := by
    rw [hp, List.drop_one, List.tail_cons]
  have hnum : Numbered ((p.passes.toList.drop 1).map (·.number)) := by
    rw [hrest]
    exact walk_numbered hlimit
  have hpos : ∀ q ∈ p.passes.toList.drop 1, 1 ≤ q.number :=
    fun q hq => hnum.one_le q.number (List.mem_map_of_mem hq)
  refine ⟨⟨secs, ?_, hidx⟩, hnum, hpos, fun _ w => keeps_run w, ?_⟩
  · rw [← Array.getElem?_toList, hp]
    rfl
  · -- the pass straight through is numbered 0, and no later one is
    have hkept : (pf.walk t false).passes.toList.filter (·.number != 0) =
        (pf.walk t false).passes.toList := by
      refine List.filter_eq_self.2 fun q hq => ?_
      have := hpos q (hrest ▸ hq)
      simp only [bne_iff_ne, ne_eq]
      omega
    rw [hrest, Performance.performed, hp, List.filter_cons_of_neg (by simp), hkept]

/-- An article of one voice and one column, performed with one pass allowed, numbers its
passes so. -/
theorem perform_pass_numbers_one_column :
    let pf : Performer := ⟨1, 120.0⟩
    let t : Timeline := { (default : Timeline) with
      columns := #[default], voices := #[{ (default : Voice) with notes := #[default] }] }
    let p := ((pf.perform t).run default).1.1
    0 < pf.limit ∧ t.Rectangular ∧
    (∃ secs : Array PlayedSection, p.passes[0]? = some ⟨0, secs⟩ ∧
      secs.toList.map (·.index) = List.range t.sectionCount) ∧
    Numbered ((p.passes.toList.drop 1).map (·.number)) ∧
    (∀ q ∈ p.passes.toList.drop 1, 1 ≤ q.number) ∧
    (∀ (flat : Bool) (w : Walk), Keeps w.passes (pf.run t flat w).passes) ∧
    p.performed = (p.passes.toList.drop 1).flatMap (·.sections.toList) := by
  intro pf t p
  have hrect : t.Rectangular := ⟨fun _ => by decide, by simp [t, Timeline.sectionCount]⟩
  exact ⟨by decide, hrect, perform_pass_numbers pf t default (by decide) hrect⟩

end Performer

end Jianpu
