import Mathlib
import Jianpu.Proofs.Performance.Reference
/-!
# D.S. and D.C. read as the road map says

An article whose only marks the performed walk acts on are one `D.S.` or `D.C.` and the marks
that end the pass it opens is played in two passes: the first from the start to the jump, the
second from where the jump leads to its ending.

* `Ending` — how the second pass ends: at a `Fine.`, by skipping from one portal `@` to the
  other, or at the end of the article.
* `Timeline.jumpBack` — where the jump leads: the nearest segno at or before it for `D.S.`,
  the start for `D.C.`.
* `Timeline.RoadMap t d k e` — the article has a jump of kind `k` after column `d`, the ending
  `e`, and no other mark the walk acts on.
* `Ending.reading` — what the second pass plays from a column on.

On the first pass no mark has been used yet, so nothing skips or stops the walk before the
jump (`Outbound`). The jump uses the mark after `d`; from then on a `Fine.` before `d` ends
the walk, and a portal before `d`, played already, skips to the next one (`Inbound`). A
portal at `d` itself has no used mark after it, and the second pass plays on through it.

Main statement: `perform_follows_road_map`.
-/

namespace Jianpu

/-- How the pass after a jump back ends. -/
inductive Ending where
  | fine (f : Nat)
  | coda (p₁ p₂ : Nat)
  | toEnd
  deriving DecidableEq

namespace Ending

def fineAt : Ending → Option Nat
  | fine f => some f
  | _ => none

/-- The ending puts a portal before column `c`. -/
def portalAt (e : Ending) (c : Nat) : Bool :=
  match e with
  | coda p₁ p₂ => c == p₁ || c == p₂
  | _ => false

/-- Where the ending's marks stand against a jump after column `d` to column `s`, in an
article of `n` columns: a `Fine.` between them; the first portal between them and the second
after the jump. -/
def Fits (s d n : Nat) : Ending → Prop
  | fine f => s ≤ f ∧ f < d
  | coda p₁ p₂ => s ≤ p₁ ∧ p₁ ≤ d ∧ d < p₂ ∧ p₂ < n
  | toEnd => True

/-- Where the cursor may stand on the pass after a jump back from column `d`: not past the
`Fine.`, and not between the portals when the first one is skipped from. -/
def Place (d c : Nat) : Ending → Prop
  | fine f => c ≤ f
  | coda p₁ p₂ => p₁ < d → c ≤ p₁ ∨ p₂ ≤ c
  | toEnd => True

/-- What the pass after a jump back from column `d` plays from column `c` on, in an article of
`n` columns: up to the `Fine.`; up to the first portal and on from the second, when the first
stands before `d` and is still ahead; else up to the end. -/
def reading (n d c : Nat) : Ending → List Nat
  | fine f => List.range' c (f + 1 - c)
  | coda p₁ p₂ =>
    if p₁ < d ∧ c ≤ p₁ then List.range' c (p₁ - c) ++ List.range' p₂ (n - p₂)
    else List.range' c (n - c)
  | toEnd => List.range' c (n - c)

end Ending

/-- Where a jump of kind `k` after column `d` leads: for `D.S.` to the nearest segno at or
before `d`, else to the start. -/
def Timeline.jumpBack (t : Timeline) (d : Nat) (k : JumpKind) : Nat :=
  if k = .dalSegno then Performer.segnoBefore t d else 0

/-- The article has one `D.S.` or `D.C.`, of kind `k`, after column `d`, the marks of the
ending `e` for the pass it opens, and no other mark the performed walk acts on: every jumper
plays on the first pass, and on the second unless it starts before where the jump leads; at
no column a volta, reset or repeat close, or a portal or jump the ending does not put there;
no `|||` stands after a column but the last. -/
structure Timeline.RoadMap (t : Timeline) (d : Nat) (k : JumpKind) (e : Ending) : Prop where
  rectangular : t.Rectangular
  jumpers : ∀ j ∈ t.jumpers, j.accepts 1 = true ∧ (t.jumpBack d k ≤ j.start → j.accepts 2 = true)
  back : k ≠ .fine
  within : d < t.sectionCount
  plain : ∀ c < t.sectionCount, ∀ s, t.separatorsAt c = some s →
    s.before.attrs.iterations = [] ∧ s.before.attrs.hasReset = false ∧
      s.after.barline.isRepeatEnd = false ∧
      s.after.attrs.jump = (if c = d then some k else if e.fineAt = some c then some .fine
        else none) ∧
      s.before.attrs.hasPortal = e.portalAt c
  unended : ∀ c s, c + 1 < t.sectionCount → t.separatorsAt c = some s →
    s.after.barline.isTerminal = false
  fits : e.Fits (t.jumpBack d k) d t.sectionCount

/-! ## The reading of the second pass -/

namespace Ending

variable {n d c s : Nat} {e : Ending}

theorem reading_next (hc : c < n) (hfine : e.fineAt ≠ some c)
    (hskip : ∀ p₁ p₂, e = coda p₁ p₂ → p₁ < d → c ≠ p₁) (hplace : e.Place d c) :
    e.reading n d c = c :: e.reading n d (c + 1) ∧ e.Place d (c + 1) := by
  cases e with
  | fine f =>
    have hcf : c < f := Nat.lt_of_le_of_ne hplace fun h => hfine (by simp [fineAt, h])
    refine ⟨?_, hcf⟩
    simp only [reading]
    rw [show f + 1 - c = f + 1 - (c + 1) + 1 by omega, List.range'_succ]
  | coda p₁ p₂ =>
    have hne := hskip p₁ p₂ rfl
    by_cases hp : p₁ < d ∧ c ≤ p₁
    · have hcp : c < p₁ := Nat.lt_of_le_of_ne hp.2 (hne hp.1)
      refine ⟨?_, fun _ => .inl hcp⟩
      simp only [reading, if_pos hp, if_pos (show p₁ < d ∧ c + 1 ≤ p₁ from ⟨hp.1, hcp⟩)]
      rw [show p₁ - c = p₁ - (c + 1) + 1 by omega, List.range'_succ]
      rfl
    · -- past the first portal, or it is not skipped from: on to the end
      have hp' : ¬ (p₁ < d ∧ c + 1 ≤ p₁) := fun h => hp ⟨h.1, by omega⟩
      refine ⟨?_, fun hd => ?_⟩
      · simp only [reading, if_neg hp, if_neg hp']
        rw [show n - c = n - (c + 1) + 1 by omega, List.range'_succ]
      · rcases hplace hd with h | h
        · exact absurd ⟨hd, h⟩ hp
        · exact .inr (by omega)
  | toEnd =>
    refine ⟨?_, trivial⟩
    simp only [reading]
    rw [show n - c = n - (c + 1) + 1 by omega, List.range'_succ]

theorem reading_fine (h : e.fineAt = some c) : e.reading n d c = [c] := by
  cases e with
  | fine f =>
    obtain rfl : f = c := Option.some.inj h
    simp [reading]
  | coda => cases h
  | toEnd => cases h

theorem reading_last (hc : c + 1 = n) (hd : d < n) (hfits : e.Fits s d n)
    (hplace : e.Place d c) : e.reading n d c = [c] := by
  cases e with
  | fine f =>
    obtain ⟨-, hf⟩ := hfits
    have : c ≤ f := hplace
    omega
  | coda p₁ p₂ =>
    have hp : ¬ (p₁ < d ∧ c ≤ p₁) := fun h => by omega
    simp only [reading, if_neg hp]
    rw [show n - c = 1 by omega]
    rfl
  | toEnd =>
    simp only [reading]
    rw [show n - c = 1 by omega]
    rfl

theorem reading_end (hc : n ≤ c) (hd : d < n) (hfits : e.Fits s d n) (hplace : e.Place d c) :
    e.reading n d c = [] := by
  cases e with
  | fine f =>
    obtain ⟨-, hf⟩ := hfits
    have : c ≤ f := hplace
    omega
  | coda p₁ p₂ =>
    have hp : ¬ (p₁ < d ∧ c ≤ p₁) := fun h => by omega
    simp only [reading, if_neg hp]
    rw [Nat.sub_eq_zero_of_le hc, List.range'_zero]
  | toEnd =>
    simp only [reading]
    rw [Nat.sub_eq_zero_of_le hc, List.range'_zero]

theorem reading_skip {p₁ p₂ : Nat} (hlt : p₁ < d) (hfits : (coda p₁ p₂).Fits s d n) :
    (coda p₁ p₂).reading n d p₁ = (coda p₁ p₂).reading n d p₂ := by
  obtain ⟨-, -, hdp, -⟩ := hfits
  have hp : ¬ (p₁ < d ∧ p₂ ≤ p₁) := fun h => by omega
  simp only [reading, if_pos (⟨hlt, Nat.le_refl _⟩ : p₁ < d ∧ p₁ ≤ p₁), if_neg hp, Nat.sub_self,
    List.range'_zero, List.nil_append]

theorem place_of_fits (hfits : e.Fits s d n) : e.Place d s := by
  cases e with
  | fine f => exact hfits.1
  | coda p₁ p₂ => exact fun _ => .inl hfits.1
  | toEnd => trivial

end Ending

/-! ## The walk on such an article -/

namespace Performer

variable {pf : Performer} {t : Timeline} {flat : Bool}

theorem play_passes_getElem? {w : Walk} {i : Nat} (hi : i + 1 < w.passes.size) :
    (pf.play t flat w).passes[i]? = w.passes[i]? := by
  rw [play_passes, Array.getElem?_modify, if_neg (by omega)]

end Performer

theorem Pass.first_of_single {ps : Array Pass} (h : ps.size = 1) :
    ps[0]?.map Pass.indices = some (ps.toList.flatMap Pass.indices) := by
  rcases ps with ⟨l⟩
  obtain ⟨q, rfl⟩ := List.length_eq_one_iff.1 h
  simp

namespace Timeline.RoadMap

variable {t : Timeline} {d : Nat} {k : JumpKind} {e : Ending} (ht : t.RoadMap d k e)
include ht

theorem separatorsAt_some {c : Nat} (hc : c < t.sectionCount) : ∃ s, t.separatorsAt c = some s :=
  Option.ne_none_iff_exists'.1 (ht.rectangular.separatorsAt_ne_none hc)

theorem hasPortal_eq {c : Nat} (hc : c < t.sectionCount) :
    (t.separatorsAt c).any (·.before.attrs.hasPortal) = e.portalAt c := by
  obtain ⟨s, hs⟩ := ht.separatorsAt_some hc
  simp [hs, (ht.plain c hc s hs).2.2.2.2]

/-- On the first pass, and on the second from where the jump leads, no jumper keeps the walk
out of a column. -/
theorem find?_jumper_eq_none {w : Walk}
    (hw : w.number = 1 ∨ (w.number = 2 ∧ t.jumpBack d k ≤ w.cursor)) :
    t.jumpers.find? (fun j => j.start == w.cursor && !j.accepts w.number) = none := by
  rw [Array.find?_eq_none]
  intro j hj
  obtain ⟨h₁, h₂⟩ := ht.jumpers j hj
  simp only [Bool.and_eq_true, beq_iff_eq, Bool.not_eq_true', not_and, Bool.not_eq_false]
  intro hstart
  rcases hw with hw | ⟨hw, hpast⟩
  · rw [hw]
    exact h₁
  · rw [hw]
    exact h₂ (by omega)

theorem skipTarget_of_unused {w : Walk} {s : Separators} (hk : w.cursor < t.sectionCount)
    (hs : t.separatorsAt w.cursor = some s)
    (hw : w.number = 1 ∨ (w.number = 2 ∧ t.jumpBack d k ≤ w.cursor))
    (hu : w.usedAfter w.cursor = false) : Performer.skipTarget t w s = none := by
  obtain ⟨hit, -, -, -, -⟩ := ht.plain _ hk s hs
  simp [Performer.skipTarget, ht.find?_jumper_eq_none hw, hit, hu]

theorem skipTarget_of_no_portal {w : Walk} {s : Separators} (hk : w.cursor < t.sectionCount)
    (hs : t.separatorsAt w.cursor = some s)
    (hw : w.number = 1 ∨ (w.number = 2 ∧ t.jumpBack d k ≤ w.cursor))
    (hp : e.portalAt w.cursor = false) : Performer.skipTarget t w s = none := by
  obtain ⟨hit, -, -, -, hportal⟩ := ht.plain _ hk s hs
  simp [Performer.skipTarget, ht.find?_jumper_eq_none hw, hit, hportal, hp]

theorem skipTarget_coda {w : Walk} {s : Separators} {p₁ p₂ : Nat} (he : e = .coda p₁ p₂)
    (hk : w.cursor < t.sectionCount) (hs : t.separatorsAt w.cursor = some s)
    (hw : w.number = 1 ∨ (w.number = 2 ∧ t.jumpBack d k ≤ w.cursor))
    (hc : w.cursor = p₁) (hv : (w.visited[w.cursor]?).getD false = true)
    (hu : w.usedAfter w.cursor = true) : Performer.skipTarget t w s = some p₂ := by
  obtain ⟨hit, -, -, -, hportal⟩ := ht.plain _ hk s hs
  have hfits := ht.fits
  rw [he] at hfits hportal
  obtain ⟨-, hpd, hdp, hpn⟩ := hfits
  -- the search from the first portal on meets the second one first
  have hfind : (List.range (t.sectionCount - (p₁ + 1))).find?
      (fun i => (t.separatorsAt (p₁ + 1 + i)).any (·.before.attrs.hasPortal)) =
      some (p₂ - (p₁ + 1)) := by
    refine find?_range_eq ?_ (fun j hj => ?_) (by omega)
    · rw [show p₁ + 1 + (p₂ - (p₁ + 1)) = p₂ by omega, ht.hasPortal_eq hpn, he]
      simp [Ending.portalAt]
    · rw [ht.hasPortal_eq (by omega), he]
      simp only [Ending.portalAt, Bool.or_eq_false_iff, beq_eq_false_iff_ne]
      omega
  have hjumpers := ht.find?_jumper_eq_none hw
  rw [hc] at hv hu hportal hjumpers
  simp only [Performer.skipTarget, hjumpers, hit, hportal, hc, hv, hu]
  simp [Ending.portalAt, hfind]
  omega

/-- How the barline after column `c` reads, for a walk at `c`: the jump back while its mark is
unused, the `Fine.` once a mark after it is used, and else the next column or the end. -/
theorem after_eq {c : Nat} {s : Separators} (hk : c < t.sectionCount)
    (hs : t.separatorsAt c = some s) {v : Walk} (hv : v.cursor = c) :
    Performer.after t v s =
      if c = d then
        if (v.damage[c]?).getD 0 = 0 then (.goto (t.jumpBack d k), v.markUsed c false)
        else if s.after.barline.isTerminal then (.stop, v) else (.next, v)
      else if e.fineAt = some c ∧ v.usedAfter c = true then (.stop, v)
      else if s.after.barline.isTerminal then (.stop, v) else (.next, v) := by
  obtain ⟨-, -, hend, hjump, -⟩ := ht.plain c hk s hs
  subst hv
  by_cases hcd : v.cursor = d
  · rw [if_pos hcd] at hjump
    rw [Performer.after_back hjump ht.back, if_pos hcd, Performer.rest_of_not_end hend,
      Timeline.jumpBack, hcd]
  · rw [if_neg hcd] at hjump
    rw [if_neg hcd]
    by_cases hf : e.fineAt = some v.cursor
    · rw [if_pos hf] at hjump
      rw [Performer.after_fine hjump, Performer.rest_of_not_end hend]
      simp [hf]
    · rw [if_neg hf] at hjump
      rw [if_neg fun h => hf h.1]
      simp [Performer.after, hjump, Performer.rest_of_not_end hend]

end Timeline.RoadMap

/-! ## The two passes -/

/-- On the first pass, before the jump back: the columns before the cursor played and visited,
and no mark used. -/
structure Outbound (t : Timeline) (d : Nat) (k : JumpKind) (e : Ending) (w : Walk) : Prop where
  tracks : Tracks (List.range' 0 (d + 1) ++ e.reading t.sectionCount d (t.jumpBack d k))
    (List.range' w.cursor (d + 1 - w.cursor) ++ e.reading t.sectionCount d (t.jumpBack d k)) w
  single : w.passes.size = 1
  before : w.cursor ≤ d
  unused : ∀ i, w.damage.getD i 0 = 0
  damageSize : w.damage.size = t.sectionCount
  visited : ∀ i < w.cursor, (w.visited[i]?).getD false = true
  visitedSize : w.visited.size = t.sectionCount

/-- On the pass after the jump back: the first pass played the columns `0` to `d`, and the mark
after `d` is the only one used. -/
structure Inbound (t : Timeline) (d : Nat) (k : JumpKind) (e : Ending) (w : Walk) : Prop where
  tracks : Tracks (List.range' 0 (d + 1) ++ e.reading t.sectionCount d (t.jumpBack d k))
    (e.reading t.sectionCount d w.cursor) w
  double : w.passes.size = 2
  first : w.passes[0]?.map Pass.indices = some (List.range' 0 (d + 1))
  used : ∀ i, w.damage.getD i 0 = if i = d then 1 else 0
  damageSize : w.damage.size = t.sectionCount
  visited : ∀ i ≤ d, (w.visited[i]?).getD false = true
  place : e.Place d w.cursor
  past : t.jumpBack d k ≤ w.cursor

/-- The walk has played the whole road map, the first pass up to the jump. -/
structure Arrived (t : Timeline) (d : Nat) (k : JumpKind) (e : Ending) (w : Walk) : Prop where
  tracks : Tracks (List.range' 0 (d + 1) ++ e.reading t.sectionCount d (t.jumpBack d k)) [] w
  double : w.passes.size = 2
  first : w.passes[0]?.map Pass.indices = some (List.range' 0 (d + 1))

variable {pf : Performer} {t : Timeline} {d : Nat} {k : JumpKind} {e : Ending} {w : Walk}
  {r : Turn}

namespace Outbound

theorem number (h : Outbound t d k e w) : w.number = 1 := by
  rw [h.tracks.number_eq, h.single]

theorem usedAfter (h : Outbound t d k e w) (c : Nat) : w.usedAfter c = false := by
  cases hu : w.usedAfter c
  · rfl
  · obtain ⟨i, -, hpos⟩ := Walk.usedAfter_eq_true.1 hu
    rw [h.unused i] at hpos
    cases hpos

theorem start {w₀ : Walk}
    (ho : pf.openPass (Performer.start t) 1 = some w₀) : Outbound t d k e w₀ := by
  have htr := @Tracks.start (List.range' 0 (d + 1) ++ e.reading t.sectionCount d (t.jumpBack d k))
    pf t w₀ ho
  obtain ⟨-, rfl⟩ := Performer.openPass_eq_some.1 ho
  refine ⟨?_, by simp, by simp, fun i => ?_, by simp [Performer.start, Walk.mapPasses],
    fun i hi => absurd hi (by simp), by simp [Performer.start, Walk.mapPasses]⟩
  · simpa using htr
  · simp only [Walk.mapPasses, Performer.start, Array.getD_eq_getD_getElem?,
      Array.getElem?_replicate]
    split <;> rfl

theorem next (h : Outbound t d k e w) (hd : d < t.sectionCount) (hlt : w.cursor < d) :
    Outbound t d k e { pf.play t false w with cursor := w.cursor + 1 } := by
  have htr := h.tracks
  rw [show List.range' w.cursor (d + 1 - w.cursor) =
      w.cursor :: List.range' (w.cursor + 1) (d + 1 - (w.cursor + 1)) by
    rw [show d + 1 - w.cursor = d + 1 - (w.cursor + 1) + 1 by omega, List.range'_succ],
    List.cons_append] at htr
  refine ⟨(Tracks.play htr).congr rfl rfl, by simpa using h.single, by simp only; omega,
    fun i => by simpa using h.unused i, by simpa using h.damageSize, fun i hi => ?_,
    by simpa using h.visitedSize⟩
  · have hsize : w.cursor < w.visited.size := by
      rw [h.visitedSize]
      omega
    show ((pf.play t false w).visited[i]?).getD false = true
    rw [Performer.play_visited]
    have hi : i < w.cursor + 1 := hi
    rcases Nat.lt_succ_iff_lt_or_eq.1 hi with hi | rfl
    · simp [h.visited i hi]
    · simp [hsize]

theorem jump (h : Outbound t d k e w) (hd : d < t.sectionCount)
    (hfits : e.Fits (t.jumpBack d k) d t.sectionCount) (hc : w.cursor = d) {w₂ : Walk}
    (ho : pf.openPass ((pf.play t false w).markUsed w.cursor false)
      (((pf.play t false w).markUsed w.cursor false).number + 1) = some w₂) :
    Inbound t d k e { w₂ with cursor := t.jumpBack d k } := by
  have htr := h.tracks
  rw [show List.range' w.cursor (d + 1 - w.cursor) = [w.cursor] by
    rw [show d + 1 - w.cursor = 1 by omega]
    rfl, List.singleton_append] at htr
  have hplay : Tracks _ _ (pf.play t false w) := Tracks.play htr
  -- the first pass is complete: it played the columns up to the jump
  have hfirst : (pf.play t false w).passes[0]?.map Pass.indices = some (List.range' 0 (d + 1)) := by
    rw [Pass.first_of_single (by simpa using h.single)]
    exact congrArg some (List.append_cancel_right hplay.plays)
  have hused : Tracks _ _ ((pf.play t false w).markUsed w.cursor false) :=
    hplay.congr (by simp) (by simp)
  have hopen := hused.jump ho
  obtain ⟨-, rfl⟩ := Performer.openPass_eq_some.1 ho
  have hsize : w.cursor < w.damage.size := by
    rw [h.damageSize]
    omega
  refine ⟨hopen.congr rfl rfl, by simp [h.single], ?_, fun i => ?_, by simp [h.damageSize],
    fun i hi => ?_, Ending.place_of_fits hfits, Nat.le_refl _⟩
  · simp only [Walk.mapPasses_passes, Walk.markUsed_passes, Array.getElem?_push,
      Performer.play_passes_size, h.single]
    exact hfirst
  · simp only [Walk.mapPasses_damage, Walk.markUsed_damage_getD, Performer.play_damage, h.unused]
    subst hc
    by_cases hid : i = w.cursor <;> simp [hid, hsize]
  · show ((pf.play t false w).visited[i]?).getD false = true
    rw [Performer.play_visited]
    by_cases hid : i = w.cursor
    · have : w.cursor < w.visited.size := by
        rw [h.visitedSize]
        omega
      simp [hid, this]
    · simp [h.visited i (by omega)]

/-- Past a column the first pass plays, it goes on, and at the jump it opens the second pass. -/
theorem follow (h : Outbound t d k e w) (ht : t.RoadMap d k e) (hlimit : 2 ≤ pf.limit)
    {s : Separators} (hk : w.cursor < t.sectionCount) (hs : t.separatorsAt w.cursor = some s) :
    (pf.follow t false s (pf.play t false w)).Lands
      (fun w => Outbound t d k e w ∨ Inbound t d k e w) (Arrived t d k e) := by
  rw [Performer.follow]
  simp only [Performer.closing, Bool.false_eq_true, if_false]
  rw [ht.after_eq hk hs (by simp)]
  rcases Nat.lt_or_eq_of_le h.before with hlt | heq
  · -- no mark is used yet, so the walk moves on
    have hterm := ht.unended _ s (Nat.lt_of_le_of_lt hlt ht.within) hs
    simp only [if_neg (Nat.ne_of_lt hlt), Performer.play_usedAfter, h.usedAfter,
      Bool.false_eq_true, and_false, if_false, hterm, Performer.play_cursor]
    exact Or.inl (h.next ht.within hlt)
  · have hdmg : ((pf.play t false w).damage[w.cursor]?).getD 0 = 0 := by
      simpa [Array.getD_eq_getD_getElem?] using h.unused w.cursor
    rw [if_pos heq, if_pos hdmg]
    dsimp only
    cases ho : pf.openPass ((pf.play t false w).markUsed w.cursor false)
        (((pf.play t false w).markUsed w.cursor false).number + 1) with
    | some w₂ => exact Or.inr (h.jump ht.within ht.fits heq ho)
    | none =>
      -- the second pass is within the limit
      simp [Performer.openPass, h.single] at ho
      omega

/-- **Every turn of the first pass keeps to the road map.** It plays the next column, or at the
jump opens the second pass. -/
theorem turn (ht : t.RoadMap d k e) (hlimit : 2 ≤ pf.limit) (h : Outbound t d k e w)
    (hturn : Performer.Turns pf t false w r) :
    r.Lands (fun w => Outbound t d k e w ∨ Inbound t d k e w) (Arrived t d k e) := by
  cases hturn with
  | atEnd hk =>
    have := h.before
    have := ht.within
    omega
  | unmarked hk hs => exact absurd hs (ht.rectangular.separatorsAt_ne_none hk)
  | skipped hk hs _ hskip =>
    rw [ht.skipTarget_of_unused hk hs (.inl h.number) (h.usedAfter _)] at hskip
    cases hskip
  | cutAtReset hk hs _ _ hreset _ =>
    rw [(ht.plain _ hk _ hs).2.1] at hreset
    cases hreset
  | @played w₁ s _ hk hs _ hprep hfol =>
    obtain rfl := hprep.eq_of_no_reset (ht.plain _ hk s hs).2.1
    rw [hfol.eq_follow]
    exact h.follow ht hlimit hk hs

end Outbound

namespace Inbound

theorem number (h : Inbound t d k e w) : w.number = 2 := by
  rw [h.tracks.number_eq, h.double]

theorem usedAfter (h : Inbound t d k e w) (c : Nat) : w.usedAfter c = decide (c < d) := by
  rw [Bool.eq_iff_iff, Walk.usedAfter_eq_true, decide_eq_true_iff]
  constructor
  · rintro ⟨i, hci, hpos⟩
    rw [h.used i] at hpos
    split at hpos
    · omega
    · cases hpos
  · intro hcd
    refine ⟨d, hcd, ?_⟩
    rw [h.used d, if_pos rfl]
    exact Nat.one_pos

theorem skipTarget_eq_none (h : Inbound t d k e w) (ht : t.RoadMap d k e) {s : Separators}
    (hk : w.cursor < t.sectionCount) (hs : t.separatorsAt w.cursor = some s)
    (hsk : ∀ p₁ p₂, e = .coda p₁ p₂ → p₁ < d → w.cursor ≠ p₁) :
    Performer.skipTarget t w s = none := by
  cases hp : e.portalAt w.cursor
  · exact ht.skipTarget_of_no_portal hk hs (.inr ⟨h.number, h.past⟩) hp
  · refine ht.skipTarget_of_unused hk hs (.inr ⟨h.number, h.past⟩) ?_
    rw [h.usedAfter, decide_eq_false_iff_not]
    have hfits := ht.fits
    cases e with
    | coda p₁ p₂ =>
      obtain ⟨-, -, hdp, -⟩ := hfits
      simp only [Ending.portalAt, Bool.or_eq_true, beq_iff_eq] at hp
      rcases hp with hc | hc
      · exact fun hlt => hsk p₁ p₂ rfl (hc ▸ hlt) hc
      · omega
    | fine => cases hp
    | toEnd => cases hp

/-- How the barline after the cursor reads on the second pass: the `Fine.` ends it, and
otherwise so does the `|||` only. -/
theorem after_eq (h : Inbound t d k e w) (ht : t.RoadMap d k e) {s : Separators}
    (hk : w.cursor < t.sectionCount) (hs : t.separatorsAt w.cursor = some s) :
    Performer.after t (pf.play t false w) s =
      if e.fineAt = some w.cursor ∨ s.after.barline.isTerminal = true then
        (.stop, pf.play t false w)
      else (.next, pf.play t false w) := by
  rw [ht.after_eq hk hs (by simp)]
  have hfits := ht.fits
  by_cases hcd : w.cursor = d
  · -- the jump's mark is used already
    have hdmg : ((pf.play t false w).damage[w.cursor]?).getD 0 ≠ 0 := by
      have := h.used w.cursor
      simp only [Array.getD_eq_getD_getElem?, if_pos hcd] at this
      simp [this]
    have hnf : e.fineAt ≠ some w.cursor := by
      cases e with
      | fine f =>
        obtain ⟨-, hf⟩ := hfits
        simp only [Ending.fineAt, ne_eq, Option.some.injEq]
        omega
      | coda => simp [Ending.fineAt]
      | toEnd => simp [Ending.fineAt]
    rw [if_pos hcd, if_neg hdmg]
    simp [hnf]
  · rw [if_neg hcd, Performer.play_usedAfter, h.usedAfter]
    by_cases hf : e.fineAt = some w.cursor
    · -- a `Fine.` stands before the jump, whose mark is used
      have hlt : w.cursor < d := by
        cases e with
        | fine f =>
          obtain ⟨-, hfd⟩ := hfits
          obtain rfl : f = w.cursor := Option.some.inj hf
          exact hfd
        | coda => cases hf
        | toEnd => cases hf
      simp [hf, hlt]
    · simp [hf]

theorem next (h : Inbound t d k e w) (hk : w.cursor < t.sectionCount)
    (hfine : e.fineAt ≠ some w.cursor) (hskip : ∀ p₁ p₂, e = .coda p₁ p₂ → p₁ < d → w.cursor ≠ p₁) :
    Inbound t d k e { pf.play t false w with cursor := w.cursor + 1 } := by
  obtain ⟨hread, hplace⟩ := Ending.reading_next hk hfine hskip h.place
  have htr := h.tracks
  rw [hread] at htr
  refine ⟨(Tracks.play htr).congr rfl rfl, by simpa using h.double, ?_,
    fun i => by simpa using h.used i, by simpa using h.damageSize, fun i hi => ?_, hplace,
    Nat.le_succ_of_le h.past⟩
  · show ((pf.play t false w).passes[0]?).map Pass.indices = _
    rw [Performer.play_passes_getElem? (by rw [h.double]; omega)]
    exact h.first
  · show ((pf.play t false w).visited[i]?).getD false = true
    rw [Performer.play_visited, h.visited i hi, Bool.or_true]

theorem skip (h : Inbound t d k e w) (hfits : e.Fits (t.jumpBack d k) d t.sectionCount)
    {p₁ p₂ : Nat} (he : e = .coda p₁ p₂) (hc : w.cursor = p₁) (hlt : p₁ < d) :
    Inbound t d k e { w with cursor := p₂ } := by
  subst he
  have htr := h.tracks
  rw [hc, Ending.reading_skip hlt hfits] at htr
  have hpast : t.jumpBack d k ≤ p₂ := by
    obtain ⟨-, -, hdp, -⟩ := hfits
    have := h.past
    omega
  exact ⟨htr.congr rfl rfl, h.double, h.first, h.used, h.damageSize, h.visited,
    fun _ => .inr (Nat.le_refl _), hpast⟩

theorem stop (h : Inbound t d k e w)
    (hlast : e.reading t.sectionCount d w.cursor = [w.cursor]) :
    Arrived t d k e (pf.play t false w) := by
  have htr := h.tracks
  rw [hlast] at htr
  refine ⟨Tracks.play htr, by simpa using h.double, ?_⟩
  rw [Performer.play_passes_getElem? (by rw [h.double]; omega)]
  exact h.first

theorem finish (h : Inbound t d k e w) (hk : t.sectionCount ≤ w.cursor) (hd : d < t.sectionCount)
    (hfits : e.Fits (t.jumpBack d k) d t.sectionCount) : Arrived t d k e w := by
  have hend := Ending.reading_end hk hd hfits h.place
  exact ⟨hend ▸ h.tracks, h.double, h.first⟩

theorem skipTarget_portal (h : Inbound t d k e w) (ht : t.RoadMap d k e) {s : Separators}
    (hk : w.cursor < t.sectionCount) (hs : t.separatorsAt w.cursor = some s) {p₁ p₂ : Nat}
    (he : e = .coda p₁ p₂) (hc : w.cursor = p₁) (hlt : p₁ < d) :
    Performer.skipTarget t w s = some p₂ := by
  have hv := h.visited w.cursor (by omega)
  have hu : w.usedAfter w.cursor = true := by simp [h.usedAfter, hc, hlt]
  exact ht.skipTarget_coda he hk hs (.inr ⟨h.number, h.past⟩) hc hv hu

/-- Past a column the second pass plays, it ends at the `Fine.` or the last column, and
otherwise goes on. -/
theorem follow (h : Inbound t d k e w) (ht : t.RoadMap d k e) {s : Separators}
    (hk : w.cursor < t.sectionCount) (hs : t.separatorsAt w.cursor = some s)
    (hsk : ∀ p₁ p₂, e = .coda p₁ p₂ → p₁ < d → w.cursor ≠ p₁) :
    (pf.follow t false s (pf.play t false w)).Lands
      (fun w => Outbound t d k e w ∨ Inbound t d k e w) (Arrived t d k e) := by
  rw [Performer.follow]
  simp only [Performer.closing, Bool.false_eq_true, if_false]
  rw [h.after_eq ht hk hs]
  by_cases hstop : e.fineAt = some w.cursor ∨ s.after.barline.isTerminal = true
  · rw [if_pos hstop]
    refine h.stop ?_
    rcases hstop with hf | hterm
    · exact Ending.reading_fine hf
    · have hlast : w.cursor + 1 = t.sectionCount := by
        by_contra hne
        rw [ht.unended _ s (by omega) hs] at hterm
        cases hterm
      exact Ending.reading_last hlast ht.within ht.fits h.place
  · rw [if_neg hstop]
    simp only [Performer.play_cursor]
    exact Or.inr (h.next hk (fun hf => hstop (.inl hf)) hsk)

/-- **Every turn of the second pass keeps to the road map.** It plays the next column of the
reading, skips from the first portal to the second, or ends the walk where the reading
ends. -/
theorem turn (ht : t.RoadMap d k e) (h : Inbound t d k e w)
    (hturn : Performer.Turns pf t false w r) :
    r.Lands (fun w => Outbound t d k e w ∨ Inbound t d k e w) (Arrived t d k e) := by
  cases hturn with
  | atEnd hk => exact h.finish hk ht.within ht.fits
  | unmarked hk hs => exact absurd hs (ht.rectangular.separatorsAt_ne_none hk)
  | skipped hk hs _ hskip =>
    by_cases hsk : ∃ p₁ p₂, e = .coda p₁ p₂ ∧ w.cursor = p₁ ∧ p₁ < d
    · obtain ⟨p₁, p₂, he, hc, hlt⟩ := hsk
      rw [h.skipTarget_portal ht hk hs he hc hlt, Option.some.injEq] at hskip
      subst hskip
      exact Or.inr (h.skip ht.fits he hc hlt)
    · rw [h.skipTarget_eq_none ht hk hs fun p₁ p₂ he hlt hc => hsk ⟨p₁, p₂, he, hc, hlt⟩] at hskip
      cases hskip
  | cutAtReset hk hs _ _ hreset _ =>
    rw [(ht.plain _ hk _ hs).2.1] at hreset
    cases hreset
  | @played w₁ s _ hk hs hskip hprep hfol =>
    obtain rfl := hprep.eq_of_no_reset (ht.plain _ hk s hs).2.1
    -- the column is not the first portal before the jump, which would have skipped
    have hsk : ∀ p₁ p₂, e = .coda p₁ p₂ → p₁ < d → w.cursor ≠ p₁ := by
      intro p₁ p₂ he hlt hc
      rw [h.skipTarget_portal ht hk hs he hc hlt] at hskip
      cases hskip rfl
    rw [hfol.eq_follow]
    exact h.follow ht hk hs hsk

end Inbound

/-- The performed walk of such an article follows the road map, when two passes are
allowed. -/
theorem walk_follows_road_map (ht : t.RoadMap d k e) (hlimit : 2 ≤ pf.limit) :
    Arrived t d k e (pf.walk t false) := by
  have hopen : pf.openPass (Performer.start t) 1 =
      some ((Performer.start t).mapPasses (·.push ⟨1, #[]⟩)) :=
    Performer.openPass_eq_some.2 ⟨by simp; omega, rfl⟩
  unfold Performer.walk
  simp only [Bool.false_eq_true, if_false, hopen]
  refine Performer.run_invariant pf t false
    (fun w r (hw : Outbound t d k e w ∨ Inbound t d k e w) hr => ?_) _
    (Or.inl (Outbound.start hopen))
  rcases hw with hw | hw
  · exact hw.turn ht hlimit hr
  · exact hw.turn ht hr

/-- What the performed read reports once its walk has played the whole road map: two passes,
the first up to the jump and the second the reading after it. -/
theorem Arrived.read (hw : Arrived t d k e (pf.walk t false)) (j : Journal) :
    let p := ((pf.read t false).run j).1
    passNumbers p.passes = [1, 2] ∧ p.overflow = false ∧ p.conflict = false ∧
      p.passes.toList.map Pass.indices =
        [List.range (d + 1), e.reading t.sectionCount d (t.jumpBack d k)] := by
  rw [Performer.read_run]
  have hnum : passNumbers (pf.walk t false).passes = [1, 2] := by
    rw [hw.tracks.numbers, hw.double]
    rfl
  -- passes numbered apart play no column twice under one number
  have hconf : (pf.walk t false).conflicts = [] :=
    Performer.walk_conflicts_nil pf t false (by rw [hnum]; decide)
  refine ⟨hnum, hw.tracks.going, by simp [hconf], ?_⟩
  obtain ⟨q₁, q₂, hq⟩ := List.length_eq_two.1
    (show (pf.walk t false).passes.toList.length = 2 by simpa using hw.double)
  have h₁ : q₁.indices = List.range' 0 (d + 1) := by
    have := hw.first
    rw [← Array.getElem?_toList, hq] at this
    simpa using this
  have hplays := hw.tracks.plays
  rw [hq] at hplays
  simp only [List.flatMap_cons, List.flatMap_nil, List.append_nil, h₁] at hplays
  show (pf.walk t false).passes.toList.map Pass.indices = _
  rw [hq, List.map_cons, List.map_cons, List.map_nil, h₁, List.append_cancel_left hplays,
    List.range_eq_range']

/-- **D.S. and D.C. follow the road map.** On an article whose only marks the performed walk
acts on are one `D.S.` or `D.C.` after column `d` and the ending of the pass it opens,
performed with two passes allowed, the read plays two passes, numbered 1 and 2, is not cut
short and plays no column twice on one pass. The first pass plays the columns `0` to `d`; the
second plays from where the jump leads: up to the `Fine.`, or up to the first portal and on
from the second when the first stands before the jump, or else up to the end. -/
theorem perform_follows_road_map (pf : Performer) (t : Timeline) (j : Journal) (d : Nat)
    (k : JumpKind) (e : Ending) (ht : t.RoadMap d k e) (hlimit : 2 ≤ pf.limit) :
    let p := ((pf.read t false).run j).1
    passNumbers p.passes = [1, 2] ∧ p.overflow = false ∧ p.conflict = false ∧
      p.passes.toList.map Pass.indices =
        [List.range (d + 1), e.reading t.sectionCount d (t.jumpBack d k)] :=
  (walk_follows_road_map ht hlimit).read j

/-- Three columns with a `Fine.` after the first and a `D.C.` after the second, performed with two
passes allowed, are played as `0 1` and then `0`. -/
theorem perform_follows_road_map_da_capo_al_fine :
    let bar (a : BarlineAttrs) : Separator := ⟨.bar, a, default⟩
    let col (before after : Separator) : Section Pitch :=
      { (default : Section Pitch) with separators := ⟨before, after, after.barline⟩ }
    let t : Timeline := { (default : Timeline) with
      columns := #[default, default, default],
      voices := #[{ (default : Voice) with notes := #[
        col (bar {}) (bar { own := [.jump .fine] }),
        col (bar { own := [.jump .fine] }) (bar { own := [.jump .daCapo] }),
        col (bar { own := [.jump .daCapo] }) ⟨.terminal, {}, default⟩] }] }
    let pf : Performer := ⟨2, 120.0⟩
    let p := ((pf.read t false).run default).1
    t.RoadMap 1 .daCapo (.fine 0) ∧ 2 ≤ pf.limit ∧
    passNumbers p.passes = [1, 2] ∧ p.overflow = false ∧ p.conflict = false ∧
      p.passes.toList.map Pass.indices = [List.range 2, [0]] := by
  intro bar col t pf p
  have hn : t.sectionCount = 3 := rfl
  have ht : t.RoadMap 1 .daCapo (.fine 0) := by
    refine ⟨⟨fun _ => by decide, by simp [t, hn]⟩,
      fun _ hj => absurd hj (by rw [show t.jumpers = #[] from rfl]; simp), by decide, by decide,
      fun c hc s hs => ?_, fun c s hc hs => ?_, ⟨by decide, by decide⟩⟩
    · -- each column's separators are read off the timeline by unfolding it
      rw [hn] at hc
      interval_cases c <;> cases hs <;> exact ⟨rfl, rfl, rfl, rfl, rfl⟩
    · have hc : c < 2 := by omega
      interval_cases c <;> cases hs <;> rfl
  obtain ⟨hnum, hover, hconf, hplays⟩ := perform_follows_road_map pf t default 1 .daCapo (.fine 0) ht
    (by decide)
  exact ⟨ht, by decide, hnum, hover, hconf, by rw [hplays]; rfl⟩

/-- With the first portal at the jump itself, the pass after the jump plays on through both
portals to the end, `0 1 2 3`, and not up to the first portal and on from the second, `0 3`. -/
theorem road_map_portal_at_jump_plays_through :
    let bar (a : BarlineAttrs) : Separator := ⟨.bar, a, default⟩
    let col (before after : Separator) : Section Pitch :=
      { (default : Section Pitch) with separators := ⟨before, after, after.barline⟩ }
    let t : Timeline := { (default : Timeline) with
      columns := #[default, default, default, default],
      voices := #[{ (default : Voice) with notes := #[
        col (bar {}) (bar { own := [.portal] }),
        col (bar { own := [.portal] }) (bar { own := [.jump .daCapo] }),
        col (bar { own := [.jump .daCapo] }) (bar { own := [.portal] }),
        col (bar { own := [.portal] }) ⟨.terminal, {}, default⟩] }] }
    let pf : Performer := ⟨2, 120.0⟩
    let p := ((pf.read t false).run default).1
    t.RoadMap 1 .daCapo (.coda 1 3) ∧ 2 ≤ pf.limit ∧
      p.passes.toList.map Pass.indices = [[0, 1], [0, 1, 2, 3]] ∧
      [0, 1, 2, 3] ≠ List.range' 0 (1 - 0) ++ List.range' 3 (4 - 3) := by
  intro bar col t pf p
  have hn : t.sectionCount = 4 := rfl
  have ht : t.RoadMap 1 .daCapo (.coda 1 3) := by
    refine ⟨⟨fun _ => by decide, by simp [t, hn]⟩,
      fun _ hj => absurd hj (by rw [show t.jumpers = #[] from rfl]; simp), by decide, by decide,
      fun c hc s hs => ?_, fun c s hc hs => ?_, ⟨by decide, by decide, by decide, by decide⟩⟩
    · -- each column's separators are read off the timeline by unfolding it
      rw [hn] at hc
      interval_cases c <;> cases hs <;> exact ⟨rfl, rfl, rfl, rfl, rfl⟩
    · have hc : c < 3 := by omega
      interval_cases c <;> cases hs <;> rfl
  obtain ⟨-, -, -, hplays⟩ := (@walk_follows_road_map pf t 1 .daCapo (.coda 1 3) ht
    (by decide)).read default
  exact ⟨ht, by decide, by rw [hplays]; rfl, by decide⟩

end Jianpu
