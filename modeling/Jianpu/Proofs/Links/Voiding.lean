import Mathlib
import Jianpu.Proofs.Links.Drawing
/-!
# A tie voids a repeated glyph

Linking a row voids the end of each tie whose two notes show the same glyph. The ties run
between neighbouring marks of the row (`walkMarks_links`), and two marks stand at different
places, so a mark is voided exactly when the mark before it is tied and shows its glyph; a
section's left side is voided exactly when its first mark is voided by a tie from an earlier
section.

A note of a note row shows its accidentals and its digit, not its octave marks or its shift:
a tie voids the next note when those two agree, however far apart the two notes lie in pitch.

* `mem_rowMarks`, `rowMarks_pairwise` — the marks of a row are its notes other than
  extensions, each at its place, in order of place; `sectionMarks_head_of_across` — a mark
  coming after one of an earlier section is the first of its own.
* `voids_mem_walkMarks` — the links of the walk that void a note: ties between neighbouring
  marks that show the same glyph.
* `linkRow_voided` — which notes and left sides linking voids, for any glyph.
* `Pitch.display_eq_iff`, `linkRow_voids_same_digit` — in a note row.
-/

namespace Jianpu

variable {α : Type}

/-! ## The marks of a row in order -/

theorem MusicNote.mark?_eq_some {k i : Nat} {n : MusicNote α} {m : Mark α} :
    n.mark? k i = some m ↔ (∃ g, n.kind = .note g) ∧ m = ⟨k, i, n⟩ := by
  unfold MusicNote.mark?
  split <;> simp_all [eq_comm]

theorem mem_sectionMarks {row : Array (Section α)} {k : Nat} {m : Mark α} :
    m ∈ sectionMarks row k ↔ m.column = k ∧ m.At row ∧ ∃ g, m.note.kind = .note g := by
  unfold sectionMarks Mark.At
  cases hk : row[k]? with
  | none =>
    simp only [Option.map_none, Option.getD_none, List.zipIdx_nil, List.filterMap_nil,
      List.not_mem_nil, false_iff]
    rintro ⟨rfl, hat, -⟩
    simp [hk] at hat
  | some s =>
    simp only [Option.map_some, Option.getD_some, List.mem_filterMap, MusicNote.mark?_eq_some]
    constructor
    · rintro ⟨⟨n, i⟩, hni, hg, rfl⟩
      rw [List.mem_zipIdx_iff_getElem?] at hni
      exact ⟨rfl, by simpa [hk] using hni, hg⟩
    · rintro ⟨rfl, hat, hg⟩
      exact ⟨⟨m.note, m.index⟩, by simpa [List.mem_zipIdx_iff_getElem?, hk] using hat, hg, rfl⟩

theorem mem_rowMarks {row : Array (Section α)} {m : Mark α} :
    m ∈ rowMarks row ↔ m.At row ∧ ∃ g, m.note.kind = .note g := by
  simp only [rowMarks, List.mem_flatMap, List.mem_range, mem_sectionMarks]
  constructor
  · rintro ⟨k, -, rfl, hat, hg⟩
    exact ⟨hat, hg⟩
  · rintro ⟨hat, hg⟩
    refine ⟨m.column, ?_, rfl, hat, hg⟩
    -- a mark standing in the row lies in one of its sections
    unfold Mark.At at hat
    cases h : row[m.column]? with
    | none => simp [h] at hat
    | some s => exact (Array.getElem?_eq_some_iff.1 h).1

def Mark.Before (a b : Mark α) : Prop :=
  a.column < b.column ∨ a.column = b.column ∧ a.index < b.index

theorem sectionMarks_pairwise (row : Array (Section α)) (k : Nat) :
    (sectionMarks row k).Pairwise fun a b => a.index < b.index := by
  unfold sectionMarks
  rw [List.pairwise_filterMap]
  refine List.pairwise_iff_getElem.2 fun i j hi hj hij => ?_
  intro a ha b hb
  obtain ⟨-, rfl⟩ := MusicNote.mark?_eq_some.1 ha
  obtain ⟨-, rfl⟩ := MusicNote.mark?_eq_some.1 hb
  simpa [List.getElem_zipIdx] using hij

theorem rowMarks_pairwise (row : Array (Section α)) : (rowMarks row).Pairwise Mark.Before := by
  unfold rowMarks
  rw [List.pairwise_flatMap]
  refine ⟨fun k _ => (sectionMarks_pairwise row k).imp_of_mem fun ha hb h => ?_,
    List.pairwise_lt_range.imp fun hkk' a ha b hb => ?_⟩
  · exact Or.inr ⟨(mem_sectionMarks.1 ha).1.trans (mem_sectionMarks.1 hb).1.symm, h⟩
  · rw [Mark.Before, (mem_sectionMarks.1 ha).1, (mem_sectionMarks.1 hb).1]
    exact Or.inl hkk'

section Places

variable {row : Array (Section α)}

theorem rowMarks_column_le {p q : Nat} (hpq : p ≤ q) (hq : q < (rowMarks row).length) :
    (rowMarks row)[p].column ≤ (rowMarks row)[q].column := by
  rcases Nat.lt_or_eq_of_le hpq with hlt | rfl
  · have := List.pairwise_iff_getElem.1 (rowMarks_pairwise row) p q (by omega) hq hlt
    unfold Mark.Before at this
    omega
  · exact le_refl _

theorem rowMarks_place_inj {p q : Nat} (hp : p < (rowMarks row).length)
    (hq : q < (rowMarks row).length) (hc : (rowMarks row)[p].column = (rowMarks row)[q].column)
    (hi : (rowMarks row)[p].index = (rowMarks row)[q].index) : p = q := by
  have h := List.pairwise_iff_getElem.1 (rowMarks_pairwise row)
  rcases Nat.lt_trichotomy p q with hpq | rfl | hpq
  · have := h p q hp hq hpq
    unfold Mark.Before at this
    omega
  · rfl
  · have := h q p hq hp hpq
    unfold Mark.Before at this
    omega

theorem flatMap_range_single {β : Type} (L : List β) (k : Nat) : ∀ n,
    ((List.range n).flatMap fun k' => if k' = k then L else []) = if k < n then L else []
  | 0 => by simp
  | n + 1 => by
    rw [List.range_succ, List.flatMap_append, flatMap_range_single L k n, List.flatMap_singleton]
    by_cases hkn : k < n
    · simp [hkn, show n ≠ k by omega, show k < n + 1 by omega]
    · by_cases hk : k = n
      · simp [hk]
      · simp [hkn, show n ≠ k by omega, show ¬k < n + 1 by omega]

/-- The marks of a row in section `k` are the marks of section `k`. -/
theorem rowMarks_filter_column (k : Nat) :
    (rowMarks row).filter (·.column == k) = sectionMarks row k := by
  unfold rowMarks
  rw [List.filter_flatMap]
  have hsec : ∀ k', (sectionMarks row k').filter (·.column == k) =
      if k' = k then sectionMarks row k else [] := by
    intro k'
    split
    · subst k'
      rw [List.filter_eq_self]
      intro m hm
      simp [(mem_sectionMarks.1 hm).1]
    · rw [List.filter_eq_nil_iff]
      intro m hm
      simp [(mem_sectionMarks.1 hm).1, *]
  simp only [hsec, flatMap_range_single]
  split
  · rfl
  · -- past the row there are no sections, so no marks
    rename_i hk
    simp [sectionMarks, Array.getElem?_eq_none (by omega : row.size ≤ k)]

/-- Along marks whose sections do not go back, a mark coming after one of an earlier section is
the first of its section. -/
theorem head_filter_of_across {ms : List (Mark α)} {p : Nat} (hp : p + 1 < ms.length)
    (hle : ∀ q (hq : q ≤ p), ms[q].column ≤ ms[p].column)
    (hacross : ms[p].column < ms[p + 1].column) :
    (ms.filter (·.column == ms[p + 1].column)).head? = some ms[p + 1] := by
  have hsplit : ms.filter (·.column == ms[p + 1].column) =
      (ms.take (p + 1)).filter (·.column == ms[p + 1].column) ++
        (ms.drop (p + 1)).filter (·.column == ms[p + 1].column) := by
    rw [← List.filter_append, List.take_append_drop]
  -- the marks up to the `p`-th lie in sections before the next one
  have htake : (ms.take (p + 1)).filter (·.column == ms[p + 1].column) = [] := by
    rw [List.filter_eq_nil_iff]
    intro m hm
    obtain ⟨q, hq, rfl⟩ := List.getElem_of_mem hm
    rw [List.length_take] at hq
    have := hle q (by omega)
    simp only [List.getElem_take, beq_iff_eq]
    omega
  rw [hsplit, htake, List.nil_append, List.drop_eq_getElem_cons hp,
    List.filter_cons_of_pos (by simp)]
  rfl

theorem sectionMarks_head_of_across {p : Nat} (hp : p + 1 < (rowMarks row).length)
    (hacross : (rowMarks row)[p].column < (rowMarks row)[p + 1].column) :
    (sectionMarks row (rowMarks row)[p + 1].column).head? = some (rowMarks row)[p + 1] := by
  rw [← rowMarks_filter_column]
  exact head_filter_of_across hp (fun q hq => rowMarks_column_le hq (by omega)) hacross

end Places

/-! ## Which links void a note -/

section Glyphs

variable [NoteGlyph α]

def Mark.voidsNext (a b : Mark α) : Bool :=
  a.tied && shownGlyph a.note == shownGlyph b.note

/-- **The links of the walk that void a note** are the ties from a mark to the next that
show one glyph. -/
theorem voids_mem_walkMarks (ms : List (Mark α)) (l : Link α) :
    (l ∈ (walkMarks ms).links ∧ l.voids = true) ↔
      ∃ p, ∃ h : p + 1 < ms.length, ms[p].voidsNext ms[p + 1] = true ∧
        l = ⟨.tie, ms[p], ms[p + 1]⟩ := by
  have hties := congrArg (l ∈ ·) (walkMarks_links ms).1
  simp only [List.mem_filter, beq_iff_eq, eq_iff_iff] at hties
  constructor
  · rintro ⟨hl, hv⟩
    simp only [Link.voids, Bool.and_eq_true, beq_iff_eq] at hv
    obtain ⟨p, a, b, ha, hb, htied, rfl⟩ := mem_tieLinks.1 (hties.1 ⟨hl, hv.1⟩)
    obtain ⟨hp, rfl⟩ := List.getElem?_eq_some_iff.1 hb
    obtain ⟨_, rfl⟩ := List.getElem?_eq_some_iff.1 ha
    exact ⟨p, hp, by simpa [Mark.voidsNext, htied] using hv.2, rfl⟩
  · rintro ⟨p, hp, hv, rfl⟩
    simp only [Mark.voidsNext, Bool.and_eq_true, beq_iff_eq] at hv
    have hlink := mem_tieLinks.2
      ⟨p, _, _, List.getElem?_eq_getElem _, List.getElem?_eq_getElem hp, hv.1, rfl⟩
    exact ⟨(hties.2 hlink).1, by simp [Link.voids, hv.2]⟩

/-- Some link of the walk voids a note and has the property `q` exactly when some tie from a
mark to the next showing its glyph has it. -/
theorem any_voids_walkMarks (ms : List (Mark α)) (q : Link α → Bool) :
    (walkMarks ms).links.any (fun l => l.voids && q l) = true ↔
      ∃ p, ∃ h : p + 1 < ms.length, ms[p].voidsNext ms[p + 1] = true ∧
        q ⟨.tie, ms[p], ms[p + 1]⟩ = true := by
  simp only [List.any_eq_true, Bool.and_eq_true]
  constructor
  · rintro ⟨l, hl, hv, hq⟩
    obtain ⟨p, hp, hnext, rfl⟩ := (voids_mem_walkMarks ms l).1 ⟨hl, hv⟩
    exact ⟨p, hp, hnext, hq⟩
  · rintro ⟨p, hp, hnext, hq⟩
    obtain ⟨hl, hv⟩ := (voids_mem_walkMarks ms _).2 ⟨p, hp, hnext, rfl⟩
    exact ⟨_, hl, hv, hq⟩

theorem any_voidsAt_walkMarks (ms : List (Mark α)) (k i : Nat) :
    (walkMarks ms).links.any (·.voidsAt k i) = true ↔
      ∃ p, ∃ h : p + 1 < ms.length, ms[p].voidsNext ms[p + 1] = true ∧
        ms[p + 1].column = k ∧ ms[p + 1].index = i := by
  have hat : (·.voidsAt k i) =
      fun l : Link α => l.voids && (l.dst.column == k && l.dst.index == i) := by
    funext l
    simp [Link.voidsAt, Bool.and_assoc]
  rw [hat, any_voids_walkMarks]
  simp

theorem any_voidsFrom_walkMarks (ms : List (Mark α)) (k : Nat) :
    (walkMarks ms).links.any (·.voidsFrom k) = true ↔
      ∃ p, ∃ h : p + 1 < ms.length, ms[p].voidsNext ms[p + 1] = true ∧
        ms[p + 1].column = k ∧ ms[p].column ≠ k := by
  have hfrom : (·.voidsFrom k) =
      fun l : Link α => l.voids && (l.dst.column == k && l.src.column != k) := by
    funext l
    simp [Link.voidsFrom, Bool.and_assoc]
  rw [hfrom, any_voids_walkMarks]
  simp

/-! ## What linking voids -/

def Mark.voidedIn (row : Array (Section α)) (m : Mark α) : Option Bool :=
  ((row[m.column]?).bind fun s => s.notes[m.index]?).map (·.voided)

theorem voidedIn_drawnRow (row : Array (Section α)) (ls : List (Link α)) {m : Mark α}
    (hm : m.At row) :
    m.voidedIn (drawnRow row ls) = some (m.note.voided || ls.any (·.voidsAt m.column m.index)) := by
  unfold Mark.At at hm
  unfold Mark.voidedIn
  rw [getElem?_drawnRow]
  cases hs : row[m.column]? with
  | none => simp [hs] at hm
  | some s =>
    simp only [hs, Option.bind_some] at hm
    simp only [Option.map_some, Option.bind_some, notes_modifyContent_drawn,
      List.getElem?_mapIdx, hm]
    split <;> simp_all

/-- The walk voids a mark of the row exactly when the mark before it is tied and shows its
glyph: the only tie that can end at a place is the one from the mark before it. -/
theorem any_voidsAt_rowMarks (row : Array (Section α)) {p : Nat} (hp : p < (rowMarks row).length) :
    (walkMarks (rowMarks row)).links.any
        (·.voidsAt (rowMarks row)[p].column (rowMarks row)[p].index) = true ↔
      ∃ q, ∃ h : q + 1 = p, (rowMarks row)[q].voidsNext (rowMarks row)[p] = true := by
  rw [any_voidsAt_walkMarks]
  constructor
  · rintro ⟨q, hq, hv, hc, hi⟩
    obtain rfl := rowMarks_place_inj hq hp hc hi
    exact ⟨q, rfl, hv⟩
  · rintro ⟨q, rfl, hv⟩
    exact ⟨q, hp, hv, rfl, rfl⟩

/-- The walk voids a left side of section `k` exactly when the first mark of the section is
voided by a tie from a mark of an earlier section. -/
theorem any_voidsFrom_rowMarks (row : Array (Section α)) (k : Nat) :
    (walkMarks (rowMarks row)).links.any (·.voidsFrom k) = true ↔
      ∃ p, ∃ h : p + 1 < (rowMarks row).length,
        (sectionMarks row k).head? = some (rowMarks row)[p + 1] ∧
        (rowMarks row)[p].column < k ∧
        (rowMarks row)[p].voidsNext (rowMarks row)[p + 1] = true := by
  rw [any_voidsFrom_walkMarks]
  constructor
  · rintro ⟨p, hp, hv, rfl, hsrc⟩
    have hlt : (rowMarks row)[p].column < (rowMarks row)[p + 1].column :=
      lt_of_le_of_ne (rowMarks_column_le (Nat.le_succ p) hp) hsrc
    exact ⟨p, hp, sectionMarks_head_of_across hp hlt, hlt, hv⟩
  · rintro ⟨p, hp, hhead, hlt, hv⟩
    have hcol := (mem_sectionMarks.1 (List.mem_of_mem_head? hhead)).1
    exact ⟨p, hp, hv, hcol, by omega⟩

/-- **What linking voids.** Along the marks of a row: the first is voided only if it was, and
each later one exactly when it was or the mark before it is tied and shows its glyph. A
section holding content has its left side voided exactly when it was or its first mark is
voided so by a tie from an earlier section. -/
theorem linkRow_voided (row : Array (Section α)) (j : Journal) :
    (∀ h : 0 < (rowMarks row).length,
      (rowMarks row)[0].voidedIn (linkRow row j).1 = some (rowMarks row)[0].note.voided) ∧
    (∀ p (h : p + 1 < (rowMarks row).length),
      (rowMarks row)[p + 1].voidedIn (linkRow row j).1 = some ((rowMarks row)[p + 1].note.voided ||
        (rowMarks row)[p].voidsNext (rowMarks row)[p + 1])) ∧
    (∀ k c, (row[k]?).bind Section.content? = some c →
      ∃ c', ((linkRow row j).1[k]?).bind Section.content? = some c' ∧
        (c'.leftSplitVoid = true ↔ c.leftSplitVoid = true ∨
          ∃ p, ∃ h : p + 1 < (rowMarks row).length,
            (sectionMarks row k).head? = some (rowMarks row)[p + 1] ∧
            (rowMarks row)[p].column < k ∧
            (rowMarks row)[p].voidsNext (rowMarks row)[p + 1] = true)) := by
  have hrun : (linkRow row j).1 = drawnRow row (walkMarks (rowMarks row)).links := by
    rw [linkRow_run]
  have hat : ∀ p (h : p < (rowMarks row).length), (rowMarks row)[p].At row :=
    fun p h => (mem_rowMarks.1 (List.getElem_mem h)).1
  rw [hrun]
  refine ⟨fun h => ?_, fun p h => ?_, fun k c hc => ?_⟩
  · -- no mark comes before the first
    rw [voidedIn_drawnRow _ _ (hat 0 h)]
    have hnone : (walkMarks (rowMarks row)).links.any
        (·.voidsAt (rowMarks row)[0].column (rowMarks row)[0].index) = false := by
      rw [Bool.eq_false_iff, ne_eq, any_voidsAt_rowMarks row h]
      rintro ⟨q, hq, -⟩
      omega
    rw [hnone, Bool.or_false]
  · rw [voidedIn_drawnRow _ _ (hat (p + 1) h)]
    congr 2
    rw [Bool.eq_iff_iff, any_voidsAt_rowMarks row h]
    constructor
    · rintro ⟨q, hq, hv⟩
      obtain rfl : q = p := by omega
      exact hv
    · exact fun hv => ⟨p, rfl, hv⟩
  · refine ⟨_, by rw [content?_drawnRow, hc]; rfl, ?_⟩
    rw [SectionContent.drawn_eq, Bool.or_eq_true, any_voidsFrom_rowMarks]

end Glyphs

/-! ## In a note row -/

theorem Accidental.glyph_injective : Function.Injective Accidental.glyph := by
  intro a b h
  cases a <;> cases b <;> first | rfl | exact absurd h (by decide)

theorem Pitch.display_eq_iff (p q : Pitch) :
    p.display = q.display ↔ p.char = q.char ∧ p.accidentals = q.accidentals := by
  unfold Pitch.display
  rw [String.ofList_inj]
  constructor
  · intro h
    obtain ⟨hacc, hchar⟩ := List.append_inj' h rfl
    exact ⟨List.singleton_injective hchar,
      (List.map_injective_iff.2 Accidental.glyph_injective) hacc⟩
  · rintro ⟨hchar, hacc⟩
    rw [hchar, hacc]

def MusicNote.spelling (n : MusicNote Pitch) : Option (Char × List Accidental) :=
  n.glyph.map fun p => (p.char, p.accidentals)

theorem shownGlyph_eq_iff_spelling (a b : MusicNote Pitch) :
    shownGlyph a = shownGlyph b ↔ a.spelling = b.spelling := by
  unfold shownGlyph MusicNote.spelling
  cases a.glyph <;> cases b.glyph <;>
    simp [show (NoteGlyph.display : Pitch → String) = Pitch.display from rfl, Pitch.display_eq_iff]

theorem Mark.voidsNext_pitch (a b : Mark Pitch) :
    a.voidsNext b = (a.tied && decide (a.note.spelling = b.note.spelling)) := by
  unfold Mark.voidsNext
  congr 1
  rw [Bool.eq_iff_iff, beq_iff_eq, decide_eq_true_iff, shownGlyph_eq_iff_spelling]

/-- No note of the row other than an extension is voided yet, nor the left side of any of its
sections: a row before its ties are drawn. -/
def Unlinked (row : Array (Section α)) : Prop :=
  (∀ m ∈ rowMarks row, m.note.voided = false) ∧
    ∀ s ∈ row, ∀ c ∈ s.content?, c.leftSplitVoid = false

/-- **A tie voids a repeated digit.** In a note row whose ties are not drawn yet, the first
note other than an extension stays sounding, and each later one is voided exactly when the one
before it is tied and has the same digit and the same accidentals, whatever their octaves and
shifts. A section's left side is voided exactly when its first note other than an extension is
voided so by a tie from an earlier section. -/
theorem linkRow_voids_same_digit (row : Array (Section Pitch)) (hrow : Unlinked row)
    (j : Journal) :
    (∀ h : 0 < (rowMarks row).length, (rowMarks row)[0].voidedIn (linkRow row j).1 = some false) ∧
    (∀ p (h : p + 1 < (rowMarks row).length),
      (rowMarks row)[p + 1].voidedIn (linkRow row j).1 = some ((rowMarks row)[p].tied &&
        decide ((rowMarks row)[p].note.spelling = (rowMarks row)[p + 1].note.spelling))) ∧
    (∀ k c, (row[k]?).bind Section.content? = some c →
      ∃ c', ((linkRow row j).1[k]?).bind Section.content? = some c' ∧
        (c'.leftSplitVoid = true ↔
          ∃ p, ∃ h : p + 1 < (rowMarks row).length,
            (sectionMarks row k).head? = some (rowMarks row)[p + 1] ∧
            (rowMarks row)[p].column < k ∧ (rowMarks row)[p].tied = true ∧
            (rowMarks row)[p].note.spelling = (rowMarks row)[p + 1].note.spelling)) := by
  obtain ⟨hnotes, hsides⟩ := hrow
  have hfresh : ∀ p (h : p < (rowMarks row).length), (rowMarks row)[p].note.voided = false :=
    fun p h => hnotes _ (List.getElem_mem h)
  obtain ⟨hfirst, hnext, hleft⟩ := linkRow_voided row j
  refine ⟨fun h => by rw [hfirst h, hfresh 0 h], fun p h => ?_, fun k c hc => ?_⟩
  · rw [hnext p h, hfresh (p + 1) h, Bool.false_or, Mark.voidsNext_pitch]
  · obtain ⟨c', hc', hiff⟩ := hleft k c hc
    -- the section was read with its left side not voided
    have hc0 : c.leftSplitVoid = false := by
      cases hs : row[k]? with
      | none => simp [hs] at hc
      | some s =>
        rw [hs, Option.bind_some] at hc
        exact hsides s (Array.mem_of_getElem? hs) c hc
    refine ⟨c', hc', ?_⟩
    rw [hiff, hc0]
    simp [Mark.voidsNext_pitch]

end Jianpu
