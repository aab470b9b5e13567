import Mathlib
import Jianpu.Proofs.Links.Fresh
/-!
# Ties drawn in a laid article

`TiesDrawn row` says what linking leaves in a row read with no tie drawn
(`linkRow_voids_same_digit`), in terms of the linked row's own marks: the first sounds, each
later one is voided exactly when the one before it is tied and has the same digit and
accidentals, and a section's left side is voided exactly when its first mark is voided so by
a tie from an earlier section. Drawing links changes the marks of a row only by voiding some
(`rowMarks_drawnRow`), so the marks of the row before linking can stand for those after.

* `linkRow_tiesDrawn` — a row with no tie drawn, once linked, has its ties drawn.
* `interlink_tiesDrawn` — so have the notes and verse melodies of every voice of a timeline
  read fresh, once interlinked.
* `scoreArticles_tiesDrawn` — so have those of every music article of a score text, once laid
  on the time axis.
-/

namespace Jianpu

variable {α : Type}

/-! ## The marks of a drawn row -/

theorem zipIdx_mapIdx {β γ : Type} (l : List β) (f : Nat → β → γ) :
    (l.mapIdx f).zipIdx = l.zipIdx.map fun p => (f p.2 p.1, p.2) := by
  apply List.ext_getElem
  · simp
  · intro i h₁ h₂
    simp [List.getElem_zipIdx, List.getElem_mapIdx]

section Drawn

variable [NoteGlyph α]

def Mark.drawnBy (ls : List (Link α)) (m : Mark α) : Mark α :=
  { m with note := if ls.any (·.voidsAt m.column m.index) then { m.note with voided := true }
    else m.note }

@[simp] theorem Mark.drawnBy_column (ls : List (Link α)) (m : Mark α) :
    (m.drawnBy ls).column = m.column := rfl

@[simp] theorem Mark.drawnBy_index (ls : List (Link α)) (m : Mark α) :
    (m.drawnBy ls).index = m.index := rfl

theorem Mark.drawnBy_voided (ls : List (Link α)) (m : Mark α) :
    (m.drawnBy ls).note.voided = (m.note.voided || ls.any (·.voidsAt m.column m.index)) := by
  unfold Mark.drawnBy
  split <;> simp_all

theorem Mark.drawnBy_tied (ls : List (Link α)) (m : Mark α) : (m.drawnBy ls).tied = m.tied := by
  unfold Mark.drawnBy Mark.tied
  split <;> rfl

theorem Mark.drawnBy_spelling (ls : List (Link Pitch)) (m : Mark Pitch) :
    (m.drawnBy ls).note.spelling = m.note.spelling := by
  unfold Mark.drawnBy
  split <;> rfl

/-- Drawing links changes the marks of a section only by voiding some. -/
theorem sectionMarks_drawnRow (row : Array (Section α)) (ls : List (Link α)) (k : Nat) :
    sectionMarks (drawnRow row ls) k = (sectionMarks row k).map (Mark.drawnBy ls) := by
  unfold sectionMarks
  rw [getElem?_drawnRow]
  cases row[k]? with
  | none => rfl
  | some s =>
    simp only [Option.map_some, Option.getD_some, notes_modifyContent_drawn, zipIdx_mapIdx,
      List.filterMap_map, List.map_filterMap]
    congr 1
    funext p
    obtain ⟨n, i⟩ := p
    simp only [Function.comp_apply]
    unfold MusicNote.mark?
    -- the note voided or not, it is a mark exactly when it was
    by_cases hv : ls.any (·.voidsAt k i) = true
    · rw [if_pos hv]
      cases hk : n.kind <;> simp [Mark.drawnBy, hv, hk]
    · rw [if_neg hv]
      cases n.kind <;> simp [Mark.drawnBy, hv]

theorem rowMarks_drawnRow (row : Array (Section α)) (ls : List (Link α)) :
    rowMarks (drawnRow row ls) = (rowMarks row).map (Mark.drawnBy ls) := by
  unfold rowMarks
  rw [List.map_flatMap, show (drawnRow row ls).size = row.size from Array.size_mapIdx]
  exact List.flatMap_congr fun k _ => sectionMarks_drawnRow row ls k

/-- The first mark of a section, once drawn, is the drawn mark `p` exactly when the first
mark was mark `p`: two marks at one place are one. -/
theorem head_sectionMarks_drawnBy {row : Array (Section α)} (ls : List (Link α)) (k : Nat)
    {p : Nat} (hp : p < (rowMarks row).length) :
    ((sectionMarks row k).map (Mark.drawnBy ls)).head? = some ((rowMarks row)[p].drawnBy ls) ↔
      (sectionMarks row k).head? = some (rowMarks row)[p] := by
  rw [List.head?_map]
  constructor
  · intro h
    obtain ⟨m, hm, hdrawn⟩ := Option.map_eq_some_iff.1 h
    have hmem : m ∈ rowMarks row := by
      obtain ⟨-, hat, hg⟩ := mem_sectionMarks.1 (List.mem_of_mem_head? hm)
      exact mem_rowMarks.2 ⟨hat, hg⟩
    obtain ⟨q, hq, rfl⟩ := List.getElem_of_mem hmem
    have hcol := congrArg Mark.column hdrawn
    have hidx := congrArg Mark.index hdrawn
    simp only [Mark.drawnBy_column, Mark.drawnBy_index] at hcol hidx
    obtain rfl := rowMarks_place_inj hq hp hcol hidx
    exact hm
  · intro h
    rw [h]
    rfl

theorem getElem?_rowMarks_drawnRow (row : Array (Section α)) (ls : List (Link α)) (p : Nat) :
    (rowMarks (drawnRow row ls))[p]? = ((rowMarks row)[p]?).map (Mark.drawnBy ls) := by
  rw [rowMarks_drawnRow, List.getElem?_map]

theorem exists_of_getElem?_rowMarks_drawnRow {row : Array (Section α)} {ls : List (Link α)}
    {p : Nat} {m : Mark α} (h : (rowMarks (drawnRow row ls))[p]? = some m) :
    ∃ hp : p < (rowMarks row).length, m = (rowMarks row)[p].drawnBy ls := by
  rw [getElem?_rowMarks_drawnRow, Option.map_eq_some_iff] at h
  obtain ⟨m0, hm0, rfl⟩ := h
  obtain ⟨hp, rfl⟩ := List.getElem?_eq_some_iff.1 hm0
  exact ⟨hp, rfl⟩

theorem voidedIn_drawnRow_eq_drawnBy {row : Array (Section α)} (ls : List (Link α)) {m : Mark α}
    (hm : m ∈ rowMarks row) : m.voidedIn (drawnRow row ls) = some (m.drawnBy ls).note.voided := by
  rw [voidedIn_drawnRow _ _ (mem_rowMarks.1 hm).1, Mark.drawnBy_voided]

end Drawn

/-! ## Rows with their ties drawn -/

/-- A note row as linking leaves a row read with no tie drawn: along its marks, the first is
not voided, and each later one is voided exactly when the one before it is tied and has the
same digit and accidentals; a section's left side is voided exactly when its first mark is
voided so by a tie from a mark of an earlier section. -/
def TiesDrawn (row : Array (Section Pitch)) : Prop :=
  (∀ m, (rowMarks row).head? = some m → m.note.voided = false) ∧
  (∀ p a b, (rowMarks row)[p]? = some a → (rowMarks row)[p + 1]? = some b →
    b.note.voided = (a.tied && decide (a.note.spelling = b.note.spelling))) ∧
  (∀ k c, (row[k]?).bind Section.content? = some c →
    (c.leftSplitVoid = true ↔ ∃ p a b, (rowMarks row)[p]? = some a ∧
      (rowMarks row)[p + 1]? = some b ∧ (sectionMarks row k).head? = some b ∧
      a.column < k ∧ a.tied = true ∧ a.note.spelling = b.note.spelling))

/-- A row read with no tie drawn, once linked, has its ties drawn. -/
theorem linkRow_tiesDrawn (row : Array (Section Pitch)) (hrow : Unlinked row) (j : Journal) :
    TiesDrawn (linkRow row j).1 := by
  obtain ⟨hfirst, hnext, hleft⟩ := linkRow_voids_same_digit row hrow j
  have hrun : (linkRow row j).1 = drawnRow row (walkMarks (rowMarks row)).links := by
    rw [linkRow_run]
  generalize (walkMarks (rowMarks row)).links = ls at hrun
  rw [hrun] at hfirst hnext hleft ⊢
  have hvoided : ∀ p (h : p < (rowMarks row).length),
      (rowMarks row)[p].voidedIn (drawnRow row ls) = some ((rowMarks row)[p].drawnBy ls).note.voided :=
    fun p h => voidedIn_drawnRow_eq_drawnBy ls (List.getElem_mem h)
  have hdrawn : ∀ p (h : p < (rowMarks row).length),
      (rowMarks (drawnRow row ls))[p]? = some ((rowMarks row)[p].drawnBy ls) := fun p h => by
    rw [getElem?_rowMarks_drawnRow, List.getElem?_eq_getElem h, Option.map_some]
  refine ⟨fun m hm => ?_, fun p a b ha hb => ?_, fun k c hc => ?_⟩
  · rw [List.head?_eq_getElem?] at hm
    obtain ⟨h, rfl⟩ := exists_of_getElem?_rowMarks_drawnRow hm
    exact Option.some.inj ((hvoided 0 h).symm.trans (hfirst h))
  · obtain ⟨-, rfl⟩ := exists_of_getElem?_rowMarks_drawnRow ha
    obtain ⟨h, rfl⟩ := exists_of_getElem?_rowMarks_drawnRow hb
    rw [Mark.drawnBy_tied, Mark.drawnBy_spelling, Mark.drawnBy_spelling]
    exact Option.some.inj ((hvoided (p + 1) h).symm.trans (hnext p h))
  · rw [content?_drawnRow] at hc
    obtain ⟨c0, hc0, rfl⟩ := Option.map_eq_some_iff.1 hc
    obtain ⟨c', hc', hiff⟩ := hleft k c0 hc0
    rw [content?_drawnRow, hc0, Option.map_some, Option.some.injEq] at hc'
    rw [hc', hiff, sectionMarks_drawnRow]
    constructor
    · rintro ⟨p, h, hhead, hcol, htied, hspelling⟩
      refine ⟨p, _, _, hdrawn p (by omega), hdrawn (p + 1) h,
        (head_sectionMarks_drawnBy ls k h).2 hhead, hcol, ?_, ?_⟩
      · rwa [Mark.drawnBy_tied]
      · rwa [Mark.drawnBy_spelling, Mark.drawnBy_spelling]
    · rintro ⟨p, a, b, ha, hb, hhead, hcol, htied, hspelling⟩
      obtain ⟨hp, rfl⟩ := exists_of_getElem?_rowMarks_drawnRow ha
      obtain ⟨h, rfl⟩ := exists_of_getElem?_rowMarks_drawnRow hb
      rw [Mark.drawnBy_tied] at htied
      rw [Mark.drawnBy_spelling, Mark.drawnBy_spelling] at hspelling
      exact ⟨p, h, (head_sectionMarks_drawnBy ls k h).1 hhead, hcol, htied, hspelling⟩

def Voice.TiesDrawn (v : Voice) : Prop :=
  Jianpu.TiesDrawn v.notes ∧ ∀ l ∈ v.verses, ∀ s ∈ l.substitute, Jianpu.TiesDrawn s

theorem linkRow_fresh_tiesDrawn (row : Array (Section Pitch)) (h : ∀ s ∈ row, s.Fresh) :
    Always (linkRow row) TiesDrawn :=
  fun j => linkRow_tiesDrawn row (unlinked_of_fresh row h) j

theorem interlink_tiesDrawn (t : Timeline) (h : ∀ v ∈ t.voices, v.Fresh) :
    Always t.interlink fun t' => ∀ v ∈ t'.voices, v.TiesDrawn := by
  unfold Timeline.interlink
  refine (Always.mapM_array_forall t.voices fun v hv => ?_).bind fun voices hvs =>
    Always.pure hvs
  refine (linkRow_fresh_tiesDrawn v.notes (h v hv).1).bind fun notes hn => ?_
  refine (Always.mapM_array_forall (Q := fun l : VerseLine => ∀ s ∈ l.substitute, TiesDrawn s)
    v.verses fun l hl => ?_).bind fun verses hvs => Always.pure ⟨hn, hvs⟩
  split
  · rename_i s hs
    exact (linkRow_fresh_tiesDrawn s ((h v hv).2 l hl s hs)).bind fun s' hs' =>
      Always.pure fun _ h' => Option.some.inj h' ▸ hs'
  · rename_i hs
    exact Always.pure fun s h' => by rw [hs] at h'; exact nomatch h'

theorem Voice.Sung.tiesDrawn {count : Nat} {v v' : Voice} (h : Voice.Sung count v v')
    (hv : v.TiesDrawn) : v'.TiesDrawn := by
  refine ⟨h.notes ▸ hv.1, fun l' hl' s hs => ?_⟩
  obtain ⟨l, hl, hsub, -⟩ := forall₂_mem_right h.verses l' (Array.mem_toList_iff.2 hl')
  exact hv.2 l (Array.mem_toList_iff.1 hl) s (hsub ▸ hs)

theorem layArticle_tiesDrawn (docProps : RenderProps) (article : LineTree TypedLine)
    (h : article.RowsFresh) :
    Always (layArticle docProps article) fun laid => match laid with
      | .music t => ∀ v ∈ t.voices, v.TiesDrawn
      | .text _ => True := by
  unfold layArticle
  split
  · exact Always.pure trivial
  refine (Timeline.ofArticle_fresh docProps article h).bind fun t ht => ?_
  refine (interlink_tiesDrawn t.allocate (Timeline.allocate_fresh t ht)).bind fun t₂ h₂ => ?_
  refine (placeVerses_sung t₂).bind fun t₃ h₃ => Always.pure fun v' hv' => ?_
  -- singing keeps every voice's notes and verse melodies
  obtain ⟨v, hv, hsung⟩ := forall₂_mem_right h₃.2.2.2 v' (Array.mem_toList_iff.2 hv')
  exact hsung.tiesDrawn (h₂ v (Array.mem_toList_iff.1 hv))

/-- **A tie voids a repeated digit.** In every music article of a score text, once laid on
the time axis, each row of notes and each verse melody has its ties drawn: along its notes
other than extensions, the first sounds, and each later one is voided exactly when the one
before it is tied and has the same digit and the same accidentals, whatever their octaves;
a section's left side is voided exactly when its first such note is voided so by a tie from
an earlier section. -/
theorem scoreArticles_tiesDrawn (text : String) (docProps : RenderProps) (j₁ j₂ j₃ : Journal) :
    let tree := ((((LineTree.build ((ScoreLine.classify text).run j₁).1).run j₂).1.typed).run j₃).1
    ∀ article ∈ tree.children, Always (layArticle docProps article) fun laid => match laid with
      | .music t => ∀ v ∈ t.voices, v.TiesDrawn
      | .text _ => True := by
  intro tree article harticle
  exact layArticle_tiesDrawn docProps article ((LineTree.typed_fresh _ j₃).child harticle)

end Jianpu
