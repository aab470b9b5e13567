import Mathlib
import Jianpu.Proofs.Links.Walk
import Jianpu.Proofs.Columns.Flatten
/-!
# Drawing ties and slurs into a row

A link from section `a` to section `b` leaves one piece in each section from `a` to `b`:
the whole link when `a = b`, else its start in `a`, a bare piece in each section between, and
its end in `b`. The sides it goes on past are marked split, and a tie between two notes that
show the same glyph voids the later one, marking its section's left side voided when the
tie comes from an earlier section. Sections other than written ones take nothing.

* `Link.pieceIn`, `Link.entersLeft`, `Link.leavesRight`, `Link.voids` — what a link leaves in a
  section.
* `SectionContent.drawn` — a section's content with links drawn in it, one after another;
  `SectionContent.drawn_eq` gives it field by field.
* `drawnRow` — a row with links drawn in every section.
* `getElem?_addSpan`, `drawnRow_snoc` — `addSpan` draws one link.
* `LinkWalk.state`, `linkNote_note` — the loop's state over a row stands for the walk's, and
  a step over a note is a step of the walk over its mark; `LinkWalk.Within` is what keeps the
  two in step, section after section (`foldl_linkNote`, `foldl_linkSection`).
* `linkRow_run` — linking a row draws the links of the walk over its marks and warns about
  the tie and slur left open.
* `linkRow_ties_and_slurs` — what that means for the row: the ties, the slurs, the warnings,
  and each section's content.
-/

namespace Jianpu

variable {α : Type}

/-! ## What a link leaves in a section -/

namespace Link

/-- The piece of the link drawn in section `k`: from its start to its end when both lie
there, else its start in its first section, a bare piece in each section between, and its
end in its last. -/
def pieceIn (l : Link α) (k : Nat) : Option Decoration :=
  if l.src.column = l.dst.column then
    if k = l.src.column then
      some ⟨l.kind, some l.src.note.startPos, some l.dst.note.startPos, none⟩
    else none
  else if k = l.src.column then some ⟨l.kind, some l.src.note.startPos, none, none⟩
  else if l.src.column < k ∧ k < l.dst.column then some ⟨l.kind, none, none, none⟩
  else if k = l.dst.column then some ⟨l.kind, none, some l.dst.note.startPos, none⟩
  else none

def entersLeft (l : Link α) (k : Nat) : Bool := l.src.column < k && k ≤ l.dst.column

def leavesRight (l : Link α) (k : Nat) : Bool := l.src.column ≤ k && k < l.dst.column

theorem leavesRight_eq_entersLeft_succ (l : Link α) (k : Nat) :
    l.leavesRight k = l.entersLeft (k + 1) := by
  simp [leavesRight, entersLeft]

variable [NoteGlyph α]

def voids (l : Link α) : Bool :=
  l.kind == .tie && shownGlyph l.src.note == shownGlyph l.dst.note

def voidsAt (k i : Nat) (l : Link α) : Bool := l.voids && l.dst.column == k && l.dst.index == i

def voidsFrom (k : Nat) (l : Link α) : Bool :=
  l.voids && l.dst.column == k && l.src.column != k

end Link

@[simp] theorem Mark.anchor_pos (m : Mark α) : m.anchor.pos = m.note.startPos := rfl

/-! ## Drawing links into a section's content -/

namespace SectionContent

/-- The content with a link's piece in section `k` after its decorations and its sides
marked split where the link goes on past them. -/
def drawPiece (k : Nat) (l : Link α) (c : SectionContent α) : SectionContent α :=
  { c with
    decoration := c.decoration ++ (l.pieceIn k).toList
    leftSplit := c.leftSplit || l.entersLeft k
    rightSplit := c.rightSplit || l.leavesRight k }

/-- The content with the link's end voided, its left side marked voided when the link comes
from an earlier section. -/
def voidNote (l : Link α) (c : SectionContent α) : SectionContent α :=
  { c with
    notes := c.notes.modify l.dst.index ({ · with voided := true })
    leftSplitVoid := c.leftSplitVoid || l.src.column != l.dst.column }

theorem mapIdx_voided_modify (notes : List (MusicNote α)) (P : Nat → Bool) (j : Nat) :
    (notes.mapIdx fun i n => if P i then { n with voided := true } else n).modify j
        ({ · with voided := true }) =
      notes.mapIdx fun i n => if P i || j == i then { n with voided := true } else n := by
  refine List.ext_getElem? fun i => ?_
  rw [List.getElem?_modify, List.getElem?_mapIdx, List.getElem?_mapIdx]
  cases notes[i]? with
  | none => rfl
  | some n =>
    by_cases hji : j = i
    · subst hji
      cases P j <;> simp
    · have : (j == i) = false := by simpa using hji
      simp [hji, this]

theorem drawPiece_eq_id {k : Nat} {l : Link α} (hp : l.pieceIn k = none)
    (hl : l.entersLeft k = false) (hr : l.leavesRight k = false) : drawPiece k l = id := by
  funext c
  simp [drawPiece, hp, hl, hr]

variable [NoteGlyph α]

/-- The content of section `k` with one more link drawn: its end voided here if the link
voids it, then its piece. -/
def addLink (k : Nat) (c : SectionContent α) (l : Link α) : SectionContent α :=
  drawPiece k l (if l.voids && l.dst.column == k then voidNote l c else c)

def drawn (k : Nat) (ls : List (Link α)) (c : SectionContent α) : SectionContent α :=
  ls.foldl (addLink k) c

theorem drawn_append_singleton (k : Nat) (ls : List (Link α)) (l : Link α)
    (c : SectionContent α) : drawn k (ls ++ [l]) c = addLink k (drawn k ls c) l := by
  simp [drawn, List.foldl_append]

/-- **A section's content with links drawn**, field by field: the notes that a link voids
are voided, each link's piece in the section follows the decorations in order, a side is
split where some link goes on past it, and the left side is voided where a link coming from
an earlier section voids a note. -/
theorem drawn_eq (k : Nat) (ls : List (Link α)) (c : SectionContent α) :
    drawn k ls c = { c with
      notes := c.notes.mapIdx fun i n =>
        if ls.any (·.voidsAt k i) then { n with voided := true } else n
      decoration := c.decoration ++ ls.filterMap (·.pieceIn k)
      leftSplit := c.leftSplit || ls.any (·.entersLeft k)
      rightSplit := c.rightSplit || ls.any (·.leavesRight k)
      leftSplitVoid := c.leftSplitVoid || ls.any (·.voidsFrom k) } := by
  induction ls using List.reverseRecOn with
  | nil =>
    obtain ⟨notes, decoration, totalQuarters, validation, leftSplit, leftSplitVoid, rightSplit⟩ := c
    simp [drawn, List.mapIdx_eq_zipIdx_map]
  | append_singleton ls l ih =>
    rw [drawn_append_singleton, ih]
    simp only [addLink, drawPiece, List.filterMap_append,
      List.any_append, List.any_cons, List.any_nil, Bool.or_false]
    by_cases hv : (l.voids && l.dst.column == k) = true
    · -- the link voids its end here: note `l.dst.index`, and the left side from elsewhere
      rw [if_pos hv]
      simp only [voidNote, mapIdx_voided_modify]
      obtain ⟨hvl, hk⟩ : l.voids = true ∧ l.dst.column = k := by simpa using hv
      have hpiece : (l.pieceIn k).toList = [l].filterMap (·.pieceIn k) := by
        rw [List.filterMap_cons, List.filterMap_nil]
        cases l.pieceIn k <;> rfl
      simp [Link.voidsAt, Link.voidsFrom, Bool.or_assoc, hk, hvl, hpiece]
    · rw [if_neg hv]
      have hpiece : (l.pieceIn k).toList = [l].filterMap (·.pieceIn k) := by
        rw [List.filterMap_cons, List.filterMap_nil]
        cases l.pieceIn k <;> rfl
      have hv' : (l.voids && l.dst.column == k) = false := by simpa using hv
      have hat : ∀ i, l.voidsAt k i = false := fun i => by simp [Link.voidsAt, hv']
      have hfrom : l.voidsFrom k = false := by simp [Link.voidsFrom, hv']
      simp [hat, hfrom, hpiece, Bool.or_assoc]

end SectionContent

theorem Section.modifyContent_id (s : Section α) : s.modifyContent id = s := by
  obtain ⟨card, span, ordinal, startPos, separators, props, conflict, body⟩ := s
  cases body <;> rfl

@[simp] theorem Section.content?_modifyContent (s : Section α)
    (f : SectionContent α → SectionContent α) :
    (s.modifyContent f).content? = s.content?.map f := by
  obtain ⟨card, span, ordinal, startPos, separators, props, conflict, body⟩ := s
  cases body <;> rfl

/-! ## Drawing a link into a row -/

def drawnRow [NoteGlyph α] (row : Array (Section α)) (ls : List (Link α)) : Array (Section α) :=
  row.mapIdx fun k s => s.modifyContent (SectionContent.drawn k ls)

theorem getElem?_foldl_modify {β : Type} (f : β → β) (s c : Nat) :
    ∀ (n : Nat) (r : Array β), ((List.range n).foldl (fun r j => r.modify (s + j) f) r)[c]? =
      if s ≤ c ∧ c < s + n then (r[c]?).map f else r[c]?
  | 0, r => by simp
  | n + 1, r => by
    rw [List.range_succ, List.foldl_append, List.foldl_cons, List.foldl_nil,
      Array.getElem?_modify, getElem?_foldl_modify f s c n r]
    by_cases hc : s + n = c
    · subst hc
      simp
    · rw [if_neg hc]
      congr 1
      simp only [eq_iff_iff]
      omega

/-- **One link drawn by `addSpan`.** Each section takes the link's piece in it, and its
sides are marked split where the link goes on past them; a section the link does not reach
is as it was. -/
theorem getElem?_addSpan (r : Array (Section α)) (l : Link α)
    (hl : l.src.column ≤ l.dst.column) (c : Nat) :
    (addSpan r l.kind l.src.anchor l.dst.anchor)[c]? =
      (r[c]?).map (·.modifyContent (SectionContent.drawPiece c l)) := by
  unfold addSpan
  simp only [Mark.anchor_column, Mark.anchor_pos, beq_iff_eq]
  split
  · -- the link starts and ends in one section
    rename_i heq
    rw [Array.getElem?_modify]
    by_cases hc : l.src.column = c
    · subst hc
      rw [if_pos rfl]
      congr 1; funext s; congr 1; funext x
      simp [SectionContent.drawPiece, Link.pieceIn, Link.entersLeft, Link.leavesRight, heq]
    · rw [if_neg hc, SectionContent.drawPiece_eq_id (by simp [Link.pieceIn, heq]; omega)
        (by simp [Link.entersLeft]; omega) (by simp [Link.leavesRight]; omega)]
      cases r[c]? <;> simp [Section.modifyContent_id]
  · -- its start, the sections between, its end
    rename_i hne
    rw [Array.getElem?_modify, getElem?_foldl_modify, Array.getElem?_modify]
    have hlt : l.src.column < l.dst.column := lt_of_le_of_ne hl hne
    by_cases hcs : l.src.column = c
    · subst hcs
      rw [if_neg (by omega), if_neg (by omega), if_pos rfl]
      congr 1; funext s; congr 1; funext x
      simp [SectionContent.drawPiece, Link.pieceIn, Link.entersLeft, Link.leavesRight, hne, hlt]
    by_cases hcd : l.dst.column = c
    · subst hcd
      rw [if_pos rfl, if_neg (by omega), if_neg hcs]
      congr 1; funext s; congr 1; funext x
      simp [SectionContent.drawPiece, Link.pieceIn, Link.entersLeft, Link.leavesRight, hne,
        Ne.symm hcs, hlt]
    by_cases hmid : l.src.column < c ∧ c < l.dst.column
    · rw [if_neg hcd, if_pos (by omega), if_neg hcs]
      congr 1; funext s; congr 1; funext x
      simp [SectionContent.drawPiece, Link.pieceIn, Link.entersLeft, Link.leavesRight, hne,
        Ne.symm hcs, hmid.1, hmid.1.le, hmid.2, hmid.2.le]
    · rw [if_neg hcd, if_neg (by omega), if_neg hcs, SectionContent.drawPiece_eq_id
        (by simp [Link.pieceIn, hne, Ne.symm hcs, Ne.symm hcd, hmid])
        (by simp [Link.entersLeft]; omega) (by simp [Link.leavesRight]; omega)]
      cases r[c]? <;> simp [Section.modifyContent_id]

variable [NoteGlyph α]

theorem getElem?_drawnRow (row : Array (Section α)) (ls : List (Link α)) (c : Nat) :
    (drawnRow row ls)[c]? = (row[c]?).map (·.modifyContent (SectionContent.drawn c ls)) := by
  simp [drawnRow, Array.getElem?_mapIdx]

/-- **Drawing one more link.** A tie that voids its end first voids it in the end's section,
as the walk over the row does; then `addSpan` draws the link. The row is then the row with
the links so far and this one drawn. -/
theorem drawnRow_snoc (row : Array (Section α)) (ls : List (Link α)) (l : Link α)
    (hl : l.src.column ≤ l.dst.column) :
    addSpan (if l.voids then (drawnRow row ls).modify l.dst.column
        (·.modifyContent (SectionContent.voidNote l)) else drawnRow row ls)
      l.kind l.src.anchor l.dst.anchor = drawnRow row (ls ++ [l]) := by
  refine Array.ext_getElem? fun c => ?_
  rw [getElem?_addSpan _ _ hl]
  -- in every section, the content is drawn with the links so far, voided, then given the piece
  have hdrawn : SectionContent.drawn c (ls ++ [l]) = fun x => SectionContent.drawPiece c l
      (if l.voids && l.dst.column == c then SectionContent.voidNote l (SectionContent.drawn c ls x)
        else SectionContent.drawn c ls x) := funext fun x => by
    rw [SectionContent.drawn_append_singleton, SectionContent.addLink]
  split
  · rename_i hv
    rw [Array.getElem?_modify]
    simp only [getElem?_drawnRow]
    by_cases hc : l.dst.column = c
    · subst hc
      rw [if_pos rfl]
      cases row[l.dst.column]? <;>
        simp [Section.modifyContent_modifyContent, Function.comp_def, hdrawn, hv]
    · rw [if_neg hc]
      cases row[c]? <;>
        simp [Section.modifyContent_modifyContent, Function.comp_def, hdrawn, hc]
  · rename_i hv
    simp only [getElem?_drawnRow]
    cases row[c]? <;>
      simp [Section.modifyContent_modifyContent, Function.comp_def, hdrawn, hv]

theorem notes_modifyContent_drawn (s : Section α) (k : Nat) (ls : List (Link α)) :
    (s.modifyContent (SectionContent.drawn k ls)).notes = s.notes.mapIdx fun i n =>
      if ls.any (·.voidsAt k i) then { n with voided := true } else n := by
  obtain ⟨card, span, ordinal, startPos, separators, props, conflict, body⟩ := s
  cases body <;> simp [Section.modifyContent, Section.notes, Section.content?,
    SectionContent.drawn_eq]

@[simp] theorem shownGlyph_voided (n : MusicNote α) (b : Bool) :
    shownGlyph { n with voided := b } = shownGlyph n := rfl

theorem glyph_drawnRow (row : Array (Section α)) (ls : List (Link α)) (c i : Nat) :
    (((drawnRow row ls)[c]?).bind fun s => s.notes[i]?).bind shownGlyph =
      ((row[c]?).bind fun s => s.notes[i]?).bind shownGlyph := by
  rw [getElem?_drawnRow]
  cases row[c]? with
  | none => rfl
  | some s =>
    simp only [Option.map_some, Option.bind_some, notes_modifyContent_drawn,
      List.getElem?_mapIdx]
    cases s.notes[i]? with
    | none => rfl
    | some n => by_cases h : ls.any (·.voidsAt c i) <;> simp [h]

/-! ## The loop over a row stands for the walk over its marks -/

/-- The state of the loop that stands for a walk: the row with the walk's links drawn, and
the walk's tie and slur waiting at their anchors. -/
def LinkWalk.state (row : Array (Section α)) (w : LinkWalk α) : LinkState α :=
  ⟨drawnRow row w.links, w.tie.map Mark.anchor, w.slur.map Mark.anchor⟩

def Mark.At (row : Array (Section α)) (m : Mark α) : Prop :=
  ((row[m.column]?).bind fun s => s.notes[m.index]?) = some m.note

/-- What holds of the walk while the loop is in section `k`, `seen` telling whether a note of
the section has been passed: the waiting tie stands in the row, in this section once a note
of it has been passed and in an earlier one before; so does every link's end, or in this
section once a note of it has been passed; the waiting slur lies in this section or before. -/
structure LinkWalk.Within (row : Array (Section α)) (k : Nat) (seen : Bool) (w : LinkWalk α) :
    Prop where
  tie : ∀ t ∈ w.tie, t.At row ∧ if seen then t.column = k else t.column < k
  slur : ∀ s ∈ w.slur, s.column ≤ k
  links : ∀ l ∈ w.links, if seen then l.dst.column ≤ k else l.dst.column < k

omit [NoteGlyph α] in
/-- A step over a note of section `k` standing in the row keeps the walk within the section,
the note passed. -/
theorem LinkWalk.Within.step {row : Array (Section α)} {k : Nat} {seen : Bool} {w : LinkWalk α}
    (hw : w.Within row k seen) {m : Mark α} (hat : m.At row) (hk : m.column = k) :
    (w.step m).Within row k true where
  tie t ht := by
    rw [(LinkWalk.step_ties w m).2] at ht
    split at ht
    · cases ht
      exact ⟨hat, hk⟩
    · cases ht
  slur s hs := by
    rw [(LinkWalk.step_slurs w m).2] at hs
    split at hs
    · split at hs
      · cases hs
      · cases hs
        omega
    · exact hw.slur s hs
  links l hl := by
    rcases LinkWalk.mem_step_links w m l hl with hl | ⟨rfl, -⟩
    · have := hw.links l hl
      split at this <;> simp <;> omega
    · simp [hk]

omit [NoteGlyph α] in
theorem LinkWalk.Within.next {row : Array (Section α)} {k : Nat} {seen : Bool} {w : LinkWalk α}
    (hw : w.Within row k seen) : w.Within row (k + 1) false where
  tie t ht := by
    obtain ⟨hat, hcol⟩ := hw.tie t ht
    refine ⟨hat, ?_⟩
    split at hcol <;> simp <;> omega
  slur s hs := by have := hw.slur s hs; omega
  links l hl := by
    have := hw.links l hl
    split at this <;> simp <;> omega

theorem drawnRow_snoc_of_not_voids (row : Array (Section α)) (ls : List (Link α)) (l : Link α)
    (hl : l.src.column ≤ l.dst.column) (hv : l.voids = false) :
    addSpan (drawnRow row ls) l.kind l.src.anchor l.dst.anchor = drawnRow row (ls ++ [l]) := by
  simpa [hv] using drawnRow_snoc row ls l hl

/-- A tie closing at note `i` of section `k`, as the loop draws it: the note voided first
when the tie's glyphs agree. -/
theorem drawnRow_tie (row : Array (Section α)) (ls : List (Link α)) (t : Mark α) {k i : Nat}
    {n : MusicNote α} (hl : t.column ≤ k) :
    addSpan (if (shownGlyph t.note == shownGlyph n) = true then
        (drawnRow row ls).modify k fun s => s.modifyContent fun c =>
          { c with notes := c.notes.modify i ({ · with voided := true }),
                   leftSplitVoid := c.leftSplitVoid || t.column != k }
      else drawnRow row ls) .tie t.anchor (⟨k, i, n⟩ : Mark α).anchor =
    drawnRow row (ls ++ [⟨.tie, t, ⟨k, i, n⟩⟩]) := by
  rw [← drawnRow_snoc row ls _ hl]
  rfl

/-- **One note of the loop is one step of the walk.** Over a note of section `k` that is not
an extension, the loop closes the waiting tie (voiding the note when the glyphs agree), opens
a tie, and closes or opens a slur, as the walk does over the note's mark. -/
theorem linkNote_note (row : Array (Section α)) {k i : Nat} {n : MusicNote α} {g : α}
    (hn : n.kind = .note g) {w : LinkWalk α} {seen : Bool} (hw : w.Within row k seen) :
    linkNote k (w.state row, seen) (n, i) = ((w.step ⟨k, i, n⟩).state row, true) := by
  obtain ⟨links, tie, slur⟩ := w
  have here : (⟨k, i, n.startPos, n.line, n.span.start⟩ : Anchor) = (⟨k, i, n⟩ : Mark α).anchor :=
    rfl
  simp only [linkNote, hn, here]
  cases tie with
  | none =>
    cases ht : n.suffix.tie <;> cases hs : n.suffix.slur <;> cases slur <;>
      simp [LinkWalk.state, LinkWalk.step, Mark.tied, Mark.slurred, ht, hs]
    all_goals
      exact drawnRow_snoc_of_not_voids row links ⟨.slur, _, ⟨k, i, n⟩⟩ (hw.slur _ rfl)
        (by simp [Link.voids])
  | some t =>
    obtain ⟨htat, htcol⟩ := hw.tie t rfl
    -- the note is the first of its section exactly when the waiting tie comes from before it
    have hfirst : (!seen && t.column != k) = (t.column != k) := by
      cases seen
      · simp
      · simp at htcol
        simp [htcol]
    have hle : t.column ≤ k := by split at htcol <;> omega
    unfold Mark.At at htat
    simp only [LinkWalk.state, Option.map_some, Mark.anchor_column, Mark.anchor_note,
      glyph_drawnRow, htat, Option.bind_some, hfirst, drawnRow_tie row links t hle]
    cases ht : n.suffix.tie <;> cases hs : n.suffix.slur <;> cases slur <;>
      simp [LinkWalk.step, Mark.tied, Mark.slurred, ht, hs]
    all_goals
      have h := drawnRow_snoc_of_not_voids row (links ++ [⟨.tie, t, ⟨k, i, n⟩⟩])
        ⟨.slur, _, ⟨k, i, n⟩⟩ (hw.slur _ rfl) (by simp [Link.voids])
      rwa [List.append_assoc, List.singleton_append] at h

theorem drawnRow_nil (row : Array (Section α)) : drawnRow row [] = row := by
  have hid : ∀ k, (SectionContent.drawn k [] : SectionContent α → SectionContent α) = id :=
    fun _ => rfl
  refine Array.ext_getElem? fun c => ?_
  rw [getElem?_drawnRow, hid]
  cases row[c]? <;> simp [Section.modifyContent_id]

theorem notes_drawnRow_of_lt (row : Array (Section α)) (ls : List (Link α)) {k : Nat}
    (hls : ∀ l ∈ ls, l.dst.column < k) :
    ((drawnRow row ls)[k]?).map Section.notes = (row[k]?).map Section.notes := by
  rw [getElem?_drawnRow]
  cases row[k]? with
  | none => rfl
  | some s =>
    have hnone : ∀ i, ls.any (·.voidsAt k i) = false := fun i => by
      simp only [List.any_eq_false, Link.voidsAt]
      intro l hl
      have := hls l hl
      simp
      omega
    simp [notes_modifyContent_drawn, hnone, List.mapIdx_eq_zipIdx_map]

/-- **The loop over the notes of a section is the walk over their marks**, and keeps the walk
within the section. Induction on the notes: an extension leaves both alone, any other note is
one step of each (`linkNote_note`). -/
theorem foldl_linkNote (row : Array (Section α)) (k : Nat) :
    ∀ (ps : List (MusicNote α × Nat)) (w : LinkWalk α) (seen : Bool),
      (∀ p ∈ ps, (⟨k, p.2, p.1⟩ : Mark α).At row) → w.Within row k seen →
      ∃ seen', ps.foldl (linkNote k) (w.state row, seen) =
          (((ps.filterMap fun p => p.1.mark? k p.2).foldl LinkWalk.step w).state row, seen') ∧
        ((ps.filterMap fun p => p.1.mark? k p.2).foldl LinkWalk.step w).Within row k seen'
  | [], w, seen, _, hw => ⟨seen, rfl, hw⟩
  | (n, i) :: ps, w, seen, hps, hw => by
    have hrest : ∀ p ∈ ps, (⟨k, p.2, p.1⟩ : Mark α).At row :=
      fun p hp => hps p (List.mem_cons_of_mem _ hp)
    cases hk : n.kind with
    | extend =>
      have hskip : linkNote k (w.state row, seen) (n, i) = (w.state row, seen) := by
        simp [linkNote, hk]
      simpa [hskip, MusicNote.mark?, hk] using foldl_linkNote row k ps w seen hrest hw
    | note g =>
      have hat := hps (n, i) List.mem_cons_self
      rw [List.foldl_cons, linkNote_note row hk hw]
      simpa [MusicNote.mark?, hk] using foldl_linkNote row k ps _ true hrest (hw.step hat rfl)

/-- The loop over section `k`, entered with the walk within it before its notes: it reads the
notes as written, walks over their marks, and leaves the walk before the next section. -/
theorem linkSection (row : Array (Section α)) {k : Nat} {w : LinkWalk α}
    (hw : w.Within row k false) :
    ((((((w.state row).row[k]?).map Section.notes).getD []).zipIdx.foldl (linkNote k)
        (w.state row, false)).1 = ((sectionMarks row k).foldl LinkWalk.step w).state row) ∧
      ((sectionMarks row k).foldl LinkWalk.step w).Within row (k + 1) false := by
  have hnotes : ((w.state row).row[k]?).map Section.notes = (row[k]?).map Section.notes :=
    notes_drawnRow_of_lt row w.links fun l hl => by simpa using hw.links l hl
  -- every note the loop reads stands at its place in the row
  have hat : ∀ p ∈ (((row[k]?).map Section.notes).getD []).zipIdx,
      (⟨k, p.2, p.1⟩ : Mark α).At row := by
    intro p hp
    cases hk : row[k]? with
    | none => simp [hk] at hp
    | some s =>
      simp only [hk, Option.map_some, Option.getD_some, List.mem_zipIdx_iff_getElem?] at hp
      simp [Mark.At, hk, hp]
  obtain ⟨seen', heq, hw'⟩ := foldl_linkNote row k _ w false hat hw
  rw [hnotes, heq]
  exact ⟨rfl, hw'.next⟩

theorem foldl_linkSection (row : Array (Section α)) : ∀ K : Nat,
    (List.range K).foldl (fun (st : LinkState α) k =>
        (((((st.row[k]?).map Section.notes).getD []).zipIdx.foldl (linkNote k) (st, false)).1))
      ⟨row, none, none⟩ = (walkMarks ((List.range K).flatMap (sectionMarks row))).state row ∧
    (walkMarks ((List.range K).flatMap (sectionMarks row))).Within row K false
  | 0 => by
    refine ⟨by simp [walkMarks, LinkWalk.state, drawnRow_nil], ⟨?_, ?_, ?_⟩⟩ <;> simp [walkMarks]
  | K + 1 => by
    obtain ⟨ih, hw⟩ := foldl_linkSection row K
    obtain ⟨hstep, hw'⟩ := linkSection row hw
    simp only [List.range_succ, List.foldl_append, List.flatMap_append, List.flatMap_singleton,
      List.foldl_cons, List.foldl_nil, walkMarks] at ih hw ⊢
    rw [ih]
    exact ⟨hstep, hw'⟩

def Mark.unclosed (kind : String) (m : Mark α) : Issue :=
  ⟨m.note.line, m.note.span.start, .warning, .unclosedDecoration kind⟩

/-- **Linking a row** draws the links of the walk over its marks, then warns about the tie and
the slur left open, in that order. -/
theorem linkRow_run (row : Array (Section α)) (j : Journal) :
    linkRow row j = (drawnRow row (walkMarks (rowMarks row)).links,
      { j with issues := j.issues ++ ((walkMarks (rowMarks row)).tie.map (Mark.unclosed "Tie")).toArray
          ++ ((walkMarks (rowMarks row)).slur.map (Mark.unclosed "Slur")).toArray }) := by
  have hrun := (foldl_linkSection row row.size).1
  unfold linkRow
  rw [hrun, ← rowMarks]
  generalize walkMarks (rowMarks row) = w
  obtain ⟨links, tie, slur⟩ := w
  cases tie <;> cases slur <;> rfl

theorem content?_drawnRow (row : Array (Section α)) (ls : List (Link α)) (k : Nat) :
    ((drawnRow row ls)[k]?).bind Section.content? =
      ((row[k]?).bind Section.content?).map (SectionContent.drawn k ls) := by
  rw [getElem?_drawnRow]
  cases row[k]? <;> simp

/-- **The ties and slurs of a row.** Over the marks of the row (its notes other than
extensions, in order), linking draws a tie from each tied mark to the next mark, a slur from
the first slur mark to the second, the third to the fourth, and so on, and nothing else. It
warns about a tie left open exactly when the last mark is tied, and about a slur exactly when
the slur marks are odd in number. Each section holding content takes, after its decorations,
the piece in it of every link, in order, and its sides are split where some link goes on past
them; so neighbouring sections whose facing sides agreed agree after. -/
theorem linkRow_ties_and_slurs (row : Array (Section α)) (j : Journal) :
    ∃ ls : List (Link α), (linkRow row j).1 = drawnRow row ls ∧
      ls.filter (·.kind == .tie) = tieLinks (rowMarks row) ∧
      ls.filter (·.kind == .slur) = slurLinks ((rowMarks row).filter Mark.slurred) ∧
      (∀ l ∈ ls, l.kind = .tie ∨ l.kind = .slur) ∧
      (linkRow row j).2.issues = j.issues ++
          (((rowMarks row).getLast?.filter Mark.tied).map (Mark.unclosed "Tie")).toArray ++
          ((oddOut ((rowMarks row).filter Mark.slurred)).map (Mark.unclosed "Slur")).toArray ∧
      (∀ k, (((linkRow row j).1[k]?).bind Section.content?) =
        ((row[k]?).bind Section.content?).map fun c => { c with
          notes := c.notes.mapIdx fun i n =>
            if ls.any (·.voidsAt k i) then { n with voided := true } else n
          decoration := c.decoration ++ ls.filterMap (·.pieceIn k)
          leftSplit := c.leftSplit || ls.any (·.entersLeft k)
          rightSplit := c.rightSplit || ls.any (·.leavesRight k)
          leftSplitVoid := c.leftSplitVoid || ls.any (·.voidsFrom k) }) ∧
      (∀ k c₀ c₁, (row[k]?).bind Section.content? = some c₀ →
        (row[k + 1]?).bind Section.content? = some c₁ → c₀.rightSplit = c₁.leftSplit →
        ∃ d₀ d₁, ((linkRow row j).1[k]?).bind Section.content? = some d₀ ∧
          ((linkRow row j).1[k + 1]?).bind Section.content? = some d₁ ∧
          d₀.rightSplit = d₁.leftSplit) := by
  have hrun := linkRow_run row j
  obtain ⟨hties, hslurs, hkinds⟩ := walkMarks_links (rowMarks row)
  obtain ⟨htie, hslur⟩ := walkMarks_open (rowMarks row)
  set ls := (walkMarks (rowMarks row)).links
  have hcontent : ∀ k, (((linkRow row j).1[k]?).bind Section.content?) =
      ((row[k]?).bind Section.content?).map (SectionContent.drawn k ls) := fun k => by
    rw [hrun, content?_drawnRow]
  refine ⟨ls, by rw [hrun], hties, hslurs, hkinds, by rw [hrun, htie, hslur], ?_, ?_⟩
  · intro k
    rw [hcontent]
    congr 1
    funext c
    exact SectionContent.drawn_eq k ls c
  · -- a link leaves a section's right side exactly when it enters the next one's left
    intro k c₀ c₁ h₀ h₁ hsplit
    refine ⟨_, _, by rw [hcontent, h₀]; rfl, by rw [hcontent, h₁]; rfl, ?_⟩
    simp only [SectionContent.drawn_eq, hsplit, Link.leavesRight_eq_entersLeft_succ]

/-- Two sections, the note of the first tied to the note of the second. -/
theorem linkRow_tied_pair_agrees :
    let one : MusicNote Pitch := { (default : MusicNote Pitch) with kind := .note ⟨'1', [], 0, 0⟩ }
    let holding := fun (n : MusicNote Pitch) => { (default : Section Pitch) with
      body := .content { (default : SectionContent Pitch) with notes := [n] } }
    let row := #[holding { one with suffix := { tie := true } }, holding one]
    ∃ d₀ d₁, ((linkRow row {}).1[0]?).bind Section.content? = some d₀ ∧
      ((linkRow row {}).1[0 + 1]?).bind Section.content? = some d₁ ∧
        d₀.rightSplit = d₁.leftSplit := by
  intro one holding row
  obtain ⟨-, -, -, -, -, -, -, hagree⟩ := linkRow_ties_and_slurs row {}
  exact hagree 0 _ _ rfl rfl rfl

end Jianpu
