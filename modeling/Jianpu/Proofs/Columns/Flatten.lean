import Mathlib
import Jianpu.Proofs.Columns.Fragments
import Jianpu.Proofs.Columns.TimeAxis
import Jianpu.Compilation
/-!
# One axis for every row

A music article goes from the timeline its fragments lay (`Flat`) through four more passes:
placeholders take the properties of the first voice written at their column, `allocate`
gives the columns and tells each section its column and start, `interlink` draws ties and
slurs, and `placeVerses` hands syllables to notes. None of them moves a section or changes
what it shows: placeholders stay placeholders and written sections keep their identity,
source, separators and properties. So the laid article keeps every row at the article's
section count, the spans tiling the axis, the jumpers inside them and the notes of each span,
and gains columns numbered in order with each section placed in its column (`OneAxis`).

* `Section.Relinked`, `RowRelinked` — sections whose content alone was redrawn, as linking
  does (`linkRow_relinked`).
* `Voice.Kept`, `Axis.keep` — voices changed in place keep what the axis shows.
* `layArticle_oneAxis` — a music article laid from fragments that can be flattened.
-/

namespace Jianpu

variable {α : Type}

/-! ## Ties and slurs redraw content only -/

theorem Section.modifyContent_modifyContent (s : Section α)
    (f g : SectionContent α → SectionContent α) :
    (s.modifyContent f).modifyContent g = s.modifyContent (g ∘ f) := by
  obtain ⟨card, span, ordinal, startPos, separators, props, conflict, body⟩ := s
  cases body <;> rfl

def Section.Relinked (s s' : Section α) : Prop := ∃ f, s' = s.modifyContent f

namespace Section.Relinked

variable {s s' s'' : Section α}

theorem refl (s : Section α) : s.Relinked s := by
  refine ⟨id, ?_⟩
  obtain ⟨card, span, ordinal, startPos, separators, props, conflict, body⟩ := s
  cases body <;> rfl

theorem trans (h : s.Relinked s') (h' : s'.Relinked s'') : s.Relinked s'' := by
  obtain ⟨f, rfl⟩ := h
  obtain ⟨g, rfl⟩ := h'
  exact ⟨g ∘ f, Section.modifyContent_modifyContent s f g⟩

theorem frame (h : s.Relinked s') :
    s'.isNullish = s.isNullish ∧ s'.card = s.card ∧ s'.span = s.span ∧
      s'.separators = s.separators ∧ s'.props = s.props ∧ s'.ordinal = s.ordinal ∧
      s'.startPos = s.startPos := by
  obtain ⟨f, rfl⟩ := h
  unfold Section.modifyContent
  split
  · rename_i c hc
    simp [Section.isNullish, hc]
  · simp

theorem shows (h : s.Relinked s') {e : Option (Section α)} (he : s.Shows e) : s'.Shows e := by
  obtain ⟨hnull, hcard, hspan, hsep, hprops, -, -⟩ := h.frame
  cases e with
  | none => exact hnull.trans he
  | some e => exact ⟨hnull.trans he.1, fun hw => by
      obtain ⟨h1, h2, h3, h4⟩ := he.2 hw
      exact ⟨hcard.trans h1, hspan.trans h2, hsep.trans h3, hprops.trans h4⟩⟩

end Section.Relinked

def RowRelinked (row row' : Array (Section α)) : Prop :=
  row'.size = row.size ∧ ∀ k (h : k < row.size) (h' : k < row'.size), row[k].Relinked row'[k]

namespace RowRelinked

variable {row row' : Array (Section α)}

theorem refl (row : Array (Section α)) : RowRelinked row row :=
  ⟨rfl, fun _ _ _ => Section.Relinked.refl _⟩

theorem modify (h : RowRelinked row row') (k : Nat) (g : SectionContent α → SectionContent α) :
    RowRelinked row (row'.modify k (·.modifyContent g)) := by
  refine ⟨by rw [Array.size_modify, h.1], fun i hi hi' => ?_⟩
  rw [Array.getElem_modify]
  have hrel := h.2 i hi (by simpa using hi')
  split
  · exact hrel.trans ⟨g, rfl⟩
  · exact hrel

theorem addSpan (h : RowRelinked row row') (kind : DecorationKind) (src dst : Anchor) :
    RowRelinked row (addSpan row' kind src dst) := by
  unfold Jianpu.addSpan
  dsimp only
  split
  · exact h.modify _ _
  · refine RowRelinked.modify ?_ _ _
    exact List.foldlRecOn _ _ (h.modify _ _) fun r hr j _ => hr.modify _ _

theorem linkNote [NoteGlyph α] {st : LinkState α × Bool} (h : RowRelinked row st.1.row) (k : Nat)
    (item : MusicNote α × Nat) : RowRelinked row (Jianpu.linkNote k st item).1.row := by
  unfold Jianpu.linkNote
  dsimp only
  repeat' split
  all_goals dsimp only
  all_goals repeat (first | exact h | apply RowRelinked.addSpan | apply RowRelinked.modify)

end RowRelinked

/-- Linking a row redraws the content of its sections and nothing else. -/
theorem linkRow_relinked [NoteGlyph α] (row : Array (Section α)) :
    Always (linkRow row) (RowRelinked row) := by
  unfold linkRow
  -- the walk over the columns, each over its notes, keeps the row relinked
  have hwalk : ∀ st : LinkState α, RowRelinked row st.row → ∀ k,
      RowRelinked row (((((st.row[k]?).map Section.notes).getD []).zipIdx.foldl
        (linkNote k) (st, false)).1).row := fun st hst k =>
    List.foldlRecOn (motive := fun p : LinkState α × Bool => RowRelinked row p.1.row) _ _ hst
      fun _ hp item _ => hp.linkNote k item
  have hst := List.foldlRecOn (motive := fun st : LinkState α => RowRelinked row st.row)
    (List.range row.size) _ (b := ⟨row, none, none⟩) (RowRelinked.refl row)
    fun st hst k _ => hwalk st hst k
  dsimp only
  generalize List.foldl _ _ (List.range row.size) = st at hst ⊢
  -- an unclosed tie, then an unclosed slur, is only warned about
  split
  on_goal 1 => refine Always.any.bind fun _ _ => ?_
  all_goals
    split
    · exact Always.warn_then hst
    · exact Always.pure hst

/-! ## Voices changed in place -/

/-- The voice with its sections changed in place: the same signature, every row as long as
before, and notes that show what they showed. -/
structure Voice.Kept (v v' : Voice) : Prop where
  signature : v'.signature = v.signature
  rows : ∀ n, (v.EveryRow fun _ r => r.size = n) → v'.EveryRow fun _ r => r.size = n
  notes : v'.notes.size = v.notes.size ∧ ∀ k (h : k < v.notes.size) (h' : k < v'.notes.size) e,
    v.notes[k].Shows e → v'.notes[k].Shows e

/-- What the timeline shows of an article's fragments `frags` on an axis of `n` columns:
rows of `n` sections, spans tiling the axis, jumpers inside spans, and over each span a voice
for every part and the notes each voice's part wrote there. -/
structure Axis (frags : List (LineTree TypedLine)) (t : Timeline) (n : Nat) : Prop where
  rows : ∀ v ∈ t.voices, v.EveryRow fun _ r => r.size = n
  voiced : t.voices.size = 0 → n = 0
  tiles : Tiles t.fragments.toList 0 n
  jumpers : ∀ j ∈ t.jumpers, JumperIn t.fragments.toList j
  shown : List.Forall₂ (Shown t.voices) t.fragments.toList (frags.filter (·.fragmentWidth != 0))

theorem Flat.axis {frags : List (LineTree TypedLine)} {t : Timeline} {n : Nat}
    (h : Flat frags t n) : Axis frags t n :=
  ⟨h.rows, h.voiced, h.tiles, h.jumpers, h.shown⟩

/-- Voices changed in place, the spans and jumpers as they were, keep what the axis shows. -/
theorem Axis.keep {frags : List (LineTree TypedLine)} {t t' : Timeline} {n : Nat}
    (h : Axis frags t n) (hv : List.Forall₂ Voice.Kept t.voices.toList t'.voices.toList)
    (hf : t'.fragments = t.fragments) (hj : t'.jumpers = t.jumpers) : Axis frags t' n := by
  obtain ⟨hrows, hvoiced, htiles, hjumpers, hshown⟩ := h
  refine ⟨fun v' hv' => ?_, fun h0 => hvoiced ?_, hf ▸ htiles, hj ▸ hf ▸ hjumpers, ?_⟩
  · obtain ⟨v, hv, hkept⟩ := forall₂_mem_right hv v' (Array.mem_toList_iff.2 hv')
    exact hkept.rows n (hrows v (Array.mem_toList_iff.1 hv))
  · have hlen := hv.length_eq
    simp only [Array.length_toList] at hlen
    omega
  · rw [hf]
    refine hshown.imp fun r frag ⟨hwidth, hheard, hshows⟩ => ⟨hwidth, fun p hp => ?_, fun v' hv' => ?_⟩
    · obtain ⟨v, hmem, hsig⟩ := hheard p hp
      obtain ⟨v', hv', hkept⟩ := forall₂_mem_left hv v (Array.mem_toList_iff.2 hmem)
      exact ⟨v', Array.mem_toList_iff.1 hv', hkept.signature.trans hsig⟩
    · obtain ⟨v, hv, hkept⟩ := forall₂_mem_right hv v' (Array.mem_toList_iff.2 hv')
      rw [hkept.signature]
      exact (hshows v (Array.mem_toList_iff.1 hv)).of_shows hkept.notes.1 hkept.notes.2

theorem forall₂_of_map {β : Type} {R : β → β → Prop} (g : β → β) (hg : ∀ x, R x (g x)) :
    ∀ xs : List β, List.Forall₂ R xs (xs.map g)
  | [] => List.Forall₂.nil
  | x :: xs => List.Forall₂.cons (hg x) (forall₂_of_map g hg xs)

/-! ## Placeholders take properties -/

theorem shows_fillProps {s : Section α} {e : Option (Section α)} (props : MusicProps)
    (h : s.Shows e) : (if s.isNullish then { s with props } else s).Shows e := by
  split
  · rename_i hnull
    cases e with
    | none => exact hnull
    | some e => exact ⟨h.1, fun hw => absurd (h.1.symm.trans hnull) (by simp [hw])⟩
  · exact h

theorem size_fillProps (row : Array (Section α)) (k : Nat) (props : MusicProps) :
    (row.modify k fun s => if s.isNullish then { s with props } else s).size = row.size :=
  Array.size_modify

theorem getElem_fillProps_shows (row : Array (Section α)) (k : Nat) (props : MusicProps)
    {i : Nat} (h : i < row.size)
    (h' : i < (row.modify k fun s => if s.isNullish then { s with props } else s).size)
    {e : Option (Section α)} (he : row[i].Shows e) :
    (row.modify k fun s => if s.isNullish then { s with props } else s)[i].Shows e := by
  rw [Array.getElem_modify]
  split
  · exact shows_fillProps props he
  · exact he

theorem setPlaceholderProps_kept (v : Voice) (k : Nat) (props : MusicProps) :
    Voice.Kept v (v.setPlaceholderProps k props) := by
  refine ⟨rfl, fun n ⟨hn, hc, ha, hf, hv⟩ => ⟨?_, ?_, ?_, ?_, ?_⟩, ⟨size_fillProps _ _ _, ?_⟩⟩
  · exact (size_fillProps _ _ _).trans hn
  · intro r hr
    obtain ⟨r0, hr0, rfl⟩ := Array.mem_map.1 hr
    exact (size_fillProps _ _ _).trans (hc r0 hr0)
  · intro r hr
    obtain ⟨r0, hr0, rfl⟩ := Array.mem_map.1 hr
    exact (size_fillProps _ _ _).trans (ha r0 hr0)
  · intro r hr
    obtain ⟨r0, hr0, rfl⟩ := Array.mem_map.1 hr
    exact (size_fillProps _ _ _).trans (hf r0 hr0)
  · intro l hl s hs
    obtain ⟨l0, hl0, rfl⟩ := Array.mem_map.1 hl
    obtain ⟨s0, hs0, rfl⟩ := Option.mem_map.1 hs
    exact (size_fillProps _ _ _).trans (hv l0 hl0 s0 hs0)
  · intro i hi hi' e he
    exact getElem_fillProps_shows v.notes k props hi hi' he

theorem Axis.fillPlaceholderProps {frags : List (LineTree TypedLine)} {t : Timeline} {n : Nat}
    (h : Axis frags t n) : Axis frags t.fillPlaceholderProps n := by
  unfold Timeline.fillPlaceholderProps
  refine List.foldlRecOn (motive := fun t => Axis frags t n) _ _ h fun t ht k _ => ?_
  split
  · refine ht.keep ?_ rfl rfl
    rw [Array.toList_map]
    exact forall₂_of_map _ (fun v => setPlaceholderProps_kept v k _) _
  · exact ht

/-! ## Sections told their column -/

def Placed (cols : Array Column) (row : Array (Section α)) : Prop :=
  ∀ k (h : k < row.size), ∃ hk : k < cols.size,
    row[k].ordinal = k ∧ row[k].startPos = cols[k].startPos

theorem placeRow_size (cols : Array Column) (row : Array (Section α)) :
    (Timeline.placeRow cols row).size = row.size :=
  Array.size_mapIdx

theorem getElem_placeRow (cols : Array Column) (row : Array (Section α)) {k : Nat}
    (h : k < row.size) (h' : k < (Timeline.placeRow cols row).size) :
    (Timeline.placeRow cols row)[k] = match cols[k]? with
      | some c => { row[k] with ordinal := c.index, startPos := c.startPos }
      | none => row[k] :=
  Array.getElem_mapIdx h'

theorem placeRow_shows (cols : Array Column) (row : Array (Section α)) {k : Nat} (h : k < row.size)
    (h' : k < (Timeline.placeRow cols row).size) {e : Option (Section α)} (he : row[k].Shows e) :
    (Timeline.placeRow cols row)[k].Shows e := by
  rw [getElem_placeRow cols row h h']
  split
  · cases e with
    | none => exact he
    | some e => exact he
  · exact he

theorem placeRow_placed {cols : Array Column} (hcols : ∀ k (h : k < cols.size), cols[k].index = k)
    (row : Array (Section α)) (hsize : row.size ≤ cols.size) :
    Placed cols (Timeline.placeRow cols row) := by
  intro k hk
  have hrow : k < row.size := by rwa [placeRow_size] at hk
  have hk' : k < cols.size := by omega
  refine ⟨hk', ?_⟩
  rw [getElem_placeRow cols row hrow hk, Array.getElem?_eq_getElem hk']
  exact ⟨hcols k hk', rfl⟩

theorem columnsOf_index {frags : List (LineTree TypedLine)} {t : Timeline} {n : Nat}
    (h : Axis frags t n) : t.columnsOf.size = n ∧ ∀ k (hk : k < t.columnsOf.size),
      t.columnsOf[k].index = k := by
  obtain ⟨hsize, hcols⟩ := t.columnsOf_laid
  refine ⟨hsize.trans ?_, fun k hk => (hcols k hk).1⟩
  unfold Timeline.width
  cases hv : t.voices[0]? with
  | none =>
    have h0 : t.voices.size = 0 := by
      rcases Nat.eq_zero_or_pos t.voices.size with h0 | h0
      · exact h0
      · simp [Array.getElem?_eq_getElem h0] at hv
    simpa using (h.voiced h0).symm
  | some v => exact (h.rows v (Array.mem_of_getElem? hv)).1

/-- Allocating columns keeps what the axis shows and places every section in its column. -/
theorem Axis.allocate {frags : List (LineTree TypedLine)} {t : Timeline} {n : Nat}
    (h : Axis frags t n) :
    Axis frags t.allocate n ∧ t.allocate.columns.size = n ∧
      (∀ k (hk : k < t.allocate.columns.size), t.allocate.columns[k].index = k) ∧
      ∀ v ∈ t.allocate.voices, v.EveryRow fun _ r => Placed t.allocate.columns r := by
  obtain ⟨hsize, hindex⟩ := columnsOf_index h
  have hkept : List.Forall₂ Voice.Kept t.voices.toList t.allocate.voices.toList := by
    show List.Forall₂ Voice.Kept t.voices.toList (t.voices.map _).toList
    rw [Array.toList_map]
    refine forall₂_of_map _ (fun v => ⟨rfl, fun n ⟨hn, hc, ha, hf, hv⟩ => ?_, ?_⟩) _
    · refine ⟨(placeRow_size _ _).trans hn, ?_, ?_, ?_, ?_⟩
      · intro r hr
        obtain ⟨r0, hr0, rfl⟩ := Array.mem_map.1 hr
        exact (placeRow_size _ _).trans (hc r0 hr0)
      · intro r hr
        obtain ⟨r0, hr0, rfl⟩ := Array.mem_map.1 hr
        exact (placeRow_size _ _).trans (ha r0 hr0)
      · intro r hr
        obtain ⟨r0, hr0, rfl⟩ := Array.mem_map.1 hr
        exact (placeRow_size _ _).trans (hf r0 hr0)
      · intro l hl s hs
        obtain ⟨l0, hl0, rfl⟩ := Array.mem_map.1 hl
        obtain ⟨s0, hs0, rfl⟩ := Option.mem_map.1 hs
        exact (placeRow_size _ _).trans (hv l0 hl0 s0 hs0)
    · exact ⟨placeRow_size _ _, fun k hk hk' e he => placeRow_shows _ _ hk hk' he⟩
  have haxis := h.keep hkept rfl rfl
  refine ⟨haxis, hsize, hindex, fun v' hv' => ?_⟩
  obtain ⟨v, hv, rfl⟩ := Array.mem_map.1 hv'
  -- every row has `n` sections, as many as there are columns
  obtain ⟨hn, hc, ha, hf, hvv⟩ := h.rows v hv
  refine ⟨placeRow_placed hindex _ (by omega), ?_, ?_, ?_, ?_⟩
  · intro r hr
    obtain ⟨r0, hr0, rfl⟩ := Array.mem_map.1 hr
    exact placeRow_placed hindex _ (by rw [hc r0 hr0]; omega)
  · intro r hr
    obtain ⟨r0, hr0, rfl⟩ := Array.mem_map.1 hr
    exact placeRow_placed hindex _ (by rw [ha r0 hr0]; omega)
  · intro r hr
    obtain ⟨r0, hr0, rfl⟩ := Array.mem_map.1 hr
    exact placeRow_placed hindex _ (by rw [hf r0 hr0]; omega)
  · intro l hl s hs
    obtain ⟨l0, hl0, rfl⟩ := Array.mem_map.1 hl
    obtain ⟨s0, hs0, rfl⟩ := Option.mem_map.1 hs
    exact placeRow_placed hindex _ (by rw [hvv l0 hl0 s0 hs0]; omega)

/-! ## Linking and singing keep the axis -/

theorem RowRelinked.shows {row row' : Array (Section α)} (h : RowRelinked row row') :
    ∀ k (hk : k < row.size) (hk' : k < row'.size) e, row[k].Shows e → row'[k].Shows e :=
  fun k hk hk' _ he => (h.2 k hk hk').shows he

theorem RowRelinked.placed {row row' : Array (Section α)} {cols : Array Column}
    (h : RowRelinked row row') (hp : Placed cols row) : Placed cols row' := by
  intro k hk'
  have hk : k < row.size := h.1 ▸ hk'
  obtain ⟨hc, hord, hstart⟩ := hp k hk
  obtain ⟨-, -, -, -, -, hord', hstart'⟩ := (h.2 k hk hk').frame
  exact ⟨hc, hord'.trans hord, hstart'.trans hstart⟩

/-- The voice with the content of its notes and verse melodies alone redrawn. -/
structure Voice.Relinked (v v' : Voice) : Prop where
  signature : v'.signature = v.signature
  notes : RowRelinked v.notes v'.notes
  chords : v'.chords = v.chords
  annotations : v'.annotations = v.annotations
  forces : v'.forces = v.forces
  verses : List.Forall₂ (fun l l' : VerseLine => Option.Rel RowRelinked l.substitute l'.substitute)
    v.verses.toList v'.verses.toList

/-- What holds of every row of a voice and survives relinking holds after it. -/
theorem Voice.Relinked.everyRow {v v' : Voice} {P : (β : Type) → Array (Section β) → Prop}
    (h : v.Relinked v') (hP : ∀ β (r r' : Array (Section β)), RowRelinked r r' → P β r → P β r')
    (hv : v.EveryRow P) : v'.EveryRow P := by
  obtain ⟨hn, hc, ha, hf, hvs⟩ := hv
  refine ⟨hP _ _ _ h.notes hn, h.chords ▸ hc, h.annotations ▸ ha, h.forces ▸ hf, ?_⟩
  intro l' hl' s' hs'
  obtain ⟨l, hl, hrel⟩ := forall₂_mem_right h.verses l' (Array.mem_toList_iff.2 hl')
  rw [Option.mem_def] at hs'
  rw [hs'] at hrel
  cases hsub : l.substitute with
  | none =>
    rw [hsub] at hrel
    cases hrel
  | some s =>
    rw [hsub] at hrel
    cases hrel with
    | some hr => exact hP _ _ _ hr (hvs l (Array.mem_toList_iff.1 hl) s hsub)

theorem Voice.Relinked.kept {v v' : Voice} (h : v.Relinked v') : Voice.Kept v v' :=
  ⟨h.signature, fun _ hv => h.everyRow (fun _ _ _ hr hs => hr.1.trans hs) hv,
    h.notes.1, h.notes.shows⟩

theorem verse_relinked (l : VerseLine) :
    Always (match l.substitute with
      | some s => do pure { l with substitute := some (← linkRow s) }
      | none => pure l) fun l' => Option.Rel RowRelinked l.substitute l'.substitute := by
  split
  · rename_i s hs
    rw [hs]
    exact (linkRow_relinked s).bind fun s' hs' => Always.pure (Option.Rel.some hs')
  · rename_i hs
    exact Always.pure (by rw [hs]; exact Option.Rel.none)

theorem interlink_relinked (t : Timeline) :
    Always t.interlink fun t' => t'.columns = t.columns ∧ t'.fragments = t.fragments ∧
      t'.jumpers = t.jumpers ∧ List.Forall₂ Voice.Relinked t.voices.toList t'.voices.toList := by
  unfold Timeline.interlink
  refine (Always.mapM_array Voice.Relinked t.voices fun v _ => ?_).bind
    fun voices hv => Always.pure ⟨rfl, rfl, rfl, hv⟩
  exact (linkRow_relinked v.notes).bind fun notes hn =>
    (Always.mapM_array _ v.verses fun l _ => verse_relinked l).bind fun verses hvs =>
      Always.pure ⟨rfl, hn, rfl, rfl, rfl, hvs⟩

/-- The syllables of a verse line placed: its melody as it was, a slot for each column. -/
theorem place_spec (count : Nat) (notes : Array (Section Pitch)) (l : VerseLine) :
    Always (VerseLine.place count notes l) fun l' =>
      l'.substitute = l.substitute ∧ l'.lyrics.size = count := by
  unfold VerseLine.place
  refine (Always.foldlM_keeps (fun lyrics : Array (List LyricNote) => lyrics.size = count) ?_
    l.pending _ (by simp)).bind fun lyrics hl => Always.pure ⟨rfl, hl⟩
  intro lyrics p hsize
  dsimp only
  generalize placeTokens _ p.tokens = pl
  obtain ⟨placed, left⟩ := pl
  -- handing out syllables only adds to the slots
  have hfold : (placed.foldl (fun ls n => ls.modify n.index (· ++ [n])) lyrics).size = count :=
    List.foldlRecOn (motive := fun ls : Array (List LyricNote) => ls.size = count) _ _ hsize
      fun ls hls _ _ => (Array.size_modify).trans hls
  split
  · exact Always.bind (P := fun _ => True) (fun _ => trivial) fun _ _ => Always.pure hfold
  · exact Always.pure hfold

/-- The voice with its verse lines' syllables placed, `count` slots each. -/
structure Voice.Sung (count : Nat) (v v' : Voice) : Prop where
  signature : v'.signature = v.signature
  notes : v'.notes = v.notes
  chords : v'.chords = v.chords
  annotations : v'.annotations = v.annotations
  forces : v'.forces = v.forces
  verses : List.Forall₂ (fun l l' : VerseLine => l'.substitute = l.substitute ∧ l'.lyrics.size = count)
    v.verses.toList v'.verses.toList

theorem Voice.Sung.everyRow {count : Nat} {v v' : Voice} {P : (β : Type) → Array (Section β) → Prop}
    (h : Voice.Sung count v v') (hv : v.EveryRow P) : v'.EveryRow P := by
  obtain ⟨hn, hc, ha, hf, hvs⟩ := hv
  refine ⟨h.notes ▸ hn, h.chords ▸ hc, h.annotations ▸ ha, h.forces ▸ hf, ?_⟩
  intro l' hl' s' hs'
  obtain ⟨l, hl, hsub, -⟩ := forall₂_mem_right h.verses l' (Array.mem_toList_iff.2 hl')
  exact hvs l (Array.mem_toList_iff.1 hl) s' (hsub ▸ hs')

theorem Voice.Sung.kept {count : Nat} {v v' : Voice} (h : Voice.Sung count v v') : Voice.Kept v v' :=
  ⟨h.signature, fun _ hv => h.everyRow hv, by rw [h.notes], fun k _ _ _ he => by
    simp only [h.notes]
    exact he⟩

theorem placeVerses_sung (t : Timeline) :
    Always t.placeVerses fun t' => t'.columns = t.columns ∧ t'.fragments = t.fragments ∧
      t'.jumpers = t.jumpers ∧
      List.Forall₂ (Voice.Sung t.sectionCount) t.voices.toList t'.voices.toList := by
  unfold Timeline.placeVerses
  refine (Always.mapM_array (Voice.Sung t.sectionCount) t.voices fun v _ => ?_).bind
    fun voices hv => Always.pure ⟨rfl, rfl, rfl, hv⟩
  exact (Always.mapM_array _ v.verses fun l _ => place_spec t.sectionCount v.notes l).bind
    fun verses hvs => Always.pure ⟨rfl, rfl, rfl, rfl, rfl, hvs⟩

/-! ## The laid article -/

/-- An article's fragments flattened onto one axis: the voices' rows as long as the axis,
verse lines with a slot for every column, columns numbered in order, and every section
stamped with its column's number and start. -/
structure Timeline.OneAxis (t : Timeline) (frags : List (LineTree TypedLine)) : Prop where
  axis : Axis frags t t.sectionCount
  lyrics : ∀ v ∈ t.voices, ∀ l ∈ v.verses, l.lyrics.size = t.sectionCount
  columns : ∀ k (hk : k < t.columns.size), t.columns[k].index = k
  placed : ∀ v ∈ t.voices, v.EveryRow fun _ r => Placed t.columns r

theorem ofArticle_axis (docProps : RenderProps) (article : LineTree TypedLine)
    (harticle : ∀ frag ∈ article.children, frag.Flattenable) :
    Always (Timeline.ofArticle docProps article) fun t => ∃ n, Axis article.children t n := by
  unfold Timeline.ofArticle
  exact (foldFragments_flat _ article.children harticle (flat_empty _ _ _)).bind fun r hr =>
    Always.pure ⟨r.2, hr.axis.fillPlaceholderProps⟩

/-- Every music article an article lays out has one axis for all its rows. -/
theorem layArticle_oneAxis (docProps : RenderProps) (article : LineTree TypedLine)
    (harticle : ∀ frag ∈ article.children, frag.Flattenable) :
    Always (layArticle docProps article) fun laid => match laid with
      | .music t => t.OneAxis article.children
      | .text _ => True := by
  unfold layArticle
  split
  · exact Always.pure trivial
  refine (ofArticle_axis docProps article harticle).bind fun t ⟨n, ht⟩ => ?_
  obtain ⟨haxis, hsize, hindex, hplaced⟩ := ht.allocate
  refine (interlink_relinked t.allocate).bind fun t₂ ⟨hc₂, hf₂, hj₂, hv₂⟩ => ?_
  refine (placeVerses_sung t₂).bind fun t₃ ⟨hc₃, hf₃, hj₃, hv₃⟩ => Always.pure ?_
  -- linking and singing keep the columns, so the axis is still the allocated one
  have hcount : t₃.sectionCount = n := by
    rw [Timeline.sectionCount, hc₃, hc₂, hsize]
  have hcount₂ : t₂.sectionCount = n := by
    rw [Timeline.sectionCount, hc₂, hsize]
  have haxis₂ : Axis article.children t₂ n :=
    haxis.keep (hv₂.imp fun _ _ h => h.kept) hf₂ hj₂
  refine ⟨hcount ▸ haxis₂.keep (hv₃.imp fun _ _ h => h.kept) hf₃ hj₃, ?_, ?_, ?_⟩
  · intro v' hv' l' hl'
    obtain ⟨v, -, hsung⟩ := forall₂_mem_right hv₃ v' (Array.mem_toList_iff.2 hv')
    obtain ⟨l, -, -, hlyrics⟩ := forall₂_mem_right hsung.verses l' (Array.mem_toList_iff.2 hl')
    rw [hlyrics, hcount₂, hcount]
  · rw [hc₃, hc₂]
    exact hindex
  · intro v₃ hv₃'
    obtain ⟨v₂, hv₂', hsung⟩ := forall₂_mem_right hv₃ v₃ (Array.mem_toList_iff.2 hv₃')
    obtain ⟨v, hv, hrel⟩ := forall₂_mem_right hv₂ v₂ hv₂'
    rw [hc₃, hc₂]
    exact hsung.everyRow (hrel.everyRow (fun _ _ _ hr hp => hr.placed hp)
      (hplaced v (Array.mem_toList_iff.1 hv)))

end Jianpu
