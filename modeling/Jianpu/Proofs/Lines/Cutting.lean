import Mathlib
import Jianpu.Score.Document
import Jianpu.Proofs.Columns.Articles
/-!
# Cutting an article into lines

Every fragment of an article starts a new line, and a line holds at most `n` of its sections,
`n` the fragment's setting (one at least). A row with nothing written in a line's columns is
left out of that line, and a row kept is cut with its edges drawn as a line draws them: the
first section opens with the barline its neighbour before hands on, the last closes with the
form its own barline takes at a line end.

All of it reads the rows by column, so it holds of a timeline whose rows all reach every
column (`Timeline.Sized`), the shape laying the fragments gives: every music article of a score
text has it (`readTree_articles_sized`).

* `window`, `shows` — the columns `[start, stop)` of a row, and whether something that is not a
  placeholder stands there.
* `EdgesDrawn`, `RowsCut`, `VerseCut`, `PartCut`, `Timeline.LineCut` — what a line holds of a
  row, of several rows, of a verse line, of a voice, and the line itself.
* `Cuts` — spans that cut a fragment's columns into lines.
* `sliceRow_edgesDrawn`, `Timeline.fragmentLines_cuts` — a row cut, and a fragment's lines.

Main statement: `Timeline.toArticle_lines_cut`.
-/

namespace Jianpu

variable {α β : Type}

def window (row : Array β) (start stop : Nat) : List β :=
  (row.toList.drop start).take (stop - start)

def shows (row : Array (Section α)) (start stop : Nat) : Bool :=
  (window row start stop).any (!·.isNullish)

theorem rowRange_eq_window {row : Array β} {start stop : Nat} (h : stop ≤ row.size) :
    rowRange row start stop = window row start stop := by
  rw [rowRange, if_pos h, Array.toList_extract, List.extract_eq_take_drop, window]

theorem length_window {row : Array β} {start stop : Nat} (h : stop ≤ row.size) :
    (window row start stop).length = stop - start := by
  simp only [window, List.length_take, List.length_drop, Array.length_toList]
  omega

theorem getLast?_window {row : Array β} {start stop : Nat} (hlt : start < stop)
    (h : stop ≤ row.size) : (window row start stop).getLast? = row[stop - 1]? := by
  have hi : stop - 1 < row.size := by omega
  rw [window, List.getLast?_take, if_neg (by omega), List.getElem?_drop,
    show start + (stop - start - 1) = stop - 1 by omega, Array.getElem?_toList,
    Array.getElem?_eq_getElem hi, Option.some_or]

theorem hasContent_eq_shows {row : Array (Section α)} {start stop : Nat} (h : stop ≤ row.size) :
    hasContent row start stop = shows row start stop := by
  rw [hasContent, rowRange_eq_window h, shows]

theorem filter_hasContent {γ : Type} {xs : List γ} (row : γ → Array (Section α)) {start stop : Nat}
    (h : ∀ x ∈ xs, stop ≤ (row x).size) :
    xs.filter (fun x => hasContent (row x) start stop) =
      xs.filter fun x => shows (row x) start stop :=
  List.filter_congr fun x hx => hasContent_eq_shows (h x hx)

/-! ## The edges of a cut row -/

/-- A cut row's first section, opened with the barline its neighbour before hands on. -/
def openFirst (row : Array (Section α)) : Nat → List (Section α) → List (Section α)
  | k + 1, first :: more =>
    match row[k]? with
    | some prev => { first with separators.before.barline := prev.separators.next } :: more
    | none => first :: more
  | _, out => out

/-- A cut row's last section, closed with the form its barline takes at a line end. -/
def closeLast (out : List (Section α)) : List (Section α) :=
  match out.getLast? with
  | some last =>
    out.dropLast ++ [{ last with separators.after.barline := last.separators.after.barline.after }]
  | none => out

theorem sliceRow_eq (row : Array (Section α)) (start stop : Nat) :
    sliceRow row start stop = closeLast (openFirst row start (rowRange row start stop)) := rfl

theorem map_openFirst (f : Section α → β)
    (hf : ∀ (x : Section α) b, f { x with separators.before.barline := b } = f x)
    (row : Array (Section α)) (start : Nat) (out : List (Section α)) :
    (openFirst row start out).map f = out.map f := by
  unfold openFirst
  split
  · split <;> simp [hf]
  · rfl

theorem map_closeLast (f : Section α → β)
    (hf : ∀ (x : Section α) b, f { x with separators.after.barline := b } = f x)
    (out : List (Section α)) : (closeLast out).map f = out.map f := by
  unfold closeLast
  split
  · rename_i last hlast
    have hne : out ≠ [] := fun h => by simp [h] at hlast
    rw [List.getLast?_eq_some_getLast hne, Option.some.injEq] at hlast
    conv => rhs; rw [← List.dropLast_append_getLast hne]
    simp [hf, hlast]
  · rfl

theorem getLast?_closeLast (out : List (Section α)) :
    (closeLast out).getLast? = out.getLast?.map fun last =>
      { last with separators.after.barline := last.separators.after.barline.after } := by
  unfold closeLast
  split
  · rename_i last hlast
    simp [hlast]
  · rename_i hlast
    rw [hlast, Option.map_none]

/-- A row cut at columns `[start, stop)` as a line draws it: the row's sections there, in
order, the first opening with the barline its neighbour before hands on, the last closing with
the form its own barline takes at a line end. -/
structure EdgesDrawn (row : Array (Section α)) (start stop : Nat) (out : List (Section α)) :
    Prop where
  length : out.length = stop - start
  bodies : out.map (·.body) = (window row start stop).map (·.body)
  first : 0 < start → ∀ x ∈ out.head?, ∃ prev, row[start - 1]? = some prev ∧
    x.separators.before.barline = prev.separators.next
  last : ∀ x ∈ out.getLast?, ∃ y, row[stop - 1]? = some y ∧
    x.separators.after.barline = y.separators.after.barline.after

/-- **A row is cut with its edges drawn**, when it reaches the cut's end. -/
theorem sliceRow_edgesDrawn {row : Array (Section α)} {start stop : Nat} (h : stop ≤ row.size) :
    EdgesDrawn row start stop (sliceRow row start stop) := by
  rw [sliceRow_eq, rowRange_eq_window h]
  have hbodies := map_openFirst (·.body) (fun _ _ => rfl) row start (window row start stop)
  refine ⟨?_, ?_, ?_, ?_⟩
  · -- neither edge adds or drops a section
    have hlen := congrArg List.length (map_closeLast (·.body) (fun _ _ => rfl)
      (openFirst row start (window row start stop)))
    simp only [List.length_map] at hlen
    rw [hlen, ← List.length_map (f := (·.body)), hbodies, List.length_map, length_window h]
  · rw [map_closeLast (·.body) (fun _ _ => rfl), hbodies]
  · intro hstart x hx
    obtain ⟨k, rfl⟩ : ∃ k, start = k + 1 := ⟨start - 1, by omega⟩
    -- closing the last section keeps the first one's opening barline
    have hhead := congrArg List.head? (map_closeLast (·.separators.before) (fun _ _ => rfl)
      (openFirst row (k + 1) (window row (k + 1) stop)))
    rw [List.head?_map, List.head?_map, Option.mem_def.1 hx, Option.map_some] at hhead
    cases hw : window row (k + 1) stop with
    | nil => simp [hw, openFirst] at hhead
    | cons first more =>
      have hk : k < row.size := by
        have := @length_window _ row (k + 1) stop h
        rw [hw, List.length_cons] at this
        omega
      refine ⟨row[k], Array.getElem?_eq_getElem hk, ?_⟩
      rw [hw, openFirst, Array.getElem?_eq_getElem hk] at hhead
      simp only [List.head?_cons, Option.map_some, Option.some.injEq] at hhead
      rw [hhead]
  · intro x hx
    rw [getLast?_closeLast, Option.mem_def, Option.map_eq_some_iff] at hx
    obtain ⟨y, hy, rfl⟩ := hx
    -- opening the first section keeps the last one's closing barline
    have hlast := congrArg List.getLast? (map_openFirst (·.separators.after) (fun _ _ => rfl)
      row start (window row start stop))
    rw [List.getLast?_map, List.getLast?_map, hy, Option.map_some] at hlast
    have hlt : start < stop := by
      rcases Nat.lt_or_ge start stop with hlt | hge
      · exact hlt
      · have hnil : window row start stop = [] := by simp [window, Nat.sub_eq_zero_of_le hge]
        simp [hnil] at hlast
    rw [getLast?_window hlt h] at hlast
    obtain ⟨z, hz, hzy⟩ := Option.map_eq_some_iff.1 hlast.symm
    exact ⟨z, hz, by rw [hzy]⟩

/-! ## The rows of a line -/

/-- A line's share of several rows: those with something written in its columns, in order, each
cut with its edges drawn. -/
def RowsCut (rows : Array (Array (Section α))) (start stop : Nat) (out : List (List (Section α))) :
    Prop :=
  List.Forall₂ (fun r o => EdgesDrawn r start stop o)
    (rows.toList.filter (shows · start stop)) out

/-- Keeping the items some function gives, against filtering by when it gives one. -/
theorem forall₂_filter_filterMap {γ : Type} {R : β → γ → Prop} {f : β → Option γ} {p : β → Bool}
    (l : List β) (h : ∀ x ∈ l, (f x).isSome = p x ∧ ∀ y ∈ f x, R x y) :
    List.Forall₂ R (l.filter p) (l.filterMap f) := by
  induction l with
  | nil => exact .nil
  | cons x l ih =>
    have hrest := ih fun y hy => h y (List.mem_cons_of_mem _ hy)
    obtain ⟨hsome, hR⟩ := h x List.mem_cons_self
    cases hx : f x with
    | none =>
      rw [hx, Option.isSome_none] at hsome
      rw [List.filter_cons_of_neg (by simp [← hsome]), List.filterMap_cons_none hx]
      exact hrest
    | some y =>
      rw [hx, Option.isSome_some] at hsome
      rw [List.filter_cons_of_pos hsome.symm, List.filterMap_cons_some hx]
      exact .cons (hR y (by simp [hx])) hrest

theorem sliceRows_cut {rows : Array (Array (Section α))} {start stop : Nat}
    (h : ∀ r ∈ rows, stop ≤ r.size) : RowsCut rows start stop (sliceRows rows start stop) := by
  rw [RowsCut, sliceRows, filter_hasContent (fun r => r) fun r hr => h r (Array.mem_def.2 hr),
    List.forall₂_map_right_iff, List.forall₂_same]
  intro r hr
  exact sliceRow_edgesDrawn (h r (Array.mem_def.2 (List.mem_filter.1 hr).1))

def VerseLine.showsIn (l : VerseLine) (start stop : Nat) : Bool :=
  l.substitute.any (shows · start stop) || (window l.lyrics start stop).any (!·.isEmpty)

/-- A verse line's share of a line: the syllables of its columns, and its own melody there, cut
with its edges drawn, when something of it is written there. -/
structure VerseCut (l : VerseLine) (start stop : Nat) (lv : LineVerse) : Prop where
  lyrics : lv.lyrics = window l.lyrics start stop
  substitute : lv.substitute.isSome = l.substitute.any (shows · start stop)
  drawn : ∀ sub ∈ l.substitute, ∀ out ∈ lv.substitute, EdgesDrawn sub start stop out

theorem VerseLine.lineShare_cut {l : VerseLine} {start stop : Nat} (hl : stop ≤ l.lyrics.size)
    (hsub : ∀ sub ∈ l.substitute, stop ≤ sub.size) :
    (l.lineShare start stop).isSome = l.showsIn start stop ∧
      ∀ lv ∈ l.lineShare start stop, VerseCut l start stop lv := by
  -- the melody kept is the one with something written in the columns
  have hkept : (l.substitute.filter (hasContent · start stop)).isSome =
      l.substitute.any (shows · start stop) := by
    cases hs : l.substitute with
    | none => rfl
    | some sub =>
      rw [Option.filter_some, Option.any_some, hasContent_eq_shows (hsub sub hs)]
      split <;> simp_all
  -- nothing is kept exactly when neither a melody nor a syllable is written there
  have hnothing :
      ((((l.substitute.filter (hasContent · start stop)).map (sliceRow · start stop)).isNone &&
        (window l.lyrics start stop).all List.isEmpty) = true) ↔ l.showsIn start stop = false := by
    rw [Option.isNone_map, ← Option.not_isSome, hkept, List.all_eq_not_any_not, showsIn]
    simp
  unfold lineShare
  rw [rowRange_eq_window hl]
  dsimp only
  split
  · rename_i hnone
    refine ⟨by rw [Option.isSome_none, hnothing.1 hnone], fun lv hlv => by cases hlv⟩
  · rename_i hsome
    refine ⟨?_, fun lv hlv => ?_⟩
    · rw [Option.isSome_some, eq_comm, ← Bool.not_eq_false, ← hnothing]
      exact hsome
    · cases hlv
      refine ⟨rfl, by rw [Option.isSome_map, hkept], ?_⟩
      intro sub hs out hout
      rw [Option.mem_def, Option.map_eq_some_iff] at hout
      obtain ⟨sub', hsub', rfl⟩ := hout
      rw [Option.mem_def.1 hs, Option.filter_some] at hsub'
      split at hsub'
      · cases hsub'
        exact sliceRow_edgesDrawn (hsub sub hs)
      · cases hsub'

/-- A voice's share of a line of columns `[start, stop)`: its notes cut with their edges drawn,
its chord, annotation and accent rows with something written there, and the verse lines with
something of theirs there. -/
structure PartCut (v : Voice) (start stop : Nat) (p : LinePart) : Prop where
  signature : p.signature = v.signature
  notes : EdgesDrawn v.notes start stop p.notes
  chords : RowsCut v.chords start stop p.chords
  annotations : RowsCut v.annotations start stop p.annotations
  forces : RowsCut v.forces start stop p.forces
  verses : List.Forall₂ (fun l lv => VerseCut l start stop lv)
    (v.verses.toList.filter (·.showsIn start stop)) p.verses

/-- Every row of the timeline has a section, or a slot of syllables, at every column, and every
fragment is a span of its columns: the shape laying the fragments gives. -/
structure Timeline.Sized (t : Timeline) : Prop where
  notes : ∀ v ∈ t.voices, v.notes.size = t.sectionCount
  chords : ∀ v ∈ t.voices, ∀ r ∈ v.chords, r.size = t.sectionCount
  annotations : ∀ v ∈ t.voices, ∀ r ∈ v.annotations, r.size = t.sectionCount
  forces : ∀ v ∈ t.voices, ∀ r ∈ v.forces, r.size = t.sectionCount
  lyrics : ∀ v ∈ t.voices, ∀ l ∈ v.verses, l.lyrics.size = t.sectionCount
  substitute : ∀ v ∈ t.voices, ∀ l ∈ v.verses, ∀ sub ∈ l.substitute, sub.size = t.sectionCount
  fragments : ∀ f ∈ t.fragments, f.start ≤ f.stop ∧ f.stop ≤ t.sectionCount

theorem Timeline.OneAxis.sized {t : Timeline} {frags : List (LineTree TypedLine)}
    (h : t.OneAxis frags) : t.Sized where
  notes v hv := (h.axis.rows v hv).1
  chords v hv := (h.axis.rows v hv).2.1
  annotations v hv := (h.axis.rows v hv).2.2.1
  forces v hv := (h.axis.rows v hv).2.2.2.1
  lyrics := h.lyrics
  substitute v hv := (h.axis.rows v hv).2.2.2.2
  fragments f hf :=
    ⟨(h.axis.tiles.start_lt f (Array.mem_toList_iff.2 hf)).le,
      h.axis.tiles.stop_le f (Array.mem_toList_iff.2 hf)⟩

theorem readTree_flattenable (text : String) :
    Always (readTree text) fun tree => ∀ article ∈ tree.children, ∀ frag ∈ article.children,
      frag.Flattenable := by
  have hplaceable : Always (ScoreLine.classify text) fun lines => ∀ l ∈ lines, l.Placeable :=
    ScoreLine.classify_placeable text
  unfold readTree
  refine hplaceable.bind fun lines hl => ?_
  have hnoted : Always (LineTree.build lines) (LineTree.PartsNoted (·.command)) :=
    LineTree.build_partsNoted lines hl
  exact hnoted.bind fun tree ht => LineTree.typed_flattenable tree ht

/-- **The timelines a score text lays out have the shape cutting reads**: every row of every
music article reaches every column, and every fragment is a span of them. -/
theorem readTree_articles_sized (text : String) (docProps : RenderProps) (j : Journal) :
    ∀ article ∈ ((readTree text).run j).1.children,
      Always (layArticle docProps article) fun laid => ∀ t, laid = .music t → t.Sized := by
  intro article harticle
  refine (layArticle_oneAxis docProps article
    (readTree_flattenable text j article harticle)).imp fun laid h t ht => ?_
  subst ht
  exact Timeline.OneAxis.sized h

theorem Voice.lineShare_cut {t : Timeline} (ht : t.Sized) {v : Voice} (hv : v ∈ t.voices)
    {start stop : Nat} (hstop : stop ≤ t.sectionCount) :
    PartCut v start stop (v.lineShare start stop) where
  signature := rfl
  notes := sliceRow_edgesDrawn (by rw [ht.notes v hv]; exact hstop)
  chords := sliceRows_cut fun r hr => by rw [ht.chords v hv r hr]; exact hstop
  annotations := sliceRows_cut fun r hr => by rw [ht.annotations v hv r hr]; exact hstop
  forces := sliceRows_cut fun r hr => by rw [ht.forces v hv r hr]; exact hstop
  verses := by
    refine forall₂_filter_filterMap _ fun l hl => ?_
    have hl' : l ∈ v.verses := Array.mem_def.2 hl
    exact VerseLine.lineShare_cut (by rw [ht.lyrics v hv l hl']; exact hstop)
      fun sub hsub => by rw [ht.substitute v hv l hl' sub hsub]; exact hstop

/-- A line of the timeline: its columns, a layout entry for each, in order, and the share of
each voice with notes written there. -/
structure Timeline.LineCut (t : Timeline) (line : RenderLine) : Prop where
  columns : line.columns = window t.columns line.start line.stop
  layout : line.layout.map (·.index) = line.columns.map (·.index)
  parts : List.Forall₂ (fun v p => PartCut v line.start line.stop p)
    (t.voices.toList.filter fun v => shows v.notes line.start line.stop) line.parts

theorem Timeline.cutLine_parts {t : Timeline} (ht : t.Sized) {start stop : Nat}
    (hstop : stop ≤ t.sectionCount) :
    List.Forall₂ (fun v p => PartCut v start stop p)
      (t.voices.toList.filter fun v => shows v.notes start stop) (t.cutLine start stop).parts := by
  have hreach : ∀ v ∈ t.voices.toList, stop ≤ v.notes.size := fun v hv => by
    rw [ht.notes v (Array.mem_def.2 hv)]
    exact hstop
  rw [cutLine, filter_hasContent (fun v : Voice => v.notes) hreach, List.forall₂_map_right_iff, List.forall₂_same]
  intro v hv
  exact Voice.lineShare_cut ht (Array.mem_def.2 (List.mem_filter.1 hv).1) hstop

/-- The layout of a line has an entry for each of its columns, in order. -/
theorem LineLayout.dispatch_index (lx : LineLayout) (line : RenderLine) :
    (lx.dispatch line).map (·.index) = line.columns.map (·.index) := by
  unfold LineLayout.dispatch
  -- each column pushes one entry, at its index
  have hfold : ∀ (cs : List (Column × Nat)) (acc : Array SectionLayout × Float)
      (F : Array SectionLayout × Float → Column × Nat → Array SectionLayout × Float),
      (∀ acc c, ∃ sl x, F acc c = (acc.1.push sl, x) ∧ sl.index = c.1.index) →
      (cs.foldl F acc).1.toList.map (·.index) =
        acc.1.toList.map (·.index) ++ cs.map (·.1.index) := by
    intro cs
    induction cs with
    | nil => simp
    | cons c cs ih =>
      intro acc F hF
      obtain ⟨sl, x, hstep, hidx⟩ := hF acc c
      rw [List.foldl_cons, ih _ F hF, hstep]
      simp [hidx]
  dsimp only
  rw [hfold _ (#[], 0.0) _ (fun acc c => ⟨_, _, rfl, rfl⟩), Array.toList_empty, List.map_nil,
    List.nil_append, show (fun x : Column × Nat => x.1.index) = (·.index) ∘ Prod.fst from rfl,
    ← List.map_map, List.zipIdx_map_fst]

theorem Timeline.lineCut_cutLine {t : Timeline} (ht : t.Sized) {start stop : Nat}
    (hstop : stop ≤ t.sectionCount) (lx : LineLayout) :
    t.LineCut { t.cutLine start stop with layout := lx.dispatch (t.cutLine start stop) } where
  columns := rowRange_eq_window hstop
  layout := lx.dispatch_index _
  parts := cutLine_parts ht hstop

/-! ## The lines of a fragment -/

/-- Spans `[s₀, e₀), [s₁, e₁), …` that cut `[start, stop)` into lines of at most `n` columns:
the first starts at `start`, each next one where the one before stops, each holds
`min n (stop - sᵢ)` columns, and the last stops at `stop`. -/
inductive Cuts (n stop : Nat) : Nat → List (Nat × Nat) → Prop
  | done : Cuts n stop stop []
  | line {start : Nat} {spans : List (Nat × Nat)} : start < stop →
      Cuts n stop (start + min n (stop - start)) spans →
      Cuts n stop start ((start, start + min n (stop - start)) :: spans)

namespace Timeline

variable (t : Timeline) (metrics : GlyphMetrics) (f : FragmentRange)

/-- **The lines of a fragment cut its columns**, when each holds one column at least and the
lines allowed are as many as the columns left. -/
theorem fragmentLines_cuts {n : Nat} (hn : 0 < n) :
    ∀ fuel start, start ≤ f.stop → f.stop - start ≤ fuel →
      Cuts n f.stop start ((t.fragmentLines metrics f n fuel start).map fun l => (l.start, l.stop))
  | 0, start, hle, hfuel => by
    obtain rfl : start = f.stop := by omega
    exact .done
  | fuel + 1, start, hle, hfuel => by
    rw [fragmentLines]
    split
    · rename_i hlt
      -- the line takes `n` columns, or those left
      have hstop : min (start + n) f.stop = start + min n (f.stop - start) := by omega
      rw [List.map_cons]
      dsimp only [cutLine]
      rw [hstop]
      exact .line hlt (fragmentLines_cuts hn fuel _ (by omega) (by omega))
    · obtain rfl : start = f.stop := by omega
      exact .done

theorem mem_fragmentLines {n : Nat} :
    ∀ {fuel start : Nat} {l : RenderLine}, l ∈ t.fragmentLines metrics f n fuel start →
      ∃ s e, e ≤ f.stop ∧
        l = { t.cutLine s e with
          layout := LineLayout.dispatch ⟨metrics, f.renderProps⟩ (t.cutLine s e) }
  | 0, _, _, hl => by cases hl
  | fuel + 1, start, l, hl => by
    rw [fragmentLines] at hl
    split at hl
    · rcases List.mem_cons.1 hl with rfl | hl
      · exact ⟨start, min (start + n) f.stop, Nat.min_le_right _ _, rfl⟩
      · exact mem_fragmentLines hl
    · cases hl

/-- The lines of a fragment: they cut its columns into lines of at most `n` columns, `n` its
setting of sections a line (one at least), and each is a line of the timeline. -/
def FragmentCut (f : FragmentRange) (lines : List RenderLine) : Prop :=
  Cuts (max f.renderProps.sectionsPerLine 1).toNat f.stop f.start
      (lines.map fun l => (l.start, l.stop)) ∧
    ∀ l ∈ lines, t.LineCut l

/-- **An article is cut into lines fragment by fragment.** When every row of the timeline has
a section at every column and every fragment is a span of columns, the lines of the article
are those of its fragments in order; each fragment's lines tile its columns, at most `n` a
line; and each line holds its columns, one layout entry per column, and the share of each voice
with notes written there: its notes, its rows and verse lines with something there, each row
with as many sections as the line has columns and its edges drawn as a line draws them. -/
theorem toArticle_lines_cut (ht : t.Sized) :
    ∃ fragmentLines : List (List RenderLine),
      (t.toArticle metrics).lines = fragmentLines.flatten ∧
      List.Forall₂ t.FragmentCut t.fragments.toList fragmentLines := by
  refine ⟨t.fragments.toList.map fun f =>
      t.fragmentLines metrics f (max f.renderProps.sectionsPerLine 1).toNat (f.stop - f.start)
        f.start, rfl, ?_⟩
  rw [List.forall₂_map_right_iff, List.forall₂_same]
  intro f hf
  obtain ⟨hle, hstop⟩ := ht.fragments f (Array.mem_def.2 hf)
  refine ⟨fragmentLines_cuts t metrics f (by omega) _ _ hle le_rfl, fun l hl => ?_⟩
  obtain ⟨s, e, he, rfl⟩ := mem_fragmentLines t metrics f hl
  exact lineCut_cutLine ht (by omega) _

/-- One voice over two columns, in one fragment of the default setting. -/
theorem toArticle_lines_cut_one_voice :
    let t : Timeline := { (default : Timeline) with
      columns := #[default, default]
      voices := #[⟨"", [], #[default, default], #[], #[], #[], #[]⟩]
      fragments := #[⟨0, 0, 2, {}⟩] }
    t.Sized ∧ ∃ fragmentLines : List (List RenderLine),
      (t.toArticle default).lines = fragmentLines.flatten ∧
      List.Forall₂ t.FragmentCut t.fragments.toList fragmentLines := by
  intro t
  have ht : t.Sized := by
    constructor <;> simp [t, sectionCount]
  exact ⟨ht, toArticle_lines_cut t default ht⟩

end Timeline

end Jianpu
