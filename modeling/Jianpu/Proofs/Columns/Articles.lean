import Mathlib
import Jianpu.Proofs.Columns.Flatten
import Jianpu.Proofs.LineTree.Building
/-!
# Every article of a score lies on one axis

`layArticle_oneAxis` lays an article on one axis when each of its fragments can be flattened:
no part has two `N` lines, and every jumper ends after it starts. Both hold of every article
a score text is read into:

* the builder shapes every node it keeps, and `N` is a unique command, so a part holds at
  most one `N` line (`build_partsNoted`); reading the tree's brackets and then each line keeps every line's command
  (`mapLinesM_commands`, `typedPart_commands`);
* a jumper row is read one range at a time, and a range that does not start at one or more,
  or ends before it starts, is dropped, so every jumper read starts before it ends
  (`readJumper_ordered`); its attributes change only its passes and octave.

* `typed_flattenable` — every fragment of the read tree can be flattened.
* `scoreArticles_oneAxis` — every music article of a score text lies on one axis.
-/

namespace Jianpu

namespace Always

variable {α β σ : Type}

theorem forIn_of_mem {f : α → σ → Compiling (ForInStep σ)} (P : σ → Prop) (l : List α)
    (hf : ∀ a ∈ l, ∀ b, P b → Always (f a b) fun r => P r.value) (b : σ) (hb : P b) :
    Always (ForIn.forIn l b f) P :=
  fun j => ScoreLine.forIn_keeps P f l (fun a ha b j hb => hf a ha b hb j) b j hb

theorem forIn {f : α → σ → Compiling (ForInStep σ)} (P : σ → Prop)
    (hf : ∀ a b, P b → Always (f a b) fun r => P r.value) (l : List α) (b : σ) (hb : P b) :
    Always (ForIn.forIn l b f) P :=
  forIn_of_mem P l (fun a _ => hf a) b hb

theorem filterMapM {f : α → Compiling (Option β)} (P : β → Prop)
    (hf : ∀ a, Always (f a) fun o => ∀ b ∈ o, P b) :
    ∀ l : List α, Always (l.filterMapM f) fun bs => ∀ b ∈ bs, P b
  | [] => Always.pure fun _ h => absurd h List.not_mem_nil
  | a :: l => by
    rw [List.filterMapM_cons]
    refine (hf a).bind fun o ho => ?_
    split
    · exact filterMapM P hf l
    · rename_i b
      refine (filterMapM P hf l).bind fun bs hbs => Always.pure fun x hx => ?_
      rcases List.mem_cons.1 hx with rfl | hx
      · exact ho x rfl
      · exact hbs x hx

end Always

/-! ## Jumpers are read in order -/

/-- A jumper read from a chunk starts before it ends: its range was checked, and its
attributes set only its passes and octave. -/
theorem readJumper_ordered (line : Nat) (src : LineText) (c : Chunk) :
    Always (readJumper line src c) fun o => ∀ j ∈ o, j.start < j.stop := by
  unfold readJumper
  simp only [pure_bind]
  split
  · exact Always.warn_then (by simp)
  split
  swap
  · exact Always.pure (by simp)
  -- whether the range has an end, and whether that end is a number
  split
  split
  on_goal 2 => exact Always.pure (by simp)
  -- a range with an end or of one section meets the same check before its attributes
  all_goals
    split
    · exact Always.warn_then (by simp)
    rename_i hcheck
    refine (Always.forIn (fun s : Jumper => s.start < s.stop) (fun g s hs => ?_) _ _ ?_).bind
      fun s hs => Always.pure (by simpa using hs)
    · split
      · split
        · exact Always.pure hs
        · split
          · exact Always.pure hs
          · exact Always.warn_then hs
      · exact Always.pure hs
    · simp at hcheck
      dsimp only
      omega

def LineContent.Ordered : LineContent → Prop
  | .jumpers js => ∀ j ∈ js, j.start < j.stop
  | _ => True

theorem readPlain_ordered (g : GroupedLine) : Always g.readPlain LineContent.Ordered := by
  unfold GroupedLine.readPlain
  dsimp only
  split
  all_goals first
    | exact (Always.filterMapM _ (readJumper_ordered _ _) _).map fun _ h => h
    | exact Always.pure True.intro
    | exact Always.any.map fun _ _ => True.intro
    | exact Always.any.bind fun _ _ => Always.pure True.intro

/-! ## Reading keeps the commands -/

namespace LineTree

variable {α β : Type}

theorem map_eq_of_forall₂ {γ : Type} {f : α → γ} {g : β → γ} {xs : List α} {ys : List β}
    (h : List.Forall₂ (fun a b => g b = f a) xs ys) : ys.map g = xs.map f := by
  have h' : List.Forall₂ Eq (xs.map f) (ys.map g) :=
    List.forall₂_map_left_iff.2 (List.forall₂_map_right_iff.2 (h.imp fun _ _ e => e.symm))
  rw [List.forall₂_eq_eq_eq] at h'
  exact h'.symm

theorem mapForest_eq_map (g : α → β) (ts : List (LineTree α)) :
    mapForest g ts = ts.map (mapLines g) := by
  induction ts with
  | nil => rfl
  | cons t ts ih => rw [mapForest, ih, List.map_cons]

@[simp] theorem mapLines_lines (g : α → β) (t : LineTree α) : (t.mapLines g).lines = t.lines.map g := by
  cases t
  rfl

@[simp] theorem mapLines_children (g : α → β) (t : LineTree α) :
    (t.mapLines g).children = t.children.map (mapLines g) := by
  cases t
  exact mapForest_eq_map g _

section Commands

variable {f : α → Compiling β} {ga : α → Command} {gb : β → Command}

mutual
theorem mapLinesM_commands (hf : ∀ a, Always (f a) fun b => gb b = ga a) :
    ∀ t : LineTree α, Always (t.mapLinesM f) fun t' => t'.mapLines gb = t.mapLines ga
  | ⟨line, level, lines, uniq, children, pruned⟩ => by
    rw [mapLinesM]
    refine (Always.mapM_list _ lines fun a _ => hf a).bind fun lines' hl =>
      (mapForestM_commands hf children).bind fun children' hc => Always.pure ?_
    rw [mapLines, mapLines, hc, map_eq_of_forall₂ hl]

theorem mapForestM_commands (hf : ∀ a, Always (f a) fun b => gb b = ga a) :
    ∀ ts : List (LineTree α), Always (mapForestM f ts) fun ts' => mapForest gb ts' = mapForest ga ts
  | [] => Always.pure rfl
  | t :: ts => by
    rw [mapForestM]
    exact (mapLinesM_commands hf t).bind fun t' ht => (mapForestM_commands hf ts).bind
      fun ts' hts => Always.pure (by rw [mapForest, mapForest, ht, hts])
end

end Commands

/-- Every part of a tree, a node two levels below an article, has at most one line of the
command `N`. -/
def PartsNoted (cmd : α → Command) (t : LineTree α) : Prop :=
  ∀ a ∈ t.children, ∀ frag ∈ a.children, ∀ part ∈ frag.children,
    (part.lines.map cmd).count .notes ≤ 1

theorem partsNoted_iff (cmd : α → Command) (t : LineTree α) :
    PartsNoted cmd t ↔ PartsNoted id (t.mapLines cmd) := by
  simp [PartsNoted]

theorem PartsNoted.of_commands {ga : α → Command} {gb : β → Command} {t : LineTree α}
    {t' : LineTree β} (h : t'.mapLines gb = t.mapLines ga) (ht : PartsNoted ga t) :
    PartsNoted gb t' := by
  rw [partsNoted_iff, h]
  exact (partsNoted_iff ga t).1 ht

theorem Shaped.count_notes {t : LineTree CommandLine} (h : t.Shaped) :
    (t.lines.map (·.command)).count .notes ≤ 1 := by
  calc (t.lines.map (·.command)).count .notes
      = ((t.lines.filter (·.command.unique)).map (·.command)).count .notes := by
        rw [List.count_eq_countP, List.count_eq_countP, List.countP_map, List.countP_map,
          List.countP_filter]
        -- only lines of a unique command are `N` lines
        congr 1
        funext l
        by_cases hl : l.command = Command.notes
        · simp [hl, Command.unique]
        · simp [hl]
    _ ≤ 1 := List.nodup_iff_count_le_one.1 h.unique_once _

theorem build_partsNoted (lines : List ScoreLine) (hl : ∀ l ∈ lines, l.Placeable) (j : Journal) :
    PartsNoted (·.command) ((build lines).run j).1 := by
  obtain ⟨-, hb, -, -⟩ := build_placed lines hl j
  intro a ha frag hfrag part hpart
  -- the children of a tree the check kept are trees it kept, down to the parts
  have hgood := (good_iff.1 (hb.children a ha)).2.2 frag hfrag
  exact (good_iff.1 ((good_iff.1 hgood).2.2 part hpart)).1.count_notes

/-! ## The read tree can be flattened -/

theorem ofCommandLine_command (c : CommandLine) :
    Always (GroupedLine.ofCommandLine c) fun g => g.command = c.command := by
  unfold GroupedLine.ofCommandLine
  dsimp only
  split
  all_goals exact Always.any.bind fun _ _ => Always.any.bind fun _ _ => Always.pure rfl

theorem plainLines_ordered (t : LineTree GroupedLine) :
    Always (plainLines t) fun ls => ∀ l ∈ ls, l.content.Ordered := by
  unfold plainLines
  refine (Always.mapM_list (fun _ l => l.content.Ordered) t.lines fun g _ =>
    (readPlain_ordered g).map fun _ h => h).imp fun ls h l hl => ?_
  obtain ⟨_, _, hl⟩ := forall₂_mem_right h l hl
  exact hl

/-- Reading a part keeps the command of each of its lines. -/
theorem typedPart_commands (fragCtx : MusicProps) (t : LineTree GroupedLine) :
    Always (typedPart fragCtx t) fun p => p.1.lines.map (·.command) = t.lines.map (·.command) := by
  unfold typedPart
  dsimp only
  -- whether or not the part has an `N` row to read first, its lines are read the same way
  split
  all_goals
    refine Always.any.bind fun notes _ => ?_
    refine (Always.mapM_list (fun (gi : GroupedLine × Nat) (l : TypedLine) =>
      l.command = gi.1.command) _ fun gi _ => ?_).bind
      fun lines hl => Always.any.bind fun children _ => Always.pure ?_
    · obtain ⟨g, i⟩ := gi
      dsimp only
      -- every branch reads the line into `g.typed`, which keeps its command
      repeat' split
      all_goals first
        | exact Always.any.map fun _ _ => rfl
        | exact Always.pure rfl
    · calc lines.map (·.command) = t.lines.zipIdx.map (·.1.command) := map_eq_of_forall₂ hl
        _ = (t.lines.zipIdx.map Prod.fst).map (·.command) := by rw [List.map_map]; rfl
        _ = t.lines.map (·.command) := by rw [List.zipIdx_map_fst]

theorem oneNotesLine_iff (lines : List TypedLine) :
    OneNotesLine lines ↔ (lines.map (·.command)).count .notes ≤ 1 := by
  rw [OneNotesLine, List.count_eq_countP, List.countP_map]
  rfl

/-- A fragment whose parts hold at most one `N` line each is read into one that can be
flattened. -/
theorem typedFragment_flattenable (ctx : MusicProps) (t : LineTree GroupedLine)
    (hparts : ∀ part ∈ t.children, (part.lines.map (·.command)).count .notes ≤ 1) :
    Always (typedFragment ctx t) fun r => r.1.Flattenable := by
  unfold typedFragment
  dsimp only
  refine (plainLines_ordered t).bind fun lines hlines => ?_
  refine (Always.foldlM_of_mem (fun _ (r : List (LineTree TypedLine) × MusicPatch) =>
    ∀ p ∈ r.1, OneNotesLine p.lines) t.children ?_ _ (by simp)).bind fun r hr => ?_
  · intro done r part hpart hr
    obtain ⟨out, v⟩ := r
    refine (typedPart_commands _ part).bind fun pp hpp => ?_
    obtain ⟨p, pv⟩ := pp
    refine Always.pure fun q hq => ?_
    rcases List.mem_append.1 hq with hq | hq
    · exact hr q hq
    · rw [List.mem_singleton.1 hq, oneNotesLine_iff, hpp]
      exact hparts part hpart
  · obtain ⟨children, variation⟩ := r
    refine Always.pure ⟨hr, fun l hl js hjs => ?_⟩
    have hordered := hlines l hl
    rw [hjs] at hordered
    exact hordered

/-- An article whose parts hold at most one `N` line each is read into fragments that can
be flattened. -/
theorem typedArticle_flattenable (docCtx : MusicProps) (t : LineTree GroupedLine)
    (hfrags : ∀ frag ∈ t.children, ∀ part ∈ frag.children,
      (part.lines.map (·.command)).count .notes ≤ 1) :
    Always (typedArticle docCtx t) fun a => ∀ frag ∈ a.children, frag.Flattenable := by
  unfold typedArticle
  dsimp only
  refine Always.any.bind fun _ _ => ?_
  refine (Always.foldlM_of_mem (fun _ (r : List (LineTree TypedLine) × MusicProps) =>
    ∀ f ∈ r.1, f.Flattenable) t.children ?_ _ (by simp)).bind fun r hr => ?_
  · intro done r frag hfrag hr
    obtain ⟨out, ctx⟩ := r
    refine (typedFragment_flattenable ctx frag (hfrags frag hfrag)).bind fun ff hff => ?_
    obtain ⟨f, next⟩ := ff
    refine Always.pure fun q hq => ?_
    rcases List.mem_append.1 hq with hq | hq
    · exact hr q hq
    · rw [List.mem_singleton.1 hq]
      exact hff
  · obtain ⟨children, _⟩ := r
    exact Always.pure hr

/-- Every fragment of a tree read line by line can be flattened, when no part of the tree
holds two `N` lines. -/
theorem typed_flattenable (t : LineTree CommandLine) (ht : PartsNoted (·.command) t) :
    Always t.typed fun tt => ∀ a ∈ tt.children, ∀ frag ∈ a.children, frag.Flattenable := by
  unfold typed
  refine (mapLinesM_commands ofCommandLine_command t).bind fun g hg => ?_
  have hnoted : PartsNoted (·.command) g := PartsNoted.of_commands hg ht
  refine Always.any.bind fun _ _ => (Always.mapM_list (fun _ a => ∀ frag ∈ a.children,
    frag.Flattenable) g.children fun a ha => typedArticle_flattenable _ a (hnoted a ha)).bind
    fun children hc => Always.pure fun a ha => ?_
  obtain ⟨_, _, h⟩ := forall₂_mem_right hc a ha
  exact h

end LineTree

/-- Every music article of a score text lies on one axis: its voices' rows as long as the
axis, verse lines with a slot for every column, columns numbered in order and every section
stamped with its column, fragment spans tiling the axis, jumpers inside spans, and over each
span a voice for every part showing the notes that part wrote there. -/
theorem scoreArticles_oneAxis (text : String) (docProps : RenderProps) (j₁ j₂ j₃ : Journal) :
    let tree := ((((LineTree.build ((ScoreLine.classify text).run j₁).1).run j₂).1.typed).run j₃).1
    ∀ article ∈ tree.children, Always (layArticle docProps article) fun laid => match laid with
      | .music t => t.OneAxis article.children
      | .text _ => True := by
  intro tree article harticle
  have hnoted := LineTree.build_partsNoted _ (ScoreLine.classify_placeable text j₁) j₂
  exact layArticle_oneAxis docProps article
    (LineTree.typed_flattenable _ hnoted j₃ article harticle)

end Jianpu
