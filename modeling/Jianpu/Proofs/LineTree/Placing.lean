import Mathlib
import Jianpu.Proofs.LineTree.Nodes
/-!
# One open level of the builder

`LineTree.build` keeps one frame per open level. This file says what the builder does to one
frame, and what every such step keeps.

* `finish_run`, `accept_run`  closing a frame's node, and adding a command line to a frame, as
  plain functions of the frame and the journal; `accept_cases` says all that adding can do.
* `Built`, `Good`  a node whose children the check kept, and a tree the check kept throughout.
* `Frame.Sound`  what holds of an open level: its nodes stand at its level with finished
  children, the finished ones were kept by the check, and each node's lines were read in order.
  `Sound.finish`, `Sound.attach` and `Sound.add` are the steps that keep it.
* `Drops`  the lines before a step are the lines after it and those of trees dropped on the
  way, each dropped tree with an issue of its own; `finish_drops` for closing a node.
-/

namespace Jianpu

namespace LineTree

/-! ## Trees the check kept -/

def Good (t : LineTree CommandLine) : Prop := ∀ n ∈ t.nodes, n.Shaped ∧ n.Kept

/-- A node with finished children: it is shaped, and each child is a tree the check kept. -/
structure Built (t : LineTree CommandLine) : Prop where
  shaped : t.Shaped
  children : ∀ c ∈ t.children, c.Good

theorem good_iff {t : LineTree CommandLine} :
    t.Good ↔ t.Shaped ∧ t.Kept ∧ ∀ c ∈ t.children, c.Good := by
  simp only [Good, nodes_eq t, List.mem_cons, forall_eq_or_imp, mem_forestNodes]
  constructor
  · rintro ⟨hs, hrest⟩
    exact ⟨hs.1, hs.2, fun c hc n hn => hrest n ⟨c, hc, hn⟩⟩
  · rintro ⟨hs, hk, hc⟩
    exact ⟨⟨hs, hk⟩, fun n ⟨c, hmem, hn⟩ => hc c hmem n hn⟩

theorem Built.good {t : LineTree CommandLine} (h : t.Built) (hk : t.Kept) : t.Good :=
  good_iff.2 ⟨h.shaped, hk, h.children⟩

def InOrder (seen : List CommandLine) (t : LineTree CommandLine) : Prop :=
  ∀ n ∈ t.nodes, n.lines.Sublist seen

theorem InOrder.mono {seen seen' : List CommandLine} {t : LineTree CommandLine} (h : InOrder seen t)
    (hs : seen.Sublist seen') : InOrder seen' t :=
  fun n hn => (h n hn).trans hs

/-- A command line added to a node: its lines end with it, and a unique command is indexed where
it stands. -/
def addLine (t : LineTree CommandLine) (c : CommandLine) : LineTree CommandLine :=
  let t := if c.command.unique then
    { t with uniqueLines := t.uniqueLines ++ [(c.command.head, t.lines.length)] } else t
  { t with lines := t.lines ++ [c] }

@[simp] theorem addLine_lines (t : LineTree CommandLine) (c : CommandLine) :
    (t.addLine c).lines = t.lines ++ [c] := by
  unfold addLine
  split <;> rfl

@[simp] theorem addLine_level (t : LineTree CommandLine) (c : CommandLine) :
    (t.addLine c).level = t.level := by
  unfold addLine
  split <;> rfl

@[simp] theorem addLine_children (t : LineTree CommandLine) (c : CommandLine) :
    (t.addLine c).children = t.children := by
  unfold addLine
  split <;> rfl

theorem addLine_uniqueLines (t : LineTree CommandLine) (c : CommandLine) :
    (t.addLine c).uniqueLines =
      t.uniqueLines ++ if c.command.unique then [(c.command.head, t.lines.length)] else [] := by
  unfold addLine
  split <;> simp [*]

def duplicateIssue (c : CommandLine) : Issue :=
  ⟨c.line, 0, .error, .duplicateUnique c.command.head⟩

namespace Frame

def trees (f : Frame) : List (LineTree CommandLine) := f.current.toList ++ f.done

def lines (f : Frame) : List CommandLine := forestLines f.trees

/-- A unique command already stands in the node being filled. -/
def clash (f : Frame) (c : CommandLine) : Bool :=
  match f.current with
  | some t => c.command.unique && (t.uniqueLines.lookup c.command.head).isSome
  | none => false

def add (f : Frame) (c : CommandLine) : Frame :=
  { f with current := some ((f.ensure c.line).addLine c) }

/-- The frame below with the finished nodes of the frame above as children of its node, opened
at the line that opened the frame above if there is none. -/
def attach (below top : Frame) : Frame :=
  { below with
    current := some { below.ensure top.opener with
      children := (below.ensure top.opener).children ++ top.done
      pruned := (below.ensure top.opener).pruned || top.pruned } }

@[simp] theorem add_level (f : Frame) (c : CommandLine) : (f.add c).level = f.level := rfl

@[simp] theorem add_done (f : Frame) (c : CommandLine) : (f.add c).done = f.done := rfl

@[simp] theorem attach_level (below top : Frame) : (below.attach top).level = below.level := rfl

@[simp] theorem attach_done (below top : Frame) : (below.attach top).done = below.done := rfl

/-- Closing the node being filled keeps the check's verdict on it. -/
theorem finish_run (f : Frame) (j : Journal) :
    f.finish.run j =
      match f.current with
      | none => (f, j)
      | some t =>
        ({ f with
            current := none
            done := f.done ++ Option.toList ((check t).run j).1
            pruned := f.pruned || Option.isNone ((check t).run j).1 }, ((check t).run j).2) := by
  unfold finish
  cases f.current with
  | none => simp; rfl
  | some t =>
    simp only [StateT.run_bind]
    cases (check t).run j with
    | mk r j' =>
      cases r <;> simp <;> rfl

/-- The journal after the warnings on a command line's properties: properties where the command
takes none, and none where it needs them. -/
def propsWarned (c : CommandLine) (j : Journal) : Journal :=
  let j₁ := if c.command.propsPolicy == .none && c.props.isSome then
    j.push ⟨c.line, 0, .warning, .redundantProps c.command.head⟩ else j
  if c.command.propsPolicy == .required && c.props.isNone then
    j₁.push ⟨c.line, 0, .warning, .lackProps c.command.head⟩ else j₁

theorem propsWarned_issues (c : CommandLine) (j : Journal) :
    ∃ δ, (propsWarned c j).issues.toList = j.issues.toList ++ δ := by
  unfold propsWarned
  split_ifs <;> simp

/-- Adding a command line: the warnings on its properties, then, if its unique command already
stands in the node, an error in the document and the line is left out, or the node is closed and
the line opens the next; otherwise the line joins the node. -/
theorem accept_run (f : Frame) (c : CommandLine) (j : Journal) :
    (f.accept c).run j =
      if f.clash c then
        if f.level == 0 then (f, (propsWarned c j).push (duplicateIssue c))
        else ((f.finish.run (propsWarned c j)).1.add c, (f.finish.run (propsWarned c j)).2)
      else (f.add c, propsWarned c j) := by
  unfold accept clash add addLine propsWarned
  dsimp only
  cases f.current <;> dsimp only <;> split_ifs <;> rfl

@[simp] theorem finish_level (f : Frame) (j : Journal) : (f.finish.run j).1.level = f.level := by
  rw [finish_run]
  split <;> rfl

@[simp] theorem finish_opener (f : Frame) (j : Journal) : (f.finish.run j).1.opener = f.opener := by
  rw [finish_run]
  split <;> rfl

@[simp] theorem finish_current (f : Frame) (j : Journal) : (f.finish.run j).1.current = none := by
  rw [finish_run]
  split <;> simp_all

theorem ensure_of_current {f : Frame} {t : LineTree CommandLine} (h : f.current = some t) (line : Nat) :
    f.ensure line = t := by
  simp [ensure, h]

theorem ensure_of_none {f : Frame} (h : f.current = none) (line : Nat) :
    f.ensure line = empty line f.level := by
  simp [ensure, h]

end Frame

theorem lookup_uniqueIndex_eq_none {lines : List CommandLine} {h : String}
    (hn : (uniqueIndex lines).lookup h = none) :
    ∀ l ∈ lines, l.command.unique = true → l.command.head ≠ h := by
  intro l hl hu heq
  obtain ⟨i, hi⟩ := List.mem_iff_getElem.1 hl
  have hmem : (l.command.head, i) ∈ uniqueIndex lines := by
    simp only [uniqueIndex, List.mem_map, List.mem_filter, Prod.exists]
    exact ⟨l, i, ⟨List.mem_zipIdx_iff_getElem?.2 (by simp [← hi.2]), hu⟩, rfl⟩
  rw [heq] at hmem
  simpa using List.lookup_eq_none_iff.1 hn _ hmem

theorem built_empty {line level : Nat} (h : level ≤ 4) : (empty line level : LineTree CommandLine).Built where
  shaped :=
    { children := by simp [empty]
      level_le := h
      lines := by simp [empty]
      unique_once := by simp [empty]
      index := rfl }
  children := by simp [empty]

@[simp] theorem empty_lines {α : Type} (line level : Nat) : (empty line level : LineTree α).lines = [] :=
  rfl

@[simp] theorem empty_level {α : Type} (line level : Nat) : (empty line level : LineTree α).level = level :=
  rfl

@[simp] theorem empty_children {α : Type} (line level : Nat) :
    (empty line level : LineTree α).children = [] :=
  rfl

theorem inOrder_empty {seen : List CommandLine} {line level : Nat} :
    InOrder seen (empty line level : LineTree CommandLine) := by
  simp [InOrder]

theorem Built.clear {t : LineTree CommandLine} (h : t.Built) : ({ t with children := [] } : LineTree _).Built where
  shaped :=
    { children := by simp
      level_le := h.shaped.level_le
      lines := h.shaped.lines
      unique_once := h.shaped.unique_once
      index := h.shaped.index }
  children := by simp

theorem InOrder.clear {seen : List CommandLine} {t : LineTree CommandLine} (h : InOrder seen t) :
    InOrder seen { t with children := [] } := by
  intro n hn
  rw [nodes_eq] at hn
  simp only [forestNodes_nil, List.mem_singleton] at hn
  subst hn
  exact h t (by rw [nodes_eq]; exact List.mem_cons_self)

theorem check_built {seen : List CommandLine} {t t' : LineTree CommandLine} {j j' : Journal}
    (hc : (check t).run j = (some t', j')) (hb : t.Built) (ho : InOrder seen t) :
    t'.level = t.level ∧ t'.Built ∧ (t.level ≠ 0 → t'.Kept) ∧ InOrder seen t' := by
  obtain ⟨rfl | rfl, hk⟩ := check_some hc
  · exact ⟨rfl, hb, hk, ho⟩
  · exact ⟨rfl, hb.clear, hk, ho.clear⟩

/-- A line whose command may stand at the node's level, and whose unique command the node does
not hold yet, keeps the node built. -/
theorem Built.addLine {t : LineTree CommandLine} (h : t.Built) {c : CommandLine}
    (hl : t.level ∈ c.command.levels)
    (hfresh : c.command.unique = true →
      ∀ l ∈ t.lines, l.command.unique = true → l.command.head ≠ c.command.head) :
    (t.addLine c).Built where
  shaped :=
    { children := by simpa using h.shaped.children
      level_le := by simpa using h.shaped.level_le
      lines := by
        simp only [addLine_lines, addLine_level, List.mem_append, List.mem_singleton]
        rintro l (hl' | rfl)
        · exact h.shaped.lines l hl'
        · exact hl
      unique_once := by
        simp only [addLine_lines, List.filter_append, List.map_append, List.nodup_append]
        refine ⟨h.shaped.unique_once, by simp only [List.filter_cons, List.filter_nil]; split <;> simp,
          ?_⟩
        -- the new line's command is none of the unique commands already there
        intro a ha b hb
        simp only [List.filter_cons, List.filter_nil] at hb
        split at hb
        · rename_i hu
          simp only [List.map_cons, List.map_nil, List.mem_singleton] at hb
          subst hb
          obtain ⟨l, hl', rfl⟩ := List.mem_map.1 ha
          rw [List.mem_filter] at hl'
          intro heq
          exact hfresh hu l hl'.1 hl'.2 (by rw [heq])
        · simp at hb
      index := by
        rw [addLine_uniqueLines, addLine_lines, uniqueIndex_append_single, h.shaped.index] }
  children := by simpa using h.children

theorem InOrder.addLine {seen : List CommandLine} {t : LineTree CommandLine} (h : InOrder seen t)
    (c : CommandLine) : InOrder (seen ++ [c]) (t.addLine c) := by
  intro n hn
  rw [nodes_eq] at hn
  rcases List.mem_cons.1 hn with rfl | hn
  · -- the node itself: its lines end with the line read last
    simp only [addLine_lines]
    exact (h t (by rw [nodes_eq]; exact List.mem_cons_self)).append (List.Sublist.refl [c])
  · rw [addLine_children] at hn
    exact (h n (by rw [nodes_eq]; exact List.mem_cons_of_mem _ hn)).trans
      (List.sublist_append_left _ _)

/-- Kept trees one level down, added as children, keep a node built. -/
theorem Built.adopt {t : LineTree CommandLine} (h : t.Built) {cs : List (LineTree CommandLine)}
    (hcs : ∀ c ∈ cs, c.level = t.level + 1 ∧ c.Good) (p : Bool) :
    ({ t with children := t.children ++ cs, pruned := p } : LineTree _).Built where
  shaped :=
    { children := by
        simp only [List.mem_append]
        rintro c (hc | hc)
        · exact h.shaped.children c hc
        · exact (hcs c hc).1
      level_le := h.shaped.level_le
      lines := h.shaped.lines
      unique_once := h.shaped.unique_once
      index := h.shaped.index }
  children := by
    simp only [List.mem_append]
    rintro c (hc | hc)
    · exact h.children c hc
    · exact (hcs c hc).2

theorem InOrder.adopt {seen : List CommandLine} {t : LineTree CommandLine} (h : InOrder seen t)
    {cs : List (LineTree CommandLine)} (hcs : ∀ c ∈ cs, InOrder seen c) (p : Bool) :
    InOrder seen { t with children := t.children ++ cs, pruned := p } := by
  intro n hn
  rw [nodes_eq] at hn
  simp only [forestNodes_append, List.mem_cons, List.mem_append] at hn
  rcases hn with rfl | hn | hn
  · exact h t (by rw [nodes_eq]; exact List.mem_cons_self)
  · exact h n (by rw [nodes_eq]; exact List.mem_cons_of_mem _ hn)
  · obtain ⟨c, hc, hn⟩ := mem_forestNodes.1 hn
    exact hcs c hc n hn

namespace Frame

/-- What holds of an open level after the lines `seen`: it stands no deeper than a lyric line,
its nodes stand at its level with finished children, those it finished were kept by the check
unless it is the document, and every node holds lines in the order they were read. -/
structure Sound (seen : List CommandLine) (f : Frame) : Prop where
  level_le : f.level ≤ 4
  current : ∀ t ∈ f.current, t.level = f.level ∧ t.Built
  done : ∀ t ∈ f.done, t.level = f.level ∧ t.Built ∧ (f.level ≠ 0 → t.Kept)
  ordered : ∀ t ∈ f.trees, InOrder seen t

variable {seen : List CommandLine} {f : Frame}

theorem Sound.mono (h : f.Sound seen) {seen' : List CommandLine} (hs : seen.Sublist seen') :
    f.Sound seen' :=
  { h with ordered := fun t ht => (h.ordered t ht).mono hs }

theorem Sound.ensure (h : f.Sound seen) (line : Nat) :
    (f.ensure line).level = f.level ∧ (f.ensure line).Built ∧ InOrder seen (f.ensure line) := by
  cases hc : f.current with
  | none =>
    rw [ensure_of_none hc]
    exact ⟨rfl, built_empty h.level_le, inOrder_empty⟩
  | some t =>
    rw [ensure_of_current hc]
    obtain ⟨hlev, hb⟩ := h.current t hc
    exact ⟨hlev, hb, h.ordered t (by simp [trees, hc])⟩

theorem Sound.finish (h : f.Sound seen) (j : Journal) : (f.finish.run j).1.Sound seen := by
  cases hc : f.current with
  | none =>
    rw [finish_run, hc]
    exact h
  | some t =>
    obtain ⟨hlev, hb⟩ := h.current t hc
    have ho : InOrder seen t := h.ordered t (by simp [trees, hc])
    rw [finish_run, hc]
    dsimp only
    cases hr : (check t).run j with
    | mk r j' =>
      refine ⟨h.level_le, by simp, ?_, ?_⟩
      · intro t' ht'
        simp only [List.mem_append, Option.mem_toList] at ht'
        rcases ht' with ht' | rfl
        · exact h.done t' ht'
        · obtain ⟨hl', hb', hk', -⟩ := check_built hr hb ho
          exact ⟨hl'.trans hlev, hb', fun h0 => hk' (hlev ▸ h0)⟩
      · intro t' ht'
        simp only [trees, Option.toList_none, List.nil_append, List.mem_append, Option.mem_toList] at ht'
        rcases ht' with ht' | rfl
        · exact h.ordered t' (by simp [trees, ht'])
        · exact (check_built hr hb ho).2.2.2

theorem Sound.attach {below top : Frame} (hb : below.Sound seen) (ht : top.Sound seen)
    (hcur : top.current = none) (hlev : top.level = below.level + 1) : (below.attach top).Sound seen := by
  obtain ⟨hel, heb, heo⟩ := hb.ensure top.opener
  -- each node the frame above finished is a kept tree one level down
  have hdone : ∀ c ∈ top.done, c.level = below.level + 1 ∧ c.Good := by
    intro c hc
    obtain ⟨hcl, hcb, hck⟩ := ht.done c hc
    exact ⟨hcl.trans hlev, hcb.good (hck (by omega))⟩
  refine ⟨hb.level_le, ?_, hb.done, ?_⟩
  · simp only [Frame.attach, Option.mem_def, Option.some.injEq, forall_eq']
    exact ⟨hel, heb.adopt (fun c hc => ⟨by rw [hel]; exact (hdone c hc).1, (hdone c hc).2⟩) _⟩
  · intro t ht'
    simp only [trees, Frame.attach, Option.toList_some, List.singleton_append, List.mem_cons] at ht'
    rcases ht' with rfl | ht'
    · exact heo.adopt (fun c hc => ht.ordered c (by simp [trees, hcur, hc])) _
    · exact hb.ordered t (by simp [trees, ht'])

theorem attach_lines {below top : Frame} (hcur : top.current = none) :
    (below.attach top).lines.Perm (below.lines ++ top.lines) := by
  have hensure : (below.ensure top.opener).allLines ++ forestLines below.done = below.lines := by
    cases hc : below.current with
    | none => simp [ensure_of_none hc, lines, trees, hc]
    | some t => simp [ensure_of_current hc, lines, trees, hc]
  rw [← hensure]
  simp only [lines, trees, Frame.attach, hcur, Option.toList_some, Option.toList_none,
    List.nil_append, List.singleton_append, forestLines_cons, allLines_eq, forestLines_append,
    List.append_assoc]
  exact List.Perm.append_left _ (List.Perm.append_left _ List.perm_append_comm)

/-- A line whose command may stand at the frame's level, and whose unique command is not in its
node yet, keeps the frame sound once added, with the line read. -/
theorem Sound.add (h : f.Sound seen) {c : CommandLine} (hl : f.level ∈ c.command.levels)
    (hc : f.clash c = false) : (f.add c).Sound (seen ++ [c]) := by
  obtain ⟨hel, heb, heo⟩ := h.ensure c.line
  -- the node does not hold the unique command yet
  have hfresh : c.command.unique = true →
      ∀ l ∈ (f.ensure c.line).lines, l.command.unique = true → l.command.head ≠ c.command.head := by
    intro hu
    cases hcur : f.current with
    | none => simp [ensure_of_none hcur]
    | some t =>
      rw [ensure_of_current hcur]
      have hn : t.uniqueLines.lookup c.command.head = none := by
        simpa [clash, hcur, hu] using hc
      rw [(h.current t hcur).2.shaped.index] at hn
      exact lookup_uniqueIndex_eq_none hn
  refine ⟨h.level_le, ?_, h.done, ?_⟩
  · simp only [Frame.add, Option.mem_def, Option.some.injEq, forall_eq']
    exact ⟨by simp [hel], heb.addLine (hel ▸ hl) hfresh⟩
  · intro t ht
    simp only [trees, Frame.add, Option.toList_some, List.singleton_append, List.mem_cons] at ht
    rcases ht with rfl | ht
    · exact heo.addLine c
    · exact (h.ordered t (by simp [trees, ht])).mono (List.sublist_append_left _ _)

theorem add_lines (f : Frame) (c : CommandLine) : (f.add c).lines.Perm (f.lines ++ [c]) := by
  have hensure : (f.ensure c.line).allLines ++ forestLines f.done = f.lines := by
    cases hc : f.current with
    | none => simp [ensure_of_none hc, lines, trees, hc]
    | some t => simp [ensure_of_current hc, lines, trees, hc]
  rw [← hensure]
  simp only [lines, trees, Frame.add, Option.toList_some, List.singleton_append, forestLines_cons,
    allLines_eq, addLine_lines, addLine_children, List.append_assoc]
  refine List.Perm.append_left _ ?_
  rw [← List.append_assoc]
  exact (List.perm_append_singleton c _).symm

theorem lines_eq (f : Frame) : f.lines = (f.current.map allLines).getD [] ++ forestLines f.done := by
  cases hc : f.current <;> simp [lines, trees, hc]

def Holds (f : Frame) (h : String) : Prop := ∃ t ∈ f.current, (t.uniqueLines.lookup h).isSome = true

theorem Holds.attach {below : Frame} {h : String} (hh : below.Holds h) (top : Frame) :
    (below.attach top).Holds h := by
  obtain ⟨t, ht, hl⟩ := hh
  refine ⟨_, rfl, ?_⟩
  rwa [ensure_of_current ht]

theorem Holds.add {h : String} (hh : f.Holds h) (c : CommandLine) : (f.add c).Holds h := by
  obtain ⟨t, ht, hl⟩ := hh
  refine ⟨_, rfl, ?_⟩
  rw [ensure_of_current ht, addLine_uniqueLines, List.lookup_append]
  cases hk : t.uniqueLines.lookup h with
  | none => simp [hk] at hl
  | some _ => rfl

theorem holds_of_clash {c : CommandLine} (h : f.clash c = true) : f.Holds c.command.head := by
  unfold clash at h
  cases hc : f.current with
  | none => simp [hc] at h
  | some t =>
    rw [hc, Bool.and_eq_true] at h
    exact ⟨t, hc, h.2⟩

end Frame

/-! ## Lines dropped with an issue -/

/-- The lines `now` are the lines `now'` and the lines of trees dropped on the way, each dropped
tree with an issue of its own among `δ`. -/
def Drops (now now' : List CommandLine) (δ : List Issue) : Prop :=
  ∃ ls : Losses, now.Perm (now' ++ lossLines ls) ∧ (ls.map Prod.fst).Sublist δ ∧
    ∀ e ∈ ls, Dropped e.1 e.2

namespace Drops

variable {a a' b b' c : List CommandLine} {δ δ' : List Issue}

theorem refl (a : List CommandLine) : Drops a a [] := ⟨[], by simp, by simp, by simp⟩

theorem trans (h : Drops a b δ) (h' : Drops b c δ') : Drops a c (δ ++ δ') := by
  obtain ⟨ls, hp, hs, hd⟩ := h
  obtain ⟨ls', hp', hs', hd'⟩ := h'
  refine ⟨ls ++ ls', ?_, by simpa using hs.append hs', ?_⟩
  · refine (hp.trans (hp'.append_right _)).trans ?_
    rw [lossLines_append, List.append_assoc]
    exact List.Perm.append_left _ List.perm_append_comm
  · intro e he
    rcases List.mem_append.1 he with he | he
    · exact hd e he
    · exact hd' e he

theorem mono (h : Drops a b δ) (hs : δ.Sublist δ') : Drops a b δ' := by
  obtain ⟨ls, hp, hsub, hd⟩ := h
  exact ⟨ls, hp, hsub.trans hs, hd⟩

theorem perm_right (h : Drops a b δ) (hp : b.Perm b') : Drops a b' δ := by
  obtain ⟨ls, hp', hs, hd⟩ := h
  exact ⟨ls, hp'.trans (hp.append_right _), hs, hd⟩

theorem append_left (x : List CommandLine) (h : Drops a b δ) : Drops (x ++ a) (x ++ b) δ := by
  obtain ⟨ls, hp, hs, hd⟩ := h
  refine ⟨ls, ?_, hs, hd⟩
  rw [List.append_assoc]
  exact hp.append_left x

theorem append_right (h : Drops a b δ) (x : List CommandLine) : Drops (a ++ x) (b ++ x) δ := by
  obtain ⟨ls, hp, hs, hd⟩ := h
  refine ⟨ls, (hp.append_right x).trans ?_, hs, hd⟩
  rw [List.append_assoc, List.append_assoc]
  exact List.Perm.append_left _ List.perm_append_comm

end Drops

namespace Frame

theorem finish_drops (f : Frame) (j : Journal) :
    ∃ δ, (f.finish.run j).2.issues.toList = j.issues.toList ++ δ ∧
      Drops f.lines (f.finish.run j).1.lines δ := by
  rw [finish_run]
  cases hc : f.current with
  | none => exact ⟨[], by simp, Drops.refl _⟩
  | some t =>
    dsimp only
    cases hr : (check t).run j with
    | mk r j' =>
      obtain ⟨δ, ls, hj, hs, hd, hp⟩ := check_accounts hr
      refine ⟨δ, hj, ls, ?_, hs, hd⟩
      rw [lines_eq, lines_eq, hc]
      have hp' := (hp.append_right (forestLines f.done)).trans List.perm_append_comm
      cases r <;> simpa using hp'

/-- What adding a command line can do. At the document, a unique command its node already holds is
left out with an error. Otherwise the line joins the node of a frame `g` that does not hold its
command: the frame itself, or the frame with its node closed, which drops what the check drops. -/
theorem accept_cases (f : Frame) (c : CommandLine) (j : Journal) :
    ∃ δ, ((f.accept c).run j).2.issues.toList = j.issues.toList ++ δ ∧
      ((f.level = 0 ∧ f.clash c = true ∧ ((f.accept c).run j).1 = f ∧
          [duplicateIssue c].Sublist δ) ∨
        ∃ g : Frame, ((f.accept c).run j).1 = g.add c ∧ g.clash c = false ∧ g.level = f.level ∧
          (f.level = 0 → g = f) ∧ (f.Sound seen → g.Sound seen) ∧ Drops f.lines g.lines δ) := by
  obtain ⟨δ₀, h₀⟩ := propsWarned_issues c j
  rw [accept_run]
  by_cases hcl : f.clash c = true
  · rw [if_pos hcl]
    by_cases h0 : f.level = 0
    · -- a second unique command of the document
      rw [if_pos (by simp [h0])]
      refine ⟨δ₀ ++ [duplicateIssue c], by simp [h₀], .inl ⟨h0, hcl, rfl, ?_⟩⟩
      exact List.sublist_append_right _ _
    · -- the node is closed and the line opens the next one
      rw [if_neg (by simp [h0])]
      obtain ⟨δ₁, h₁, hd⟩ := finish_drops f (propsWarned c j)
      refine ⟨δ₀ ++ δ₁, by rw [h₁, h₀, List.append_assoc], .inr ⟨_, rfl, ?_, by simp,
        fun h => absurd h h0, fun h => h.finish _, hd.mono (List.sublist_append_right _ _)⟩⟩
      simp [clash]
  · -- the line joins the node
    rw [if_neg hcl]
    exact ⟨δ₀, h₀, .inr ⟨f, rfl, by simpa using hcl, rfl, fun _ => rfl, id,
      (Drops.refl _).mono (List.nil_sublist _)⟩⟩

end Frame

end LineTree

end Jianpu
