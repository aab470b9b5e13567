import Mathlib
import Jianpu.LineTree
/-!
# The nodes of a line tree, and the check of a finished node

What `LineTree.build` is to give is said node by node. This file gives the views and the node
predicates, and what `LineTree.check` does to one finished node.

* `LineTree.allLines`, `LineTree.nodes`  every line and every node of a tree, a node before its
  children.
* `uniqueIndex`  the head and the position of each unique command among a node's lines.
* `LineTree.Shaped`  the shape of one node: children one level down, no deeper than a lyric line,
  lines whose commands may stand at its level, unique commands once each and indexed.
* `LineTree.Kept`  what the check asks of a node below the document: a line or a child, no text
  with music, no children under text, and every command its level requires.
* `Dropped`  an issue raised for trees the builder drops: a node discarded for mixing text and
  music or for lacking a required command, or the children dropped under a text node.
* `check_run`  the check as the issues it raises and its verdict; `check_some` and
  `check_accounts` what follows for the node kept and for the lines dropped.
-/

namespace Jianpu

def Journal.push (j : Journal) (i : Issue) : Journal := { j with issues := j.issues.push i }

@[simp] theorem Journal.push_issues (j : Journal) (i : Issue) :
    (j.push i).issues.toList = j.issues.toList ++ [i] := by
  simp [Journal.push]

namespace LineTree

variable {α : Type}

mutual
def allLines : LineTree α → List α
  | ⟨_, _, lines, _, children, _⟩ => lines ++ forestLines children

def forestLines : List (LineTree α) → List α
  | [] => []
  | t :: ts => allLines t ++ forestLines ts
end

mutual
def nodes : LineTree α → List (LineTree α)
  | t@⟨_, _, _, _, children, _⟩ => t :: forestNodes children

def forestNodes : List (LineTree α) → List (LineTree α)
  | [] => []
  | t :: ts => nodes t ++ forestNodes ts
end

theorem allLines_eq (t : LineTree α) : t.allLines = t.lines ++ forestLines t.children := by
  cases t
  rfl

theorem nodes_eq (t : LineTree α) : t.nodes = t :: forestNodes t.children := by
  cases t
  rfl

@[simp] theorem forestLines_nil : forestLines ([] : List (LineTree α)) = [] := rfl

@[simp] theorem forestLines_cons (t : LineTree α) (ts : List (LineTree α)) :
    forestLines (t :: ts) = t.allLines ++ forestLines ts := rfl

@[simp] theorem forestLines_append (ts us : List (LineTree α)) :
    forestLines (ts ++ us) = forestLines ts ++ forestLines us := by
  induction ts with
  | nil => rfl
  | cons t ts ih => simp [ih]

@[simp] theorem forestNodes_nil : forestNodes ([] : List (LineTree α)) = [] := rfl

@[simp] theorem forestNodes_cons (t : LineTree α) (ts : List (LineTree α)) :
    forestNodes (t :: ts) = t.nodes ++ forestNodes ts := rfl

@[simp] theorem forestNodes_append (ts us : List (LineTree α)) :
    forestNodes (ts ++ us) = forestNodes ts ++ forestNodes us := by
  induction ts with
  | nil => rfl
  | cons t ts ih => simp [ih]

mutual
theorem allLines_eq_flatMap : ∀ t : LineTree α, t.allLines = t.nodes.flatMap LineTree.lines
  | ⟨_, _, lines, _, children, _⟩ => by
    rw [allLines, nodes, forestLines_eq_flatMap children]
    simp

theorem forestLines_eq_flatMap :
    ∀ ts : List (LineTree α), forestLines ts = (forestNodes ts).flatMap LineTree.lines
  | [] => rfl
  | t :: ts => by
    rw [forestLines_cons, forestNodes_cons, List.flatMap_append, allLines_eq_flatMap t,
      forestLines_eq_flatMap ts]
end

theorem mem_forestNodes {n : LineTree α} {ts : List (LineTree α)} :
    n ∈ forestNodes ts ↔ ∃ t ∈ ts, n ∈ t.nodes := by
  induction ts with
  | nil => simp
  | cons t ts ih => simp [ih]

@[simp] theorem allLines_empty (line level : Nat) : (empty line level : LineTree α).allLines = [] :=
  rfl

@[simp] theorem nodes_empty (line level : Nat) :
    (empty line level : LineTree α).nodes = [empty line level] :=
  rfl

end LineTree

def uniqueIndex (lines : List CommandLine) : List (String × Nat) :=
  (lines.zipIdx.filter (·.1.command.unique)).map fun p => (p.1.command.head, p.2)

theorem uniqueIndex_append_single (lines : List CommandLine) (c : CommandLine) :
    uniqueIndex (lines ++ [c]) =
      uniqueIndex lines ++ if c.command.unique then [(c.command.head, lines.length)] else [] := by
  unfold uniqueIndex
  rw [List.zipIdx_append]
  split <;> simp [*]

namespace LineTree

def holds (t : LineTree CommandLine) (s : Speciality) : Bool :=
  t.lines.any fun l => l.command.speciality == s

/-- The shape of a node: its children stand one level below it, it stands no deeper than a lyric
line, each of its lines has a command that may stand at its level, and its unique commands
stand once each and are indexed by their heads where they stand. -/
structure Shaped (t : LineTree CommandLine) : Prop where
  children : ∀ c ∈ t.children, c.level = t.level + 1
  level_le : t.level ≤ 4
  lines : ∀ l ∈ t.lines, t.level ∈ l.command.levels
  unique_once : ((t.lines.filter (·.command.unique)).map (·.command)).Nodup
  index : t.uniqueLines = uniqueIndex t.lines

/-- What the check asks of a node below the document: it holds a line or a child, text and music
do not stand together in it, a text node has no children, and every command its level requires
is among its unique commands. -/
structure Kept (t : LineTree CommandLine) : Prop where
  nonempty : t.lines ≠ [] ∨ t.children ≠ []
  unmixed : ¬ (t.holds .special = true ∧ t.holds .normal = true)
  text_leaf : t.holds .special = true → t.children = []
  required : ∀ c ∈ Command.all, c.required = true → t.level ∈ c.levels →
    (t.uniqueLines.lookup c.head).isSome = true

def missing (t : LineTree CommandLine) : Option Command :=
  Command.all.find? fun c =>
    c.required && c.levels.contains t.level && (t.uniqueLines.lookup c.head).isNone

def strip (t : LineTree CommandLine) : LineTree CommandLine :=
  if t.holds .special && !t.children.isEmpty then { t with children := [] } else t

/-! ## The issues of the check -/

def emptyIssue (t : LineTree CommandLine) : Issue := ⟨t.line, 0, .warning, .emptyTree t.levelName⟩

def mixedIssue (t : LineTree CommandLine) : Issue :=
  ⟨t.line, 0, .error, .wrongSpeciality t.levelName⟩

def textIssue (t : LineTree CommandLine) : Issue :=
  ⟨t.line, 0, .warning, .specialChildren t.levelName⟩

def lackIssue (t : LineTree CommandLine) (c : Command) : Issue :=
  ⟨t.line, 0, .error, .lackRequired c.head t.levelName⟩

/-- An issue raised for trees the builder drops, with the trees: a node discarded for mixing text
and music or for lacking a required command, with the issue raised for that node, or the
children of a text node, with the issue raised for that node. -/
def Dropped (i : Issue) (ts : List (LineTree CommandLine)) : Prop :=
  ∃ t, (ts = [t] ∧ (i = mixedIssue t ∨ ∃ c, i = lackIssue t c)) ∨ (ts = t.children ∧ i = textIssue t)

/-! ## The check -/

/-- A loop that raises an error for the first element meeting `cond` and stops there. -/
theorem forIn_first {γ : Type} (l : List Command) (cond : Command → Bool) (line : Nat)
    (p : Command → Problem)
    (f : Command → Option (Option γ) × Unit → Compiling (ForInStep (Option (Option γ) × Unit)))
    (hf : ∀ c s, f c s = if cond c = true then do
        error line 0 (p c)
        pure (ForInStep.done (some none, ()))
      else pure (ForInStep.yield (none, ())))
    (j : Journal) :
    (forIn l (none, ()) f).run j =
      match l.find? cond with
      | some c => ((some none, ()), j.push ⟨line, 0, .error, p c⟩)
      | none => ((none, ()), j) := by
  induction l generalizing j with
  | nil => rfl
  | cons c l ih =>
    rw [List.forIn_cons, hf]
    by_cases hc : cond c = true
    · simp only [hc, if_true, List.find?_cons_of_pos]
      rfl
    · simp only [hc, Bool.false_eq_true, if_false, List.find?_cons_of_neg, not_false_eq_true]
      exact ih j

/-- The check: a document node is kept as it is; an empty node is discarded, with a warning unless
one of its children was discarded before; a node mixing text and music is discarded with an
error; otherwise a text node loses its children, with a warning, and the node is kept unless its
level requires a command it lacks, the first of which is reported. -/
theorem check_run (t : LineTree CommandLine) (j : Journal) :
    (check t).run j =
      if t.level = 0 then (some t, j)
      else if t.isEmpty then (none, if t.pruned then j else j.push t.emptyIssue)
      else if t.holds .special && t.holds .normal then (none, j.push t.mixedIssue)
      else
        match t.missing with
        | some c => (none, (if t.holds .special && !t.children.isEmpty then j.push t.textIssue else j).push
            (t.lackIssue c))
        | none => (some t.strip, if t.holds .special && !t.children.isEmpty then j.push t.textIssue else j) := by
  unfold check
  simp only [holds, strip, missing]
  by_cases h0 : t.level = 0
  · simp [h0]
    rfl
  simp only [h0, beq_iff_eq, if_false]
  by_cases he : t.isEmpty = true
  · cases t.pruned <;> simp [he, warn, raise, Journal.push] <;> rfl
  simp only [he, if_false, Bool.false_eq_true]
  by_cases hm : ((t.lines.any fun l => l.command.speciality == .special) &&
      t.lines.any fun l => l.command.speciality == .normal) = true
  · simp only [hm, if_true]
    rfl
  simp only [hm, if_false, Bool.false_eq_true]
  by_cases hs : ((t.lines.any fun l => l.command.speciality == .special) && !t.children.isEmpty) = true
  · simp only [hs, if_true, warn, raise, StateT.run_bind, StateT.run_modify, pure_bind]
    rw [forIn_first Command.all _ t.line (fun c => .lackRequired c.head t.levelName) _ (fun _ _ => rfl)]
    cases List.find? _ Command.all <;> rfl
  · simp only [hs, if_false, Bool.false_eq_true, StateT.run_bind, pure_bind]
    rw [forIn_first Command.all _ t.line (fun c => .lackRequired c.head t.levelName) _ (fun _ _ => rfl)]
    cases List.find? _ Command.all <;> rfl

theorem holds_of_lines {t t' : LineTree CommandLine} (h : t'.lines = t.lines) (s : Speciality) :
    t'.holds s = t.holds s := by
  simp [holds, h]

theorem strip_eq (t : LineTree CommandLine) : t.strip = t ∨ t.strip = { t with children := [] } := by
  unfold strip
  split
  · exact .inr rfl
  · exact .inl rfl

@[simp] theorem strip_lines (t : LineTree CommandLine) : t.strip.lines = t.lines := by
  rcases t.strip_eq with h | h <;> rw [h]

@[simp] theorem strip_level (t : LineTree CommandLine) : t.strip.level = t.level := by
  rcases t.strip_eq with h | h <;> rw [h]

@[simp] theorem strip_line (t : LineTree CommandLine) : t.strip.line = t.line := by
  rcases t.strip_eq with h | h <;> rw [h]

@[simp] theorem strip_uniqueLines (t : LineTree CommandLine) : t.strip.uniqueLines = t.uniqueLines := by
  rcases t.strip_eq with h | h <;> rw [h]

theorem holds_special_lines {t : LineTree CommandLine} (h : t.holds .special = true) : t.lines ≠ [] := by
  intro hl
  simp [holds, hl] at h

/-- A node that is neither empty nor mixed, and lacks no required command, is kept as the check
strips it. -/
theorem kept_strip {t : LineTree CommandLine} (he : t.isEmpty = false)
    (hm : ¬ (t.holds .special = true ∧ t.holds .normal = true)) (hmiss : t.missing = none) :
    t.strip.Kept where
  nonempty := by
    unfold strip
    split
    · rename_i hs
      simp only [Bool.and_eq_true] at hs
      exact .inl (holds_special_lines hs.1)
    · rcases Bool.and_eq_false_iff.1 he with h | h
      · exact .inl (by simpa using h)
      · exact .inr (by simpa using h)
  unmixed := by
    rw [holds_of_lines t.strip_lines, holds_of_lines t.strip_lines]
    exact hm
  text_leaf := by
    rw [holds_of_lines t.strip_lines]
    intro hs
    unfold strip
    split
    · rfl
    · rename_i hc
      simpa [hs] using hc
  required := by
    intro c hc hreq hlev
    have hnone := List.find?_eq_none.1 hmiss c hc
    rw [strip_level] at hlev
    rw [strip_uniqueLines]
    cases hl : t.uniqueLines.lookup c.head with
    | some _ => rfl
    | none => simp [hreq, hlev, hl] at hnone

/-- What the check keeps is the node itself, or a text node without its children, and below the
document it is a node the check asks for. -/
theorem check_some {t t' : LineTree CommandLine} {j j' : Journal}
    (h : (check t).run j = (some t', j')) :
    (t' = t ∨ t' = { t with children := [] }) ∧ (t.level ≠ 0 → t'.Kept) := by
  rw [check_run] at h
  by_cases h0 : t.level = 0
  · simp only [h0, if_true] at h
    cases h
    exact ⟨.inl rfl, fun h' => absurd h0 h'⟩
  simp only [h0, if_false] at h
  by_cases he : t.isEmpty = true
  · simp only [he, if_true] at h
    cases h
  by_cases hm : (t.holds .special && t.holds .normal) = true
  · simp only [he, hm, if_true, if_false, Bool.false_eq_true] at h
    cases h
  simp only [he, hm, Bool.false_eq_true, if_false] at h
  cases hmiss : t.missing with
  | some c =>
    simp only [hmiss] at h
    cases h
  | none =>
    simp only [hmiss] at h
    cases h
    exact ⟨t.strip_eq, fun _ => kept_strip (by simpa using he) (by simpa using hm) hmiss⟩

abbrev Losses := List (Issue × List (LineTree CommandLine))

def lossLines (ls : Losses) : List CommandLine := ls.flatMap fun e => forestLines e.2

@[simp] theorem lossLines_nil : lossLines [] = [] := rfl

@[simp] theorem lossLines_append (ls ls' : Losses) :
    lossLines (ls ++ ls') = lossLines ls ++ lossLines ls' := by
  simp [lossLines]

@[simp] theorem lossLines_cons (e : Issue × List (LineTree CommandLine)) (ls : Losses) :
    lossLines (e :: ls) = forestLines e.2 ++ lossLines ls := rfl

/-- The issues a check raises for the lines it drops: the lines of the node are the lines it keeps
and those of the trees it drops, each dropped tree with an issue of its own among those raised. -/
theorem check_accounts {t : LineTree CommandLine} {r : Option (LineTree CommandLine)} {j j' : Journal}
    (h : (check t).run j = (r, j')) :
    ∃ δ : List Issue, ∃ ls : Losses, j'.issues.toList = j.issues.toList ++ δ ∧
      (ls.map Prod.fst).Sublist δ ∧ (∀ e ∈ ls, Dropped e.1 e.2) ∧
      t.allLines.Perm ((r.map allLines).getD [] ++ lossLines ls) := by
  rw [check_run] at h
  by_cases h0 : t.level = 0
  · -- the document node is kept
    simp only [h0, if_true] at h
    cases h
    exact ⟨[], [], by simp, by simp, by simp, by simp⟩
  simp only [h0, if_false] at h
  by_cases he : t.isEmpty = true
  · -- an empty node holds no lines
    simp only [he, if_true] at h
    cases h
    have hlines : t.allLines = [] := by
      simp only [isEmpty, Bool.and_eq_true, List.isEmpty_iff] at he
      rw [allLines_eq, he.1, he.2]
      rfl
    refine ⟨if t.pruned then [] else [t.emptyIssue], [], ?_, by simp, by simp, by simp [hlines]⟩
    split <;> simp
  by_cases hm : (t.holds .special && t.holds .normal) = true
  · -- a node mixing text and music is dropped whole
    simp only [he, hm, if_true, if_false, Bool.false_eq_true] at h
    cases h
    refine ⟨[t.mixedIssue], [(t.mixedIssue, [t])], by simp, by simp, ?_, by simp⟩
    simp only [List.mem_singleton, forall_eq]
    exact ⟨t, .inl ⟨rfl, .inl rfl⟩⟩
  simp only [he, hm, Bool.false_eq_true, if_false] at h
  -- a text node drops its children, then the node is kept or dropped for what it lacks
  have hstrip : t.allLines.Perm (t.strip.allLines ++
      if t.holds .special && !t.children.isEmpty then forestLines t.children else []) := by
    unfold strip
    split
    · rw [allLines_eq, allLines_eq]
      simp
    · simp
  -- the children a text node drops, with the warning raised for them
  have htext : ∃ δ₁ : List Issue, ∃ ls₁ : Losses,
      (if (t.holds .special && !t.children.isEmpty) = true then j.push t.textIssue else j).issues.toList =
        j.issues.toList ++ δ₁ ∧ (ls₁.map Prod.fst).Sublist δ₁ ∧ (∀ e ∈ ls₁, Dropped e.1 e.2) ∧
      lossLines ls₁ = if (t.holds .special && !t.children.isEmpty) = true then forestLines t.children else [] := by
    by_cases hc : (t.holds .special && !t.children.isEmpty) = true
    · refine ⟨[t.textIssue], [(t.textIssue, t.children)], by simp [hc], by simp, ?_, by simp [hc]⟩
      simp only [List.mem_singleton, forall_eq]
      exact ⟨t, .inr ⟨rfl, rfl⟩⟩
    · exact ⟨[], [], by simp [hc], by simp, by simp, by simp [hc]⟩
  obtain ⟨δ₁, ls₁, hj₁, hsub₁, hdrop₁, hlines₁⟩ := htext
  cases hmiss : t.missing with
  | some c =>
    -- the node lacks a required command and is dropped after its children
    simp only [hmiss] at h
    cases h
    refine ⟨δ₁ ++ [t.lackIssue c], ls₁ ++ [(t.lackIssue c, [t.strip])], ?_, ?_, ?_, ?_⟩
    · rw [Journal.push_issues, hj₁, List.append_assoc]
    · simpa using hsub₁.append (List.Sublist.refl [t.lackIssue c])
    · intro e he
      rcases List.mem_append.1 he with he | he
      · exact hdrop₁ e he
      · rw [List.mem_singleton] at he
        subst he
        exact ⟨t.strip, .inl ⟨rfl, .inr ⟨c, by simp [lackIssue, LineTree.levelName]⟩⟩⟩
    · rw [← hlines₁] at hstrip
      simpa using hstrip.trans List.perm_append_comm
  | none =>
    simp only [hmiss] at h
    cases h
    refine ⟨δ₁, ls₁, hj₁, hsub₁, hdrop₁, ?_⟩
    rw [← hlines₁] at hstrip
    simpa using hstrip

end LineTree

end Jianpu
