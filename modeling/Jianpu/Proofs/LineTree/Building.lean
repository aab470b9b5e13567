import Mathlib
import Jianpu.Proofs.LineTree.Placing
/-!
# What the builder makes of a list of score lines

The builder keeps a stack of frames, top first, one per open level down to the document. This
file carries one invariant, `Placing`, through every step of `LineTree.build`:

* `Chain`  the levels of the stack rise one at a time from the document at the bottom;
* every frame is sound (`Frame.Sound`), and the document has finished no node;
* `Drops`  the command lines read so far are those held in the stack, those rejected as a
  second unique command of the document, which still holds the first, and those of the trees
  dropped, each rejection and each drop with its own issue.

`Placing.pop`, `Placing.push`, `Placing.retop` and `Placing.place` are the steps; `Placing.popTo`,
`Placing.moveTo` and `Placing.fold` the runs. `build_placed` reads the result off the last
stack. The level a command line goes to is one of its command's levels because the levels of
every command are consecutive (`Command.nearestLevel_mem_levels`); the delimiters the classifier
reads open articles and fragments (`ScoreLine.classify_placeable`), so the statements hold of the
lines of every text.

Main statements: `build_shaped` and `build_accounts`.
-/

namespace Jianpu

namespace Command

theorem minLevel_le_maxLevel (c : Command) : c.minLevel ≤ c.maxLevel := by
  cases c <;> decide

theorem maxLevel_le (c : Command) : c.maxLevel ≤ 4 := by
  cases c <;> decide

theorem mem_levels {c : Command} {level : Nat} :
    level ∈ c.levels ↔ c.minLevel ≤ level ∧ level ≤ c.maxLevel := by
  simp only [levels, List.mem_map, List.mem_range]
  constructor
  · rintro ⟨i, hi, rfl⟩
    omega
  · rintro ⟨hlo, hhi⟩
    exact ⟨level - c.minLevel, by omega, by omega⟩

theorem nearestLevel_mem_levels (c : Command) (level : Nat) : c.nearestLevel level ∈ c.levels := by
  have := c.minLevel_le_maxLevel
  rw [mem_levels, nearestLevel]
  omega

theorem nearestLevel_le (c : Command) (level : Nat) : c.nearestLevel level ≤ 4 := by
  have := c.minLevel_le_maxLevel
  have := c.maxLevel_le
  rw [nearestLevel]
  omega

end Command

namespace ScoreLine

/-- A score line the builder can place: a delimiter opens a level below the document and no
deeper than a lyric line, as `=` and `-` do. -/
def Placeable : ScoreLine → Prop
  | .delimiter _ level => 0 < level ∧ level ≤ 4
  | .command _ => True

/-- The command lines among score lines, in order. -/
def commands (lines : List ScoreLine) : List CommandLine :=
  lines.filterMap fun
    | .command c => some c
    | .delimiter .. => none

@[simp] theorem commands_nil : commands [] = [] := rfl

theorem commands_cons (l : ScoreLine) (lines : List ScoreLine) :
    commands (l :: lines) = commands [l] ++ commands lines := by
  cases l <;> rfl

theorem delimiterRun_level {meaningful : List Token} {level : Nat}
    (h : delimiterRun meaningful = some level) : 0 < level ∧ level ≤ 4 := by
  unfold delimiterRun at h
  split at h
  · cases h
  · split at h
    · rename_i c _
      split at h
      · cases h
      · obtain ⟨hl, -⟩ := Option.filter_eq_some_iff.1 h
        revert hl
        unfold delimiterLevel
        split <;> intro hl <;> cases hl <;> decide
    · cases h

/-- Every line `ofTokens` reads can be placed: a delimiter opens an article or a fragment. -/
theorem ofTokens_placeable {line : Nat} {lineText : String} {tokens : List Token} {j : Journal}
    {s : ScoreLine} (h : ((ofTokens line lineText tokens).run j).1 = some s) : s.Placeable := by
  cases s with
  | command c => trivial
  | delimiter l level =>
    unfold ofTokens at h
    dsimp only at h
    split at h
    · simp at h
    · -- only a run of delimiter symbols gives a delimiter; the other branches give a command line
      split at h
      · rename_i hd
        simp at h
        obtain ⟨rfl, rfl⟩ := h
        exact delimiterRun_level hd
      · split at h
        · simp [warn, raise] at h
        · split at h
          · simp [warn, raise] at h
          · simp only [StateT.run_bind] at h
            dsimp only [bind, pure] at h
            cases h

theorem forIn_keeps {α σ : Type} (P : σ → Prop) (f : α → σ → Compiling (ForInStep σ)) :
    ∀ (l : List α), (∀ a ∈ l, ∀ b j, P b → P ((f a b).run j).1.value) →
      ∀ (b : σ) (j : Journal), P b → P ((forIn l b f).run j).1
  | [], _, _, _, hb => hb
  | a :: l, hf, b, j, hb => by
    rw [List.forIn_cons, StateT.run_bind]
    dsimp only [bind]
    have hstep := hf a List.mem_cons_self b j hb
    generalize (f a b).run j = r at hstep
    obtain ⟨r, j'⟩ := r
    cases r with
    | done b' => exact hstep
    | yield b' =>
      exact forIn_keeps P f l (fun x hx => hf x (List.mem_cons_of_mem _ hx)) b' j' hstep

/-- The classifier reads only lines the builder can place. -/
theorem classify_placeable (text : String) (j : Journal) :
    ∀ l ∈ ((classify text).run j).1, l.Placeable := by
  unfold classify
  simp only [StateT.run_bind]
  intro l hl
  -- every line the loop keeps was read by `ofTokens`
  refine forIn_keeps (fun out : Array ScoreLine => ∀ s ∈ out, s.Placeable) _ _
    (fun line _ out j' hout => ?_) #[] j (by simp) l (Array.mem_toList_iff.1 hl)
  simp only [StateT.run_bind, StateT.run_modify]
  dsimp only [bind]
  generalize hr : (ofTokens line.line line.text (Token.scan line.line line.text).1.toList).run _ = r
  obtain ⟨r, j''⟩ := r
  cases r with
  | none => exact hout
  | some s =>
    intro x hx
    rcases Array.mem_push.1 hx with hx | rfl
    · exact hout x hx
    · exact ofTokens_placeable (by rw [hr])

end ScoreLine

namespace LineTree

def topLevel : List Frame → Nat
  | f :: _ => f.level
  | [] => 0

/-- The levels of a stack rise one at a time from the document at the bottom. -/
def Chain : List Frame → Prop
  | [] => False
  | [f] => f.level = 0
  | f :: g :: rest => f.level = g.level + 1 ∧ Chain (g :: rest)

theorem Chain.of_level {f f' : Frame} {rest : List Frame} (h : Chain (f :: rest))
    (hl : f'.level = f.level) : Chain (f' :: rest) := by
  cases rest with
  | nil => simpa [Chain, hl] using h
  | cons g rest =>
    simp only [Chain] at h ⊢
    exact ⟨hl.trans h.1, h.2⟩

theorem Chain.eq_single {f : Frame} {rest : List Frame} (h : Chain (f :: rest)) (h0 : f.level = 0) :
    rest = [] := by
  cases rest with
  | nil => rfl
  | cons g rest =>
    simp only [Chain] at h
    omega

def stackLines (s : List Frame) : List CommandLine := s.flatMap Frame.lines

@[simp] theorem stackLines_nil : stackLines [] = [] := rfl

@[simp] theorem stackLines_cons (f : Frame) (s : List Frame) :
    stackLines (f :: s) = f.lines ++ stackLines s := rfl

/-- What holds of the stack and the journal after the command lines `seen`, the journal having
held `before` at the start. -/
structure Placing (before : List Issue) (seen : List CommandLine) (p : List Frame × Journal) :
    Prop where
  chain : Chain p.1
  sound : ∀ f ∈ p.1, f.Sound seen
  document : ∀ f ∈ p.1, f.level = 0 → f.done = []
  ledger : ∃ δ rejected, p.2.issues.toList = before ++ δ ∧
    Drops seen (stackLines p.1 ++ rejected) δ ∧ (rejected.map duplicateIssue).Sublist δ ∧
    ∀ c ∈ rejected, ∃ f ∈ p.1, f.level = 0 ∧ f.Holds c.command.head

variable {before : List Issue} {seen : List CommandLine}

theorem Placing.init (j : Journal) :
    Placing j.issues.toList [] ([⟨0, 0, none, [], false⟩], j) where
  chain := rfl
  sound := by
    simp only [List.mem_singleton, forall_eq]
    exact ⟨by decide, by simp, by simp, by simp [Frame.trees]⟩
  document := by simp
  ledger := ⟨[], [], by simp, by simpa [Frame.lines, Frame.trees] using Drops.refl [], by simp,
    by simp⟩

/-- Closing the top frame into the one below keeps the invariant. -/
theorem Placing.pop {top below : Frame} {rest : List Frame} {j : Journal}
    (h : Placing before seen (top :: below :: rest, j)) :
    Placing before seen (below.attach (top.finish.run j).1 :: rest, (top.finish.run j).2) := by
  obtain ⟨hch, hs, hdoc, δ, rej, hj, hd, hdup, hheld⟩ := h
  obtain ⟨δ₁, hj₁, hd₁⟩ := top.finish_drops j
  simp only [Chain] at hch
  have hb : below.Sound seen := hs below (by simp)
  have ht : top.Sound seen := hs top (by simp)
  -- the lines of the closed frame now stand in the node below
  have hmove : Drops (stackLines (top :: below :: rest) ++ rej)
      (stackLines (below.attach (top.finish.run j).1 :: rest) ++ rej) δ₁ := by
    simp only [stackLines_cons, List.append_assoc]
    refine (hd₁.append_right _).perm_right ?_
    rw [← List.append_assoc]
    exact (List.perm_append_comm.trans (Frame.attach_lines (by simp)).symm).append_right _
  refine ⟨hch.2.of_level (by simp), ?_, ?_, δ ++ δ₁, rej, by rw [hj₁, hj, List.append_assoc],
    hd.trans hmove, hdup.trans (List.sublist_append_left _ _), ?_⟩
  · intro f hf
    rcases List.mem_cons.1 hf with rfl | hf
    · exact hb.attach (ht.finish j) (by simp) (by simp [hch.1])
    · exact hs f (by simp [hf])
  · intro f hf h0
    rcases List.mem_cons.1 hf with rfl | hf
    · exact hdoc below (by simp) (by simpa using h0)
    · exact hdoc f (by simp [hf]) h0
  · intro c hc
    obtain ⟨f, hf, h0, hh⟩ := hheld c hc
    simp only [List.mem_cons] at hf
    rcases hf with rfl | rfl | hf
    · omega
    · exact ⟨_, List.mem_cons_self, by simpa using h0, hh.attach _⟩
    · exact ⟨f, List.mem_cons_of_mem _ hf, h0, hh⟩

theorem popTo_run_cons_cons (goal : Nat) (top below : Frame) (rest : List Frame) (j : Journal) :
    (popTo goal (top :: below :: rest)).run j =
      if top.level > goal then
        (popTo goal (below.attach (top.finish.run j).1 :: rest)).run (top.finish.run j).2
      else (top :: below :: rest, j) := by
  rw [popTo.eq_1]
  split <;> rfl

/-- Closing levels down to `goal` keeps the invariant, and leaves the top at `goal` or below it
where it was. -/
theorem Placing.popTo (goal : Nat) (s : List Frame) :
    ∀ {j : Journal}, Placing before seen (s, j) →
      Placing before seen ((LineTree.popTo goal s).run j) ∧
        topLevel ((LineTree.popTo goal s).run j).1 = min (topLevel s) goal := by
  induction s using LineTree.popTo.induct goal with
  | case1 top below rest hgt ih =>
    intro j h
    have hch := h.chain
    simp only [Chain] at hch
    rw [popTo_run_cons_cons, if_pos hgt]
    -- the induction hypothesis speaks of the frame below with the closed one attached
    have ih' : ∀ {j' : Journal}, Placing before seen (below.attach (top.finish.run j).1 :: rest, j') →
        Placing before seen ((LineTree.popTo goal (below.attach (top.finish.run j).1 :: rest)).run j') ∧
          topLevel ((LineTree.popTo goal (below.attach (top.finish.run j).1 :: rest)).run j').1 =
            min (topLevel (below.attach (top.finish.run j).1 :: rest)) goal :=
      ih (top.finish.run j).1
    obtain ⟨h', hlev⟩ := ih' h.pop
    refine ⟨h', ?_⟩
    rw [hlev]
    simp only [topLevel, Frame.attach_level]
    omega
  | case2 top below rest hle =>
    intro j h
    rw [popTo_run_cons_cons, if_neg hle]
    refine ⟨h, ?_⟩
    simp only [topLevel]
    omega
  | case3 s hs =>
    intro j h
    have hch := h.chain
    -- a stack of one frame is the document, at level 0
    rcases s with _ | ⟨f, _ | ⟨g, rest⟩⟩
    · exact hch.elim
    · rw [LineTree.popTo.eq_def]
      refine ⟨h, ?_⟩
      simp only [Chain] at hch
      show f.level = min f.level goal
      omega
    · exact (hs f g rest rfl).elim

theorem Chain.exists_cons {s : List Frame} (h : Chain s) : ∃ f rest, s = f :: rest := by
  cases s with
  | nil => exact h.elim
  | cons f rest => exact ⟨f, rest, rfl⟩

theorem Placing.push {s : List Frame} {j : Journal} (h : Placing before seen (s, j)) (line : Nat)
    (hle : topLevel s + 1 ≤ 4) : Placing before seen (⟨topLevel s + 1, line, none, [], false⟩ :: s, j) := by
  obtain ⟨hch, hs, hdoc, δ, rej, hj, hd, hdup, hheld⟩ := h
  obtain ⟨f, rest, rfl⟩ := Chain.exists_cons hch
  have hempty : ∀ k, Frame.lines ⟨k, line, none, [], false⟩ = [] := fun _ => rfl
  refine ⟨⟨rfl, hch⟩, ?_, ?_, δ, rej, hj, by simpa [hempty] using hd, hdup, ?_⟩
  · intro g hg
    rcases List.mem_cons.1 hg with rfl | hg
    · exact ⟨hle, by simp, by simp, by simp [Frame.trees]⟩
    · exact hs g hg
  · intro g hg h0
    rcases List.mem_cons.1 hg with rfl | hg
    · simp at h0
    · exact hdoc g hg h0
  · intro c hc
    obtain ⟨g, hg, h0, hh⟩ := hheld c hc
    exact ⟨g, List.mem_cons_of_mem _ hg, h0, hh⟩

theorem pushLevels_succ_cons (line n : Nat) (f : Frame) (rest : List Frame) :
    pushLevels line (n + 1) (f :: rest) =
      pushLevels line n (⟨topLevel (f :: rest) + 1, line, none, [], false⟩ :: f :: rest) := rfl

theorem Placing.pushLevels (line : Nat) {j : Journal} :
    ∀ (n : Nat) {s : List Frame}, Placing before seen (s, j) → topLevel s + n ≤ 4 →
      Placing before seen (LineTree.pushLevels line n s, j) ∧
        topLevel (LineTree.pushLevels line n s) = topLevel s + n
  | 0, _, h, _ => ⟨h, rfl⟩
  | n + 1, _, h, hle => by
    obtain ⟨f, rest, rfl⟩ := Chain.exists_cons h.chain
    rw [pushLevels_succ_cons]
    obtain ⟨h', hlev⟩ := Placing.pushLevels line n (h.push line (by simp only [topLevel] at hle ⊢; omega))
      (by simp only [topLevel] at hle ⊢; omega)
    refine ⟨h', ?_⟩
    rw [hlev]
    simp only [topLevel]
    omega

theorem moveTo_run (goal line : Nat) (s : List Frame) (j : Journal) :
    (moveTo goal line s).run j =
      (LineTree.pushLevels line (goal - topLevel ((LineTree.popTo goal s).run j).1)
        ((LineTree.popTo goal s).run j).1, ((LineTree.popTo goal s).run j).2) := rfl

theorem Placing.moveTo {s : List Frame} {j : Journal} (h : Placing before seen (s, j))
    (goal line : Nat) (hg : goal ≤ 4) :
    Placing before seen ((LineTree.moveTo goal line s).run j) ∧
      topLevel ((LineTree.moveTo goal line s).run j).1 = goal := by
  obtain ⟨h', hlev⟩ := Placing.popTo goal s h
  rw [moveTo_run]
  generalize (LineTree.popTo goal s).run j = r at h' hlev ⊢
  obtain ⟨h'', hlev'⟩ := Placing.pushLevels line (goal - topLevel r.1) h' (by omega)
  exact ⟨h'', by rw [hlev']; omega⟩

theorem Frame.Sound.open {f : Frame} (h : f.Sound seen) (hc : f.current = none) (line : Nat) :
    ({ f with current := some (empty line f.level) } : Frame).Sound seen := by
  refine ⟨h.level_le, ?_, h.done, ?_⟩
  · simp only [Option.mem_def, Option.some.injEq, forall_eq']
    exact ⟨rfl, built_empty h.level_le⟩
  · intro t ht
    simp only [Frame.trees, Option.toList_some, List.singleton_append, List.mem_cons] at ht
    rcases ht with rfl | ht
    · exact inOrder_empty
    · exact h.ordered t (by simp [Frame.trees, hc, ht])

/-- Replacing the top frame by `g` after reading the command lines `read` keeps the invariant:
`g` stands at the top's level and is sound, finishes no node at the document and holds what the
top held there, and holds the top's lines and `read` but for trees dropped with issues the
journal gained. -/
theorem Placing.retop {top g : Frame} {rest : List Frame} {j j' : Journal} (read : List CommandLine)
    {δ' : List Issue} (h : Placing before seen (top :: rest, j)) (hlevel : g.level = top.level)
    (hsound : g.Sound (seen ++ read)) (hdone : top.level = 0 → g.done = top.done)
    (hheld : ∀ x, top.level = 0 → top.Holds x → g.Holds x)
    (hj : j'.issues.toList = j.issues.toList ++ δ') (hd : Drops (top.lines ++ read) g.lines δ') :
    Placing before (seen ++ read) (g :: rest, j') := by
  obtain ⟨hch, hs, hdoc, δ, rej, hj₀, hd₀, hdup, hheld₀⟩ := h
  have hread : seen.Sublist (seen ++ read) := List.sublist_append_left _ _
  refine ⟨hch.of_level hlevel, ?_, ?_, δ ++ δ', rej, by rw [hj, hj₀, List.append_assoc], ?_,
    hdup.trans (List.sublist_append_left _ _), ?_⟩
  · intro f hf
    rcases List.mem_cons.1 hf with rfl | hf
    · exact hsound
    · exact (hs f (List.mem_cons_of_mem _ hf)).mono hread
  · intro f hf hf0
    rcases List.mem_cons.1 hf with rfl | hf
    · have h0 : top.level = 0 := hlevel ▸ hf0
      rw [hdone h0]
      exact hdoc _ List.mem_cons_self h0
    · exact hdoc f (List.mem_cons_of_mem _ hf) hf0
  · -- the lines read join those of the top, which become those of `g`
    have hperm : (stackLines (top :: rest) ++ rej ++ read).Perm
        (top.lines ++ read ++ (stackLines rest ++ rej)) := by
      simp only [stackLines_cons, List.append_assoc]
      refine List.Perm.append_left _ ?_
      rw [← List.append_assoc]
      exact List.perm_append_comm
    simpa only [stackLines_cons, List.append_assoc] using
      ((hd₀.append_right read).perm_right hperm).trans (hd.append_right (stackLines rest ++ rej))
  · intro c hc
    obtain ⟨f, hf, hf0, hh⟩ := hheld₀ c hc
    rcases List.mem_cons.1 hf with rfl | hf
    · exact ⟨g, List.mem_cons_self, hlevel ▸ hf0, hheld _ hf0 hh⟩
    · exact ⟨f, List.mem_cons_of_mem _ hf, hf0, hh⟩

theorem Placing.finishTop {top : Frame} {rest : List Frame} {j : Journal}
    (h : Placing before seen (top :: rest, j)) (h0 : top.level ≠ 0) :
    Placing before seen ((top.finish.run j).1 :: rest, (top.finish.run j).2) := by
  obtain ⟨δ₁, hj₁, hd₁⟩ := top.finish_drops j
  have hs := (h.sound top List.mem_cons_self).finish j
  have h' : Placing before (seen ++ []) ((top.finish.run j).1 :: rest, (top.finish.run j).2) :=
    h.retop [] (by simp) (by rwa [List.append_nil]) (fun h0' => absurd h0' h0)
      (fun _ h0' _ => absurd h0' h0) hj₁ (by rwa [List.append_nil])
  rwa [List.append_nil] at h'

theorem Placing.openTop {top : Frame} {rest : List Frame} {j : Journal}
    (h : Placing before seen (top :: rest, j)) (hc : top.current = none) (line : Nat) :
    Placing before seen ({ top with current := some (empty line top.level) } :: rest, j) := by
  have hlines : Frame.lines { top with current := some (empty line top.level) } = top.lines := by
    simp [Frame.lines_eq, hc]
  have hs := (h.sound top List.mem_cons_self).open hc line
  -- a top that fills no node holds no command
  have hnone : ∀ x, ¬ top.Holds x := by
    rintro x ⟨t, ht, -⟩
    simp [hc] at ht
  have h' : Placing before (seen ++ [])
      ({ top with current := some (empty line top.level) } :: rest, j) :=
    h.retop [] rfl (by rwa [List.append_nil]) (fun _ => rfl)
      (fun x _ hh => absurd hh (hnone x)) (List.append_nil _).symm
      (by simpa [hlines] using Drops.refl top.lines)
  rwa [List.append_nil] at h'

/-- Adding a command line to the top frame, at a level its command may stand at, keeps the
invariant with the line read. -/
theorem Placing.accept {top : Frame} {rest : List Frame} {j : Journal}
    (h : Placing before seen (top :: rest, j)) {c : CommandLine} (hl : top.level ∈ c.command.levels) :
    Placing before (seen ++ [c]) (((top.accept c).run j).1 :: rest, ((top.accept c).run j).2) := by
  obtain ⟨δ₁, hj₁, hcase⟩ := @Frame.accept_cases seen top c j
  rcases hcase with ⟨h0, hcl, htop, hsub⟩ | ⟨g, hg, hcl, hlev, hg0, hsound, hd₁⟩
  · -- a second unique command of the document is rejected
    obtain ⟨hch, hs, hdoc, δ, rej, hj, hd, hdup, hheld⟩ := h
    rw [htop]
    refine ⟨hch, fun f hf => (hs f hf).mono (List.sublist_append_left _ _), hdoc, δ ++ δ₁,
      rej ++ [c], by rw [hj₁, hj, List.append_assoc], ?_, ?_, ?_⟩
    · simpa only [List.append_assoc] using
        (hd.append_right [c]).mono (List.sublist_append_left _ δ₁)
    · rw [List.map_append]
      exact hdup.append hsub
    · intro c' hc'
      rcases List.mem_append.1 hc' with hc' | hc'
      · exact hheld c' hc'
      · rw [List.mem_singleton] at hc'
        subst hc'
        exact ⟨top, List.mem_cons_self, h0, Frame.holds_of_clash hcl⟩
  · -- the line joins the node of `g`, the top itself at the document
    rw [hg]
    have hgs : g.Sound seen := hsound (h.sound top List.mem_cons_self)
    refine h.retop [c] (by simp [hlev]) (hgs.add (by rwa [hlev]) hcl)
      (fun h0 => by rw [Frame.add_done, hg0 h0]) (fun x h0 hh => ?_) hj₁
      ((hd₁.append_right [c]).perm_right (Frame.add_lines g c).symm)
    rw [hg0 h0]
    exact hh.add c

/-- Placing one score line keeps the invariant, with its command line read if it is one. -/
theorem Placing.place {s : List Frame} {j : Journal} (h : Placing before seen (s, j)) (l : ScoreLine)
    (hl : l.Placeable) : Placing before (seen ++ ScoreLine.commands [l]) ((LineTree.place s l).run j) := by
  cases l with
  | delimiter line level =>
    obtain ⟨h', hlev⟩ := h.moveTo level line hl.2
    rw [LineTree.place, StateT.run_bind]
    generalize (LineTree.moveTo level line s).run j = r at h' hlev ⊢
    obtain ⟨stk, j'⟩ := r
    obtain ⟨top, rest, rfl⟩ := Chain.exists_cons h'.chain
    simp only [topLevel] at hlev
    -- the top frame, at the delimiter's level, closes its node and opens an empty one
    have h₁ := h'.finishTop (by have := hl.1; omega)
    have h₂ := h₁.openTop (Frame.finish_current top j') line
    have hseen : seen ++ ScoreLine.commands [.delimiter line level] = seen := by
      simp [ScoreLine.commands]
    have hopen : (top.finish.run j').1.level = level := by rw [Frame.finish_level, hlev]
    rw [hseen, ← hopen]
    exact h₂
  | command c =>
    obtain ⟨f, stack, rfl⟩ := Chain.exists_cons h.chain
    have hgoal := c.command.nearestLevel_le f.level
    obtain ⟨h', hlev⟩ := h.moveTo _ c.line hgoal
    rw [LineTree.place.eq_2, StateT.run_bind]
    generalize (LineTree.moveTo (c.command.nearestLevel f.level) c.line (f :: stack)).run j = r at h' hlev ⊢
    obtain ⟨stk, j'⟩ := r
    obtain ⟨top, rest, rfl⟩ := Chain.exists_cons h'.chain
    simp only [topLevel] at hlev
    -- the line joins the top frame, at the level of its command nearest the old top
    have hmem : top.level ∈ c.command.levels := by
      rw [hlev]
      exact c.command.nearestLevel_mem_levels _
    exact h'.accept hmem

theorem Placing.fold : ∀ (lines : List ScoreLine) {seen : List CommandLine} {s : List Frame}
    {j : Journal}, Placing before seen (s, j) → (∀ l ∈ lines, l.Placeable) →
      Placing before (seen ++ ScoreLine.commands lines) ((lines.foldlM LineTree.place s).run j)
  | [], _, _, _, h, _ => by
    rw [ScoreLine.commands_nil, List.append_nil]
    exact h
  | l :: ls, _, _, _, h, hl => by
    have h₁ := h.place l (hl l List.mem_cons_self)
    rw [ScoreLine.commands_cons, ← List.append_assoc]
    exact Placing.fold ls h₁ fun l' hl' => hl l' (List.mem_cons_of_mem _ hl')

/-- What the builder returns after the lines `seen`, the journal having held `before`: a document
node with finished children that holds its lines in order, and every line read stands in it, was
rejected as a unique command the document holds, or was dropped, each time with an issue. -/
def Placed (before : List Issue) (seen : List CommandLine) (r : LineTree CommandLine × Journal) :
    Prop :=
  r.1.level = 0 ∧ r.1.Built ∧ InOrder seen r.1 ∧
    ∃ δ rejected, r.2.issues.toList = before ++ δ ∧ Drops seen (r.1.allLines ++ rejected) δ ∧
      (rejected.map duplicateIssue).Sublist δ ∧
      ∀ c ∈ rejected, (r.1.uniqueLines.lookup c.command.head).isSome = true

/-- The document closed at the end is what the builder returns. -/
theorem Placing.close {bottom : Frame} {j : Journal} (h : Placing before seen ([bottom], j)) :
    Placed before seen ((bottom.finish.run j).1.done.getLast?.getD (empty 0 0),
      (bottom.finish.run j).2) := by
  obtain ⟨hch, hs, hdoc, δ, rej, hj, hd, hdup, hheld⟩ := h
  have h0 : bottom.level = 0 := hch
  have hb : bottom.Sound seen := hs bottom List.mem_cons_self
  have hdone : bottom.done = [] := hdoc bottom List.mem_cons_self h0
  have hheld' : ∀ c ∈ rej, bottom.Holds c.command.head := by
    intro c hc
    obtain ⟨f, hf, -, hh⟩ := hheld c hc
    rw [List.mem_singleton] at hf
    exact hf ▸ hh
  rw [Frame.finish_run]
  cases hc : bottom.current with
  | none =>
    show Placed before seen (bottom.done.getLast?.getD (empty 0 0), j)
    rw [hdone]
    -- nothing was placed in the document, and nothing rejected
    have hrej : rej = [] := List.eq_nil_iff_forall_not_mem.2 fun c hc' => by
      obtain ⟨t, ht, -⟩ := hheld' c hc'
      simp [hc] at ht
    subst hrej
    refine ⟨rfl, built_empty (by decide), inOrder_empty, δ, [], hj, ?_, hdup, by simp⟩
    simpa [Frame.lines_eq, hc, hdone] using hd
  | some t =>
    -- the check keeps the document as it is
    obtain ⟨hlev, hbuilt⟩ := hb.current t hc
    show Placed before seen
      ((bottom.done ++ ((check t).run j).1.toList).getLast?.getD (empty 0 0), ((check t).run j).2)
    rw [check_run, if_pos (hlev.trans h0), hdone]
    refine ⟨hlev.trans h0, by simpa [hdone] using hbuilt,
      by simpa [hdone] using hb.ordered t (by simp [Frame.trees, hc]), δ, rej, hj, ?_, hdup, ?_⟩
    · simpa [Frame.lines_eq, hc, hdone] using hd
    · intro c hc'
      obtain ⟨t', ht', hl⟩ := hheld' c hc'
      rw [hc, Option.mem_def, Option.some.injEq] at ht'
      subst ht'
      simpa [hdone] using hl

theorem build_placed (lines : List ScoreLine) (hl : ∀ l ∈ lines, l.Placeable) (j : Journal) :
    Placed j.issues.toList (ScoreLine.commands lines) ((build lines).run j) := by
  have h₀ := (Placing.init j).fold lines hl
  rw [List.nil_append] at h₀
  unfold build
  simp only [StateT.run_bind]
  dsimp only [bind]
  generalize (lines.foldlM place [⟨0, 0, none, [], false⟩]).run j = r₀ at h₀ ⊢
  obtain ⟨h₁, hlev⟩ := Placing.popTo 0 _ h₀
  generalize (popTo 0 r₀.1).run r₀.2 = r at h₁ hlev ⊢
  obtain ⟨stk, j'⟩ := r
  obtain ⟨bottom, rest, rfl⟩ := Chain.exists_cons h₁.chain
  -- closed down to the document, the stack is the document alone
  obtain rfl : rest = [] := h₁.chain.eq_single (by simpa [topLevel] using hlev)
  exact h₁.close

/-! ## The built tree -/

/-- The builder returns a document node, every node of its tree is shaped, and every node below
the document is one the check keeps. -/
theorem build_shaped (lines : List ScoreLine) (hl : ∀ l ∈ lines, l.Placeable) (j : Journal) :
    let root := ((build lines).run j).1
    root.level = 0 ∧ (∀ n ∈ root.nodes, n.Shaped) ∧ ∀ n ∈ forestNodes root.children, n.Kept := by
  obtain ⟨h0, hb, -, -⟩ := build_placed lines hl j
  refine ⟨h0, ?_, ?_⟩
  · intro n hn
    rw [nodes_eq] at hn
    rcases List.mem_cons.1 hn with rfl | hn
    · exact hb.shaped
    · obtain ⟨c, hc, hn⟩ := mem_forestNodes.1 hn
      exact (hb.children c hc n hn).1
  · intro n hn
    obtain ⟨c, hc, hn⟩ := mem_forestNodes.1 hn
    exact (hb.children c hc n hn).2

theorem build_shaped_article :
    let lines := ((ScoreLine.classify "Dt: Song\nP: 4/4\nN: 1 2 3 4|\n-\nN: 5 6 5 6|\n===\nDt: Coda\nN: 1 - - -|").run {}).1
    (∀ l ∈ lines, l.Placeable) ∧
      let root := ((build lines).run {}).1
      root.level = 0 ∧ (∀ n ∈ root.nodes, n.Shaped) ∧ ∀ n ∈ forestNodes root.children, n.Kept :=
  have hl := ScoreLine.classify_placeable
    "Dt: Song\nP: 4/4\nN: 1 2 3 4|\n-\nN: 5 6 5 6|\n===\nDt: Coda\nN: 1 - - -|" {}
  ⟨hl, build_shaped _ hl {}⟩

/-- Every command line is placed once, in the nodes of the result and in the order it was read,
or rejected as a second unique command the document holds, or lost with a tree the builder
dropped; each rejection and each dropped tree has an issue of its own among those raised. -/
theorem build_accounts (lines : List ScoreLine) (hl : ∀ l ∈ lines, l.Placeable) (j : Journal) :
    let r := (build lines).run j
    ∃ δ rejected, ∃ losses : Losses, r.2.issues.toList = j.issues.toList ++ δ ∧
      (ScoreLine.commands lines).Perm (r.1.nodes.flatMap LineTree.lines ++ rejected ++ lossLines losses) ∧
      (∀ n ∈ r.1.nodes, n.lines.Sublist (ScoreLine.commands lines)) ∧
      (rejected.map duplicateIssue).Sublist δ ∧
      (∀ c ∈ rejected, (r.1.uniqueLines.lookup c.command.head).isSome = true) ∧
      (losses.map Prod.fst).Sublist δ ∧ ∀ e ∈ losses, Dropped e.1 e.2 := by
  obtain ⟨-, -, hord, δ, rej, hj, ⟨ls, hp, hls, hdrop⟩, hdup, hheld⟩ := build_placed lines hl j
  refine ⟨δ, rej, ls, hj, ?_, hord, hdup, hheld, hls, hdrop⟩
  rwa [← allLines_eq_flatMap]

theorem build_accounts_second_title :
    let title : CommandLine := ⟨1, .title, "Dt", none, [Token.eof 0], "A", 0, none, "Dt: A"⟩
    let lines := [ScoreLine.command title, ScoreLine.command { title with line := 2 }]
    (∀ l ∈ lines, l.Placeable) ∧
      let r := (build lines).run {}
      ∃ δ rejected, ∃ losses : Losses, r.2.issues.toList = ([] : List Issue) ++ δ ∧
        (ScoreLine.commands lines).Perm
          (r.1.nodes.flatMap LineTree.lines ++ rejected ++ lossLines losses) ∧
        (∀ n ∈ r.1.nodes, n.lines.Sublist (ScoreLine.commands lines)) ∧
        (rejected.map duplicateIssue).Sublist δ ∧
        (∀ c ∈ rejected, (r.1.uniqueLines.lookup c.command.head).isSome = true) ∧
        (losses.map Prod.fst).Sublist δ ∧ ∀ e ∈ losses, Dropped e.1 e.2 :=
  have hl : ∀ l ∈ [ScoreLine.command ⟨1, .title, "Dt", none, [Token.eof 0], "A", 0, none, "Dt: A"⟩,
      ScoreLine.command ⟨2, .title, "Dt", none, [Token.eof 0], "A", 0, none, "Dt: A"⟩],
      l.Placeable := by
    simp [ScoreLine.Placeable]
  ⟨hl, build_accounts _ hl {}⟩

end LineTree

end Jianpu
