import Mathlib
import Jianpu.Proofs.Performance.Reference
/-!
# Repeats expand as the textbook reads them

An article whose only marks are repeat signs is performed as a player reads it from the page:
every column outside a repeated block once, and every block written out as many times as its
closing sign says, in a row.

* `RepeatSign`, `Timeline.repeatSigns` — the repeat signs of the columns, left to right: a
  `||:` (or `:||:`, `/||:`) before a column starts a block, a `:||` (or `:||:`, `:/||`) after a
  column closes one, with its count `[xN]`.
* `Alternating signs blocks` — the signs alternate, a start first, every close counted at least
  once; `blocks` are the blocks they enclose. A start left open at the end encloses nothing.
* `expand` — the textbook reading of the columns, given their blocks.
* `Timeline.OnlyRepeats` — the article has no other mark the performed walk acts on.

The walk reads a close by jumping back to the nearest start before it, until it has jumped
`N - 1` times from it. `Expanding` says where the walk stands against the textbook reading:
which blocks are behind the cursor, how often the current one was jumped back, and what the
reading still plays. Every turn keeps it (`Expanding.turn`), so the walk ends having played
the whole reading.

Main statement: `perform_expands_repeats`.
-/

namespace Jianpu

/-- A repeat sign met reading the columns left to right. -/
inductive RepeatSign where
  | start (k : Nat)
  | close (k : Nat) (times : Option Nat)
  deriving DecidableEq

def RepeatSign.key : RepeatSign → Nat
  | .start k => 2 * k
  | .close k _ => 2 * k + 1

/-- A repeated block: columns `start` to `stop`, played `times` times in a row. -/
structure Block where
  start : Nat
  stop : Nat
  times : Nat

def Block.columns (b : Block) : List Nat := List.range' b.start (b.stop + 1 - b.start)

namespace Timeline

/-- The repeat signs of column `k`, as the walk reads its barlines. -/
def repeatSignsAt (t : Timeline) (k : Nat) : List RepeatSign :=
  match t.separatorsAt k with
  | some s => (if s.before.barline.isRepeatStart then [.start k] else []) ++
      (if s.after.barline.isRepeatEnd then [.close k s.after.attrs.times] else [])
  | none => []

def repeatSigns (t : Timeline) : List RepeatSign :=
  (List.range t.sectionCount).flatMap t.repeatSignsAt

/-- Among the marks the performed walk acts on, the article has only repeat signs: no jumper; at
every column no volta, portal or reset before it and no jump after it; and no `|||` after any
column but the last. Every column has its barlines, as in every laid article. -/
structure OnlyRepeats (t : Timeline) : Prop where
  rectangular : t.Rectangular
  noJumpers : t.jumpers = #[]
  quiet : ∀ k < t.sectionCount, ∀ s, t.separatorsAt k = some s →
    s.before.attrs.iterations = [] ∧ s.before.attrs.hasPortal = false ∧
      s.before.attrs.hasReset = false ∧ s.after.attrs.jump = none
  unended : ∀ k s, k + 1 < t.sectionCount → t.separatorsAt k = some s →
    s.after.barline.isTerminal = false

end Timeline

/-- Repeat signs that alternate, a start first, every close counted at least once, and the
blocks they enclose. A start left open at the end encloses nothing. -/
inductive Alternating : List RepeatSign → List Block → Prop
  | nil : Alternating [] []
  | unclosed (s : Nat) : Alternating [.start s] []
  | block {s e n : Nat} {signs : List RepeatSign} {blocks : List Block} : 1 ≤ n →
      Alternating signs blocks →
      Alternating (.start s :: .close e (some n) :: signs) (⟨s, e, n⟩ :: blocks)

/-- The textbook reading of the columns from `c` to `n - 1` whose blocks are `blocks`: every
column outside a block once, and every block written out `times` times in a row. -/
def expand (n : Nat) : Nat → List Block → List Nat
  | c, [] => List.range' c (n - c)
  | c, b :: bs =>
    List.range' c (b.start - c) ++ (List.replicate b.times b.columns).flatten ++
      expand n (b.stop + 1) bs

def passesOf (blocks : List Block) : Nat := 1 + (blocks.map (·.times - 1)).sum

/-! ## The signs of an alternating article -/

namespace RepeatSign

def ofBlocks (blocks : List Block) (unclosed : Option Nat) : List RepeatSign :=
  blocks.flatMap (fun b => [.start b.start, .close b.stop (some b.times)]) ++
    unclosed.toList.map .start

theorem ofBlocks_cons (b : Block) (bs : List Block) (u : Option Nat) :
    ofBlocks (b :: bs) u = .start b.start :: .close b.stop (some b.times) :: ofBlocks bs u := rfl

theorem mem_ofBlocks {b : Block} {bs : List Block} {u : Option Nat} (hb : b ∈ bs) :
    .start b.start ∈ ofBlocks bs u ∧ .close b.stop (some b.times) ∈ ofBlocks bs u := by
  simp only [ofBlocks, List.mem_append, List.mem_flatMap]
  exact ⟨.inl ⟨b, hb, by simp⟩, .inl ⟨b, hb, by simp⟩⟩

end RepeatSign

theorem Alternating.eq_ofBlocks {signs : List RepeatSign} {bs : List Block}
    (h : Alternating signs bs) :
    ∃ u, signs = RepeatSign.ofBlocks bs u ∧ ∀ b ∈ bs, 1 ≤ b.times := by
  induction h with
  | nil => exact ⟨none, rfl, by simp⟩
  | unclosed s => exact ⟨some s, rfl, by simp⟩
  | block hn _ ih =>
    obtain ⟨u, rfl, hpos⟩ := ih
    refine ⟨u, rfl, ?_⟩
    simpa [hn] using hpos

namespace Timeline

variable {t : Timeline}

theorem repeatSigns_pairwise (t : Timeline) :
    t.repeatSigns.Pairwise (fun a b => a.key < b.key) := by
  -- a column's signs sit at `2k` and `2k + 1`
  have hkey : ∀ k, ∀ x ∈ t.repeatSignsAt k, 2 * k ≤ x.key ∧ x.key ≤ 2 * k + 1 := by
    intro k x hx
    unfold repeatSignsAt at hx
    split at hx
    · simp only [List.mem_append] at hx
      rcases hx with hx | hx <;> split at hx <;> simp at hx <;> subst hx <;>
        simp [RepeatSign.key]
    · simp at hx
  unfold repeatSigns
  rw [List.pairwise_flatMap]
  refine ⟨fun k _ => ?_, ?_⟩
  · unfold repeatSignsAt
    split
    · split <;> split <;> simp [RepeatSign.key]
    · simp
  · refine (List.pairwise_lt_range).imp fun {a b} hab x hx y hy => ?_
    have := hkey a x hx
    have := hkey b y hy
    omega

theorem mem_repeatSigns {x : RepeatSign} :
    x ∈ t.repeatSigns ↔ ∃ k < t.sectionCount, x ∈ t.repeatSignsAt k := by
  simp [repeatSigns]

theorem start_mem_repeatSigns {k : Nat} {s : Separators} (hk : k < t.sectionCount)
    (hs : t.separatorsAt k = some s) (hstart : s.before.barline.isRepeatStart = true) :
    RepeatSign.start k ∈ t.repeatSigns :=
  mem_repeatSigns.2 ⟨k, hk, by simp [repeatSignsAt, hs, hstart]⟩

theorem close_mem_repeatSigns {k : Nat} {s : Separators} (hk : k < t.sectionCount)
    (hs : t.separatorsAt k = some s) (hend : s.after.barline.isRepeatEnd = true) :
    RepeatSign.close k s.after.attrs.times ∈ t.repeatSigns :=
  mem_repeatSigns.2 ⟨k, hk, by simp [repeatSignsAt, hs, hend]⟩

theorem of_start_mem {k : Nat} (h : RepeatSign.start k ∈ t.repeatSigns) :
    k < t.sectionCount ∧ (t.separatorsAt k).any (·.before.barline.isRepeatStart) := by
  obtain ⟨k', hk', hx⟩ := mem_repeatSigns.1 h
  unfold repeatSignsAt at hx
  split at hx
  · rename_i s hs
    simp only [List.mem_append] at hx
    rcases hx with hx | hx <;> split at hx <;> simp at hx
    subst hx
    exact ⟨hk', by simp [*]⟩
  · simp at hx

theorem of_close_mem {k : Nat} {x : Option Nat} (h : RepeatSign.close k x ∈ t.repeatSigns) :
    k < t.sectionCount ∧ ∃ s, t.separatorsAt k = some s ∧ s.after.barline.isRepeatEnd = true ∧
      x = s.after.attrs.times := by
  obtain ⟨k', hk', hx⟩ := mem_repeatSigns.1 h
  unfold repeatSignsAt at hx
  split at hx
  · rename_i s hs
    simp only [List.mem_append] at hx
    rcases hx with hx | hx <;> split at hx <;> simp at hx
    obtain ⟨rfl, rfl⟩ := hx
    exact ⟨hk', s, hs, by assumption, rfl⟩
  · simp at hx

end Timeline

/-- Blocks in order along the columns from `c` to `n - 1`: each starts at or after the column
past the one before it, and stops where it starts or later. -/
def Block.Ordered (n : Nat) : Nat → List Block → Prop
  | _, [] => True
  | c, b :: bs => c ≤ b.start ∧ b.start ≤ b.stop ∧ b.stop < n ∧ Block.Ordered n (b.stop + 1) bs

theorem Block.Ordered.mem {n c : Nat} :
    ∀ {bs : List Block}, Block.Ordered n c bs → ∀ b ∈ bs, c ≤ b.start ∧ b.start ≤ b.stop ∧ b.stop < n
  | [], _, _, hb => absurd hb (List.not_mem_nil)
  | b :: bs, ⟨hc, hse, hn, hrest⟩, b', hb' => by
    rcases List.mem_cons.1 hb' with rfl | hb'
    · exact ⟨hc, hse, hn⟩
    · have := Block.Ordered.mem hrest b' hb'
      omega

/-- What the walk needs to know of the blocks of an article: where they stand, what closes
them, and that nothing inside one starts another. -/
structure Timeline.Blocks (t : Timeline) (bs : List Block) : Prop where
  ordered : Block.Ordered t.sectionCount 0 bs
  counted : ∀ b ∈ bs, 1 ≤ b.times
  closes : ∀ k < t.sectionCount, ∀ s, t.separatorsAt k = some s →
    s.after.barline.isRepeatEnd = true → ∃ b ∈ bs, b.stop = k
  closed : ∀ b ∈ bs, ∃ s, t.separatorsAt b.stop = some s ∧ s.after.barline.isRepeatEnd = true ∧
    s.after.attrs.times = some b.times
  opens : ∀ b ∈ bs, (t.separatorsAt b.start).any (·.before.barline.isRepeatStart) = true
  inside : ∀ b ∈ bs, ∀ i, b.start < i → i ≤ b.stop →
    (t.separatorsAt i).any (·.before.barline.isRepeatStart) = false

theorem not_between_neighbours {l l₁ l₂ : List RepeatSign} {x y z : RepeatSign}
    (hl : l.Pairwise (fun a b => a.key < b.key)) (heq : l = l₁ ++ x :: z :: l₂) (hy : y ∈ l)
    (hxy : x.key < y.key) (hyz : y.key < z.key) : False := by
  subst heq
  rw [List.pairwise_append] at hl
  obtain ⟨-, hxz, hcross⟩ := hl
  rw [List.pairwise_cons, List.pairwise_cons] at hxz
  rcases List.mem_append.1 hy with hy | hy
  · have := hcross y hy x (by simp)
    omega
  · rcases List.mem_cons.1 hy with rfl | hy
    · omega
    · rcases List.mem_cons.1 hy with rfl | hy
      · omega
      · have := hxz.2.1 y hy
        omega

theorem ordered_ofBlocks {n : Nat} {u : Option Nat} :
    ∀ (bs : List Block) (c : Nat), (RepeatSign.ofBlocks bs u).Pairwise (fun a b => a.key < b.key) →
      (∀ x ∈ RepeatSign.ofBlocks bs u, 2 * c ≤ x.key) → (∀ b ∈ bs, b.stop < n) →
      Block.Ordered n c bs
  | [], _, _, _, _ => trivial
  | b :: bs, c, hpair, hge, hn => by
    rw [RepeatSign.ofBlocks_cons, List.pairwise_cons, List.pairwise_cons] at hpair
    obtain ⟨hstart, hclose, hrest⟩ := hpair
    have h₁ := hge (.start b.start) (by simp [RepeatSign.ofBlocks_cons])
    have h₂ := hstart (.close b.stop (some b.times)) (by simp)
    simp only [RepeatSign.key] at h₁ h₂
    refine ⟨by omega, by omega, hn b (by simp), ?_⟩
    refine ordered_ofBlocks bs (b.stop + 1) hrest (fun x hx => ?_) fun b' hb' => hn b' (by simp [hb'])
    have h₃ : 2 * b.stop + 1 < x.key := hclose x hx
    omega

/-- **The blocks of alternating signs**, read back on the columns. -/
theorem Alternating.blocks {t : Timeline} {bs : List Block} (h : Alternating t.repeatSigns bs) :
    t.Blocks bs := by
  obtain ⟨u, hsigns, hcount⟩ := h.eq_ofBlocks
  have hpair := t.repeatSigns_pairwise
  -- every block's start and close are signs of the article
  have hstart : ∀ b ∈ bs, RepeatSign.start b.start ∈ t.repeatSigns := fun b hb =>
    hsigns ▸ (RepeatSign.mem_ofBlocks hb).1
  have hclose : ∀ b ∈ bs, RepeatSign.close b.stop (some b.times) ∈ t.repeatSigns := fun b hb =>
    hsigns ▸ (RepeatSign.mem_ofBlocks hb).2
  refine ⟨?_, hcount, ?_, ?_, fun b hb => (t.of_start_mem (hstart b hb)).2, ?_⟩
  · refine ordered_ofBlocks bs 0 (hsigns ▸ hpair) (by simp) fun b hb => ?_
    exact (t.of_close_mem (hclose b hb)).1
  · intro k hk s hs hend
    have hmem := t.close_mem_repeatSigns hk hs hend
    rw [hsigns, RepeatSign.ofBlocks, List.mem_append, List.mem_flatMap] at hmem
    rcases hmem with ⟨b, hb, hx⟩ | hx
    · simp only [List.mem_cons, List.not_mem_nil, or_false] at hx
      rcases hx with hx | hx
      · cases hx
      · exact ⟨b, hb, (RepeatSign.close.inj hx).1.symm⟩
    · simp at hx
  · intro b hb
    obtain ⟨-, s, hs, hend, htimes⟩ := t.of_close_mem (hclose b hb)
    exact ⟨s, hs, hend, htimes.symm⟩
  · -- a start inside a block would stand between the block's own start and close
    intro b hb i hlo hhi
    cases hi : (t.separatorsAt i).any (·.before.barline.isRepeatStart)
    · rfl
    · exfalso
      obtain ⟨s, hs, hst⟩ : ∃ s, t.separatorsAt i = some s ∧ s.before.barline.isRepeatStart = true := by
        cases hsep : t.separatorsAt i with
        | none => simp [hsep] at hi
        | some s => exact ⟨s, rfl, by simpa [hsep] using hi⟩
      have hn : i < t.sectionCount := by
        have := (t.of_close_mem (hclose b hb)).1
        omega
      have hy := t.start_mem_repeatSigns hn hs hst
      obtain ⟨bs₁, bs₂, rfl⟩ := List.append_of_mem hb
      refine @not_between_neighbours _ (bs₁.flatMap fun b =>
          [RepeatSign.start b.start, .close b.stop (some b.times)]) (RepeatSign.ofBlocks bs₂ u)
        (.start b.start) (.start i) (.close b.stop (some b.times)) hpair ?_ hy ?_ ?_
      · rw [hsigns, RepeatSign.ofBlocks, List.flatMap_append, List.flatMap_cons, List.append_assoc,
          List.append_assoc]
        rfl
      · simp only [RepeatSign.key]
        omega
      · simp only [RepeatSign.key]
        omega

theorem Block.Ordered.stop_lt_start {n : Nat} :
    ∀ {c : Nat} {l₁ l₂ : List Block}, Block.Ordered n c (l₁ ++ l₂) →
      ∀ d ∈ l₁, ∀ b ∈ l₂, d.stop < b.start
  | _, [], _, _, _, hd, _, _ => absurd hd List.not_mem_nil
  | _, _ :: l₁, _, ⟨_, _, _, hrest⟩, d, hd, b, hb => by
    rcases List.mem_cons.1 hd with rfl | hd
    · have := (Block.Ordered.mem hrest b (List.mem_append_right l₁ hb)).1
      omega
    · exact Block.Ordered.stop_lt_start hrest d hd b hb

/-! ## What the reading still plays -/

/-- What the textbook reading still plays from column `c` on, when the first of the blocks
`rest` has been jumped back from `j` times and the cursor stands in it or before it. -/
def remaining (n c j : Nat) : List Block → List Nat
  | [] => List.range' c (n - c)
  | b :: bs => List.range' c (b.stop + 1 - c) ++ (List.replicate (b.times - 1 - j) b.columns).flatten ++
      expand n (b.stop + 1) bs

def pending (j : Nat) : List Block → Nat
  | [] => 0
  | b :: bs => b.times - 1 - j + (bs.map (·.times - 1)).sum

theorem pending_zero (bs : List Block) : pending 0 bs = (bs.map (·.times - 1)).sum := by
  cases bs <;> simp [pending]

theorem range'_split {a b c : Nat} (hab : a ≤ b) (hbc : b ≤ c) :
    List.range' a (c - a) = List.range' a (b - a) ++ List.range' b (c - b) := by
  obtain ⟨d, rfl⟩ := Nat.exists_eq_add_of_le hab
  rw [Nat.add_sub_cancel_left, List.range'_append_1]
  congr 1
  omega

section Remaining

variable {n c j : Nat} {b : Block} {bs : List Block}

theorem remaining_eq_expand (ho : Block.Ordered n c bs) (hpos : ∀ b ∈ bs, 1 ≤ b.times) :
    remaining n c 0 bs = expand n c bs := by
  cases bs with
  | nil => rfl
  | cons b bs =>
    obtain ⟨hc, hse, -, -⟩ := ho
    have hsplit : List.range' c (b.stop + 1 - c) = List.range' c (b.start - c) ++ b.columns :=
      range'_split hc (by omega)
    have hrep : List.replicate b.times b.columns =
        b.columns :: List.replicate (b.times - 1 - 0) b.columns := by
      have := hpos b List.mem_cons_self
      rw [← List.replicate_succ]
      congr 1
      omega
    simp [remaining, expand, hsplit, hrep]

theorem remaining_next (h : c < b.stop) :
    remaining n c j (b :: bs) = c :: remaining n (c + 1) j (b :: bs) := by
  simp only [remaining]
  rw [show b.stop + 1 - c = b.stop + 1 - (c + 1) + 1 by omega, List.range'_succ]
  rfl

theorem remaining_nil_next (h : c < n) : remaining n c j [] = c :: remaining n (c + 1) j [] := by
  simp only [remaining]
  rw [show n - c = n - (c + 1) + 1 by omega, List.range'_succ]

theorem remaining_jump (hc : c = b.stop) (hj : j + 1 < b.times) :
    remaining n c j (b :: bs) = c :: remaining n b.start (j + 1) (b :: bs) := by
  subst hc
  simp only [remaining]
  rw [show b.stop + 1 - b.stop = 1 by omega,
    show b.times - 1 - j = b.times - 1 - (j + 1) + 1 by omega, List.replicate_succ,
    List.flatten_cons]
  simp [Block.columns]

theorem remaining_leave (hc : c = b.stop) (hj : b.times - 1 - j = 0)
    (ho : Block.Ordered n (b.stop + 1) bs) (hpos : ∀ b ∈ bs, 1 ≤ b.times) :
    remaining n c j (b :: bs) = c :: remaining n (c + 1) 0 bs := by
  subst hc
  rw [remaining_eq_expand ho hpos]
  simp [remaining, hj]

end Remaining

/-! ## The walk on an article of repeats -/

theorem Barline.isTerminal_of_isRepeatEnd {b : Barline} (h : b.isRepeatEnd = true) :
    b.isTerminal = false := by
  cases b <;> simp_all [Barline.isRepeatEnd, Barline.isTerminal]

namespace Performer

variable {t : Timeline} {s : Separators} {w : Walk}

theorem rest_jump {n : Nat} (hend : s.after.barline.isRepeatEnd = true)
    (htimes : s.after.attrs.times = some n) (hlt : w.jumps.getD w.cursor 0 + 1 < n) :
    after.rest t s w = (.goto (repeatStartBefore t w w.cursor), w.markUsed w.cursor true) := by
  rw [Array.getD_eq_getD_getElem?] at hlt
  simp [after.rest, hend, htimes, hlt]

theorem rest_leave {n : Nat} (hend : s.after.barline.isRepeatEnd = true)
    (htimes : s.after.attrs.times = some n) (hge : ¬ w.jumps.getD w.cursor 0 + 1 < n) :
    after.rest t s w = (.next, w) := by
  rw [Array.getD_eq_getD_getElem?] at hge
  simp [after.rest, hend, htimes, hge, Barline.isTerminal_of_isRepeatEnd hend]

end Performer

namespace Timeline.OnlyRepeats

variable {t : Timeline} (ht : t.OnlyRepeats)
include ht

theorem separatorsAt_some {k : Nat} (hk : k < t.sectionCount) : ∃ s, t.separatorsAt k = some s :=
  Option.ne_none_iff_exists'.1 (ht.rectangular.separatorsAt_ne_none hk)

theorem skipTarget_eq_none {w : Walk} {s : Separators} (hk : w.cursor < t.sectionCount)
    (hs : t.separatorsAt w.cursor = some s) : Performer.skipTarget t w s = none := by
  obtain ⟨hit, hportal, -, -⟩ := ht.quiet _ hk s hs
  simp [Performer.skipTarget, ht.noJumpers, hit, hportal]

theorem admits_eq_true {i : Nat} (hi : i < t.sectionCount) (m : Nat) : Performer.admits t i m = true := by
  obtain ⟨s, hs⟩ := ht.separatorsAt_some hi
  simp [Performer.admits, hs, (ht.quiet i hi s hs).1, ht.noJumpers]

/-- The close of a block jumps back to the block's start: the search back from the close meets
no other start before it. -/
theorem repeatStartBefore_eq {bs : List Block} (hb : t.Blocks bs) {b : Block} (hmem : b ∈ bs)
    (w : Walk) : Performer.repeatStartBefore t w b.stop = b.start := by
  obtain ⟨-, hse, hn⟩ := hb.ordered.mem b hmem
  have hfind : (List.range (b.stop + 1)).reverse.find? (fun i =>
      (t.separatorsAt i).any (·.before.barline.isRepeatStart) && Performer.admits t i (w.number + 1)) =
      some b.start :=
    have hstart : b.start < t.sectionCount := by omega
    find?_range_reverse hse (by simp [hb.opens b hmem, ht.admits_eq_true hstart])
      fun i h₁ h₂ => by simp [hb.inside b hmem i h₁ h₂]
  simp only [Performer.repeatStartBefore, hfind, Option.getD_some]

end Timeline.OnlyRepeats

/-! ## The walk against the reading -/

/-- Where the cursor stands against the blocks not yet left behind, the first of them jumped
back from `j` times: in that block or before it, with its jumps counted at its close and none
yet at the closes after it. -/
def Ahead (n : Nat) (w : Walk) (j : Nat) : List Block → Prop
  | [] => w.cursor ≤ n
  | b :: bs => w.cursor ≤ b.stop ∧ j < b.times ∧ b.start ≤ b.stop ∧ b.stop < n ∧
      Block.Ordered n (b.stop + 1) bs ∧ w.jumps.getD b.stop 0 = j ∧
      ∀ b' ∈ bs, w.jumps.getD b'.stop 0 = 0

/-- The walk has played the textbook reading of the blocks `bs` but for what the reading still
plays from the cursor; `rest` are the blocks not yet left behind, the first of them jumped back
from `j` times, and the passes opened so far are one and one for every jump taken. -/
structure Expanding (t : Timeline) (bs rest : List Block) (j : Nat) (w : Walk) : Prop where
  tracks : Tracks (expand t.sectionCount 0 bs) (remaining t.sectionCount w.cursor j rest) w
  budget : w.passes.size + pending j rest = passesOf bs
  behind : ∃ done, bs = done ++ rest ∧ ∀ d ∈ done, d.stop < w.cursor
  ahead : Ahead t.sectionCount w j rest
  jumps : w.jumps.size = t.sectionCount

/-- The walk has played the whole reading, on as many passes as it takes. -/
structure Expanded (t : Timeline) (bs : List Block) (w : Walk) : Prop where
  tracks : Tracks (expand t.sectionCount 0 bs) [] w
  budget : w.passes.size = passesOf bs

namespace Expanding

variable {pf : Performer} {t : Timeline} {bs rest : List Block} {b : Block} {j : Nat} {w : Walk}

theorem start (hb : t.Blocks bs) {w₀ : Walk} (ho : pf.openPass (Performer.start t) 1 = some w₀) :
    Expanding t bs bs 0 w₀ := by
  have htr : Tracks (expand t.sectionCount 0 bs) (expand t.sectionCount 0 bs) w₀ := Tracks.start ho
  have hzero : ∀ k, (Performer.start t).jumps.getD k 0 = 0 := by
    intro k
    simp only [Performer.start, Array.getD_eq_getD_getElem?, Array.getElem?_replicate]
    split <;> rfl
  obtain ⟨-, rfl⟩ := Performer.openPass_eq_some.1 ho
  refine ⟨?_, ?_, ⟨[], rfl, by simp⟩, ?_, by simp [Performer.start]⟩
  · rw [Walk.mapPasses_cursor, Performer.start_cursor,
      remaining_eq_expand hb.ordered hb.counted]
    exact htr
  · simp [pending_zero, passesOf]
  · cases bs with
    | nil => simp [Ahead]
    | cons b bs =>
      obtain ⟨-, hse, hn, hord⟩ := hb.ordered
      simp only [Ahead, Walk.mapPasses_cursor, Performer.start_cursor, Walk.mapPasses_jumps]
      exact ⟨Nat.zero_le _, hb.counted b List.mem_cons_self, hse, hn, hord, hzero _,
        fun _ _ => hzero _⟩

theorem finish (h : Expanding t bs rest j w) (hk : t.sectionCount ≤ w.cursor) :
    Expanded t bs w := by
  cases rest with
  | nil =>
    have hend : remaining t.sectionCount w.cursor j [] = [] := by
      simp only [remaining]
      rw [Nat.sub_eq_zero_of_le hk, List.range'_zero]
    exact ⟨hend ▸ h.tracks, by simpa [pending] using h.budget⟩
  | cons b rest =>
    obtain ⟨hle, -, -, hn, -⟩ := h.ahead
    omega

/-- A close at the cursor is the close of the first block not yet left behind, and carries
its count. -/
theorem at_close (h : Expanding t bs rest j w) (hb : t.Blocks bs) (hk : w.cursor < t.sectionCount)
    {s : Separators} (hs : t.separatorsAt w.cursor = some s)
    (hend : s.after.barline.isRepeatEnd = true) :
    ∃ b rest', rest = b :: rest' ∧ w.cursor = b.stop ∧ s.after.attrs.times = some b.times := by
  obtain ⟨b₀, hb₀, hstop⟩ := hb.closes _ hk s hs hend
  obtain ⟨s', hs', -, htimes⟩ := hb.closed b₀ hb₀
  rw [hstop, hs, Option.some.injEq] at hs'
  subst hs'
  obtain ⟨done, hsplit, hdone⟩ := h.behind
  rw [hsplit, List.mem_append] at hb₀
  rcases hb₀ with hb₀ | hb₀
  · have := hdone b₀ hb₀
    omega
  · cases rest with
    | nil => simp at hb₀
    | cons b rest =>
      obtain ⟨hle, -, -, -, hord, -⟩ := h.ahead
      rcases List.mem_cons.1 hb₀ with rfl | hb₀
      · exact ⟨b₀, rest, rfl, hstop.symm, htimes⟩
      · have := hord.mem b₀ hb₀
        omega

theorem lt_stop (h : Expanding t bs (b :: rest) j w) (hb : t.Blocks bs) {s : Separators}
    (hs : t.separatorsAt w.cursor = some s) (hend : s.after.barline.isRepeatEnd = false) :
    w.cursor < b.stop := by
  obtain ⟨hle, -⟩ := h.ahead
  obtain ⟨done, hsplit, -⟩ := h.behind
  obtain ⟨s', hs', hend', -⟩ := hb.closed b (by simp [hsplit])
  rcases Nat.lt_or_eq_of_le hle with hlt | heq
  · exact hlt
  · rw [← heq, hs, Option.some.injEq] at hs'
    subst hs'
    simp [hend] at hend'

theorem next (h : Expanding t bs rest j w) (hk : w.cursor < t.sectionCount)
    (hmid : ∀ b ∈ rest.head?, w.cursor < b.stop) :
    Expanding t bs rest j { pf.play t false w with cursor := w.cursor + 1 } := by
  have hrem : remaining t.sectionCount w.cursor j rest =
      w.cursor :: remaining t.sectionCount (w.cursor + 1) j rest := by
    cases rest with
    | nil => exact remaining_nil_next hk
    | cons b rest => exact remaining_next (hmid b rfl)
  have htr := h.tracks
  rw [hrem] at htr
  obtain ⟨done, hsplit, hdone⟩ := h.behind
  refine ⟨(Tracks.play htr).congr rfl rfl, by simpa using h.budget, ⟨done, hsplit, ?_⟩, ?_,
    by simpa using h.jumps⟩
  · intro d hd
    have := hdone d hd
    simp only
    omega
  · cases rest with
    | nil =>
      simp only [Ahead]
      omega
    | cons b rest =>
      obtain ⟨-, hj, hse, hn, hord, hjb, hz⟩ := h.ahead
      simp only [Ahead, Performer.play_jumps]
      exact ⟨hmid b rfl, hj, hse, hn, hord, hjb, hz⟩

theorem jump (h : Expanding t bs (b :: rest) j w) (hb : t.Blocks bs) (hc : w.cursor = b.stop)
    (hj : j + 1 < b.times) {w₂ : Walk}
    (ho : pf.openPass ((pf.play t false w).markUsed w.cursor true)
      (((pf.play t false w).markUsed w.cursor true).number + 1) = some w₂) :
    Expanding t bs (b :: rest) (j + 1) { w₂ with cursor := b.start } := by
  obtain ⟨-, -, hse, hn, hord, hjb, hz⟩ := h.ahead
  obtain ⟨done, hsplit, -⟩ := h.behind
  have htr := h.tracks
  rw [remaining_jump hc hj] at htr
  have hplay : Tracks _ _ (pf.play t false w) := Tracks.play htr
  have hused : Tracks _ _ ((pf.play t false w).markUsed w.cursor true) :=
    hplay.congr (by simp) (by simp)
  have hopen := hused.jump ho
  obtain ⟨-, rfl⟩ := Performer.openPass_eq_some.1 ho
  refine ⟨hopen.congr rfl rfl, ?_, ⟨done, hsplit, ?_⟩, ?_, by simpa using h.jumps⟩
  · have := h.budget
    simp only [pending] at this ⊢
    simp
    omega
  · -- the blocks left behind stop before this one starts
    have hord₀ := hb.ordered
    rw [hsplit] at hord₀
    exact fun d hd => Block.Ordered.stop_lt_start hord₀ d hd b List.mem_cons_self
  · have hsize : w.cursor < w.jumps.size := by
      rw [h.jumps]
      omega
    simp only [Ahead, Walk.mapPasses_jumps, Walk.markUsed_jumps_getD, Performer.play_jumps]
    refine ⟨hse, hj, hse, hn, hord, by rw [if_pos ⟨hc.symm, hsize⟩, hjb], fun b' hb' => ?_⟩
    have := hord.mem b' hb'
    rw [if_neg (by omega)]
    exact hz b' hb'

theorem leave (h : Expanding t bs (b :: rest) j w) (hb : t.Blocks bs) (hc : w.cursor = b.stop)
    (hj : ¬ j + 1 < b.times) :
    Expanding t bs rest 0 { pf.play t false w with cursor := w.cursor + 1 } := by
  obtain ⟨-, hjt, -, hn, hord, -, hz⟩ := h.ahead
  obtain ⟨done, hsplit, hdone⟩ := h.behind
  have hpos : ∀ b' ∈ rest, 1 ≤ b'.times := fun b' hb' => hb.counted b' (by simp [hsplit, hb'])
  have htr := h.tracks
  rw [remaining_leave hc (by omega) hord hpos] at htr
  refine ⟨(Tracks.play htr).congr rfl rfl, ?_, ⟨done ++ [b], by simp [hsplit], ?_⟩, ?_,
    by simpa using h.jumps⟩
  · have := h.budget
    simp only [pending] at this
    rw [pending_zero]
    simp
    omega
  · intro d hd
    rcases List.mem_append.1 hd with hd | hd
    · have := hdone d hd
      simp only
      omega
    · rw [List.mem_singleton.1 hd]
      simp only
      omega
  · cases rest with
    | nil =>
      simp only [Ahead]
      omega
    | cons b' rest =>
      obtain ⟨hlo, hse', hn', hord'⟩ := hord
      simp only [Ahead, Performer.play_jumps]
      exact ⟨by omega, hpos b' List.mem_cons_self, hse', hn', hord', hz b' List.mem_cons_self,
        fun b'' hb'' => hz b'' (List.mem_cons_of_mem _ hb'')⟩

theorem stop (h : Expanding t bs [] j w) (hc : w.cursor + 1 = t.sectionCount) :
    Expanded t bs (pf.play t false w) := by
  have hend : remaining t.sectionCount (w.cursor + 1) j [] = [] := by
    simp only [remaining]
    rw [hc, Nat.sub_self, List.range'_zero]
  have htr := h.tracks
  rw [remaining_nil_next (by omega), hend] at htr
  exact ⟨Tracks.play htr, by simpa [pending] using h.budget⟩

/-- Past a barline that closes no block the walk moves on, or ends at the last column. -/
theorem follow_of_not_end (ht : t.OnlyRepeats) (hb : t.Blocks bs) (h : Expanding t bs rest j w)
    (hk : w.cursor < t.sectionCount) {s : Separators} (hs : t.separatorsAt w.cursor = some s)
    (hend : s.after.barline.isRepeatEnd = false) :
    (pf.follow t false s (pf.play t false w)).Lands (fun w => ∃ rest j, Expanding t bs rest j w)
      (Expanded t bs) := by
  obtain ⟨-, -, -, hjump⟩ := ht.quiet _ hk s hs
  rw [Performer.follow, Performer.closing_of_jump_none hjump, Performer.rest_of_not_end hend]
  cases hterm : s.after.barline.isTerminal with
  | false =>
    simp only [Bool.false_eq_true, if_false, Performer.play_cursor]
    refine ⟨rest, j, h.next hk fun b hb' => ?_⟩
    cases rest with
    | nil => cases hb'
    | cons b' rest =>
      obtain rfl : b' = b := Option.some.inj hb'
      exact h.lt_stop hb hs hend
  | true =>
    have hlast : w.cursor + 1 = t.sectionCount := by
      by_contra hne
      have := ht.unended _ s (by omega) hs
      rw [hterm] at this
      cases this
    cases rest with
    | nil => exact h.stop hlast
    | cons b rest =>
      -- a block still ahead closes at or after the last column, and not here
      obtain ⟨-, -, -, hn, -⟩ := h.ahead
      have := h.lt_stop hb hs hend
      omega

/-- At the close of the first block ahead the walk jumps back while the block's count is not
used up, and leaves the block after. -/
theorem follow_of_end (ht : t.OnlyRepeats) (hb : t.Blocks bs) (hlimit : passesOf bs ≤ pf.limit)
    (h : Expanding t bs rest j w) (hk : w.cursor < t.sectionCount) {s : Separators}
    (hs : t.separatorsAt w.cursor = some s) (hend : s.after.barline.isRepeatEnd = true) :
    (pf.follow t false s (pf.play t false w)).Lands (fun w => ∃ rest j, Expanding t bs rest j w)
      (Expanded t bs) := by
  obtain ⟨-, -, -, hjump⟩ := ht.quiet _ hk s hs
  rw [Performer.follow, Performer.closing_of_jump_none hjump]
  obtain ⟨b, rest', rfl, hc, htimes⟩ := h.at_close hb hk hs hend
  obtain ⟨-, hjt, -, -, -, hjb, -⟩ := h.ahead
  have hmem : b ∈ bs := by
    obtain ⟨done, hsplit, -⟩ := h.behind
    simp [hsplit]
  by_cases hj : j + 1 < b.times
  · rw [Performer.rest_jump hend htimes (by simpa [hc, hjb] using hj)]
    simp only [Performer.play_cursor, hc, ht.repeatStartBefore_eq hb hmem]
    cases ho : pf.openPass ((pf.play t false w).markUsed b.stop true)
        (((pf.play t false w).markUsed b.stop true).number + 1) with
    | some w₂ =>
      rw [← hc] at ho
      exact ⟨b :: rest', j + 1, h.jump hb hc hj ho⟩
    | none =>
      -- the pass the jump opens is within the budget
      have := h.budget
      simp only [pending] at this
      simp [Performer.openPass] at ho
      omega
  · rw [Performer.rest_leave hend htimes (by simpa [hc, hjb] using hj)]
    simp only [Performer.play_cursor]
    exact ⟨rest', 0, h.leave hb hc hj⟩

/-- **Every turn keeps the walk on the reading.** On an article of repeats whose blocks fit
in the passes allowed, a turn plays the next column of the reading, and either goes on with
the walk still on the reading or ends it with the whole reading played. -/
theorem turn (ht : t.OnlyRepeats) (hb : t.Blocks bs) (hlimit : passesOf bs ≤ pf.limit)
    {r : Turn} (h : ∃ rest j, Expanding t bs rest j w) (hturn : Performer.Turns pf t false w r) :
    r.Lands (fun w => ∃ rest j, Expanding t bs rest j w) (Expanded t bs) := by
  obtain ⟨rest, j, h⟩ := h
  cases hturn with
  | atEnd hk => exact h.finish hk
  | unmarked hk hs => exact absurd hs (ht.rectangular.separatorsAt_ne_none hk)
  | skipped hk hs _ hskip =>
    rw [ht.skipTarget_eq_none hk hs] at hskip
    cases hskip
  | cutAtReset hk hs _ _ hreset _ =>
    rw [(ht.quiet _ hk _ hs).2.2.1] at hreset
    cases hreset
  | @played w₁ s _ hk hs _ hprep hfol =>
    obtain rfl := hprep.eq_of_no_reset (ht.quiet _ hk s hs).2.2.1
    rw [hfol.eq_follow]
    cases hend : s.after.barline.isRepeatEnd with
    | false => exact h.follow_of_not_end ht hb hk hs hend
    | true => exact h.follow_of_end ht hb hlimit hk hs hend

end Expanding

/-- The performed walk of an article of repeats plays the textbook reading, when its blocks fit
in the passes allowed. -/
theorem walk_expands {pf : Performer} {t : Timeline} {bs : List Block} (ht : t.OnlyRepeats)
    (hb : t.Blocks bs) (hlimit : passesOf bs ≤ pf.limit) : Expanded t bs (pf.walk t false) := by
  have hopen : pf.openPass (Performer.start t) 1 =
      some ((Performer.start t).mapPasses (·.push ⟨1, #[]⟩)) := by
    refine Performer.openPass_eq_some.2 ⟨?_, rfl⟩
    simp only [passesOf] at hlimit
    simp
    omega
  unfold Performer.walk
  simp only [Bool.false_eq_true, if_false, hopen]
  exact Performer.run_invariant pf t false (fun _ _ hw hr => Expanding.turn ht hb hlimit hw hr) _
    ⟨bs, 0, Expanding.start hb hopen⟩

/-- **Repeats expand as the textbook reads them.** On an article whose only marks the walk acts
on are repeat signs that alternate, a start first and every close counted, and whose blocks
fit in the passes allowed, the performed read opens one pass and one more for every jump back,
numbered 1, 2, 3, ...; it is not cut short and plays no column twice on one pass; and its
passes together play the textbook reading: every column outside a block once, and every block
as many times in a row as its close says. -/
theorem perform_expands_repeats (pf : Performer) (t : Timeline) (j : Journal)
    (blocks : List Block) (ht : t.OnlyRepeats) (halt : Alternating t.repeatSigns blocks)
    (hlimit : passesOf blocks ≤ pf.limit) :
    let p := ((pf.read t false).run j).1
    passNumbers p.passes = List.range' 1 (passesOf blocks) ∧ p.overflow = false ∧
      p.conflict = false ∧ p.passes.toList.flatMap Pass.indices = expand t.sectionCount 0 blocks := by
  rw [Performer.read_run]
  have hw := walk_expands ht halt.blocks hlimit
  have hnum : passNumbers (pf.walk t false).passes = List.range' 1 (passesOf blocks) := by
    rw [hw.tracks.numbers, hw.budget]
  -- passes numbered apart play no column twice under one number
  have hconf : (pf.walk t false).conflicts = [] :=
    Performer.walk_conflicts_nil pf t false (hnum ▸ List.nodup_range')
  refine ⟨hnum, hw.tracks.going, by simp [hconf], by simpa using hw.tracks.plays⟩

/-- One column between a start and a close counted twice, performed with two passes allowed,
is played on passes 1 and 2. -/
theorem perform_expands_repeats_one_block :
    let sec : Section Pitch := { (default : Section Pitch) with
      separators := ⟨⟨.repeatStart, {}, default⟩, ⟨.repeatEnd, { own := [.times 2] }, default⟩,
        .repeatEnd⟩ }
    let t : Timeline := { (default : Timeline) with
      columns := #[default], voices := #[{ (default : Voice) with notes := #[sec] }] }
    let pf : Performer := ⟨2, 120.0⟩
    let blocks : List Block := [⟨0, 0, 2⟩]
    let p := ((pf.read t false).run default).1
    t.OnlyRepeats ∧ Alternating t.repeatSigns blocks ∧ passesOf blocks ≤ pf.limit ∧
    passNumbers p.passes = List.range' 1 (passesOf blocks) ∧ p.overflow = false ∧
      p.conflict = false ∧ p.passes.toList.flatMap Pass.indices = expand t.sectionCount 0 blocks := by
  intro sec t pf blocks p
  have hsep : t.separatorsAt 0 = some sec.separators := rfl
  have hone : t.sectionCount = 1 := rfl
  have ht : t.OnlyRepeats := by
    refine ⟨⟨fun _ => by decide, by simp [t, hone]⟩, rfl, fun k hk s hs => ?_, fun k s hk _ => ?_⟩
    · obtain rfl : k = 0 := by omega
      rw [hsep, Option.some.injEq] at hs
      subst hs
      exact ⟨rfl, rfl, rfl, rfl⟩
    · omega
  have halt : Alternating t.repeatSigns blocks := by
    have hsigns : t.repeatSigns = [.start 0, .close 0 (some 2)] := rfl
    rw [hsigns]
    exact .block (by decide) .nil
  exact ⟨ht, halt, by decide, perform_expands_repeats pf t default blocks ht halt (by decide)⟩

end Jianpu
