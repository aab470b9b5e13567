import Mathlib
import Jianpu.Score.Links
/-!
# Ties and slurs pair the marked notes of a row

`linkRow` walks the notes of a row that are not extensions, section by section, and draws a
tie or a slur each time one closes. This file states that walk apart from the row it draws in.

* `Mark` — a note of a row other than an extension, with its section and its place there;
  `rowMarks` — the marks of a row in order.
* `Link` — a tie or slur drawn from one mark to a later one.
* `LinkWalk.step`, `walkMarks` — the walk over marks: a waiting tie closes at the next mark, a
  waiting slur at the next slur mark.
* `tieLinks` — a tie from every tied mark to the mark after it; `slurLinks` — slurs from the
  first slur mark to the second, the third to the fourth, and so on; `oddOut` — the last of an
  odd number of marks.

`walkMarks_links` says what the walk draws: its ties are `tieLinks` of the marks, its slurs
`slurLinks` of the slur marks, and it draws nothing else. `walkMarks_open` says what it leaves
open: a tie exactly when the last mark is tied, a slur exactly when the slur marks are odd in
number.
-/

namespace Jianpu

variable {α : Type}

/-- A note of a row other than an extension: its section, its place in the section, and the
note. -/
structure Mark (α : Type) where
  column : Nat
  index : Nat
  note : MusicNote α

namespace Mark

def anchor (m : Mark α) : Anchor :=
  ⟨m.column, m.index, m.note.startPos, m.note.line, m.note.span.start⟩

def tied (m : Mark α) : Bool := m.note.suffix.tie

def slurred (m : Mark α) : Bool := m.note.suffix.slur

@[simp] theorem anchor_column (m : Mark α) : m.anchor.column = m.column := rfl

@[simp] theorem anchor_note (m : Mark α) : m.anchor.note = m.index := rfl

end Mark

/-- The mark of note `i` of section `k`; none for an extension. -/
def MusicNote.mark? (k : Nat) (n : MusicNote α) (i : Nat) : Option (Mark α) :=
  match n.kind with
  | .note _ => some ⟨k, i, n⟩
  | .extend => none

def sectionMarks (row : Array (Section α)) (k : Nat) : List (Mark α) :=
  (((row[k]?).map Section.notes).getD []).zipIdx.filterMap fun p => p.1.mark? k p.2

def rowMarks (row : Array (Section α)) : List (Mark α) :=
  (List.range row.size).flatMap (sectionMarks row)

/-- A tie or slur drawn from one mark to another. -/
structure Link (α : Type) where
  kind : DecorationKind
  src : Mark α
  dst : Mark α

/-- What the walk over a row's marks has drawn, and the tie and slur waiting to close. -/
structure LinkWalk (α : Type) where
  links : List (Link α) := []
  tie : Option (Mark α) := none
  slur : Option (Mark α) := none

namespace LinkWalk

/-- One mark: the waiting tie closes at it, it opens a tie if tied, and a slur mark closes the
waiting slur or opens one. -/
def step (w : LinkWalk α) (m : Mark α) : LinkWalk α :=
  let w := match w.tie with
    | some src => { w with links := w.links ++ [⟨.tie, src, m⟩], tie := none }
    | none => w
  let w := if m.tied then { w with tie := some m } else w
  if m.slurred then
    match w.slur with
    | some src => { w with links := w.links ++ [⟨.slur, src, m⟩], slur := none }
    | none => { w with slur := some m }
  else w

end LinkWalk

def walkMarks (ms : List (Mark α)) : LinkWalk α := ms.foldl LinkWalk.step {}

def tieLinks : List (Mark α) → List (Link α)
  | [] => []
  | a :: ms => (if a.tied then (ms.head?.map fun b => ⟨.tie, a, b⟩).toList else []) ++ tieLinks ms

def slurLinks : List (Mark α) → List (Link α)
  | a :: b :: ms => ⟨.slur, a, b⟩ :: slurLinks ms
  | _ => []

def oddOut (ms : List (Mark α)) : Option (Mark α) :=
  if ms.length % 2 = 1 then ms.getLast? else none

/-! ## The spec lists -/

theorem oddOut_cons_cons (a b : Mark α) (ms : List (Mark α)) :
    oddOut (a :: b :: ms) = oddOut ms := by
  unfold oddOut
  cases ms with
  | nil => simp
  | cons c ms =>
    simp only [List.length_cons, List.getLast?_cons_cons]
    congr 1
    simp only [eq_iff_iff]
    omega

/-- A tie links a tied mark to the mark after it. -/
theorem mem_tieLinks {ms : List (Mark α)} {l : Link α} :
    l ∈ tieLinks ms ↔ ∃ j a b, ms[j]? = some a ∧ ms[j + 1]? = some b ∧
      a.tied = true ∧ l = ⟨.tie, a, b⟩ := by
  induction ms with
  | nil => simp [tieLinks]
  | cons a ms ih =>
    rw [tieLinks, List.mem_append, ih]
    constructor
    · -- a tie from the head, or one of the tail moved one place on
      rintro (hl | ⟨j, x, y, hx, hy, htied, rfl⟩)
      · split at hl
        · cases ms with
          | nil => simp at hl
          | cons b ms =>
            simp only [List.head?_cons, Option.map_some, Option.toList_some,
              List.mem_singleton] at hl
            exact ⟨0, a, b, rfl, rfl, by assumption, hl⟩
        · simp at hl
      · exact ⟨j + 1, x, y, hx, hy, htied, rfl⟩
    · rintro ⟨j, x, y, hx, hy, htied, rfl⟩
      cases j with
      | zero =>
        left
        cases ms with
        | nil => simp at hy
        | cons b ms =>
          simp only [List.getElem?_cons_zero, Option.some.injEq, List.getElem?_cons_succ] at hx hy
          subst hx hy
          simp [htied]
      | succ j =>
        right
        exact ⟨j, x, y, hx, hy, htied, rfl⟩

/-! ## What the walk draws -/

namespace LinkWalk

theorem step_ties (w : LinkWalk α) (m : Mark α) :
    (step w m).links.filter (·.kind == .tie) =
        w.links.filter (·.kind == .tie) ++ (w.tie.map fun t => ⟨.tie, t, m⟩).toList ∧
      (step w m).tie = if m.tied then some m else none := by
  obtain ⟨links, tie, slur⟩ := w
  cases tie <;> cases slur <;> cases hm : m.tied <;> cases hs : m.slurred <;>
    simp [step, hm, hs]

theorem step_slurs (w : LinkWalk α) (m : Mark α) :
    (step w m).links.filter (·.kind == .slur) =
        w.links.filter (·.kind == .slur) ++
          (if m.slurred then (w.slur.map fun s => ⟨.slur, s, m⟩).toList else []) ∧
      (step w m).slur = if m.slurred then (if w.slur.isSome then none else some m) else w.slur := by
  obtain ⟨links, tie, slur⟩ := w
  cases tie <;> cases slur <;> cases hm : m.tied <;> cases hs : m.slurred <;>
    simp [step, hm, hs]

theorem mem_step_links (w : LinkWalk α) (m : Mark α) :
    ∀ l ∈ (step w m).links, l ∈ w.links ∨ l.dst = m ∧ (l.kind = .tie ∨ l.kind = .slur) := by
  obtain ⟨links, tie, slur⟩ := w
  cases tie <;> cases slur <;> cases hm : m.tied <;> cases hs : m.slurred <;>
    simp [step, hm, hs] <;> aesop

/-- The ties a walk draws from a state whose waiting tie is tied: those drawn before, then a
tie from each tied mark of the waiting one and the marks still to come to the mark after it;
the tie left waiting is the last of these marks, if tied. -/
theorem foldl_ties :
    ∀ (ms : List (Mark α)) (w : LinkWalk α), (∀ t ∈ w.tie, t.tied = true) →
      (ms.foldl step w).links.filter (·.kind == .tie) =
          w.links.filter (·.kind == .tie) ++ tieLinks (w.tie.toList ++ ms) ∧
        (ms.foldl step w).tie = (w.tie.toList ++ ms).getLast?.filter Mark.tied
  | [], w, hw => by
    rw [List.foldl_nil]
    cases hwt : w.tie with
    | none => simp [tieLinks]
    | some t => simp [tieLinks, Option.filter, hw t hwt]
  | m :: ms, w, hw => by
    rw [List.foldl_cons]
    have hstep := step_ties w m
    have hnext : ∀ t ∈ (step w m).tie, t.tied = true := by
      rw [hstep.2]
      split <;> simp_all
    obtain ⟨ih₁, ih₂⟩ := foldl_ties ms (step w m) hnext
    refine ⟨?_, ?_⟩
    · rw [ih₁, hstep.1, hstep.2, List.append_assoc]
      congr 1
      -- the waiting tie closes at `m`; then `m` stands where the waiting tie stood
      cases hwt : w.tie with
      | none => cases hm : m.tied <;> simp [tieLinks, hm]
      | some t => cases hm : m.tied <;> simp [tieLinks, hm, hw t hwt]
    · rw [ih₂, hstep.2]
      cases hwt : w.tie <;> cases hm : m.tied <;> cases ms <;> simp [Option.filter, hm]

/-- The slurs a walk draws: those drawn before, then slurs pairing the waiting slur and the
slur marks still to come; the slur left waiting is the last of these if they are odd in
number. -/
theorem foldl_slurs :
    ∀ (ms : List (Mark α)) (w : LinkWalk α),
      (ms.foldl step w).links.filter (·.kind == .slur) =
          w.links.filter (·.kind == .slur) ++ slurLinks (w.slur.toList ++ ms.filter Mark.slurred) ∧
        (ms.foldl step w).slur = oddOut (w.slur.toList ++ ms.filter Mark.slurred)
  | [], w => by
    rw [List.foldl_nil]
    cases hws : w.slur <;> simp [slurLinks, oddOut]
  | m :: ms, w => by
    rw [List.foldl_cons]
    obtain ⟨ih₁, ih₂⟩ := foldl_slurs ms (step w m)
    obtain ⟨hs₁, hs₂⟩ := step_slurs w m
    rw [ih₁, ih₂, hs₁, hs₂]
    cases hm : m.slurred <;> cases hws : w.slur <;> simp [hm, slurLinks, oddOut_cons_cons]

theorem foldl_kinds :
    ∀ (ms : List (Mark α)) (w : LinkWalk α), (∀ l ∈ w.links, l.kind = .tie ∨ l.kind = .slur) →
      ∀ l ∈ (ms.foldl step w).links, l.kind = .tie ∨ l.kind = .slur
  | [], _, hw => hw
  | m :: ms, w, hw => by
    rw [List.foldl_cons]
    refine foldl_kinds ms (step w m) fun l hl => ?_
    rcases mem_step_links w m l hl with hl | ⟨-, hl⟩
    · exact hw l hl
    · exact hl

end LinkWalk

/-- **What the walk draws.** Its ties run from every tied mark to the mark after it, its
slurs pair the slur marks in order, and it draws nothing else. -/
theorem walkMarks_links (ms : List (Mark α)) :
    (walkMarks ms).links.filter (·.kind == .tie) = tieLinks ms ∧
      (walkMarks ms).links.filter (·.kind == .slur) = slurLinks (ms.filter Mark.slurred) ∧
      ∀ l ∈ (walkMarks ms).links, l.kind = .tie ∨ l.kind = .slur := by
  refine ⟨?_, ?_, LinkWalk.foldl_kinds ms {} (by simp)⟩
  · simpa [walkMarks] using (LinkWalk.foldl_ties ms {} (by simp)).1
  · simpa [walkMarks] using (LinkWalk.foldl_slurs ms {}).1

theorem walkMarks_open (ms : List (Mark α)) :
    (walkMarks ms).tie = ms.getLast?.filter Mark.tied ∧
      (walkMarks ms).slur = oddOut (ms.filter Mark.slurred) := by
  refine ⟨?_, ?_⟩
  · simpa [walkMarks] using (LinkWalk.foldl_ties ms {} (by simp)).2
  · simpa [walkMarks] using (LinkWalk.foldl_slurs ms {}).2

end Jianpu
