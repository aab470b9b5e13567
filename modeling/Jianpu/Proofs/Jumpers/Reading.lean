import Mathlib
import Jianpu.Content.JumperRow
import Jianpu.Proofs.Issues.Yields
/-!
# Jumpers read or reported

Each chunk of a jumper row is read on its own. Its range is one numeral or two joined by
`-`, digits of any script, and its last piece may be square brackets of attributes, each
group a pass number, an octave shift or neither.

* `JumperAttr.read` — what one attribute group says.
* `JumperAccounted` — what reading a chunk may give: a jumper and a warning for each
  unread attribute, or no jumper and one warning, or no jumper and nothing when a numeral
  of the range is no ASCII number below `2^64`.
* `readJumper_accounted` — every chunk reads so.
* `jumpers_kept_or_reported` — a whole row: its jumpers and issues are those of its chunks,
  in order, and every attribute group of a chunk is read.

The numerals are matched as digits of any script and then read as ASCII numbers of 64 bits,
so a range that matches may still not read; the chunk is then dropped without a warning.
-/

namespace Jianpu

namespace Chunk

def jumperAttrs (c : Chunk) : Option Bracketed :=
  (c.items.getLast?.bind Piece.asPair).filter fun p =>
    p.bracket == some .square && c.items.length > 1

/-- The text of a chunk before its attributes: a jumper's range. -/
def rangeText (src : LineText) (c : Chunk) : String :=
  match c.jumperAttrs with
  | some p => src.slice ⟨c.span.start, p.span.start⟩
  | none => c.text

def attrSpans (c : Chunk) : List Span :=
  ((c.jumperAttrs.map Bracketed.nonEmptyGroups).getD []).filterMap groupSpan

end Chunk

/-- What an attribute of a jumper says. -/
inductive JumperAttr where
  | pass (n : Nat)
  | octave (o : Int)
  | unread

namespace JumperAttr

/-- An attribute's text: a pass (digits and perhaps a point, a positive 32-bit number), else
an octave shift, else nothing read. -/
def read (text : String) : JumperAttr :=
  match (BarlineAttr.passDigits text.toList).bind fun ds =>
      (Decimal.readU32 (String.ofList ds)).filter (· > 0) with
  | some n => pass n
  | none =>
    match octaveOf text.toList with
    | some o => octave o
    | none => unread

def apply (j : Jumper) : JumperAttr → Jumper
  | pass n => { j with iterations := j.iterations ++ [n] }
  | octave o => { j with octave := o }
  | unread => j

def pass? : JumperAttr → Option Nat
  | pass n => some n
  | _ => none

def octave? : JumperAttr → Option Int
  | octave o => some o
  | _ => none

def isUnread : JumperAttr → Bool
  | unread => true
  | _ => false

end JumperAttr

section Attributes

variable (line : Nat) (src : LineText)

def attrPasses (spans : List Span) : List Nat :=
  spans.filterMap fun s => (JumperAttr.read (src.slice s)).pass?

def attrOctaves (spans : List Span) : List Int :=
  spans.filterMap fun s => (JumperAttr.read (src.slice s)).octave?

def attrWarnings (spans : List Span) : List Issue :=
  (spans.filter fun s => (JumperAttr.read (src.slice s)).isUnread).map fun s =>
    ⟨line, s.start, .warning, .badJumper (src.slice s)⟩

theorem foldl_apply (spans : List Span) : ∀ j : Jumper,
    spans.foldl (fun j s => (JumperAttr.read (src.slice s)).apply j) j =
      { j with iterations := j.iterations ++ attrPasses src spans,
               octave := (attrOctaves src spans).getLast?.getD j.octave } := by
  induction spans with
  | nil => intro j; simp [attrPasses, attrOctaves]
  | cons s spans ih =>
    intro j
    rw [List.foldl_cons, ih]
    cases h : JumperAttr.read (src.slice s) <;>
      simp [JumperAttr.apply, attrPasses, attrOctaves, h, JumperAttr.pass?, JumperAttr.octave?,
        List.getLast?_cons]

theorem attrWarnings_flatMap {α : Type} (f : α → List Span) (l : List α) :
    l.flatMap (fun a => attrWarnings line src (f a)) = attrWarnings line src (l.flatMap f) := by
  simp only [attrWarnings, List.filter_flatMap, List.map_flatMap]

end Attributes

/-- What reading a chunk of a jumper row gives. A jumper spans the chunk, covers the sections
its numerals name (from zero, the end exclusive, never empty) and takes its passes and octave
from its attributes, with one warning for each attribute that says neither. Otherwise there is
no jumper and one warning for the chunk, or none at all when a numeral of its range, a run of
digits of any script, is no ASCII number below `2^64`. -/
def JumperAccounted (line : Nat) (src : LineText) (c : Chunk) : Option Jumper → List Issue → Prop
  | some j, w =>
    j.span = c.span ∧ j.start < j.stop ∧
    (∃ a b, rangeDigits (c.rangeText src).toList = some (a, b) ∧
      Decimal.readU64 (String.ofList a) = some (j.start + 1) ∧
      Decimal.readU64 (String.ofList (b.getD a)) = some j.stop) ∧
    j.iterations = attrPasses src c.attrSpans ∧
    j.octave = (attrOctaves src c.attrSpans).getLast?.getD 0 ∧
    w = attrWarnings line src c.attrSpans
  | none, w =>
    w = [⟨line, c.span.start, .warning, .badJumper c.text⟩] ∨
    w = [] ∧ ∃ a b, rangeDigits (c.rangeText src).toList = some (a, b) ∧
      ∃ ds, (ds = a ∨ b = some ds) ∧ PropItem.isDigitRun ds = true ∧
        ∀ n, Decimal.digitValue ds = some n → 2 ^ 64 ≤ n

section Range

theorem readU64_digitRun_none {ds : List Char} (hds : PropItem.isDigitRun ds = true)
    (hn : Decimal.readU64 (String.ofList ds) = none) :
    ∀ n, Decimal.digitValue ds = some n → 2 ^ 64 ≤ n := by
  intro n hv
  obtain ⟨c, rest, rfl⟩ : ∃ c rest, ds = c :: rest := List.exists_cons_of_ne_nil (by
    rintro rfl; simp [PropItem.isDigitRun] at hds)
  have hc : Text.isDecimalDigit c = true := by
    simp only [PropItem.isDigitRun, List.all_cons, Bool.and_eq_true] at hds
    exact hds.2.1
  have hplus : c ≠ '+' := by rintro rfl; simp [Text.isDecimalDigit] at hc
  have hminus : c ≠ '-' := by rintro rfl; simp [Text.isDecimalDigit] at hc
  simp [Decimal.readU64, Decimal.readIntIn, hplus, hminus, hv] at hn
  omega

theorem rangeDigits_runs {cs a : List Char} {b : Option (List Char)}
    (h : rangeDigits cs = some (a, b)) :
    PropItem.isDigitRun a = true ∧ ∀ b', b = some b' → PropItem.isDigitRun b' = true := by
  unfold rangeDigits at h
  dsimp only at h
  have ha : PropItem.isDigitRun (cs.takeWhile Text.isDecimalDigit) =
      !(cs.takeWhile Text.isDecimalDigit).isEmpty := by
    simp [PropItem.isDigitRun, List.all_takeWhile]
  by_cases hne : (cs.takeWhile Text.isDecimalDigit).isEmpty = true
  · simp [hne] at h
  rw [if_neg hne] at h
  split at h
  · simp only [Option.some.injEq, Prod.mk.injEq] at h
    obtain ⟨rfl, rfl⟩ := h
    simp [ha, hne]
  · split at h
    · simp only [Option.some.injEq, Prod.mk.injEq] at h
      obtain ⟨rfl, rfl⟩ := h
      simp_all
    · simp at h
  · simp at h

end Range

section Reading

variable (line : Nat) (src : LineText)

theorem foldl_groups (groups : List (List Piece)) (j : Jumper) :
    groups.foldl (fun j g => (groupSpan g).toList.foldl
        (fun j s => (JumperAttr.read (src.slice s)).apply j) j) j =
      { j with iterations := j.iterations ++ attrPasses src (groups.filterMap groupSpan),
               octave := (attrOctaves src (groups.filterMap groupSpan)).getLast?.getD j.octave } := by
  rw [← foldl_apply, List.filterMap_eq_flatMap_toList, List.foldl_flatMap]

/-- A range whose ends read as a proper interval makes a jumper, whatever its attributes say. -/
theorem accounted_of_ends {c : Chunk} {a : List Char} {b : Option (List Char)} {start stop : Nat}
    (hrange : rangeDigits (c.rangeText src).toList = some (a, b))
    (hstart : Decimal.readU64 (String.ofList a) = some start)
    (hstop : Decimal.readU64 (String.ofList (b.getD a)) = some stop)
    (hpos : 0 < start) (hle : start ≤ stop) :
    JumperAccounted line src c
      (some (((c.jumperAttrs.map Bracketed.nonEmptyGroups).getD []).foldl
        (fun j g => (groupSpan g).toList.foldl
          (fun j s => (JumperAttr.read (src.slice s)).apply j) j)
        ⟨start - 1, stop, [], 0, c.span⟩))
      (((c.jumperAttrs.map Bracketed.nonEmptyGroups).getD []).flatMap
        fun g => attrWarnings line src (groupSpan g).toList) := by
  rw [foldl_groups, attrWarnings_flatMap, ← List.filterMap_eq_flatMap_toList]
  have hstart' : Decimal.readU64 (String.ofList a) = some (start - 1 + 1) := by
    rwa [Nat.sub_add_cancel hpos]
  refine ⟨rfl, ?_, ⟨a, b, hrange, hstart', hstop⟩, rfl, rfl, rfl⟩
  show start - 1 < stop
  omega

theorem readJumper_accounted (c : Chunk) :
    ∃ r w, Yields (readJumper line src c) r w ∧ JumperAccounted line src c r w := by
  unfold readJumper
  dsimp only
  split
  · exact ⟨none, _, Yields.warn_then _ _ _ _, .inl rfl⟩
  rename_i a b hab
  have hrange : rangeDigits (c.rangeText src).toList = some (a, b) := hab
  have hruns := rangeDigits_runs hrange
  split
  case h_2 hs =>
    have hs : Decimal.readU64 (String.ofList a) = none := by
      cases h : Decimal.readU64 (String.ofList a)
      · rfl
      · exact absurd h (hs _)
    exact ⟨none, [], Yields.pure _, .inr ⟨rfl, a, b, hrange, a, .inl rfl, hruns.1,
      readU64_digitRun_none hruns.1 hs⟩⟩
  rename_i start hs
  rcases b with _ | b
  on_goal 2 =>
    dsimp only
    rcases hb : Decimal.readU64 (String.ofList b) with _ | stop
    · dsimp only
      exact ⟨none, [], Yields.pure _, .inr ⟨rfl, a, some b, hrange, b, .inr rfl, hruns.2 b rfl,
        readU64_digitRun_none (hruns.2 b rfl) hb⟩⟩
    have hstop : Decimal.readU64 (String.ofList ((some b).getD a)) = some stop := hb
    dsimp only
  on_goal 1 =>
    have hstop : Decimal.readU64 (String.ofList ((none : Option (List Char)).getD a)) =
        some start := hs
    dsimp only
  -- both ends read: the same check and the same attribute loop follow
  all_goals
    simp only [pure_bind]
    split
    · exact ⟨none, _, Yields.warn_then _ _ _ _, .inl rfl⟩
    rename_i hlt
    refine ⟨_, _, Yields.bind_pure (Yields.forIn_yield
      (g := fun j g => (groupSpan g).toList.foldl
        (fun j s => (JumperAttr.read (src.slice s)).apply j) j)
      (w := fun g => attrWarnings line src (groupSpan g).toList) ?_ _ _) rfl, ?_⟩
    · intro g j
      rcases hg : groupSpan g with _ | span
      · simpa [attrWarnings] using Yields.pure (ForInStep.yield j)
      dsimp only
      split
      · rename_i n hn
        have hr : JumperAttr.read (src.slice span) = .pass n := by simp only [JumperAttr.read, hn]
        simpa [hr, attrWarnings, JumperAttr.apply, JumperAttr.isUnread] using
          Yields.pure (ForInStep.yield { j with iterations := j.iterations ++ [n] })
      rename_i hn
      split
      · rename_i o ho
        have hr : JumperAttr.read (src.slice span) = .octave o := by
          simp only [JumperAttr.read, hn, ho]
        simpa [hr, attrWarnings, JumperAttr.apply, JumperAttr.isUnread] using
          Yields.pure (ForInStep.yield { j with octave := o })
      rename_i ho
      have hr : JumperAttr.read (src.slice span) = .unread := by
        simp only [JumperAttr.read, hn, ho]
      simpa [hr, attrWarnings, JumperAttr.apply, JumperAttr.isUnread] using
        Yields.warn_then line span.start (.badJumper (src.slice span)) (ForInStep.yield j)
    · simp only [Bool.or_eq_true, beq_iff_eq, decide_eq_true_eq, not_or, not_lt] at hlt
      exact accounted_of_ends line src hrange hs hstop (Nat.pos_of_ne_zero hlt.1) hlt.2

theorem groupSpan_isSome {g : List Piece} (h : g ≠ []) : (groupSpan g).isSome = true := by
  obtain ⟨p, rest, rfl⟩ := List.exists_cons_of_ne_nil h
  simp [groupSpan, List.getLast?_cons]

theorem attrSpans_length (c : Chunk) :
    c.attrSpans.length = ((c.jumperAttrs.map Bracketed.nonEmptyGroups).getD []).length := by
  refine List.filterMap_length_eq_length.2 fun g hg => groupSpan_isSome ?_
  cases hp : c.jumperAttrs with
  | none => simp [hp] at hg
  | some p =>
    simp only [hp, Option.map_some, Option.getD_some, Bracketed.nonEmptyGroups,
      List.mem_filter, Bool.not_eq_true', List.isEmpty_eq_false_iff] at hg
    exact hg.2

theorem jumpers_kept_or_reported (items : List Piece) :
    (∃ outs : List (Option Jumper × List Issue),
      List.Forall₂ (fun c o => Yields (readJumper line src c) o.1 o.2 ∧
        JumperAccounted line src c o.1 o.2) (chunks src items) outs ∧
      Yields (readJumpers line src items) (outs.filterMap (·.1)) (outs.flatMap (·.2))) ∧
    ∀ c : Chunk,
      c.attrSpans.length = ((c.jumperAttrs.map Bracketed.nonEmptyGroups).getD []).length :=
  ⟨Yields.filterMapM_of (readJumper_accounted line src) (chunks src items), attrSpans_length⟩

end Reading

end Jianpu
