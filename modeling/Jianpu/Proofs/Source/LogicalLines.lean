import Mathlib
import Jianpu.Source.Line
import Jianpu.Proofs.Text.Cuts
/-!
# Logical lines lose nothing

`LogicalLine.split` cuts a text into physical lines at its line feeds, and joins a physical
line that ends in a single backslash to the next one. The logical lines it returns account for
every physical line, in order, and record where each piece of their text came from:

* `physicalLines_eq_splitOn` — the physical lines are the pieces between line feeds;
* `continues_iff` — a physical line continues when it ends in a backslash that does not follow
  another, and `body` is the line without that backslash;
* `Joined` — what a logical line records of the physical lines it was joined from, kept by
  `Joined.extend` when the next physical line joins it;
* `Joining` — the invariant of the joining loop: the segments so far number the physical lines
  read so far; `join_run` carries it to the end of the text;
* `Joining.ends` — a segment ends its logical line exactly when its physical line does not
  continue or is the last one; `Joined.offsetOf` — a row of a line falls at its segment.

Main statement: `split_lossless`.
-/

namespace Jianpu

theorem getElem?_snoc_eq_some {α : Type} {l : List α} {a s : α} {i : Nat} :
    (l ++ [a])[i]? = some s ↔ l[i]? = some s ∨ (i = l.length ∧ s = a) := by
  rw [List.getElem?_append, List.getElem?_singleton]
  grind

namespace LogicalLine

theorem physicalLines_eq_splitOn (cs : List Char) : physicalLines cs = cs.splitOn '\n' :=
  Text.splitOnChars_eq_splitOn cs '\n'

def body (raw : List Char) : List Char := if continues raw then raw.dropLast else raw

/-- The logical line with the physical line `n`, of text `b`, joined at its end. -/
def extend (l : LogicalLine) (n : Nat) (b : List Char) : LogicalLine :=
  { l with
    segments := l.segments ++ [⟨n, l.text.length, b.length⟩]
    text := l.text ++ String.ofList b }

@[simp] theorem extend_segments (l : LogicalLine) (n : Nat) (b : List Char) :
    (l.extend n b).segments = l.segments ++ [⟨n, l.text.length, b.length⟩] := rfl

@[simp] theorem extend_line (l : LogicalLine) (n : Nat) (b : List Char) :
    (l.extend n b).line = l.line := rfl

@[simp] theorem extend_text (l : LogicalLine) (n : Nat) (b : List Char) :
    (l.extend n b).text.toList = l.text.toList ++ b := by
  simp [extend]

theorem join_cons (done : Array LogicalLine) (pending : Option LogicalLine) (n : Nat)
    (raw : List Char) (rest : List (List Char)) :
    join done pending n (raw :: rest) =
      let line := (pending.getD ⟨n, "", []⟩).extend n (body raw)
      if continues raw then join done (some line) (n + 1) rest
      else join (done.push line) none (n + 1) rest := rfl

variable (P : List (List Char))

/-- What a logical line records of the physical lines `P` it was joined from: they are
numbered one after another from the line's own number; each segment starts where the lengths
before it end, and has the length of its physical line without a continuing backslash; the
text is those physical lines so cut, in order; and every physical line but the last
continues. -/
structure Joined (l : LogicalLine) : Prop where
  numbered : ∀ i s, l.segments[i]? = some s → s.line = l.line + i
  offsets : ∀ i s, l.segments[i]? = some s → s.offset = ((l.segments.take i).map (·.len)).sum
  lens : ∀ s ∈ l.segments, s.len = (body (P.getD s.line [])).length
  text : l.text.toList = l.segments.flatMap fun s => body (P.getD s.line [])
  inner : ∀ i s, i + 1 < l.segments.length → l.segments[i]? = some s →
    continues (P.getD s.line []) = true

variable {P}

theorem Joined.sum_lens {l : LogicalLine} (h : Joined P l) :
    (l.segments.map (·.len)).sum = l.text.length := by
  rw [← String.length_toList, h.text, List.length_flatMap]
  congr 1
  exact List.map_congr_left fun s hs => h.lens s hs

theorem joined_empty (n : Nat) : Joined P ⟨n, "", []⟩ :=
  ⟨by simp, by simp, by simp, by simp, by simp⟩

/-- Joining the next physical line keeps a line joined, when the lines before it continue. -/
theorem Joined.extend {l : LogicalLine} {n : Nat} (h : Joined P l)
    (hstop : l.line + l.segments.length = n)
    (hlast : ∀ s, l.segments.getLast? = some s → continues (P.getD s.line []) = true) :
    Joined P (l.extend n (body (P.getD n []))) := by
  refine ⟨fun i s hs => ?_, fun i s hs => ?_, fun s hs => ?_, ?_, fun i s hi hs => ?_⟩
  · rw [extend_segments, getElem?_snoc_eq_some] at hs
    rcases hs with hs | ⟨rfl, rfl⟩
    · exact h.numbered i s hs
    · exact hstop.symm
  · rw [extend_segments, getElem?_snoc_eq_some] at hs
    rcases hs with hs | ⟨rfl, rfl⟩
    · have hi : i ≤ l.segments.length := (List.getElem?_eq_some_iff.1 hs).1.le
      rw [extend_segments, List.take_append_of_le_length hi]
      exact h.offsets i s hs
    · -- the new segment starts where the text ended
      simp [h.sum_lens]
  · rw [extend_segments, List.mem_append, List.mem_singleton] at hs
    rcases hs with hs | rfl
    · exact h.lens s hs
    · rfl
  · simp [h.text]
  · rw [extend_segments, getElem?_snoc_eq_some] at hs
    rw [extend_segments, List.length_append, List.length_singleton] at hi
    rcases hs with hs | ⟨rfl, rfl⟩
    · by_cases hlt : i + 1 < l.segments.length
      · exact h.inner i s hlt hs
      · -- the segment that was last continues into the new one
        apply hlast s
        rw [List.getLast?_eq_getElem?, ← hs]
        congr 1
        omega
    · omega

variable (P) in
/-- The joining loop before physical line `n`: the segments of the lines done and of the
pending line number the physical lines before `n` in order; every line is joined and holds a
segment; a line done ends in a physical line that does not continue, and the pending line
ends in one that does, just before `n`. -/
structure Joining (n : Nat) (done : List LogicalLine) (pending : Option LogicalLine) : Prop where
  rows : ((done ++ pending.toList).flatMap (·.segments)).map (·.line) = List.range n
  joined : ∀ l ∈ done ++ pending.toList, Joined P l ∧ l.segments ≠ []
  closed : ∀ l ∈ done, ∀ s, l.segments.getLast? = some s → continues (P.getD s.line []) = false
  pending : ∀ p, pending = some p → p.line + p.segments.length = n ∧
    ∀ s, p.segments.getLast? = some s → continues (P.getD s.line []) = true

theorem joining_start : Joining P 0 [] none :=
  ⟨rfl, by simp, by simp, by simp⟩

theorem flatMap_pending (done : List LogicalLine) (pending : Option LogicalLine) (n : Nat) :
    (done ++ pending.toList).flatMap (·.segments) =
      done.flatMap (·.segments) ++ (pending.getD ⟨n, "", []⟩).segments := by
  cases pending <;> simp

/-- The physical line `n` joins the pending line, which stays pending when it continues and is
done when it does not. -/
theorem Joining.step {n : Nat} {done : List LogicalLine} {pending : Option LogicalLine}
    (h : Joining P n done pending) :
    let line := (pending.getD ⟨n, "", []⟩).extend n (body (P.getD n []))
    (continues (P.getD n []) = true → Joining P (n + 1) done (some line)) ∧
    (continues (P.getD n []) = false → Joining P (n + 1) (done ++ [line]) none) := by
  intro line
  -- the line the physical line joins: joined, numbered up to `n`, its last line continuing
  have hbase : Joined P (pending.getD ⟨n, "", []⟩) ∧
      (pending.getD ⟨n, "", []⟩).line + (pending.getD ⟨n, "", []⟩).segments.length = n ∧
      ∀ s, (pending.getD ⟨n, "", []⟩).segments.getLast? = some s →
        continues (P.getD s.line []) = true := by
    cases pending with
    | none => exact ⟨joined_empty n, by simp, by simp⟩
    | some p =>
      obtain ⟨hstop, hlast⟩ := h.pending p rfl
      exact ⟨(h.joined p (by simp)).1, hstop, hlast⟩
  have hline : Joined P line := hbase.1.extend hbase.2.1 hbase.2.2
  have hne : line.segments ≠ [] := by simp [line]
  have hrows : ((done ++ [line]).flatMap (·.segments)).map (·.line) = List.range (n + 1) := by
    rw [List.range_succ, ← h.rows, flatMap_pending done pending n]
    simp [line]
  have hdone : ∀ l ∈ done, Joined P l ∧ l.segments ≠ [] :=
    fun l hl => h.joined l (List.mem_append_left _ hl)
  refine ⟨fun hc => ⟨by simpa using hrows, ?_, h.closed, ?_⟩, fun hc => ⟨by simpa using hrows, ?_, ?_, by simp⟩⟩
  · intro l hl
    rcases List.mem_append.1 hl with hl | hl
    · exact hdone l hl
    · simp only [Option.mem_toList, Option.some.injEq] at hl
      rw [← hl]
      exact ⟨hline, hne⟩
  · rintro p ⟨⟩
    have hstop := hbase.2.1
    refine ⟨?_, fun s hs => ?_⟩
    · simp only [line, extend_line, extend_segments, List.length_append, List.length_singleton]
      omega
    simp [line] at hs
    rw [← hs]
    exact hc
  · intro l hl
    simp only [List.append_nil, Option.toList_none, List.mem_append, List.mem_singleton] at hl
    rcases hl with hl | rfl
    · exact hdone l hl
    · exact ⟨hline, hne⟩
  · intro l hl s hs
    rcases List.mem_append.1 hl with hl | hl
    · exact h.closed l hl s hs
    · rw [List.mem_singleton.1 hl] at hs
      simp [line] at hs
      rw [← hs]
      exact hc

/-- **The joining loop**, from any state that keeps `Joining`, ends in lines done and a line
pending that keep it over all the physical lines. -/
theorem join_run : ∀ (raws : List (List Char)) (done : Array LogicalLine)
    (pending : Option LogicalLine) (n : Nat), P.drop n = raws → n ≤ P.length →
    Joining P n done.toList pending →
    ∃ done' pending', (join done pending n raws).toList = done' ++ pending'.toList ∧
      Joining P P.length done' pending'
  | [], done, pending, n, hraws, hn, h => by
    have hlen : n = P.length := by
      have := List.drop_eq_nil_iff.1 hraws
      omega
    refine ⟨done.toList, pending, ?_, hlen ▸ h⟩
    cases pending <;> simp [join]
  | raw :: rest, done, pending, n, hraws, hn, h => by
    have hlt : n < P.length := by
      by_contra hge
      rw [List.drop_eq_nil_of_le (by omega)] at hraws
      cases hraws
    -- the physical line `n` is `raw`, and the rest starts at `n + 1`
    rw [List.drop_eq_getElem_cons hlt, List.cons.injEq] at hraws
    have hraw : P.getD n [] = raw := by
      rw [List.getD_eq_getElem _ _ hlt]
      exact hraws.1
    obtain ⟨hcont, hdone⟩ := h.step
    rw [hraw] at hcont hdone
    rw [join_cons]
    dsimp only
    split
    · rename_i hc
      exact join_run rest _ _ _ hraws.2 hlt (hcont hc)
    · rename_i hc
      exact join_run rest _ _ _ hraws.2 hlt (by simpa using hdone (by simpa using hc))

theorem Joining.line_lt {n : Nat} {done : List LogicalLine} {pending : Option LogicalLine}
    (h : Joining P n done pending) {l : LogicalLine} (hl : l ∈ done ++ pending.toList)
    {s : Segment} (hs : s ∈ l.segments) : s.line < n := by
  have hmem : s.line ∈ ((done ++ pending.toList).flatMap (·.segments)).map (·.line) :=
    List.mem_map_of_mem (List.mem_flatMap.2 ⟨l, hl, hs⟩)
  rw [h.rows, List.mem_range] at hmem
  exact hmem

/-- Once every physical line is read, a segment ends its logical line exactly when its
physical line does not continue or is the last one. -/
theorem Joining.ends {done : List LogicalLine} {pending : Option LogicalLine}
    (h : Joining P P.length done pending) {l : LogicalLine} (hl : l ∈ done ++ pending.toList)
    {i : Nat} {s : Segment} (hs : l.segments[i]? = some s) :
    i + 1 = l.segments.length ↔
      continues (P.getD s.line []) = false ∨ s.line + 1 = P.length := by
  obtain ⟨hjoined, -⟩ := h.joined l hl
  have hi : i < l.segments.length := (List.getElem?_eq_some_iff.1 hs).1
  constructor
  · intro hlast
    have hget : l.segments.getLast? = some s := by
      rw [List.getLast?_eq_getElem?, ← hs]
      congr 1
      omega
    rcases List.mem_append.1 hl with hl | hl
    · exact .inl (h.closed l hl s hget)
    · -- the pending line ends at the last physical line
      rw [Option.mem_toList] at hl
      have hstop := (h.pending l hl).1
      have hline := hjoined.numbered i s hs
      exact .inr (by omega)
  · intro hend
    by_contra hne
    -- a segment follows, so the physical line continues into one that exists
    obtain ⟨s', hs'⟩ : ∃ s', l.segments[i + 1]? = some s' :=
      Option.isSome_iff_exists.1 (by simp; omega)
    have hcont := hjoined.inner i s (by omega) hs
    have hnext := hjoined.numbered (i + 1) s' hs'
    have hline := hjoined.numbered i s hs
    have hlt := h.line_lt hl (List.mem_of_getElem? hs')
    rw [hcont] at hend
    simp only [Bool.true_eq_false, false_or] at hend
    omega

theorem Joined.offsetOf {l : LogicalLine} (h : Joined P l) {s : Segment} (hs : s ∈ l.segments)
    (col : Nat) : l.offsetOf s.line col = some (s.offset + min col s.len) := by
  obtain ⟨i, hi, rfl⟩ := List.getElem_of_mem hs
  have hfind : l.segments.find? (·.line == l.segments[i].line) = some l.segments[i] := by
    rw [List.find?_eq_some_iff_getElem]
    refine ⟨by simp, i, hi, rfl, fun j hj => ?_⟩
    -- earlier segments hold earlier rows
    have hj' := h.numbered j _ (List.getElem?_eq_getElem (by omega))
    have hi' := h.numbered i _ (List.getElem?_eq_getElem hi)
    simp only [Bool.not_eq_true', beq_eq_false_iff_ne]
    omega
  simp [LogicalLine.offsetOf, hfind]

theorem offsetOf_eq_none {l : LogicalLine} {row : Nat} (h : ∀ s ∈ l.segments, s.line ≠ row)
    (col : Nat) : l.offsetOf row col = none := by
  rw [LogicalLine.offsetOf, Option.map_eq_none_iff, List.find?_eq_none]
  intro s hs
  simpa using h s hs

/-- A physical line continues when it ends in a backslash that does not follow another. -/
theorem continues_iff (raw : List Char) :
    continues raw = true ↔ ∃ b, raw = b ++ ['\\'] ∧ b.getLast? ≠ some '\\' := by
  induction raw using List.reverseRecOn with
  | nil => simp [continues]
  | append_singleton b c _ =>
    by_cases hc : c = '\\'
    · subst hc
      -- the backslash continues unless another stands before it
      induction b using List.reverseRecOn with
      | nil => simp [continues]
      | append_singleton b₀ d _ =>
        by_cases hd : d = '\\'
        · subst hd
          simp [continues]
          intro x hx
          have hx' : x = b₀ ++ ['\\'] := by simpa using (congrArg List.dropLast hx).symm
          simp [hx']
        · simp [continues, hd]
          exact ⟨b₀ ++ [d], by simp, by simp [hd]⟩
    · simp [continues, hc]

/-- **Logical lines lose nothing.** Cut the text, its carriage returns made line feeds, into
its physical lines `P`. The segments of the logical lines, in order, are the physical lines
`0, 1, …, |P| - 1`. Each logical line carries the number of its first segment; its segments
start where the lengths before them end, their lengths add up to the length of its text, and
each has the length of its physical line without a continuing backslash; its text is its
physical lines so cut, in order. A segment ends its logical line exactly when its physical
line does not continue or is the last one. A physical row and column of a logical line fall
at its segment's offset, the column held to the segment's length; other rows are not in
it. -/
theorem split_lossless (text : String) :
    let P := (normalizeBreaks text.toList).splitOn '\n'
    ((split text).flatMap (·.segments)).map (·.line) = List.range P.length ∧
    ∀ l ∈ split text,
      l.segments.head?.map (·.line) = some l.line ∧
      (∀ i s, l.segments[i]? = some s → s.offset = ((l.segments.take i).map (·.len)).sum) ∧
      (l.segments.map (·.len)).sum = l.text.length ∧
      (∀ s ∈ l.segments, s.len = (body (P.getD s.line [])).length) ∧
      l.text.toList = l.segments.flatMap (fun s => body (P.getD s.line [])) ∧
      (∀ i s, l.segments[i]? = some s →
        (i + 1 = l.segments.length ↔
          continues (P.getD s.line []) = false ∨ s.line + 1 = P.length)) ∧
      (∀ s ∈ l.segments, ∀ col, l.offsetOf s.line col = some (s.offset + min col s.len)) ∧
      (∀ row col, (∀ s ∈ l.segments, s.line ≠ row) → l.offsetOf row col = none) := by
  intro P
  obtain ⟨done, pending, hjoin, h⟩ := join_run P #[] none 0 rfl (Nat.zero_le _) joining_start
  have hsplit : split text = done ++ pending.toList := by
    rw [split, physicalLines_eq_splitOn]
    exact hjoin
  rw [hsplit]
  refine ⟨h.rows, fun l hl => ?_⟩
  obtain ⟨hjoined, hne⟩ := h.joined l hl
  -- the first segment is numbered by the line
  have hhead : l.segments.head?.map (·.line) = some l.line := by
    obtain ⟨s, hs⟩ := Option.ne_none_iff_exists'.1 (mt List.head?_eq_none_iff.1 hne)
    rw [hs, Option.map_some, hjoined.numbered 0 s (by rwa [← List.head?_eq_getElem?])]
    rfl
  exact ⟨hhead, hjoined.offsets, hjoined.sum_lens, hjoined.lens, hjoined.text,
    fun i s hs => h.ends hl hs, fun s hs col => hjoined.offsetOf hs col,
    fun row col hrow => offsetOf_eq_none hrow col⟩

end LogicalLine

end Jianpu
