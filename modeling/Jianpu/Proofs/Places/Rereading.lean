import Mathlib
import Jianpu.Proofs.Places.Cursor
import Jianpu.Proofs.Places.Pieces
import Jianpu.Proofs.Source.LogicalLines
import Jianpu.Proofs.Context.Runs
/-!
# Reading one line again

The section under the cursor is found by reading the logical line under it on its own: its
text is split, classified and grouped again. That reading finds the row the whole text's
reading found for the line:

* a logical line's text is one physical line that does not continue (`split_text`): it holds
  no line break, and it does not end in a lone backslash, since none of the pieces it was
  joined from does (`continues_body`, `continues_append`);
* logical lines have different numbers (`split_eq_of_line_eq`), so a command line of the text
  numbered like a logical line was read from that line (`classify_from_lines`);
* the scanner's tokens do not depend on the line number, which only its issues carry
  (`Token.scan_tokens`); classifying tokens on another line gives the same command line on
  that line (`ScoreLine.ofTokens_relined`); and grouping a command line's brackets depends on
  neither its line nor the journal (`GroupedLine.ofCommandLine_relined`).

* `classify_reread` — the command line the cursor's lookup reads for a logical line is the one
  the text's reading found there, on line `0`, and its row groups into the same pieces.
-/

namespace Jianpu

namespace LogicalLine

/-! ## A logical line's text is one physical line -/

theorem continues_body (raw : List Char) : continues (body raw) = false := by
  unfold body
  split
  · rename_i hc
    obtain ⟨b, rfl, hb⟩ := (continues_iff raw).1 hc
    rw [List.dropLast_concat, Bool.eq_false_iff]
    intro hb'
    obtain ⟨b', rfl, -⟩ := (continues_iff b).1 hb'
    exact hb (by simp)
  · exact Bool.eq_false_iff.2 ‹_›

/-- Two texts that do not continue make one that does not. -/
theorem continues_append {a b : List Char} (ha : continues a = false) (hb : continues b = false) :
    continues (a ++ b) = false := by
  rw [Bool.eq_false_iff]
  intro hab
  obtain ⟨c, hc, hlast⟩ := (continues_iff _).1 hab
  induction b using List.reverseRecOn with
  | nil =>
    rw [List.append_nil] at hc
    exact absurd ((continues_iff a).2 ⟨c, hc, hlast⟩) (by simp [ha])
  | append_singleton b x _ =>
    -- the last character is the backslash, and the one before it another
    rw [← List.append_assoc] at hc
    obtain ⟨rfl, hx⟩ := List.append_inj' hc rfl
    obtain rfl : x = '\\' := by simpa using hx
    have hb' : b.getLast? = some '\\' := by
      by_contra hne
      exact absurd ((continues_iff _).2 ⟨b, rfl, hne⟩) (by simp [hb])
    exact hlast (by simp [List.getLast?_append, hb'])

theorem continues_flatMap {β : Type} (l : List β) (f : β → List Char)
    (h : ∀ x ∈ l, continues (f x) = false) : continues (l.flatMap f) = false := by
  induction l with
  | nil => rfl
  | cons x l ih =>
    rw [List.flatMap_cons]
    exact continues_append (h x List.mem_cons_self) (ih fun y hy => h y (List.mem_cons_of_mem _ hy))

theorem not_mem_normalizeBreaks (cs : List Char) : '\r' ∉ normalizeBreaks cs := by
  fun_induction normalizeBreaks cs <;> grind

theorem normalizeBreaks_of_not_mem {cs : List Char} (h : '\r' ∉ cs) : normalizeBreaks cs = cs := by
  fun_induction normalizeBreaks cs <;> simp_all

/-- A physical line holds no line feed, and only characters of the text. -/
theorem mem_physicalLines {cs p : List Char} (hp : p ∈ physicalLines cs) :
    '\n' ∉ p ∧ ∀ c ∈ p, c ∈ cs := by
  rw [physicalLines_eq_splitOn] at hp
  induction cs generalizing p with
  | nil =>
    rw [List.splitOn_nil, List.mem_singleton] at hp
    simp [hp]
  | cons c cs ih =>
    rw [List.splitOn_cons_eq_if_modifyHead] at hp
    obtain ⟨q, qs, hqs⟩ := List.exists_cons_of_ne_nil (List.splitOn_ne_nil '\n' cs)
    rw [hqs] at hp ih
    split at hp
    · -- a line feed starts a new piece
      rcases List.mem_cons.1 hp with rfl | hp
      · simp
      · have hp' := ih hp
        exact ⟨hp'.1, fun d hd => List.mem_cons_of_mem _ (hp'.2 d hd)⟩
    · -- any other character joins the first piece
      rename_i hc
      rw [List.modifyHead_cons] at hp
      rcases List.mem_cons.1 hp with rfl | hp
      · have hq := ih List.mem_cons_self
        refine ⟨by simp [Ne.symm (by simpa using hc), hq.1], fun d hd => ?_⟩
        rcases List.mem_cons.1 hd with rfl | hd
        · exact List.mem_cons_self
        · exact List.mem_cons_of_mem _ (hq.2 d hd)
      · have hp' := ih (List.mem_cons_of_mem _ hp)
        exact ⟨hp'.1, fun d hd => List.mem_cons_of_mem _ (hp'.2 d hd)⟩

theorem physicalLines_of_not_mem {cs : List Char} (h : '\n' ∉ cs) : physicalLines cs = [cs] := by
  rw [physicalLines_eq_splitOn, List.splitOn_eq_singleton h]

/-- What a logical line's text is made of: no line break, and no lone backslash at its end. -/
structure Settled (l : LogicalLine) : Prop where
  feeds : '\n' ∉ l.text.toList
  returns : '\r' ∉ l.text.toList
  closed : continues l.text.toList = false

/-- Every logical line of a text is settled, and its first segment is its own line. -/
theorem split_settled (text : String) :
    ∀ l ∈ split text, l.Settled ∧ l.line ∈ l.rows := by
  let P := (normalizeBreaks text.toList).splitOn '\n'
  obtain ⟨done, pending, hjoin, h⟩ :=
    join_run P #[] none 0 rfl (Nat.zero_le _) joining_start
  have hsplit : split text = done ++ pending.toList := by
    rw [split, physicalLines_eq_splitOn]
    exact hjoin
  intro l hl
  rw [hsplit] at hl
  obtain ⟨hjoined, hne⟩ := h.joined l hl
  -- every physical line is a piece of the normalised text
  have hpiece : ∀ s, '\n' ∉ P.getD s [] ∧ '\r' ∉ P.getD s [] := by
    intro s
    rw [List.getD_eq_getElem?_getD]
    cases hs : P[s]? with
    | none => simp
    | some p =>
      have hp : p ∈ physicalLines (normalizeBreaks text.toList) := by
        rw [physicalLines_eq_splitOn]
        exact List.mem_of_getElem? hs
      obtain ⟨hfeed, hsub⟩ := mem_physicalLines hp
      exact ⟨hfeed, fun hr => not_mem_normalizeBreaks _ (hsub _ hr)⟩
  have hbody : ∀ s, '\n' ∉ body (P.getD s []) ∧ '\r' ∉ body (P.getD s []) := by
    intro s
    unfold body
    split
    · exact ⟨fun h' => (hpiece s).1 (List.mem_of_mem_dropLast h'),
        fun h' => (hpiece s).2 (List.mem_of_mem_dropLast h')⟩
    · exact hpiece s
  refine ⟨⟨?_, ?_, ?_⟩, ?_⟩
  · rw [hjoined.text, List.mem_flatMap]
    rintro ⟨s, -, hs⟩
    exact (hbody s.line).1 hs
  · rw [hjoined.text, List.mem_flatMap]
    rintro ⟨s, -, hs⟩
    exact (hbody s.line).2 hs
  · rw [hjoined.text]
    exact continues_flatMap _ _ fun s _ => continues_body _
  · -- the first segment is numbered by the line
    obtain ⟨s, hs⟩ := List.exists_mem_of_ne_nil _ hne
    obtain ⟨s₀, hs₀⟩ : ∃ s₀, l.segments[0]? = some s₀ :=
      Option.isSome_iff_exists.1 (by simp [List.length_pos_of_mem hs])
    have hline := hjoined.numbered 0 s₀ hs₀
    rw [rows, List.mem_map]
    exact ⟨s₀, List.mem_of_getElem? hs₀, by simpa using hline⟩

theorem split_text {text : String} {l : LogicalLine} (hl : l ∈ split text) :
    split l.text = [⟨0, l.text, [⟨0, 0, l.text.length⟩]⟩] := by
  obtain ⟨hs, -⟩ := split_settled text l hl
  rw [split, normalizeBreaks_of_not_mem hs.returns, physicalLines_of_not_mem hs.feeds, join_cons]
  simp [hs.closed, body, join, extend, String.length_toList]

/-- Logical lines have different numbers. -/
theorem split_eq_of_line_eq {text : String} {l l' : LogicalLine} (hl : l ∈ split text)
    (hl' : l' ∈ split text) (heq : l.line = l'.line) : l = l' := by
  have hrows : ∀ l ∈ split text, l.line ∈ l.rows := fun l hl => (split_settled text l hl).2
  have horder := split_rowsInOrder text
  generalize split text = ls at hl hl' hrows horder
  induction ls with
  | nil => exact absurd hl List.not_mem_nil
  | cons a ls ih =>
    rw [RowsInOrder, List.pairwise_cons] at horder
    -- a line after the first has all its rows after the first's
    have hafter : ∀ b ∈ ls, a.line < b.line := fun b hb =>
      horder.1 b hb a.line (hrows a List.mem_cons_self) b.line (hrows b (List.mem_cons_of_mem _ hb))
    rcases List.mem_cons.1 hl with hla | hla <;> rcases List.mem_cons.1 hl' with hla' | hla'
    · rw [hla, hla']
    · exact absurd (hla ▸ heq) (Nat.ne_of_lt (hafter l' hla'))
    · exact absurd (hla' ▸ heq).symm (Nat.ne_of_lt (hafter l hla))
    · exact ih hla hla' (fun b hb => hrows b (List.mem_cons_of_mem _ hb)) horder.2

end LogicalLine

/-! ## Reading does not depend on the line number -/

namespace Token

/-- The scanner's tokens do not depend on the line its issues are raised on, nor on the issues
raised before. -/
theorem scanFrom_tokens (n m pos : Nat) (head : Bool) (tokens : Array Token)
    (issues issues' : Array Issue) (cs : List Char) :
    (scanFrom n pos head tokens issues cs).1 = (scanFrom m pos head tokens issues' cs).1 := by
  induction pos, head, tokens, issues, cs using scanFrom.induct n generalizing issues' with
  | case1 pos head tokens issues => rw [scanFrom, scanFrom]
  | case2 pos head tokens issues c rest lx acc k hk ih =>
    rw [scanFrom.eq_2, scanFrom.eq_2, hk]
    exact ih _
  | case3 pos head tokens issues c rest lx acc hk ih =>
    rw [scanFrom.eq_2, scanFrom.eq_2, hk]
    exact ih _

theorem scan_tokens (n m : Nat) (text : String) : (scan n text).1 = (scan m text).1 :=
  scanFrom_tokens n m 0 true #[] #[] #[] text.toList

end Token

namespace ScoreLine

def relined (m : Nat) : ScoreLine → ScoreLine
  | .delimiter _ level => .delimiter m level
  | .command c => .command { c with line := m }

theorem extractProps_relined (n m : Nat) (between : List Token) (colonAt : Nat) :
    Always₂ (extractProps n between colonAt) (extractProps m between colonAt) Eq := by
  unfold extractProps
  dsimp only
  split
  · -- malformed properties are reported, and read all the same
    split
    · exact (Always₂.unit _ _).bind fun _ _ _ => Always₂.pure rfl
    · exact Always₂.pure rfl
  · exact Always₂.pure rfl

/-- Read on another line, tokens make the same score line on that line. -/
theorem ofTokens_relined (n m : Nat) (lineText : String) (tokens : List Token) :
    Always₂ (ofTokens n lineText tokens) (ofTokens m lineText tokens)
      fun a b => b = a.map (relined m) := by
  unfold ofTokens
  dsimp only
  split
  · exact Always₂.pure rfl
  · split
    · exact Always₂.pure rfl
    · -- no colon or no known command: a warning and nothing read
      split
      · exact (Always₂.unit _ _).bind fun _ _ _ => Always₂.pure rfl
      · split
        · exact (Always₂.unit _ _).bind fun _ _ _ => Always₂.pure rfl
        · refine (extractProps_relined n m _ _).bind fun a b hab => Always₂.pure ?_
          rw [hab]
          rfl

theorem ofTokens_steady (n : Nat) (lineText : String) (tokens : List Token) :
    Steady (ofTokens n lineText tokens) := fun j j' =>
  (ofTokens_relined n n lineText tokens j j).trans (ofTokens_relined n n lineText tokens j j').symm

theorem ofTokens_command_line {n : Nat} {lineText : String} {tokens : List Token} {j : Journal}
    {c : CommandLine} (h : ((ofTokens n lineText tokens).run j).1 = some (.command c)) :
    c.line = n := by
  have hself := ofTokens_relined n n lineText tokens j j
  rw [h, Option.map_some, relined, Option.some.injEq, ScoreLine.command.injEq] at hself
  exact congrArg CommandLine.line hself

/-- Every command line the classifier reads from a text is what the tokens of one of its logical
lines make. -/
theorem classify_from_lines (text : String) :
    Always (classify text) fun lines => ∀ c ∈ commands lines, ∃ l ∈ LogicalLine.split text,
      ((ofTokens l.line l.text (Token.scan l.line l.text).1.toList).run {}).1 = some (.command c) := by
  unfold classify
  refine (Always.forIn_of_mem (fun out : Array ScoreLine => ∀ c ∈ commands out.toList,
      ∃ l ∈ LogicalLine.split text,
        ((ofTokens l.line l.text (Token.scan l.line l.text).1.toList).run {}).1 = some (.command c))
    _ (fun l hl out hout => ?_) #[] (by simp)).bind fun _ hout => Always.pure hout
  -- each logical line is scanned, its issues raised, and then read
  refine Always.any.bind fun _ _ => (ofTokens_steady _ _ _).always_eq.bind fun o ho => ?_
  cases o with
  | none => exact Always.pure hout
  | some s =>
    refine Always.pure fun c hc => ?_
    change c ∈ commands (out.push s).toList at hc
    rw [Array.toList_push, commands, List.filterMap_append] at hc
    rcases List.mem_append.1 hc with hc | hc
    · exact hout c hc
    · cases s with
      | delimiter => simp at hc
      | command c' =>
        simp only [List.filterMap_cons, List.filterMap_nil, List.mem_singleton] at hc
        exact ⟨l, hl, hc ▸ ho.symm⟩

theorem classify_single {text : String} {l : LogicalLine} (h : LogicalLine.split text = [l]) :
    Always (classify text)
      (· = ((ofTokens l.line l.text (Token.scan l.line l.text).1.toList).run {}).1.toList) := by
  unfold classify
  rw [h]
  simp only [List.forIn_cons, List.forIn_nil]
  generalize ho₀ : ((ofTokens l.line l.text (Token.scan l.line l.text).1.toList).run {}).1 = o₀
  -- one step of the loop, which only ever goes on
  refine Always.bind (P := fun out : Array ScoreLine => out.toList = o₀.toList)
    (Always.bind (P := fun r : ForInStep (Array ScoreLine) => r.value.toList = o₀.toList)
      (Always.any.bind fun _ _ => (ofTokens_steady _ _ _).always_eq.bind fun o ho => ?_)
      fun r hr => ?_) fun out hout => Always.pure hout
  · cases o <;> exact Always.pure (by rw [← ho₀, ← ho]; rfl)
  · cases r <;> exact Always.pure hr

/-- **A logical line classified on its own.** A command line read from a text on the line of one
of its logical lines is what classifying that line's text alone reads, on line `0`. -/
theorem classify_reread {text : String} {L : LogicalLine} (hL : L ∈ LogicalLine.split text)
    {j : Journal} {c : CommandLine} (hc : c ∈ commands ((classify text).run j).1)
    (hline : c.line = L.line) (j' : Journal) :
    ((classify L.text).run j').1 = [.command { c with line := 0 }] := by
  obtain ⟨l, hl, hread⟩ := classify_from_lines text j c hc
  -- the command line's number names one logical line
  obtain rfl : l = L :=
    LogicalLine.split_eq_of_line_eq hl hL ((ofTokens_command_line hread).symm.trans hline)
  -- alone, the line is numbered `0`: its tokens are the same, and so is what they make
  have h0 := ofTokens_relined l.line 0 l.text (Token.scan l.line l.text).1.toList {} {}
  rw [hread] at h0
  have hsingle := classify_single (LogicalLine.split_text hL) j'
  dsimp only at hsingle
  rw [hsingle, Token.scan_tokens 0 l.line, h0]
  rfl

end ScoreLine

namespace Bracketed

variable (n m : Nat) (chars : Array Char)

theorem closeOrDrop_relined (b : Bracket) (stop at' : Nat) (stack : List Open) :
    Always₂ (closeOrDrop n chars b stop at' stack) (closeOrDrop m chars b stop at' stack) Eq := by
  unfold closeOrDrop
  split
  · exact Always₂.pure rfl
  · exact (Always₂.unit _ _).bind fun _ _ _ => Always₂.pure rfl

theorem step_relined (mode : SplitMode) (stack : List Open) (t : Token) :
    Always₂ (step n chars mode stack t) (step m chars mode stack t) Eq := by
  unfold step
  dsimp only
  repeat' split
  -- a closing bracket closes the top pair or is dropped; a `]]` may close two `[` pairs
  all_goals first
    | exact Always₂.pure rfl
    | exact closeOrDrop_relined n m chars _ _ _ _
    | exact (closeOrDrop_relined n m chars _ _ _ _).bind fun _ _ h => by
        subst h
        exact closeOrDrop_relined n m chars _ _ _ _

theorem closeAll_relined (stop : Nat) (stack : List Open) :
    Always₂ (closeAll n chars stop stack) (closeAll m chars stop stack) Eq := by
  fun_induction closeAll n chars stop stack with
  | case1 top below rest ih =>
    rw [closeAll]
    exact (Always₂.unit _ _).bind fun _ _ _ => ih
  | case2 stack h =>
    rw [closeAll]
    · exact Always₂.pure rfl
    · exact h

theorem ofTokens_relined (mode : SplitMode) (tokens : List Token) :
    Always₂ (ofTokens n chars mode tokens) (ofTokens m chars mode tokens) Eq := by
  unfold ofTokens
  dsimp only
  refine (Always₂.foldlM Eq _ (fun b c t _ hbc => hbc ▸ step_relined n m chars mode b t) _ _ rfl).bind
    fun s s' hs => hs ▸ (closeAll_relined n m chars _ s).bind fun _ _ h => h ▸ Always₂.pure rfl

end Bracketed

namespace GroupedLine

theorem ofCommandLine_relined (c : CommandLine) (m : Nat) :
    Always₂ (ofCommandLine c) (ofCommandLine { c with line := m })
      fun g g' => g' = { g with line := m } := by
  unfold ofCommandLine
  dsimp only
  split
  all_goals
    refine Always₂.bind (R := Eq) ?_ fun _ _ h => h ▸
      (Bracketed.ofTokens_relined _ _ _ _ _).bind fun _ _ h' => h' ▸ Always₂.pure rfl
  · exact Always₂.map (Bracketed.ofTokens_relined _ _ _ _ _) fun _ _ h => h ▸ rfl
  · exact Always₂.pure rfl

end GroupedLine

end Jianpu
