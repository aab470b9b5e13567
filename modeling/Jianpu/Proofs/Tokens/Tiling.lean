import Mathlib
import Jianpu.Proofs.Tokens.Literals
/-!
# Tokens tile the text

`Token.scan` cuts a text into tokens and passes over the characters between them. This file
states what the cut is, apart from how the scanner finds it, and shows the scanner makes it.

* `Token.isGap` — a character the scanner passes over: a blank or a control character other
  than a line end.
* `Token.LiteralIn` — what a string literal covers: a double quote and a body that reads as the
  literal's content (`Token.LiteralBody`), then the closing quote, or, unclosed, nothing more
  with a line end or the end of the text right after.
* `Token.Reads` — what one token is: a non-empty span inside the text, holding the text under
  it as content unless it is a string literal, with the issues raised for it inside it.
* `Token.Tiling` — a scan from a position on: gaps passed over, tokens read one after another
  where the scan stands, and the end-of-text token at the text's end.
* `Token.Tiles` — what a whole scan gives: tokens in order that end with the end-of-text token,
  gaps between them, contents as `Reads` says, string literals with the bad escapes that the
  issues report, and line heads after line ends.

`Token.lexeme_sound` is the step: what one lexeme reads at the head of the text left.
`Token.scanFrom_tiling` is the run: the scanner's tokens and issues are a tiling. The main
statement `Token.scan_tiles` reads `Tiles` off that tiling.
-/

namespace Jianpu

/-- The position and raw text of a bad escape that an issue reports inside a span. -/
def Issue.badEscapeIn (sp : Span) (i : Issue) : Option (Nat × String) :=
  match i.problem with
  | .invalidEscape raw =>
    if sp.start ≤ i.index ∧ i.index < sp.stop then some (i.index, raw) else none
  | _ => none

theorem Issue.filterMap_badEscapeIn_eq_nil {sp : Span} {l : List Issue}
    (h : ∀ i ∈ l, i.index < sp.start ∨ sp.stop ≤ i.index) :
    l.filterMap (badEscapeIn sp) = [] := by
  rw [List.filterMap_eq_nil_iff]
  intro i hi
  unfold badEscapeIn
  split
  · have := h i hi
    rw [if_neg (by omega)]
  · rfl

namespace Token

def isGap (c : Char) : Bool := (Text.isBlank c || Text.isControl c) && c != '\n'

def issueAt (line pos : Nat) (p : Nat × Problem) : Issue := ⟨line, pos + p.1, .error, p.2⟩

/-- The distance and raw text of a problem that is a bad escape. -/
def escapeAt? (p : Nat × Problem) : Option (Nat × String) :=
  match p.2 with
  | .invalidEscape raw => some (p.1, raw)
  | _ => none

/-- Issues raised for problems inside a span report the problems' bad escapes, moved to the
span's start. -/
theorem filterMap_badEscapeIn_issueAt (line pos w : Nat) (ps : List (Nat × Problem))
    (hw : ∀ p ∈ ps, p.1 < w) :
    (ps.map (issueAt line pos)).filterMap (Issue.badEscapeIn ⟨pos, pos + w⟩) =
      (ps.filterMap escapeAt?).map fun b => (pos + b.1, b.2) := by
  induction ps with
  | nil => rfl
  | cons p ps ih =>
    obtain ⟨d, q⟩ := p
    have hd : d < w := hw (d, q) (List.mem_cons_self ..)
    rw [List.map_cons, List.filterMap_cons, List.filterMap_cons,
      ih fun p hp => hw p (List.mem_cons_of_mem _ hp)]
    cases q <;> simp [Issue.badEscapeIn, escapeAt?, issueAt, hd]

/-- The bad escapes of a body are inside it, after its start. -/
theorem LiteralBody.bad_within {pos : Nat} {raw value : List Char} {bad : List (Nat × String)}
    (h : LiteralBody pos raw value bad) :
    ∀ b ∈ bad, pos ≤ b.1 ∧ b.1 < pos + raw.length := by
  induction h with
  | nil => simp
  | plain _ _ _ _ ih =>
    intro b hb
    have := ih b hb
    simp only [List.length_cons]
    omega
  | escape _ _ ih =>
    intro b hb
    have := ih b hb
    simp only [List.length_cons, List.length_append]
    omega
  | bad _ _ _ ih =>
    intro b hb
    rcases List.mem_cons.1 hb with rfl | hb
    · simp
    · have := ih b hb
      simp only [List.length_cons]
      omega
  | trailing => simp

theorem LiteralBody.shift {pos : Nat} {raw value : List Char} {bad : List (Nat × String)}
    (k : Nat) (h : LiteralBody pos raw value bad) :
    LiteralBody (k + pos) raw value (bad.map fun b => (k + b.1, b.2)) := by
  induction h with
  | nil => exact .nil _
  | plain hc hq hn _ ih => exact .plain hc hq hn (by simpa only [Nat.add_assoc] using ih)
  | escape he _ ih => exact .escape he (by simpa only [Nat.add_assoc] using ih)
  | bad hn hnone _ ih => exact .bad hn hnone (by simpa only [Nat.add_assoc] using ih)
  | trailing => exact .trailing _

theorem blockBody_fst_prefix (cs : List Char) : (blockBody cs).1 <+: cs := by
  fun_induction blockBody cs with
  | case1 rest => exact ⟨rest, rfl⟩
  | case2 c rest _ b k hb ih =>
    rw [hb] at ih
    exact (List.prefix_cons_inj c).2 ih
  | case3 => exact List.nil_prefix

/-! ## One lexeme -/

/-- What one step of the scanner reads at the head of `cs`, distances counted from there: it
stays inside `cs` and is never the end of the text; its problems lie inside it; a token other
than a string literal holds the characters it covers; a string literal holds a quote and a body
as `LiteralBody` reads it, then the closing quote or, unclosed, nothing more before a line end
or the end; and a character passed over is a gap. -/
structure Lexeme.Sound (cs : List Char) (lx : Lexeme) : Prop where
  within : lx.width ≤ cs.length
  not_eof : lx.kind ≠ some .eof
  problems_within : ∀ p ∈ lx.problems, p.1 < lx.width
  text : ∀ k, lx.kind = some k → k ≠ .stringLiteral → lx.content.toList = cs.take lx.width
  literal : lx.kind = some .stringLiteral → ∃ raw,
    LiteralBody 1 raw lx.content.toList (lx.problems.filterMap escapeAt?) ∧
      (cs.take lx.width = '"' :: raw ++ ['"'] ∨
        cs.take lx.width = '"' :: raw ∧ ∀ c ∈ (cs.drop lx.width).head?, c = '\n')
  gap : lx.kind = none → lx.width = 1 ∧ lx.problems = [] ∧ ∀ c ∈ cs.head?, isGap c

theorem lexeme_sound (c : Char) (rest : List Char) : (lexeme c rest).Sound (c :: rest) := by
  unfold lexeme
  split
  · exact ⟨by simp, by simp, by simp, fun k hk _ => by simp_all, by simp, by simp⟩
  · -- a line comment runs to the line end
    rename_i body
    have hp := @List.takeWhile_prefix _ body (fun x => x != '\n')
    dsimp only
    refine ⟨by simpa using hp.length_le, by simp, by simp, fun k hk _ => ?_, by simp, by simp⟩
    rw [String.toList_ofList, List.take_succ_cons, List.take_succ_cons,
      ← List.prefix_iff_eq_take.1 hp]
  · -- a block comment runs to the first `*/`, or to the end of the text
    rename_i body
    have hp := blockBody_fst_prefix body
    rcases hb : blockBody body with ⟨text, closed⟩
    rw [hb] at hp
    dsimp only at hp ⊢
    refine ⟨by simpa using hp.length_le, by simp, by cases closed <;> simp, fun k hk _ => ?_,
      by simp, by simp⟩
    rw [String.toList_ofList, List.take_succ_cons, List.take_succ_cons,
      ← List.prefix_iff_eq_take.1 hp]
  · -- a string literal: its body as the reader reads it
    obtain ⟨raw, tail, rfl, hbody, hstops⟩ := quoted_reads 1 rest
    dsimp only
    -- the reader's problems are its bad escapes, and an unclosed quote when there is one
    have hesc : ∀ extra : List (Nat × Problem), extra.filterMap escapeAt? = [] →
        (((quoted 1 (raw ++ tail)).badEscapes.map fun x => (x.1, Problem.invalidEscape x.2)) ++
          extra).filterMap escapeAt? = (quoted 1 (raw ++ tail)).badEscapes := by
      intro extra he
      simp [List.filterMap_append, List.filterMap_map, escapeAt?, Function.comp_def, he]
    have hwithin := hbody.bad_within
    rcases hstops with ⟨hc, hw, ht⟩ | ⟨hc, hw, ht⟩
    · obtain ⟨d, tail, rfl⟩ : ∃ d tail', tail = d :: tail' := List.exists_cons_of_ne_nil (by
        rintro rfl; simp at ht)
      have hd : d = '"' := by simpa using ht
      subst hd
      simp only [hc, if_true]
      refine ⟨by simp [hw], by simp, ?_, by simp, fun _ => ⟨raw, ?_, .inl ?_⟩, by simp⟩
      · intro p hp
        obtain ⟨b, hb, rfl⟩ := List.mem_map.1 hp
        have := hwithin b hb
        dsimp only
        omega
      · have h := hesc [] rfl
        rw [List.append_nil] at h
        rw [String.toList_ofList, h]
        exact hbody
      · simp [hw, List.take_append]
    · simp only [hc, Bool.false_eq_true, if_false]
      refine ⟨by simp [hw], by simp, ?_, by simp, fun _ => ⟨raw, ?_, .inr ⟨?_, ?_⟩⟩,
        by simp⟩
      · intro p hp
        rcases List.mem_append.1 hp with hp | hp
        · obtain ⟨b, hb, rfl⟩ := List.mem_map.1 hp
          have := hwithin b hb
          dsimp only
          omega
        · simp at hp
          simp [hp]
      · rw [String.toList_ofList, hesc _ rfl]
        exact hbody
      · simp [hw]
      · simpa [hw] using ht
  · exact ⟨by simp, by simp, by simp, fun k hk _ => by simp_all, by simp, by simp⟩
  · exact ⟨by simp, by simp, by simp, fun k hk _ => by simp_all, by simp, by simp⟩
  · rename_i hnl hq _ _ _ _
    split
    · exact ⟨by simp, by simp, by simp, fun k hk _ => by simp_all, by simp, by simp⟩
    · rename_i hsym
      split
      · have hw := @List.takeWhile_prefix _ rest Text.isWordChar
        refine ⟨by simpa using hw.length_le, by simp, by simp, fun k hk _ => ?_, by simp,
          by simp⟩
        rw [String.toList_ofList, List.take_succ_cons, ← List.prefix_iff_eq_take.1 hw]
      · rename_i hword
        refine ⟨by simp, by simp, by simp, by simp, by simp, fun _ => ⟨rfl, rfl, ?_⟩⟩
        simp only [isSymbolChar, Bool.and_eq_true, Bool.not_eq_true', bne_iff_ne] at hsym
        simp only [List.head?_cons, Option.mem_def, Option.some.injEq, forall_eq', isGap,
          Bool.and_eq_true, Bool.or_eq_true, bne_iff_ne]
        -- no symbol, no word character and no quote: a blank or a control character is left
        refine ⟨?_, hnl⟩
        by_contra hnot
        simp only [not_or, Bool.not_eq_true] at hnot
        exact hsym ⟨⟨hnot, by simpa using hword⟩, hq⟩

/-! ## Tokens of a text -/

/-- A string literal token `t` of the text `cs`, with the bad escapes `bad`: its span holds a
double quote, a body that reads as `t.content` with the bad escapes `bad`, and the closing
quote; or, unclosed, the quote and the body alone, with a line end or the end of the text right
after. -/
def LiteralIn (cs : List Char) (t : Token) (bad : List (Nat × String)) : Prop :=
  ∃ raw, LiteralBody (t.span.start + 1) raw t.content.toList bad ∧
    (cs.extract t.span.start t.span.stop = '"' :: raw ++ ['"'] ∨
      cs.extract t.span.start t.span.stop = '"' :: raw ∧ ∀ c ∈ cs[t.span.stop]?, c = '\n')

/-- One token `t` of the text `cs`, with the issues `its` raised for it: a non-empty span
inside the text; not the end of the text; issues inside the span; the text under the span as
its content, a string literal apart, which reads as `LiteralIn` says with the bad escapes its
issues report. -/
structure Reads (cs : List Char) (t : Token) (its : List Issue) : Prop where
  nonempty : t.span.start < t.span.stop
  within : t.span.stop ≤ cs.length
  not_eof : t.kind ≠ .eof
  issues_within : ∀ i ∈ its, t.span.start ≤ i.index ∧ i.index < t.span.stop
  text : t.kind ≠ .stringLiteral → t.content.toList = cs.extract t.span.start t.span.stop
  literal : t.kind = .stringLiteral → t.LiteralIn cs (its.filterMap (Issue.badEscapeIn t.span))

/-- A scan of the text `cs` from position `pos` on, the next token at a line head when `head`
holds, giving the tokens `ts` and the issues `is`. -/
inductive Tiling (cs : List Char) : Nat → Bool → List Token → List Issue → Prop
  /-- At the end of the text the scan gives the end-of-text token there. -/
  | eof (head : Bool) :
      Tiling cs cs.length head [⟨.eof, "", ⟨cs.length, cs.length⟩, head⟩] []
  /-- A gap is passed over. -/
  | gap {pos : Nat} {head : Bool} {ts : List Token} {is : List Issue} (hp : pos < cs.length) :
      isGap cs[pos] → Tiling cs (pos + 1) head ts is → Tiling cs pos head ts is
  /-- A token starts where the scan stands, and the scan goes on after it, at a line head
  when the token is a line end. -/
  | token {pos : Nat} {head : Bool} {ts : List Token} {is : List Issue} (t : Token)
      (its : List Issue) : t.span.start = pos → t.lineHead = head → t.Reads cs its →
      Tiling cs t.span.stop (t.kind == .eol) ts is → Tiling cs pos head (t :: ts) (its ++ is)

/-- A lexeme at position `pos` of the text is a token as `Reads` says. -/
theorem lexeme_reads {cs : List Char} {pos : Nat} {c : Char} {rest : List Char}
    (h : cs.drop pos = c :: rest) (line : Nat) (head : Bool) {k : TokenKind}
    (hk : (lexeme c rest).kind = some k) :
    Reads cs ⟨k, (lexeme c rest).content, ⟨pos, pos + (lexeme c rest).width⟩, head⟩
      ((lexeme c rest).problems.map (issueAt line pos)) := by
  have hs := lexeme_sound c rest
  rw [← h] at hs
  have hw := hs.within
  have hpos := (lexeme c rest).width_pos
  rw [List.length_drop] at hw
  have hextract : cs.extract pos (pos + (lexeme c rest).width) =
      (cs.drop pos).take (lexeme c rest).width := by
    rw [List.extract_eq_take_drop, Nat.add_sub_cancel_left]
  refine ⟨by simp [hpos], by simp; omega, fun he => hs.not_eof (hk.trans (congrArg some he)), ?_,
    fun hk' => ?_, fun hk' => ?_⟩
  · intro i hi
    obtain ⟨p, hp, rfl⟩ := List.mem_map.1 hi
    have := hs.problems_within p hp
    simp only [issueAt]
    omega
  · dsimp only
    rw [hextract, hs.text k hk hk']
  · dsimp only at hk' ⊢
    subst hk'
    obtain ⟨raw, hbody, hcut⟩ := hs.literal hk
    refine ⟨raw, ?_, ?_⟩
    · rw [filterMap_badEscapeIn_issueAt line pos _ _ hs.problems_within]
      exact hbody.shift pos
    · rw [hextract]
      rcases hcut with hcut | ⟨hcut, hnext⟩
      · exact .inl hcut
      · refine .inr ⟨hcut, ?_⟩
        rwa [List.drop_drop, List.head?_drop] at hnext

theorem foldl_push_issues (line pos : Nat) (issues : Array Issue) (ps : List (Nat × Problem)) :
    (ps.foldl (fun acc (x : Nat × Problem) => match x with
      | (off, p) => acc.push ⟨line, pos + off, .error, p⟩) issues).toList =
      issues.toList ++ ps.map (issueAt line pos) := by
  simp [issueAt]

/-- The scanner's run from position `pos` is a tiling of the rest of the text. -/
theorem scanFrom_tiling (line : Nat) (cs : List Char) (pos : Nat) (head : Bool)
    (tokens : Array Token) (issues : Array Issue) (hpos : pos ≤ cs.length) :
    ∃ ts is,
      (scanFrom line pos head tokens issues (cs.drop pos)).1.toList = tokens.toList ++ ts ∧
      (scanFrom line pos head tokens issues (cs.drop pos)).2.toList = issues.toList ++ is ∧
      Tiling cs pos head ts is := by
  generalize hrest : cs.drop pos = rest
  induction pos, head, tokens, issues, rest using scanFrom.induct line with
  | case1 pos head tokens issues =>
    have hp : pos = cs.length := by
      have := List.drop_eq_nil_iff.1 hrest
      omega
    subst hp
    exact ⟨_, [], by rw [scanFrom]; simp [Span.emptyAt], by rw [scanFrom]; simp, .eof head⟩
  | case2 pos head tokens issues c rest lx issues' k hk ih =>
    have hw : lx.width ≤ (c :: rest).length := (lexeme_sound c rest).within
    have hlen : (c :: rest).length = cs.length - pos := by rw [← hrest, List.length_drop]
    obtain ⟨ts, is, h1, h2, ht⟩ := ih (by omega) (by rw [← hrest, List.drop_drop])
    refine ⟨_ :: ts, lx.problems.map (issueAt line pos) ++ is, ?_, ?_,
      .token _ _ rfl rfl (lexeme_reads hrest line head hk) ht⟩
    · rw [scanFrom.eq_2, hk, h1]
      simp [lx]
    · rw [scanFrom.eq_2, hk, h2, foldl_push_issues]
      simp [lx]
  | case3 pos head tokens issues c rest lx issues' hk ih =>
    obtain ⟨hw1, hnone, hgap⟩ :
        lx.width = 1 ∧ lx.problems = [] ∧ ∀ d ∈ (c :: rest).head?, isGap d :=
      (lexeme_sound c rest).gap hk
    have hlt : pos < cs.length := by
      have := congrArg List.length hrest
      simp only [List.length_drop, List.length_cons] at this
      omega
    obtain ⟨ts, is, h1, h2, ht⟩ := ih (by omega) (by rw [← hrest, List.drop_drop])
    have hc : cs[pos] = c := by
      have := congrArg List.head? hrest
      rw [List.head?_drop, List.getElem?_eq_getElem hlt] at this
      simpa using this
    refine ⟨ts, is, ?_, ?_, .gap hlt (hc ▸ hgap c rfl) (hw1 ▸ ht)⟩
    · rw [scanFrom.eq_2, hk, h1]
    · rw [scanFrom.eq_2, hk, h2, foldl_push_issues]
      simp [lx, hnone]

/-! ## What a tiling gives -/

namespace Tiling

variable {cs : List Char} {pos : Nat} {head : Bool} {ts : List Token} {is : List Issue}

theorem start_ge (h : Tiling cs pos head ts is) : ∀ t ∈ ts, pos ≤ t.span.start := by
  induction h with
  | eof => simp
  | gap _ _ _ ih =>
    intro t ht
    have := ih t ht
    omega
  | token t its hs _ hr _ ih =>
    intro t' ht'
    rcases List.mem_cons.1 ht' with rfl | ht'
    · omega
    · have := ih t' ht'
      have := hr.nonempty
      omega

theorem issues_ge (h : Tiling cs pos head ts is) : ∀ i ∈ is, pos ≤ i.index := by
  induction h with
  | eof => simp
  | gap _ _ _ ih =>
    intro i hi
    have := ih i hi
    omega
  | token t its hs _ hr _ ih =>
    intro i hi
    rcases List.mem_append.1 hi with hi | hi
    · have := hr.issues_within i hi
      omega
    · have := ih i hi
      have := hr.nonempty
      omega

theorem ends (h : Tiling cs pos head ts is) :
    ∃ body e, ts = body ++ [e] ∧ e.kind = .eof ∧ e.span = ⟨cs.length, cs.length⟩ ∧
      ∀ t ∈ body, t.kind ≠ .eof ∧ t.span.start < t.span.stop := by
  induction h with
  | eof head => exact ⟨[], _, rfl, rfl, rfl, by simp⟩
  | gap _ _ _ ih => exact ih
  | token t its _ _ hr _ ih =>
    obtain ⟨body, e, rfl, he, hsp, hb⟩ := ih
    refine ⟨t :: body, e, rfl, he, hsp, ?_⟩
    intro t' ht'
    rcases List.mem_cons.1 ht' with rfl | ht'
    · exact ⟨hr.not_eof, hr.nonempty⟩
    · exact hb t' ht'

theorem ordered (h : Tiling cs pos head ts is) :
    ts.IsChain fun a b => a.span.stop ≤ b.span.start := by
  induction h with
  | eof => exact List.isChain_singleton _
  | gap _ _ _ ih => exact ih
  | token t its _ _ _ htail ih =>
    -- the next token starts where the scan goes on after `t`, or later
    exact ih.cons fun b hb => htail.start_ge b (List.mem_of_mem_head? hb)

theorem gaps (h : Tiling cs pos head ts is) :
    ∀ p (hp : p < cs.length), pos ≤ p →
      (∀ t ∈ ts, ¬(t.span.start ≤ p ∧ p < t.span.stop)) →
      isGap cs[p] := by
  induction h with
  | eof =>
    intro p hp hle
    omega
  | @gap q _ _ _ hq hg _ ih =>
    intro p hp hle hu
    rcases Nat.eq_or_lt_of_le hle with rfl | hlt
    · exact hg
    · exact ih p hp hlt hu
  | token t its hs _ _ _ ih =>
    intro p hp hle hu
    have := hu t (List.mem_cons_self ..)
    exact ih p hp (by omega) fun t' ht' => hu t' (List.mem_cons_of_mem _ ht')

theorem text (h : Tiling cs pos head ts is) :
    ∀ t ∈ ts, t.kind ≠ .stringLiteral →
      t.content.toList = cs.extract t.span.start t.span.stop := by
  induction h with
  | eof => simp
  | gap _ _ _ ih => exact ih
  | token t its _ _ hr _ ih =>
    intro t' ht'
    rcases List.mem_cons.1 ht' with rfl | ht'
    · exact hr.text
    · exact ih t' ht'

theorem literal (h : Tiling cs pos head ts is) :
    ∀ t ∈ ts, t.kind = .stringLiteral →
      t.LiteralIn cs (is.filterMap (Issue.badEscapeIn t.span)) := by
  induction h with
  | eof => simp
  | gap _ _ _ ih => exact ih
  | token t its hs _ hr htail ih =>
    intro t' ht' hk
    rw [List.filterMap_append]
    rcases List.mem_cons.1 ht' with rfl | ht'
    · -- the issues of later tokens stand after this one
      rw [Issue.filterMap_badEscapeIn_eq_nil fun i hi => .inr (htail.issues_ge i hi),
        List.append_nil]
      exact hr.literal hk
    · -- the issues of this token stand before the later ones
      have hle := htail.start_ge t' ht'
      rw [Issue.filterMap_badEscapeIn_eq_nil fun i hi => .inl (by
        have := hr.issues_within i hi
        omega), List.nil_append]
      exact ih t' ht' hk

theorem firstHead (h : Tiling cs pos head ts is) : ∀ t ∈ ts.head?, t.lineHead = head := by
  induction h with
  | eof => simp
  | gap _ _ _ ih => exact ih
  | token t its _ hh _ _ _ => simpa using hh

theorem heads (h : Tiling cs pos head ts is) :
    ts.IsChain fun a b => b.lineHead = (a.kind == .eol) := by
  induction h with
  | eof => exact List.isChain_singleton _
  | gap _ _ _ ih => exact ih
  | token t its _ _ _ htail ih => exact ih.cons fun b hb => htail.firstHead b hb

end Tiling

/-- What a scan of the text `cs` gives: the tokens `ts` and the issues `is`. -/
structure Tiles (cs : List Char) (ts : List Token) (is : List Issue) : Prop where
  /-- The last token, and no other, is the end of the text, with the empty span at the text's
  end; every other token covers at least one character. -/
  ends : ∃ body e, ts = body ++ [e] ∧ e.kind = .eof ∧ e.span = ⟨cs.length, cs.length⟩ ∧
    ∀ t ∈ body, t.kind ≠ .eof ∧ t.span.start < t.span.stop
  /-- Each token starts where the one before it ends, or later. -/
  ordered : ts.IsChain fun a b => a.span.stop ≤ b.span.start
  /-- A character no token covers is a blank or a control character other than a line end. -/
  gaps : ∀ p (hp : p < cs.length), (∀ t ∈ ts, ¬(t.span.start ≤ p ∧ p < t.span.stop)) →
    isGap cs[p]
  /-- A word, symbol, comment or line end holds the text under its span. -/
  text : ∀ t ∈ ts, t.kind ≠ .stringLiteral →
    t.content.toList = cs.extract t.span.start t.span.stop
  /-- A string literal reads as `LiteralIn` says, and the bad escapes its body holds are exactly
  those that the issues raised inside its span report, in order, at their backslashes. -/
  literal : ∀ t ∈ ts, t.kind = .stringLiteral →
    t.LiteralIn cs (is.filterMap (Issue.badEscapeIn t.span))
  /-- The first token is at a line head. -/
  firstHead : ∀ t ∈ ts.head?, t.lineHead = true
  /-- A later token is at a line head exactly when it follows a line end. -/
  heads : ts.IsChain fun a b => b.lineHead = (a.kind == .eol)

/-- The tokens of a text tile it: they end with the end-of-text token at the text's end, the
others are non-empty and in order with gaps of blanks and control characters between them,
each holds the text under it, a string literal its body decoded with one issue per bad escape,
and line heads are the first token and those after a line end. -/
theorem scan_tiles (line : Nat) (text : String) :
    Tiles text.toList (scan line text).1.toList (scan line text).2.toList := by
  obtain ⟨ts, is, h1, h2, ht⟩ := scanFrom_tiling line text.toList 0 true #[] #[] (Nat.zero_le _)
  rw [List.drop_zero] at h1 h2
  rw [scan, h1, h2, Array.toList_empty, List.nil_append, List.nil_append]
  exact ⟨ht.ends, ht.ordered, fun p hp hu => ht.gaps p hp (Nat.zero_le p) hu, ht.text, ht.literal,
    ht.firstHead, ht.heads⟩

end Token

end Jianpu
