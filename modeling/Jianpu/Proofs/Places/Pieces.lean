import Mathlib
import Jianpu.Proofs.Places.Reach
import Jianpu.Proofs.Brackets.Building
import Jianpu.Proofs.Tokens.Tiling
import Jianpu.Proofs.Columns.Articles
/-!
# The pieces of a command line stand in order

The cursor's row is cut into reaches by its barlines, and the reaches come in order when the
row's pieces do (`PiecesInOrder`). They do for every command line the classifier reads:

* the scanner's tokens stand as a line gives them (`Lined`) and inside the text, since each
  token of a tiling starts where the scan stands and holds the text under it (`Token.scan_tiling`,
  `Token.Tiling.lined`);
* a command line's content is some of those tokens, with the end-of-text token put where the
  comment starts, or at the end of the line, after all of them (`ScoreLine.ofTokens_lined`);
* the root pair read from tokens in line holds its pieces in order within its span, and every
  token among them is one that bracket matching kept. A kept token is an input token or half of a
  `]]`, so a barline symbol among the pieces is as wide as its one character
  (`Bracketed.ofTokens_piecesInOrder`).

* `GroupedLine.classify_piecesInOrder` — the row of every command line classified from a text
  has its pieces in order.
-/

namespace Jianpu

theorem Lined.sublist {ts ts' : List Token} (h : Lined ts) (hs : List.Sublist ts' ts) :
    Lined ts' where
  ordered := h.ordered.sublist hs
  proper t ht := h.proper t (hs.subset ht)
  width t ht := h.width t (hs.subset ht)

theorem Lined.append_eof {ts : List Token} (h : Lined ts) {n : Nat}
    (hle : ∀ t ∈ ts, t.span.stop ≤ n) : Lined (ts ++ [Token.eof n]) where
  ordered := List.pairwise_append.2 ⟨h.ordered, List.pairwise_singleton _ _, fun a ha b hb => by
    rw [List.mem_singleton.1 hb]
    exact hle a ha⟩
  proper t ht := by
    rcases List.mem_append.1 ht with ht | ht
    · exact h.proper t ht
    · rw [List.mem_singleton.1 ht]
      exact le_rfl
  width t ht hk := by
    rcases List.mem_append.1 ht with ht | ht
    · exact h.width t ht hk
    · rw [List.mem_singleton.1 ht] at hk
      simp [Token.eof] at hk

/-! ## Tokens of a text -/

namespace Token

theorem Reads.width {cs : List Char} {t : Token} {its : List Issue} (h : Reads cs t its)
    (hk : t.kind = .symbol) : t.span.stop = t.span.start + t.content.length := by
  have htext := congrArg List.length (h.text (by simp [hk]))
  have hwithin := h.within
  have hne := h.nonempty
  rw [String.length_toList, List.extract_eq_take_drop, List.length_take, List.length_drop]
    at htext
  omega

namespace Tiling

variable {cs : List Char} {pos : Nat} {head : Bool} {ts : List Token} {is : List Issue}

theorem within (h : Tiling cs pos head ts is) : ∀ t ∈ ts, t.span.stop ≤ cs.length := by
  induction h with
  | eof => simp
  | gap _ _ _ ih => exact ih
  | token t its _ _ hr _ ih =>
    intro t' ht'
    rcases List.mem_cons.1 ht' with rfl | ht'
    · exact hr.within
    · exact ih t' ht'

theorem lined (h : Tiling cs pos head ts is) : Lined ts := by
  induction h with
  | eof => exact ⟨List.pairwise_singleton _ _, by simp, by simp⟩
  | gap _ _ _ ih => exact ih
  | token t its _ _ hr htail ih =>
    -- every later token starts where the scan goes on after `t`, or later
    refine ⟨List.Pairwise.cons (fun b hb => htail.start_ge b hb) ih.ordered, ?_, ?_⟩
    · intro t' ht'
      rcases List.mem_cons.1 ht' with rfl | ht'
      · exact hr.nonempty.le
      · exact ih.proper t' ht'
    · intro t' ht' hk
      rcases List.mem_cons.1 ht' with rfl | ht'
      · exact hr.width hk
      · exact ih.width t' ht' hk

end Tiling

theorem scan_tiling (line : Nat) (text : String) :
    ∃ is, Tiling text.toList 0 true (scan line text).1.toList is := by
  obtain ⟨ts, is, h1, -, ht⟩ := scanFrom_tiling line text.toList 0 true #[] #[] (Nat.zero_le _)
  rw [List.drop_zero] at h1
  rw [scan, h1, Array.toList_empty, List.nil_append]
  exact ⟨is, ht⟩

end Token

/-! ## The content of a command line -/

namespace ScoreLine

/-- Every token before the comment that closes a line stops where the comment starts; on a line
without one, where the line ends. -/
theorem stop_le_contentEnd {after : List Token} (h : Lined after) {n : Nat}
    (hin : ∀ t ∈ after, t.span.stop ≤ n) :
    ∀ t ∈ after.filter (fun t => t.kind != .comment && t.kind != .eof && t.kind != .eol),
      t.span.stop ≤ (((after.reverse.find? (·.kind != .eof)).filter (·.kind == .comment)).map
        (·.span.start)).getD n := by
  intro t ht
  obtain ⟨htm, htk⟩ := List.mem_filter.1 ht
  cases hf : after.reverse.find? (·.kind != .eof) with
  | none => simpa using hin t htm
  | some cm =>
    by_cases hc : cm.kind = .comment
    · -- the comment is the last token but the end of the text
      obtain ⟨-, as, bs, hrev, has⟩ := List.find?_eq_some_iff_append.1 hf
      have hafter : after = bs.reverse ++ cm :: as.reverse := by
        rw [← List.reverse_reverse after, hrev]
        simp
      rw [Option.filter_some_pos (by simpa using hc), Option.map_some, Option.getD_some]
      rw [hafter] at htm h
      rcases List.mem_append.1 htm with hb | hb
      · exact (List.pairwise_append.1 h.ordered).2.2 t hb cm List.mem_cons_self
      · rcases List.mem_cons.1 hb with rfl | hb
        · simp [hc] at htk
        · have heof := has t (List.mem_reverse.1 hb)
          simp only [bne, Bool.not_not, beq_iff_eq] at heof
          simp [heof] at htk
    · rw [Option.filter_some_neg (by simpa using hc), Option.map_none, Option.getD_none]
      exact hin t htm

/-- The content of a command line read from tokens in line is in line. -/
theorem ofTokens_lined {line : Nat} {lineText : String} {tokens : List Token}
    (hts : Lined tokens) (hin : ∀ t ∈ tokens, t.span.stop ≤ lineText.toList.length) :
    Always (ofTokens line lineText tokens) fun o => ∀ c ∈ commands o.toList, Lined c.content := by
  unfold ofTokens
  dsimp only
  split
  · exact Always.pure (by simp)
  · split
    · exact Always.pure (by simp [commands])
    · split
      · exact Always.warn_then (by simp)
      · split
        · exact Always.warn_then (by simp)
        · refine Always.any.bind fun _ _ => Always.pure ?_
          intro c hc
          simp only [Option.toList_some, commands, List.filterMap_cons, List.filterMap_nil,
            List.mem_singleton] at hc
          subst hc
          -- the tokens after the colon, without comments and line ends
          have hafter : ∀ k, Lined (tokens.drop k) := fun k => hts.sublist (List.drop_sublist k _)
          exact ((hafter _).filter _).append_eof (stop_le_contentEnd (hafter _)
            fun t ht => hin t ((List.drop_sublist _ tokens).subset ht))

/-- Every command line the classifier reads from a text has its content in line. -/
theorem classify_lined (text : String) :
    Always (classify text) fun lines => ∀ c ∈ commands lines, Lined c.content := by
  unfold classify
  refine (Always.forIn (fun out : Array ScoreLine => ∀ c ∈ commands out.toList, Lined c.content)
    (fun l out hout => ?_) _ #[] (by simp)).bind fun _ hout => Always.pure hout
  -- each logical line is scanned, its issues raised, and then read
  obtain ⟨is, htiling⟩ := Token.scan_tiling l.line l.text
  refine Always.any.bind fun _ _ =>
    (@ofTokens_lined l.line l.text _ htiling.lined htiling.within).bind fun o ho => ?_
  cases o with
  | none => exact Always.pure hout
  | some s =>
    refine Always.pure fun c hc => ?_
    change c ∈ commands (out.push s).toList at hc
    rw [Array.toList_push, commands, List.filterMap_append] at hc
    rcases List.mem_append.1 hc with hc | hc
    · exact hout c hc
    · exact ho c hc

end ScoreLine

/-! ## The root pair of a line -/

namespace Piece

theorem readBack_subset_groupReadBack {g : List Piece} {p : Piece} (hp : p ∈ g)
    (he : p.isEof = false) : p.readBack ⊆ groupReadBack g := by
  induction g with
  | nil => exact absurd hp List.not_mem_nil
  | cons q g ih =>
    rw [groupReadBack]
    rcases List.mem_cons.1 hp with rfl | hp
    · rw [he]
      exact List.subset_append_left _ _
    · exact List.Subset.trans (ih hp) (List.subset_append_right _ _)

theorem groupReadBack_subset_groupsReadBack {gs : List (List Piece)} {g : List Piece}
    (hg : g ∈ gs) : groupReadBack g ⊆ groupsReadBack gs := by
  induction gs with
  | nil => exact absurd hg List.not_mem_nil
  | cons g₀ gs ih =>
    cases gs with
    | nil =>
      rw [List.mem_singleton.1 hg, groupsReadBack]
      exact List.Subset.refl _
    | cons g₁ gs =>
      rw [groupsReadBack]
      rcases List.mem_cons.1 hg with rfl | hg
      · exact List.Subset.trans (List.subset_append_left _ _) (List.subset_append_left _ _)
      · exact List.Subset.trans (ih hg) (List.subset_append_right _ _)

end Piece

namespace Bracketed

theorem bare_mem_readBack {b : Bracketed} {t : Token} (ht : Piece.token t ∈ b.groups.flatten)
    (he : t.isEof = false) : t.bare ∈ b.readBack := by
  obtain ⟨g, hg, htg⟩ := List.mem_flatten.1 ht
  have hgroups : Piece.groupsReadBack b.groups ⊆ b.readBack := by
    rw [Bracketed.readBack, Piece.ofPair, Piece.readBack]
    exact List.Subset.trans (List.subset_append_right _ _) (List.subset_append_left _ _)
  apply hgroups
  apply Piece.groupReadBack_subset_groupsReadBack hg
  apply Piece.readBack_subset_groupReadBack htg he
  simp [Piece.readBack]

theorem closeOne_kept (b : Bracket) (c : Token) (opens : List Bracket) :
    ∀ k ∈ (closeOne b c opens).kept, k = c := by
  unfold closeOne
  split <;> simp

/-- Matching keeps the token itself or a half of a `]]`. -/
theorem matchToken_kept (opens : List Bracket) (t : Token) :
    ∀ k ∈ (matchToken opens t).kept, k = t ∨ k.content = "]" := by
  intro k hk
  unfold matchToken at hk
  split at hk
  · split at hk
    · exact .inl (List.mem_singleton.1 hk)
    · split at hk
      · split at hk
        · exact .inl (List.mem_singleton.1 hk)
        · -- the two halves of a `]]` that closes no `[[`
          rw [Matching.next_kept] at hk
          rcases List.mem_append.1 hk with hk | hk
          · rw [closeOne_kept _ _ _ k hk]
            exact .inr rfl
          · rw [closeOne_kept _ _ _ k hk]
            exact .inr rfl
      · split at hk
        · exact .inl (closeOne_kept _ _ _ k hk)
        · exact .inl (List.mem_singleton.1 hk)
  · exact .inl (List.mem_singleton.1 hk)

theorem matchAll_kept (ts : List Token) :
    ∀ opens, ∀ k ∈ (matchAll opens ts).kept, k ∈ ts ∨ k.content = "]" := by
  induction ts with
  | nil => simp [matchAll]
  | cons t ts ih =>
    intro opens k hk
    rw [matchAll, Matching.next_kept] at hk
    rcases List.mem_append.1 hk with hk | hk
    · rcases matchToken_kept opens t k hk with rfl | hk
      · exact .inl List.mem_cons_self
      · exact .inr hk
    · rcases ih _ k hk with hk | hk
      · exact .inl (List.mem_cons_of_mem _ hk)
      · exact .inr hk

/-- The root pair of tokens in line reads back as the tokens that matching keeps, and holds its
pieces in order within its span. -/
theorem ofTokens_root (line : Nat) (chars : Array Char) (mode : SplitMode) (ts : List Token)
    (hts : Lined ts) (j : Journal) :
    ((ofTokens line chars mode ts).run j).1.readBack =
        (matchAll [] (ts.filter (!·.isEof))).kept.map Token.bare ∧
      ((ofTokens line chars mode ts).run j).1.InOrder := by
  -- the line's own frame spans from where the first token starts to where the last one stops
  have hread := (Reading.init line mode j _).fold chars (hts.filter fun t => !t.isEof)
    (fun t ht => ⟨by simpa using (List.mem_filter.1 ht).2, hts.head_le (List.mem_of_mem_filter ht),
      hts.le_last (List.mem_of_mem_filter ht) _⟩) hts.head_le_last
  rw [Matching.nil_next] at hread
  generalize hf : ((ts.filter fun t => !t.isEof).foldlM (Bracketed.step line chars mode)
    [⟨none, (ts.head?.map (·.span.start)).getD 0, #[], #[]⟩]).run j = r₁ at hread
  obtain ⟨s₁, j₁⟩ := r₁
  set stop := (ts.getLast?.map (·.span.stop)).getD ((ts.head?.map (·.span.start)).getD 0)
  obtain ⟨root, j', hrun, hc⟩ := closeAll_run chars (hread.closing le_rfl)
  have hr : (ofTokens line chars mode ts).run j = (root.close stop true chars, j') := by
    simp only [ofTokens]
    rw [StateT.run_bind, hf]
    change StateT.run (closeAll line chars _ s₁ >>= fun stack => pure _) j₁ = _
    rw [StateT.run_bind, hrun]
    rfl
  obtain ⟨⟨hbracket, -⟩, ⟨hfits, -⟩, hreadBack, -, -⟩ := hc
  have hend : stop ≤ root.innerEnd stop true := by
    simp [Open.innerEnd, hbracket]
  have hwidth : true = true → root.start + (root.close stop true chars).closeWidth ≤ stop := by
    have := hfits.start_le
    simp [closeWidth, hbracket, this]
  rw [hr]
  refine ⟨?_, hfits.inOrder_close hend hwidth⟩
  rw [Bracketed.readBack, Open.readBack_close, hbracket, ← hreadBack]
  simp [stackReadBack, Piece.closeTokens]

/-- A barline symbol among the pieces of a root pair read back as kept tokens in line covers a
character: it is a kept input token, never half of a `]]`. -/
theorem barline_nonempty {ts : List Token} (hts : Lined ts) {b : Bracketed}
    (hb : b.readBack = (matchAll [] (ts.filter (!·.isEof))).kept.map Token.bare) {p : Piece}
    (hp : p ∈ b.groups.flatten) (hbar : p.isBarlineSymbol = true) :
    p.span.start < p.span.stop := by
  cases p with
  | pair => simp [Piece.isBarlineSymbol] at hbar
  | token t =>
    simp only [Piece.isBarlineSymbol, Bool.and_eq_true, beq_iff_eq, Bool.or_eq_true] at hbar
    obtain ⟨hsym, hglyph⟩ := hbar
    have hmem := bare_mem_readBack hp (by simp [Token.isEof, hsym])
    rw [hb, List.mem_map] at hmem
    obtain ⟨k, hk, hbare⟩ := hmem
    -- the kept token is `t` but for its line-head mark
    have hsame := congrArg (fun x : Token => (x.kind, x.content, x.span)) hbare
    simp only [Token.bare, Prod.mk.injEq] at hsame
    obtain ⟨hkind, hcontent, hspan⟩ := hsame
    have hone : t.content.length = 1 := by
      rcases hglyph with (h | h) | h <;> rw [h] <;> decide
    rcases matchAll_kept _ [] k hk with hin | hhalf
    · have hw := (hts.filter _).width k hin (hkind.trans hsym)
      rw [hcontent, hone] at hw
      simp only [Piece.span]
      rw [← hspan]
      omega
    · rw [hcontent] at hhalf
      rcases hglyph with (h | h) | h <;> rw [h] at hhalf <;> exact absurd hhalf (by decide)

theorem ofTokens_piecesInOrder (line : Nat) (chars : Array Char) (mode : SplitMode)
    (ts : List Token) (hts : Lined ts) :
    Always (ofTokens line chars mode ts) fun b => PiecesInOrder b.items := by
  intro j
  obtain ⟨hback, -, hinside, hordered⟩ := ofTokens_root line chars mode ts hts j
  exact ⟨hordered.sublist List.filter_sublist,
    fun p hp => (hinside p (List.mem_of_mem_filter hp)).2.1,
    fun p hp hbar => barline_nonempty hts hback (List.mem_of_mem_filter hp) hbar⟩

end Bracketed

namespace GroupedLine

theorem ofCommandLine_piecesInOrder {c : CommandLine} (hc : Lined c.content) :
    Always (ofCommandLine c) fun g => PiecesInOrder g.content.items := by
  unfold ofCommandLine
  dsimp only
  -- the properties are read first, whichever way, and then the content
  split
  all_goals exact Always.any.bind fun _ _ =>
    (Bracketed.ofTokens_piecesInOrder _ _ _ _ hc).bind fun _ hb => Always.pure hb

theorem classify_piecesInOrder (text : String) (j j' : Journal) :
    ∀ c ∈ ScoreLine.commands ((ScoreLine.classify text).run j).1,
      PiecesInOrder ((ofCommandLine c).run j').1.content.items :=
  fun c hc => ofCommandLine_piecesInOrder (ScoreLine.classify_lined text j c hc) j'

end GroupedLine

end Jianpu
