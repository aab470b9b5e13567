import Mathlib
import Jianpu.Proofs.Places.Sites
/-!
# The cursor finds the section the full reading records

An editor asks which drawn section lies under the cursor, and the answer reads only the logical
line under it again (`SectionPlaces.cursorSerial`). That reading agrees with the reading of the
whole text:

* the cursor's row picks its logical line, and its column an offset in it (`find_split`);
* read alone, the line's text is classified into the command line the whole text's reading
  found there, on line `0` (`classify_reread`), whose brackets group into the same pieces
  (`ofCommandLine_relined`);
* the row of the line in the read tree sites its sections on those pieces (`readTree_readFrom`):
  the `k`-th section's range lies within the `k`-th reach, and the reaches come in order
  (`sectionReach_pairwise`), so the offset picks reach `k` (`findIdx_sectionReach`);
* the compiled score records one identity at each position of a line (`Keyed`), so position
  `k` of the line names the identity recorded there.

* `cursorSerial_finds` — the cursor inside a section's range gives the identity recorded for it.
-/

namespace Jianpu

namespace LogicalLine

theorem mem_rows_of_offsetOf {l : LogicalLine} {row col off : Nat}
    (h : l.offsetOf row col = some off) : row ∈ l.rows := by
  rw [offsetOf, Option.map_eq_some_iff] at h
  obtain ⟨s, hs, -⟩ := h
  rw [rows, List.mem_map]
  exact ⟨s, List.mem_of_find?_eq_some hs, by simpa using List.find?_some hs⟩

end LogicalLine

namespace GroupedLine

theorem ofCommandLine_line_command (c : CommandLine) :
    Always (ofCommandLine c) fun g => g.line = c.line ∧ g.command = c.command := by
  unfold ofCommandLine
  dsimp only
  split
  all_goals exact Always.any.bind fun _ _ => Always.any.bind fun _ _ => Always.pure ⟨rfl, rfl⟩

end GroupedLine

namespace SectionPlaces

/-- Where every position of a line holds one identity, the identity at a position is the one
recorded there. -/
theorem Keyed.serialAt_eq {p : SectionPlaces} (h : p.Keyed) {line : Nat}
    {entries : List (Nat × Nat)} (he : p.lines.lookup line = some entries) {k u : Nat}
    (hku : (k, u) ∈ entries) : p.serialAt line k = some u := by
  obtain ⟨l₁, l₂, hl, -⟩ := List.lookup_eq_some_iff.1 he
  have hnodup := h.positions (line, entries) (by rw [hl]; simp)
  -- the first entry at position `k` is the one recorded, since positions differ
  obtain ⟨x, hx⟩ : ∃ x, entries.find? (·.1 == k) = some x :=
    Option.isSome_iff_exists.1 (List.find?_isSome.2 ⟨(k, u), hku, by simp⟩)
  have hxk : x.1 = k := by simpa using List.find?_some hx
  have hxu : x = (k, u) := List.inj_on_of_nodup_map hnodup (List.mem_of_find?_eq_some hx) hku hxk
  simp [serialAt, he, hx, hxu]

end SectionPlaces

theorem Compilation.ofText_keyed (s : Settings) (text : String) :
    (Compilation.ofText s text).places.Keyed := by
  unfold Compilation.ofText
  split
  exact SectionPlaces.ofDocument_keyed _

/-- **The cursor finds the section the full reading records.** Take a logical line `L` of a
text, a cursor whose row and column fall at offset `off` of `L`, and a line of the text's read
tree on `L`'s line whose row's `k`-th section ranges over `off`. That section is on `L`'s line
at position `k`, and the cursor's lookup, which reads `L` alone again, gives what the compiled
score records at position `k` of `L`: any identity recorded there. Every row the lookup can read
from `L` has its reaches in increasing order, each from its start to its end, so no offset falls
in two of them. -/
theorem cursorSerial_finds (s : Settings) (text : String) {L : LogicalLine}
    (hL : L ∈ LogicalLine.split text) {row col off : Nat} (hoff : L.offsetOf row col = some off)
    {tl : TypedLine} (htl : tl ∈ ((readTree text).run {}).1.allLines) (hline : tl.line = L.line)
    {k : Nat} {site : IdCard × Span} (hsite : tl.content.sites[k]? = some site)
    (hin : site.2.start ≤ off ∧ off ≤ site.2.stop) :
    site.1.line = L.line ∧ site.1.index = k ∧
      (Compilation.ofText s text).places.cursorSerial text row col =
        (Compilation.ofText s text).places.serialAt L.line k ∧
      (∀ entries u, (Compilation.ofText s text).places.lines.lookup L.line = some entries →
        (k, u) ∈ entries → (Compilation.ofText s text).places.cursorSerial text row col = some u) ∧
      ∀ c ∈ ScoreLine.commands ((ScoreLine.classify L.text).run {}).1,
        (∀ r ∈ sectionReach ((GroupedLine.ofCommandLine c).run {}).1.content.items,
          r.start ≤ r.stop) ∧
        (sectionReach ((GroupedLine.ofCommandLine c).run {}).1.content.items).Pairwise
          fun r r' => r.stop < r'.start := by
  -- the tree's line was read from a command line of the text, grouped
  obtain ⟨j, c, hc, j', hread⟩ := readTree_readFrom text {} tl htl
  obtain ⟨hgline, hgcmd⟩ := GroupedLine.ofCommandLine_line_command c j'
  have hpieces := GroupedLine.classify_piecesInOrder text j j' c hc
  have hsec := hread.content.sectioned fun h => by simp [h] at hsite
  obtain ⟨hsl, hsk, r, hr, hrs, hre⟩ := hread.content.sited hpieces k site hsite
  have hcline : c.line = L.line := by rw [← hgline, ← hread.line, hline]
  -- the offset falls in reach `k` of that row
  have hk : k < (sectionReach ((GroupedLine.ofCommandLine c).run j').1.content.items).length :=
    (List.getElem?_eq_some_iff.1 hr).1
  have hslot := findIdx_sectionReach hpieces hk (by
    rw [List.getElem?_eq_getElem hk, Option.some.injEq] at hr
    rw [hr]
    exact ⟨hrs.trans hin.1, hin.2.trans hre⟩)
  -- the lookup reads `L` alone: the same command line on line `0`, grouped into the same pieces
  have hreread := ScoreLine.classify_reread hL hc hcline {}
  have hgroup : ((GroupedLine.ofCommandLine { c with line := 0 }).run {}).1.content =
      ((GroupedLine.ofCommandLine c).run j').1.content := by
    rw [GroupedLine.ofCommandLine_relined c 0 j' {}]
  have hcursor : (Compilation.ofText s text).places.cursorSerial text row col =
      (Compilation.ofText s text).places.serialAt L.line k := by
    simp only [SectionPlaces.cursorSerial, LogicalLine.find_split hL
      (LogicalLine.mem_rows_of_offsetOf hoff), Option.bind_eq_bind, Option.bind_some, hoff, hreread,
      List.findSome?_cons, hgcmd ▸ hsec, Bool.not_true, Bool.false_eq_true, if_false, hgroup, hslot]
  refine ⟨hsl.trans (hgline.trans hcline), hsk, hcursor,
    fun entries u he hku => hcursor.trans ((Compilation.ofText_keyed s text).serialAt_eq he hku),
    fun c' hc' => ?_⟩
  have hpieces' := GroupedLine.classify_piecesInOrder L.text {} {} c' hc'
  exact ⟨sectionReach_proper _, sectionReach_pairwise hpieces'⟩

/-- The cursor at the end of `N: 1|2` is in the second section of its row. -/
theorem cursorSerial_finds_second : ∃ tl ∈ ((readTree "N: 1|2").run {}).1.allLines,
    ∃ site : IdCard × Span, tl.line = 0 ∧ tl.content.sites[1]? = some site ∧
      site.2.start ≤ 6 ∧ 6 ≤ site.2.stop ∧
      (Compilation.ofText {} "N: 1|2").places.cursorSerial "N: 1|2" 0 6 =
        (Compilation.ofText {} "N: 1|2").places.serialAt 0 1 := by
  obtain ⟨tl, htl, hp⟩ := List.any_eq_true.1 (by decide +kernel :
    (((readTree "N: 1|2").run {}).1.allLines.any fun tl => decide (tl.line = 0) &&
      (tl.content.sites[1]?.map fun s => (s.1.line, s.1.index, s.2.start, s.2.stop)) ==
        some (0, 1, 5, 6)) = true)
  simp only [Bool.and_eq_true, decide_eq_true_eq, beq_iff_eq, Option.map_eq_some_iff,
    Prod.mk.injEq] at hp
  obtain ⟨hline, site, hsite, -, -, hstart, hstop⟩ := hp
  have hL : (⟨0, "N: 1|2", [⟨0, 0, 6⟩]⟩ : LogicalLine) ∈ LogicalLine.split "N: 1|2" := by
    rw [show LogicalLine.split "N: 1|2" = [⟨0, "N: 1|2", [⟨0, 0, 6⟩]⟩] from rfl]
    exact List.mem_singleton_self _
  have hin : site.2.start ≤ 6 ∧ 6 ≤ site.2.stop := by omega
  exact ⟨tl, htl, site, hline, hsite, hin.1, hin.2,
    (cursorSerial_finds {} "N: 1|2" hL rfl htl hline hsite hin).2.2.1⟩

end Jianpu
