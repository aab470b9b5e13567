import Mathlib
import Jianpu.Content.LyricRow
import Jianpu.Proofs.Issues.Yields
/-!
# What a lyric row reads

A lyric row is cut into items and read item by item; the reading is described through four
views, each a function of the items alone.

* `LyricItem`, `lyricItems` — a row's items: syllables (a string literal, an ASCII word with the
  apostrophes and words joined to it, each ASCII run and each other letter of a word), skips,
  extensions, punctuation, roles, groups with their own items, and words that are no lyric.
* `LyricItem.plainToken` — the token an item adds, without roles and punctuation.
* `rolesSung` — the role drawn before each syllable. A role waits for the next syllable; a
  later role takes its place, and a group takes the waiting role in and leaves none after it.
* `postsRun` — the punctuation after each syllable: a run of it goes after the last syllable
  when the last token of its level holds syllables.
* `issuesRun` — the issues raised.
* `Reads` — a reading that agrees with the four views; `readPieces_reads` shows that reading
  pieces always does, one step lemma for each kind of item.
* `lyrics_read_or_reported` — a whole row.

So a role that another role replaces, or that is still waiting when its group ends, is dropped
without an issue: only the role waiting at the end of the row is reported.
-/

namespace Jianpu

def LyricToken.plain : LyricToken → LyricToken
  | .chars cs grouped span => .chars (cs.map fun c => LyricChar.ofText c.text) grouped span
  | tok => tok

def LyricToken.syllables : LyricToken → List LyricChar
  | .chars cs _ _ => cs
  | _ => []

@[simp] theorem LyricChar.ofText_text (t : String) : (LyricChar.ofText t).text = t := rfl

namespace LyricRow

namespace Reading

def sung (r : Reading) : List LyricChar := r.tokens.toList.flatMap LyricToken.syllables

/-- Whether the last token read holds syllables, so that punctuation can attach to it. -/
def attachable (r : Reading) : Bool :=
  match r.tokens.back? with
  | some (.chars cs _ _) => !cs.isEmpty
  | _ => false

end Reading

/-- What a lyric row says, item by item: the pieces read as syllables, skips, extensions,
punctuation, roles, groups and words that are no lyric. -/
inductive LyricItem where
  | syllable (text : String) (span : Span)
  | skip (span : Span)
  | extension (span : Span)
  | punct (text : String) (pos : Nat)
  | role (text : String) (pos : Nat)
  | bad (text : String) (pos : Nat)
  | group (text : String) (span : Span) (items : List LyricItem)

/-- The items of a row's pieces; `fuel` bounds the nesting of groups read. -/
def lyricItems (src : LineText) (fuel : Nat) : List Piece → List LyricItem
  | [] => []
  | .token t :: rest =>
    match t.kind with
    | .stringLiteral => .syllable t.content t.span :: lyricItems src fuel rest
    | .word =>
      if isAsciiText t.content then
        let (text, span, ⟨more, _⟩) := asciiWord t.content t.span rest
        .syllable text span :: lyricItems src fuel more
      else (splitLetters t).map (fun (text, span) => .syllable text span) ++ lyricItems src fuel rest
    | .symbol =>
      let s := t.content
      let here : List LyricItem :=
        if s == "/" then []
        else if s == "_" then [.skip t.span]
        else if s == "-" then [.extension t.span]
        else if s.all isLyricPunct then [.punct s t.span.start]
        else [.bad s t.span.start]
      here ++ lyricItems src fuel rest
    | _ => lyricItems src fuel rest
  | .pair span b closed groups text :: rest =>
    match b with
    | some .square =>
      .role (innerText src ⟨span, b, closed, groups, text⟩) span.start :: lyricItems src fuel rest
    | some .paren =>
      let inner := match fuel with
        | 0 => []
        | f + 1 => lyricItems src f (groups.flatten.filter (!·.isEof))
      .group text span inner :: lyricItems src fuel rest
    | _ => .bad text span.start :: lyricItems src fuel rest
termination_by pieces => (fuel, pieces.length)

mutual
/-- The syllables an item holds, those of a group's items included. -/
def LyricItem.syllables : LyricItem → List String
  | .syllable text _ => [text]
  | .group _ _ items => syllablesOf items
  | _ => []

def syllablesOf : List LyricItem → List String
  | [] => []
  | i :: is => i.syllables ++ syllablesOf is
end

/-- The token an item adds to its level, without roles and punctuation: a syllable's, a
skip's, an extension's, and a group's when it holds syllables. -/
def LyricItem.plainToken : LyricItem → Option LyricToken
  | .syllable text span => some (.chars [LyricChar.ofText text] false span)
  | .skip span => some (.skip span)
  | .extension span => some (.extension span)
  | .group _ span items =>
    match syllablesOf items with
    | [] => none
    | ts => some (.chars (ts.map LyricChar.ofText) true span)
  | _ => none

/-- The role drawn before each syllable of items and the role left waiting, from the one
waiting before them. A role waits for the next syllable; a later role takes its place, and a
group takes it in and leaves none waiting after it. -/
def rolesSung : Option (String × Nat) → List LyricItem → List String × Option (String × Nat)
  | p, [] => ([], p)
  | p, .syllable _ _ :: is => ((p.map (·.1)).getD "" :: (rolesSung none is).1, (rolesSung none is).2)
  | _, .role text pos :: is => rolesSung (some (text, pos)) is
  | p, .group _ _ inner :: is => ((rolesSung p inner).1 ++ (rolesSung none is).1, (rolesSung none is).2)
  | p, _ :: is => rolesSung p is

/-- Whether the last token of a level holds syllables after items, from whether it did
before them: punctuation attaches only then. -/
def attachableAfter : Bool → List LyricItem → Bool
  | b, [] => b
  | _, .syllable _ _ :: is => attachableAfter true is
  | _, .skip _ :: is | _, .extension _ :: is => attachableAfter false is
  | b, .group _ _ inner :: is => attachableAfter (b || !(syllablesOf inner).isEmpty) is
  | b, _ :: is => attachableAfter b is

/-- The punctuation after each syllable, from that after the syllables before and whether
the last token of the level holds syllables: a run of punctuation goes after the last
syllable when it does. -/
def postsRun : Bool → List String → List LyricItem → List String
  | _, ps, [] => ps
  | _, ps, .syllable _ _ :: is => postsRun true (ps ++ [""]) is
  | _, ps, .skip _ :: is | _, ps, .extension _ :: is => postsRun false ps is
  | b, ps, .punct text _ :: is => postsRun b (if b then ps.modifyLast (· ++ text) else ps) is
  | b, ps, .group _ _ inner :: is =>
    postsRun (b || !(syllablesOf inner).isEmpty) (ps ++ postsRun false [] inner) is
  | b, ps, _ :: is => postsRun b ps is

def LyricItem.markAt : LyricItem → Option Nat
  | .skip span | .extension span => some span.start
  | _ => none

/-- The issues that reading items raises: a word that is no lyric, punctuation with no
syllable before it on its level, and, for a group, each skip or extension directly in it and
the group itself when it holds no syllable. -/
def issuesRun (line : Nat) : Bool → List LyricItem → List Issue
  | _, [] => []
  | _, .syllable _ _ :: is => issuesRun line true is
  | _, .skip _ :: is | _, .extension _ :: is => issuesRun line false is
  | b, .punct text pos :: is =>
    (if b then [] else [⟨line, pos, .warning, .badLyricToken text⟩]) ++ issuesRun line b is
  | b, .bad text pos :: is => ⟨line, pos, .warning, .badLyricToken text⟩ :: issuesRun line b is
  | b, .group text span inner :: is =>
    issuesRun line false inner ++
      (inner.filterMap LyricItem.markAt).map (fun pos => ⟨line, pos, .warning, .badLyricToken text⟩) ++
      (if (syllablesOf inner).isEmpty then [⟨line, span.start, .warning, .badLyricToken text⟩]
        else []) ++
      issuesRun line (b || !(syllablesOf inner).isEmpty) is
  | b, .role _ _ :: is => issuesRun line b is

section Views

theorem rolesSung_append (p : Option (String × Nat)) (xs ys : List LyricItem) :
    rolesSung p (xs ++ ys) =
      ((rolesSung p xs).1 ++ (rolesSung (rolesSung p xs).2 ys).1,
        (rolesSung (rolesSung p xs).2 ys).2) := by
  induction xs generalizing p with
  | nil => simp [rolesSung]
  | cons i xs ih => cases i <;> simp [rolesSung, ih]

theorem attachableAfter_append (b : Bool) (xs ys : List LyricItem) :
    attachableAfter b (xs ++ ys) = attachableAfter (attachableAfter b xs) ys := by
  induction xs generalizing b with
  | nil => rfl
  | cons i xs ih => cases i <;> simp [attachableAfter, ih]

theorem postsRun_append (b : Bool) (ps : List String) (xs ys : List LyricItem) :
    postsRun b ps (xs ++ ys) = postsRun (attachableAfter b xs) (postsRun b ps xs) ys := by
  induction xs generalizing b ps with
  | nil => simp [postsRun, attachableAfter]
  | cons i xs ih => cases i <;> simp [postsRun, attachableAfter, ih]

theorem issuesRun_append (line : Nat) (b : Bool) (xs ys : List LyricItem) :
    issuesRun line b (xs ++ ys) = issuesRun line b xs ++ issuesRun line (attachableAfter b xs) ys := by
  induction xs generalizing b with
  | nil => simp [issuesRun, attachableAfter]
  | cons i xs ih => cases i <;> simp [issuesRun, attachableAfter, ih]

end Views

/-- Reading items takes `r` to `r'` and raises `w`: its tokens gain those of the items, its
syllables the roles and punctuation the items give them, and it raises the items' issues. -/
structure Reads (line : Nat) (r : Reading) (items : List LyricItem) (r' : Reading)
    (w : List Issue) : Prop where
  plain : r'.tokens.toList.map LyricToken.plain =
    r.tokens.toList.map LyricToken.plain ++ items.filterMap LyricItem.plainToken
  pres : r'.sung.map (·.pre) = r.sung.map (·.pre) ++ (rolesSung r.role items).1
  role : r'.role = (rolesSung r.role items).2
  posts : r'.sung.map (·.post) = postsRun r.attachable (r.sung.map (·.post)) items
  attachable : r'.attachable = attachableAfter r.attachable items
  issues : w = issuesRun line r.attachable items

namespace Reads

variable {line : Nat} {r r₁ r₂ : Reading} {xs ys : List LyricItem} {w₁ w₂ : List Issue}

theorem nil (line : Nat) (r : Reading) : Reads line r [] r [] where
  plain := by simp
  pres := by simp [rolesSung]
  role := by simp [rolesSung]
  posts := by simp [postsRun]
  attachable := rfl
  issues := by simp [issuesRun]

theorem append (h₁ : Reads line r xs r₁ w₁) (h₂ : Reads line r₁ ys r₂ w₂) :
    Reads line r (xs ++ ys) r₂ (w₁ ++ w₂) where
  plain := by rw [h₂.plain, h₁.plain, List.filterMap_append, List.append_assoc]
  pres := by rw [h₂.pres, h₁.pres, h₁.role, rolesSung_append, List.append_assoc]
  role := by rw [h₂.role, h₁.role, rolesSung_append]
  posts := by rw [h₂.posts, h₁.posts, h₁.attachable, postsRun_append]
  attachable := by rw [h₂.attachable, h₁.attachable, attachableAfter_append]
  issues := by rw [h₁.issues, h₂.issues, h₁.attachable, issuesRun_append]

theorem of_tokens {r r' : Reading} {items : List LyricItem} {w : List Issue}
    (hplain : r'.tokens.toList.map LyricToken.plain =
      r.tokens.toList.map LyricToken.plain ++ items.filterMap LyricItem.plainToken)
    (hsung : r'.sung = r.sung) (hrole : r'.role = (rolesSung r.role items).2)
    (hpres : (rolesSung r.role items).1 = []) (hposts : postsRun r.attachable (r.sung.map (·.post)) items = r.sung.map (·.post))
    (hatt : r'.attachable = attachableAfter r.attachable items)
    (hw : w = issuesRun line r.attachable items) : Reads line r items r' w :=
  ⟨hplain, by rw [hsung, hpres, List.append_nil], hrole, by rw [hsung, hposts], hatt, hw⟩

end Reads

theorem pushChars_single (r : Reading) (c : LyricChar) (grouped : Bool) (span : Span) :
    r.pushChars [c] grouped span =
      { tokens := r.tokens.push (.chars [{ c with pre := (r.role.map (·.1)).getD c.pre }] grouped span),
        role := none } := by
  obtain ⟨tokens, role⟩ := r
  cases role with
  | none => rfl
  | some p => rfl

theorem Reads.syllable (line : Nat) (r : Reading) (text : String) (span : Span) :
    Reads line r [.syllable text span] (r.pushChars [LyricChar.ofText text] false span) [] where
  plain := by simp [pushChars_single, LyricToken.plain, LyricItem.plainToken, LyricChar.ofText]
  pres := by simp [pushChars_single, Reading.sung, LyricToken.syllables, rolesSung, LyricChar.ofText]
  role := by simp [pushChars_single, rolesSung]
  posts := by simp [pushChars_single, Reading.sung, LyricToken.syllables, postsRun, LyricChar.ofText]
  attachable := by simp [pushChars_single, Reading.attachable, attachableAfter]
  issues := by simp [issuesRun]

theorem Reads.letters (line : Nat) (letters : List (String × Span)) : ∀ r : Reading,
    Reads line r (letters.map fun (text, span) => .syllable text span)
      (letters.foldl (fun r (text, span) => r.pushChars [LyricChar.ofText text] false span) r) [] := by
  induction letters with
  | nil => exact Reads.nil line
  | cons l letters ih =>
    intro r
    exact (Reads.syllable line r l.1 l.2).append (ih _)

theorem Reads.mark (line : Nat) (r : Reading) (span : Span) {i : LyricItem} {tok : LyricToken}
    (h : i = .skip span ∧ tok = .skip span ∨ i = .extension span ∧ tok = .extension span) :
    Reads line r [i] { r with tokens := r.tokens.push tok } [] := by
  rcases h with ⟨rfl, rfl⟩ | ⟨rfl, rfl⟩ <;>
    exact Reads.of_tokens (by simp [LyricToken.plain, LyricItem.plainToken])
      (by simp [Reading.sung, LyricToken.syllables]) (by simp [rolesSung]) (by simp [rolesSung])
      (by simp [postsRun]) (by simp [Reading.attachable, attachableAfter]) (by simp [issuesRun])

theorem Reads.setRole (line : Nat) (r : Reading) (text : String) (pos : Nat) :
    Reads line r [.role text pos] { r with role := some (text, pos) } [] :=
  Reads.of_tokens (by simp [LyricItem.plainToken]) rfl (by simp [rolesSung]) (by simp [rolesSung])
    (by simp [postsRun]) (by simp [Reading.attachable, attachableAfter]) (by simp [issuesRun])

theorem Reads.bad (line : Nat) (r : Reading) (text : String) (pos : Nat) :
    Reads line r [.bad text pos] r [⟨line, pos, .warning, .badLyricToken text⟩] :=
  Reads.of_tokens (by simp [LyricItem.plainToken]) rfl (by simp [rolesSung]) (by simp [rolesSung])
    (by simp [postsRun]) (by simp [attachableAfter]) (by simp [issuesRun])

theorem attachPunct_none {r : Reading} {p : String} (h : r.attachPunct p = none) :
    r.attachable = false := by
  unfold Reading.attachPunct at h
  unfold Reading.attachable
  cases hb : r.tokens.back? with
  | none => rfl
  | some tok =>
    rw [hb] at h
    cases tok with
    | chars cs g s =>
      cases hl : cs.getLast? with
      | none => simp [List.getLast?_eq_none_iff.1 hl]
      | some last => simp [hl] at h
    | skip s => rfl
    | extension s => rfl

theorem Reads.punct_unattached (line : Nat) {r : Reading} {p : String} (pos : Nat)
    (h : r.attachPunct p = none) :
    Reads line r [.punct p pos] r [⟨line, pos, .warning, .badLyricToken p⟩] :=
  Reads.of_tokens (by simp [LyricItem.plainToken]) rfl (by simp [rolesSung]) (by simp [rolesSung])
    (by simp [postsRun, attachPunct_none h]) (by simp [attachableAfter])
    (by simp [issuesRun, attachPunct_none h])

theorem attachPunct_some {r r' : Reading} {p : String} (h : r.attachPunct p = some r') :
    ∃ before cs grouped span last,
      r.tokens.toList = before ++ [.chars (cs ++ [last]) grouped span] ∧
      r'.tokens.toList = before ++ [.chars (cs ++ [{ last with post := last.post ++ p }]) grouped span] ∧
      r'.role = r.role := by
  unfold Reading.attachPunct at h
  split at h
  · rename_i cs grouped span hb
    split at h
    · rename_i last hl
      cases h
      have hcs : cs = cs.dropLast ++ [last] := (List.dropLast_append_getLast? last hl).symm
      have htoks : r.tokens.toList = r.tokens.toList.dropLast ++ [.chars cs grouped span] :=
        (List.dropLast_append_getLast? _ (by rw [Array.getLast?_toList, hb]; rfl)).symm
      refine ⟨r.tokens.toList.dropLast, cs.dropLast, grouped, span, last, hcs ▸ htoks, ?_, rfl⟩
      simp
    · simp at h
  · simp at h

theorem Reads.punct_attached (line : Nat) {r r' : Reading} {p : String} (pos : Nat)
    (h : r.attachPunct p = some r') : Reads line r [.punct p pos] r' [] := by
  obtain ⟨before, cs, grouped, span, last, hr, hr', hrole⟩ := attachPunct_some h
  have hatt : r.attachable = true := by
    simp [Reading.attachable, ← Array.getLast?_toList, hr]
  refine ⟨?_, ?_, ?_, ?_, ?_, ?_⟩
  · simp [hr, hr', LyricToken.plain, LyricItem.plainToken]
  · simp [Reading.sung, hr, hr', LyricToken.syllables, rolesSung]
  · simp [hrole, rolesSung]
  · rw [hatt]
    simp only [Reading.sung, hr, hr', List.flatMap_append, List.flatMap_singleton,
      LyricToken.syllables, List.map_append, List.map_singleton]
    simp only [postsRun, if_true]
    rw [← List.append_assoc, ← List.append_assoc, List.modifyLast_concat]
  · rw [hatt]
    simp [Reading.attachable, ← Array.getLast?_toList, hr', attachableAfter]
  · simp [issuesRun, hatt]

theorem texts_plain (toks : List LyricToken) :
    ((toks.map LyricToken.plain).flatMap LyricToken.syllables).map (·.text) =
      (toks.flatMap LyricToken.syllables).map (·.text) := by
  induction toks with
  | nil => rfl
  | cons tok toks ih =>
    cases tok <;> simp_all [LyricToken.plain, LyricToken.syllables, Function.comp_def]

theorem texts_plainTokens (items : List LyricItem) :
    ((items.filterMap LyricItem.plainToken).flatMap LyricToken.syllables).map (·.text) =
      syllablesOf items := by
  induction items with
  | nil => simp [syllablesOf]
  | cons i items ih =>
    cases i with
    | group text span inner =>
      cases h : syllablesOf inner with
      | nil => simp [LyricItem.plainToken, syllablesOf, LyricItem.syllables, h, ih]
      | cons s ss =>
        simp [LyricItem.plainToken, syllablesOf, LyricItem.syllables, h, ih,
          LyricToken.syllables, Function.comp_def]
    | _ => simp [LyricItem.plainToken, List.filterMap_cons, syllablesOf, LyricItem.syllables, ih,
        LyricToken.syllables]

theorem Reads.texts {line : Nat} {r r' : Reading} {items : List LyricItem} {w : List Issue}
    (h : Reads line r items r' w) :
    r'.sung.map (·.text) = r.sung.map (·.text) ++ syllablesOf items := by
  have := congrArg (fun toks => (toks.flatMap LyricToken.syllables).map (·.text)) h.plain
  simp only [texts_plain, List.flatMap_append, List.map_append, texts_plainTokens] at this
  exact this

section Groups

variable {line : Nat} {r ri : Reading} {inner : List LyricItem} {wi : List Issue}

/-- What a group's reading holds: its syllables, with the roles and punctuation given them
inside the group. -/
theorem Reads.of_group (hin : Reads line { role := r.role } inner ri wi) :
    ri.sung.map (·.text) = syllablesOf inner ∧ ri.sung.map (·.pre) = (rolesSung r.role inner).1 ∧
      ri.sung.map (·.post) = postsRun false [] inner ∧ wi = issuesRun line false inner := by
  refine ⟨?_, ?_, ?_, ?_⟩
  · simpa [Reading.sung] using hin.texts
  · simpa [Reading.sung] using hin.pres
  · simpa [Reading.sung, Reading.attachable] using hin.posts
  · simpa [Reading.attachable] using hin.issues

theorem plainToken_group {text : String} {span : Span} {inner : List LyricItem}
    (h : syllablesOf inner ≠ []) :
    (LyricItem.group text span inner).plainToken =
      some (.chars ((syllablesOf inner).map LyricChar.ofText) true span) := by
  obtain ⟨s, ss, hs⟩ := List.exists_cons_of_ne_nil h
  simp [LyricItem.plainToken, hs]

theorem Reads.group_sung (text : String) (span : Span)
    (hin : Reads line { role := r.role } inner ri wi) (hne : ri.sung ≠ []) :
    Reads line r [.group text span inner]
      { tokens := r.tokens.push (.chars ri.sung true span), role := none }
      (wi ++ (inner.filterMap LyricItem.markAt).map
        fun pos => ⟨line, pos, .warning, .badLyricToken text⟩) := by
  obtain ⟨htexts, hpres, hposts, hw⟩ := hin.of_group
  have hsyl : syllablesOf inner ≠ [] := by
    rw [← htexts]
    simpa using hne
  refine ⟨?_, ?_, ?_, ?_, ?_, ?_⟩
  · have hplain : ri.sung.map (fun c => LyricChar.ofText c.text) =
        (syllablesOf inner).map LyricChar.ofText := by
      rw [← htexts, List.map_map]
      rfl
    simp [LyricToken.plain, plainToken_group hsyl, hplain]
  · simp [Reading.sung, LyricToken.syllables, rolesSung, ← hpres]
  · simp [rolesSung]
  · simp [Reading.sung, LyricToken.syllables, postsRun, ← hposts]
  · have h₁ : ri.sung.isEmpty = false := List.isEmpty_eq_false_iff.2 hne
    have h₂ : (syllablesOf inner).isEmpty = false := List.isEmpty_eq_false_iff.2 hsyl
    simp [Reading.attachable, attachableAfter, h₁, h₂]
  · simp [issuesRun, hw, hsyl]

theorem Reads.group_empty (text : String) (span : Span)
    (hin : Reads line { role := r.role } inner ri wi) (he : ri.sung = []) :
    Reads line r [.group text span inner] { r with role := none }
      (wi ++ (inner.filterMap LyricItem.markAt).map
        (fun pos => ⟨line, pos, .warning, .badLyricToken text⟩) ++
        [⟨line, span.start, .warning, .badLyricToken text⟩]) := by
  obtain ⟨htexts, hpres, hposts, hw⟩ := hin.of_group
  have hsyl : syllablesOf inner = [] := by simp [← htexts, he]
  refine Reads.of_tokens ?_ rfl ?_ ?_ ?_ ?_ ?_
  · simp [LyricItem.plainToken, hsyl]
  · simp [rolesSung]
  · simp [rolesSung, ← hpres, he]
  · simp [postsRun, ← hposts, he, hsyl]
  · simp [Reading.attachable, attachableAfter, hsyl]
  · simp [issuesRun, hw, hsyl]

end Groups

theorem reads_before {line : Nat} {y : Compiling Reading} {r r₁ : Reading}
    {xs items : List LyricItem} (hr : Reads line r xs r₁ [])
    (ih : ∃ r' w, Yields y r' w ∧ Reads line r₁ items r' w) :
    ∃ r' w, Yields y r' w ∧ Reads line r (xs ++ items) r' w := by
  obtain ⟨r', w, hy, hr'⟩ := ih
  exact ⟨r', w, hy, by simpa using hr.append hr'⟩

theorem reads_then {line : Nat} {src : LineText} {fuel : Nat} {x : Compiling Reading}
    {r r₁ : Reading} {xs items : List LyricItem} {w₁ : List Issue} {pieces : List Piece}
    (hx : Yields x r₁ w₁) (hr : Reads line r xs r₁ w₁)
    (ih : ∃ r' w, Yields (readPieces line src fuel r₁ pieces) r' w ∧ Reads line r₁ items r' w) :
    ∃ r' w, Yields (x >>= fun r => readPieces line src fuel r pieces) r' w ∧
      Reads line r (xs ++ items) r' w := by
  obtain ⟨r', w, hy, hr'⟩ := ih
  exact ⟨r', w₁ ++ w, Yields.bind hx hy, hr.append hr'⟩

theorem reads_after_warn {line : Nat} {src : LineText} {fuel : Nat} {r : Reading}
    {xs items : List LyricItem} {pos : Nat} {problem : Problem} {pieces : List Piece}
    (hr : Reads line r xs r [⟨line, pos, .warning, problem⟩])
    (ih : ∃ r' w, Yields (readPieces line src fuel r pieces) r' w ∧ Reads line r items r' w) :
    ∃ r' w, Yields (do Jianpu.warn line pos problem; let r ← pure r; readPieces line src fuel r pieces)
      r' w ∧ Reads line r (xs ++ items) r' w := by
  obtain ⟨r', w, hy, hr'⟩ := ih
  refine ⟨r', _, Yields.bind (Yields.warn line pos problem) (Yields.bind (Yields.pure r) hy), ?_⟩
  simpa using hr.append hr'

def strayWarning (line : Nat) (text : String) : LyricToken → List Issue
  | .chars .. => []
  | tok => [⟨line, tok.span.start, .warning, .badLyricToken text⟩]

theorem strayWarnings_plain (line : Nat) (text : String) {toks : List LyricToken}
    {inner : List LyricItem}
    (h : toks.map LyricToken.plain = inner.filterMap LyricItem.plainToken) :
    toks.flatMap (strayWarning line text) =
      (inner.filterMap LyricItem.markAt).map fun pos => ⟨line, pos, .warning, .badLyricToken text⟩ := by
  have hplain : ∀ tok, strayWarning line text tok.plain = strayWarning line text tok := by
    intro tok
    cases tok <;> rfl
  have hmarks : ∀ items : List LyricItem,
      (items.filterMap LyricItem.plainToken).flatMap (strayWarning line text) =
        (items.filterMap LyricItem.markAt).map
          fun pos => ⟨line, pos, .warning, .badLyricToken text⟩ := by
    intro items
    induction items with
    | nil => rfl
    | cons i items ih =>
      cases i with
      | group t s g =>
        cases hs : syllablesOf g <;>
          simp [LyricItem.plainToken, LyricItem.markAt, List.filterMap_cons, strayWarning, hs, ih]
      | _ =>
        simp [LyricItem.plainToken, LyricItem.markAt, List.filterMap_cons, strayWarning,
          LyricToken.span, ih]
  calc toks.flatMap (strayWarning line text)
      = (toks.map LyricToken.plain).flatMap (strayWarning line text) := by
        simp only [List.flatMap_map, hplain]
    _ = (inner.filterMap LyricItem.plainToken).flatMap (strayWarning line text) := by rw [h]
    _ = _ := hmarks inner

/-- The loop that gathers a group's syllables and complains of its other tokens. -/
theorem groupLoop_yields (line : Nat) (text : String) (toks : List LyricToken) :
    Yields (forIn toks ([] : List LyricChar) fun tok cs =>
        match tok with
        | .chars c _ _ => pure (ForInStep.yield (cs ++ c))
        | other => do
          Jianpu.warn line other.span.start (.badLyricToken text)
          pure (ForInStep.yield cs))
      (toks.flatMap LyricToken.syllables) (toks.flatMap (strayWarning line text)) := by
  rw [List.flatMap_eq_foldl]
  refine Yields.forIn_yield (fun tok cs => ?_) toks []
  cases tok with
  | chars c g s => exact Yields.pure _
  | skip s =>
    simpa [LyricToken.syllables, strayWarning, LyricToken.span] using
      Yields.warn_then line s.start (.badLyricToken text) (ForInStep.yield cs)
  | extension s =>
    simpa [LyricToken.syllables, strayWarning, LyricToken.span] using
      Yields.warn_then line s.start (.badLyricToken text) (ForInStep.yield cs)

theorem reads_group (line : Nat) (src : LineText) (fuel : Nat) (r : Reading) (span : Span)
    (text : String) (rest : List Piece) {ri ri₀ : Reading} {inner items : List LyricItem}
    {wi : List Issue} (hin : Reads line { role := r.role } inner ri₀ wi)
    (htoks : ri.tokens = ri₀.tokens)
    (hempty : ∃ r' w, Yields (readPieces line src fuel { tokens := r.tokens } rest) r' w ∧
      Reads line { tokens := r.tokens } items r' w)
    (hsung : ∀ cs, ∃ r' w,
      Yields (readPieces line src fuel
        { tokens := r.tokens.push (.chars cs true span), role := none } rest) r' w ∧
      Reads line { tokens := r.tokens.push (.chars cs true span), role := none } items r' w) :
    ∃ r' w, Yields (do
        let cs ← forIn ri.tokens.toList ([] : List LyricChar) fun tok cs =>
          match tok with
          | .chars c _ _ => pure (ForInStep.yield (cs ++ c))
          | other => do
            Jianpu.warn line other.span.start (.badLyricToken text)
            pure (ForInStep.yield cs)
        if _h : cs.isEmpty = true then do
          Jianpu.warn line span.start (.badLyricToken text)
          readPieces line src fuel { tokens := r.tokens } rest
        else
          readPieces line src fuel { tokens := r.tokens.push (.chars cs true span), role := none }
            rest) r' w ∧
      Reads line r (.group text span inner :: items) r' (wi ++ w) := by
  have hsung₀ : ri.tokens.toList.flatMap LyricToken.syllables = ri₀.sung := by
    rw [htoks]
    rfl
  have hstray : ri.tokens.toList.flatMap (strayWarning line text) =
      (inner.filterMap LyricItem.markAt).map
        fun pos => ⟨line, pos, .warning, .badLyricToken text⟩ := by
    refine strayWarnings_plain line text ?_
    simpa [htoks] using hin.plain
  have hloop := groupLoop_yields line text ri.tokens.toList
  rw [hsung₀, hstray] at hloop
  by_cases he : ri₀.sung = []
  · obtain ⟨r', w, hy, hr⟩ := hempty
    refine ⟨r', (inner.filterMap LyricItem.markAt).map
        (fun pos => ⟨line, pos, .warning, .badLyricToken text⟩) ++
        ([⟨line, span.start, .warning, .badLyricToken text⟩] ++ w), Yields.bind hloop ?_, ?_⟩
    · rw [dif_pos (by simp [he])]
      exact Yields.bind (Yields.warn line span.start _) hy
    · simpa using (Reads.group_empty text span hin he).append hr
  · obtain ⟨r', w, hy, hr⟩ := hsung ri₀.sung
    refine ⟨r', (inner.filterMap LyricItem.markAt).map
        (fun pos => ⟨line, pos, .warning, .badLyricToken text⟩) ++ w, Yields.bind hloop ?_, ?_⟩
    · rw [dif_neg (by simpa using he)]
      exact hy
    · simpa using (Reads.group_sung text span hin he).append hr

theorem readPieces_reads (line : Nat) (src : LineText) (fuel : Nat) (r : Reading)
    (pieces : List Piece) :
    ∃ r' w, Yields (readPieces line src fuel r pieces) r' w ∧
      Reads line r (lyricItems src fuel pieces) r' w := by
  fun_induction readPieces line src fuel r pieces with
  | case1 fuel r =>
    refine ⟨r, [], Yields.pure r, ?_⟩
    rw [lyricItems]
    exact Reads.nil line r
  | case2 fuel r t rest hk ih =>
    rw [lyricItems]
    simp only [hk]
    exact reads_before (Reads.syllable line r t.content t.span) ih
  | case3 fuel r t rest hk ha text span more hmore hw ih =>
    rw [lyricItems]
    simp only [hk, ha, hw, if_true]
    exact reads_before (Reads.syllable line r text span) ih
  | case4 fuel r t rest hk ha r₁ ih =>
    rw [lyricItems]
    simp only [hk, ha]
    exact reads_before (Reads.letters line (splitLetters t) r) ih
  | case5 fuel r t rest hk s k h ih =>
    rw [lyricItems]
    simp only [hk]
    rw [if_pos h]
    exact reads_then (Yields.pure r) (Reads.nil line r) (ih r)
  | case6 fuel r t rest hk s k h₁ h₂ ih =>
    rw [lyricItems]
    simp only [hk]
    rw [if_neg h₁, if_pos h₂]
    exact reads_then (Yields.pure _) (Reads.mark line r t.span (.inl ⟨rfl, rfl⟩)) (ih _)
  | case7 fuel r t rest hk s k h₁ h₂ h₃ ih =>
    rw [lyricItems]
    simp only [hk]
    rw [if_neg h₁, if_neg h₂, if_pos h₃]
    exact reads_then (Yields.pure _) (Reads.mark line r t.span (.inr ⟨rfl, rfl⟩)) (ih _)
  | case8 fuel r t rest hk s k h₁ h₂ h₃ h₄ r₁ hp ih =>
    rw [lyricItems]
    simp only [hk]
    rw [if_neg h₁, if_neg h₂, if_neg h₃, if_pos h₄]
    exact reads_then (Yields.pure _) (Reads.punct_attached line t.span.start hp) (ih _)
  | case9 fuel r t rest hk s k h₁ h₂ h₃ h₄ hp ih =>
    rw [lyricItems]
    simp only [hk]
    rw [if_neg h₁, if_neg h₂, if_neg h₃, if_pos h₄]
    exact reads_after_warn (Reads.punct_unattached line t.span.start hp) (ih _)
  | case10 fuel r t rest hk s k h₁ h₂ h₃ h₄ ih =>
    rw [lyricItems]
    simp only [hk]
    rw [if_neg h₁, if_neg h₂, if_neg h₃, if_neg h₄]
    exact reads_after_warn (Reads.bad line r t.content t.span.start) (ih _)
  | case11 fuel r t rest h₁ h₂ h₃ ih =>
    obtain ⟨r', w, hy, hr⟩ := ih
    refine ⟨r', w, hy, ?_⟩
    rw [lyricItems]
    split
    · exact absurd ‹_› h₁
    · exact absurd ‹_› h₂
    · exact absurd ‹_› h₃
    · exact hr
  | case12 fuel r span closed groups text rest p ih =>
    rw [lyricItems]
    exact reads_before (Reads.setRole line r _ _) ih
  | case13 r span closed groups text rest jp hempty hsung =>
    obtain ⟨r', w, hy, hr⟩ :=
      reads_group line src 0 r span text rest (Reads.nil line { role := r.role }) rfl hempty hsung
    refine ⟨r', [] ++ w, Yields.bind (Yields.pure ({} : Reading)) hy, ?_⟩
    rw [lyricItems]
    exact hr
  | case14 r span closed groups text rest f jp hempty hsung hinner =>
    obtain ⟨ri, wi, hxin, hri⟩ := hinner
    obtain ⟨r', w, hy, hr⟩ := reads_group line src (f + 1) r span text rest hri rfl hempty hsung
    refine ⟨r', wi ++ w, Yields.bind hxin hy, ?_⟩
    rw [lyricItems]
    exact hr
  | case15 fuel r span b closed groups text rest h₁ h₂ ih =>
    obtain ⟨r', w, hy, hr⟩ := ih
    refine ⟨r', _, Yields.bind (Yields.warn line span.start _) hy, ?_⟩
    rw [lyricItems]
    · exact (Reads.bad line r text span.start).append hr
    · exact h₁
    · exact h₂

def rowItems (src : LineText) (pieces : List Piece) : List LyricItem :=
  lyricItems src (Piece.groupDepth pieces) pieces

end LyricRow

open LyricRow in
theorem lyrics_read_or_reported (line : Nat) (src : LineText) (pieces : List Piece) :
    ∃ tokens w, Yields (readLyrics line src pieces) tokens w ∧
      tokens.map LyricToken.plain = (rowItems src pieces).filterMap LyricItem.plainToken ∧
      (tokens.flatMap LyricToken.syllables).map (·.pre) = (rolesSung none (rowItems src pieces)).1 ∧
      (tokens.flatMap LyricToken.syllables).map (·.post) = postsRun false [] (rowItems src pieces) ∧
      w = issuesRun line false (rowItems src pieces) ++
        ((rolesSung none (rowItems src pieces)).2.map
          fun p => ⟨line, p.2, .warning, .badLyricToken "[]"⟩).toList := by
  obtain ⟨r, w, hy, hr⟩ := readPieces_reads line src (Piece.groupDepth pieces) {} pieces
  have hrole := hr.role
  refine ⟨r.tokens.toList, w ++ (r.role.map fun p => ⟨line, p.2, .warning, .badLyricToken "[]"⟩).toList,
    ?_, ?_, ?_, ?_, ?_⟩
  · unfold readLyrics
    refine Yields.bind hy ?_
    cases r.role with
    | none => exact Yields.pure _
    | some p => exact Yields.warn_then line p.2 _ _
  · simpa [rowItems] using hr.plain
  · simpa [rowItems, Reading.sung] using hr.pres
  · simpa [rowItems, Reading.sung, Reading.attachable] using hr.posts
  · rw [hr.issues, hrole]
    rfl

end Jianpu
