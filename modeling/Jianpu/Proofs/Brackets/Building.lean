import Mathlib
import Jianpu.Proofs.Brackets.Matching
/-!
# How the bracket pairs of a line are built

`Bracketed.ofTokens` reads the tokens of a line into a stack of open pairs, top first, above the
line's own frame. This file follows one token at a time:

* `Move`, `movesOf`, `step_eq`  what reading a token does, said once: a pair opens, a closing
  bracket closes the top pair or is dropped (a `]]` that closes no `[[` does this twice, once per
  half), a comma ends the group being filled, or the token joins it;
* `Open.Ok`, `Stacked`  what holds of each open frame and of the stack: one frame per open bracket
  of the matching, each frame's finished groups end in one end-of-text token, commas cut as the
  command says at the frame's depth, and every pair inside is sound;
* `Placed`, `stackReadBack`  where the pieces lie, and the stack read back as tokens;
* `Reading`, `Reading.step`, `Reading.fold`  all of it kept by every token, so by the whole line;
* `closeAll_run`  the pairs left open at the end are closed there, each with an error.

Main statement: `ofTokens_reads_back`.
-/

namespace Jianpu

theorem Lined.tail {t : Token} {ts : List Token} (h : Lined (t :: ts)) : Lined ts where
  ordered := h.ordered.of_cons
  proper t ht := h.proper t (List.mem_cons_of_mem _ ht)
  width t ht := h.width t (List.mem_cons_of_mem _ ht)

theorem Lined.filter {ts : List Token} (h : Lined ts) (p : Token → Bool) : Lined (ts.filter p) where
  ordered := h.ordered.filter p
  proper t ht := h.proper t (List.mem_of_mem_filter ht)
  width t ht := h.width t (List.mem_of_mem_filter ht)

theorem Lined.head_le {ts : List Token} (h : Lined ts) {t : Token} (ht : t ∈ ts) :
    (ts.head?.map (·.span.start)).getD 0 ≤ t.span.start := by
  cases ts with
  | nil => cases ht
  | cons a ts =>
    simp only [List.head?_cons, Option.map_some, Option.getD_some]
    rcases List.mem_cons.1 ht with rfl | ht
    · exact le_rfl
    · have h₁ := h.proper a List.mem_cons_self
      have h₂ := List.rel_of_pairwise_cons h.ordered ht
      omega

theorem Lined.le_last {ts : List Token} (h : Lined ts) {t : Token} (ht : t ∈ ts) (d : Nat) :
    t.span.stop ≤ (ts.getLast?.map (·.span.stop)).getD d := by
  obtain ⟨l, z, rfl⟩ := (List.eq_nil_or_concat' ts).resolve_left (List.ne_nil_of_mem ht)
  simp only [List.getLast?_concat, Option.map_some, Option.getD_some]
  rcases List.mem_append.1 ht with ht | ht
  · have h₁ := h.proper z (by simp)
    have h₂ : t.span.stop ≤ z.span.start :=
      (List.pairwise_append.1 h.ordered).2.2 t ht z List.mem_cons_self
    omega
  · rw [List.mem_singleton] at ht
    rw [ht]

theorem Lined.head_le_last {ts : List Token} (h : Lined ts) :
    (ts.head?.map (·.span.start)).getD 0 ≤
      (ts.getLast?.map (·.span.stop)).getD ((ts.head?.map (·.span.start)).getD 0) := by
  cases ts with
  | nil => exact le_rfl
  | cons a ts =>
    have h₁ := h.proper a List.mem_cons_self
    have h₂ := h.le_last (List.mem_cons_self (a := a) (l := ts)) a.span.start
    simp only [List.head?_cons, Option.map_some, Option.getD_some] at h₂ ⊢
    omega

namespace Bracketed

/-! ## What reading a token does -/

/-- A step of reading, as `step` takes it. -/
inductive Move
  /-- A pair of kind `b` opens at the token `t`. -/
  | opens (b : Bracket) (t : Token)
  /-- A closing bracket `c` of kind `b` closes the top pair, or is dropped. -/
  | closes (b : Bracket) (c : Token)
  /-- The comma `t` ends the group being filled. -/
  | cuts (t : Token)
  /-- The token `t` joins the group being filled. -/
  | adds (t : Token)

def Move.apply (line : Nat) (chars : Array Char) : Move → List Open → Compiling (List Open)
  | .opens b t, s => pure (⟨some b, t.span.start, #[], #[]⟩ :: s)
  | .closes b c, s => closeOrDrop line chars b c.span.stop c.span.start s
  | .cuts t, s => pure (match s with | top :: rest => top.endGroup t.span.start :: rest | [] => [])
  | .adds t, s => pure (match s with | top :: rest => top.add (.token t) :: rest | [] => [])

def Move.keep : Move → List Bracket → Matching
  | .opens b t, o => ⟨b :: o, [t], []⟩
  | .closes b c, o => closeOne b c o
  | .cuts t, o | .adds t, o => ⟨o, [t], []⟩

/-- The moves of reading the token `t` on the stack `s`. -/
def movesOf (mode : SplitMode) (s : List Open) (t : Token) : List Move :=
  if t.kind = .symbol then
    match Bracket.ofOpen t.content with
    | some b => [.opens b t]
    | none =>
      if t.content = "]]" then
        if topIs s .doubleSquare then [.closes .doubleSquare t]
        else [.closes .square (firstHalf t), .closes .square (secondHalf t)]
      else
        match closingOf t.content with
        | some b => [.closes b t]
        | none => if t.content = "," ∧ splits mode (s.length - 1) = true then [.cuts t] else [.adds t]
  else [.adds t]

theorem closeOrDrop_of_topIs {line : Nat} {chars : Array Char} {b : Bracket} {stop at' : Nat}
    {s : List Open} (h : topIs s b = true) :
    closeOrDrop line chars b stop at' s = pure (closeTop chars stop s) := by
  simp [closeOrDrop, h]

/-- Reading a token makes its moves, one after the other. -/
theorem step_eq (line : Nat) (chars : Array Char) (mode : SplitMode) (s : List Open) (t : Token) :
    step line chars mode s t = (movesOf mode s t).foldlM (fun s m => m.apply line chars s) s := by
  unfold step movesOf
  by_cases hk : t.kind = .symbol
  · simp only [hk, beq_self_eq_true, if_true]
    cases ho : Bracket.ofOpen t.content with
    | some b => simp [Move.apply]
    | none =>
      simp only
      by_cases hb : t.content = "]]"
      · by_cases hd : topIs s .doubleSquare = true
        · simp [hb, hd, Move.apply, closeOrDrop_of_topIs hd]
        · simp [hb, hd, Move.apply]
          rfl
      · simp only [hb, beq_iff_eq, if_false]
        split
        · rename_i b hc
          have hc : closingOf t.content = some b := hc
          simp [hc, Move.apply]
        · rename_i hc
          have hc : closingOf t.content = none := by
            cases h : closingOf t.content with
            | none => rfl
            | some b => exact absurd h (hc b)
          rw [hc]
          by_cases hcut : t.content = "," ∧ splits mode (s.length - 1) = true
          · simp only [hcut, Bool.and_true, beq_self_eq_true, if_true]
            rfl
          · have hcut' : (t.content == "," && splits mode (s.length - 1)) = false := by
              simpa using hcut
            simp only [hcut, hcut', if_false, Bool.false_eq_true]
            rfl
  · -- a word joins the group of the innermost bracket
    cases s <;> simp [hk, Move.apply]

def Move.token : Move → Token
  | .opens _ t | .closes _ t | .cuts t | .adds t => t

/-- What a move asks of its token at a depth of brackets: the bracket or comma it reads is the
token's text, as wide as that text; a token that joins a group is no end of text, nor a comma
where commas cut. -/
def Move.Sound (mode : SplitMode) (depth : Nat) : Move → Prop
  | .opens b t => t.kind = .symbol ∧ t.content = b.openGlyph ∧ t.span.stop = t.span.start + t.content.length
  | .closes b c => c.kind = .symbol ∧ c.content = b.closeGlyph ∧ c.span.stop = c.span.start + c.content.length
  | .cuts t => t.kind = .symbol ∧ t.content = "," ∧ t.span.stop = t.span.start + t.content.length ∧
      splits mode depth = true
  | .adds t => t.isEof = false ∧ (splits mode depth = true → t.isSymbol "," = false)

def Move.keepAll : List Move → List Bracket → Matching
  | [], o => ⟨o, [], []⟩
  | mv :: mvs, o => (mv.keep o).next (keepAll mvs)

@[simp] theorem Move.keepAll_singleton (mv : Move) : Move.keepAll [mv] = mv.keep :=
  funext fun _ => Matching.next_nil _

theorem Move.keepAll_pair (mv mv' : Move) :
    Move.keepAll [mv, mv'] = fun o => (mv.keep o).next mv'.keep := by
  funext o
  simp [Move.keepAll, Matching.next_nil]

@[simp] theorem Matching.nil_next (o : List Bracket) (f : List Bracket → Matching) :
    (⟨o, [], []⟩ : Matching).next f = f o := by
  simp [Matching.next]

theorem Matching.next_congr {m : Matching} {f g : List Bracket → Matching} (h : f m.opens = g m.opens) :
    m.next f = m.next g := by
  simp [Matching.next, h]

theorem Bracket.openGlyph_of_ofOpen {s : String} {b : Bracket} (h : Bracket.ofOpen s = some b) :
    b.openGlyph = s := by
  unfold Bracket.ofOpen at h
  split at h <;> cases h <;> rfl

theorem Bracket.closeGlyph_of_closingOf {s : String} {b : Bracket} (h : closingOf s = some b) :
    b.closeGlyph = s := by
  unfold closingOf at h
  split at h <;> cases h <;> rfl

/-- A token is read by one move, or, a `]]` that closes no `[[`, by one move for each half. -/
theorem movesOf_cases (mode : SplitMode) (s : List Open) (t : Token) :
    (∃ mv, movesOf mode s t = [mv] ∧ mv.token = t) ∨
      (movesOf mode s t = [.closes .square (firstHalf t), .closes .square (secondHalf t)] ∧
        t.kind = .symbol ∧ t.content = "]]") := by
  unfold movesOf
  by_cases hk : t.kind = .symbol
  · simp only [hk, if_true]
    split
    · exact .inl ⟨_, rfl, rfl⟩
    · by_cases hb : t.content = "]]"
      · by_cases hd : topIs s .doubleSquare = true
        · simp [hb, hd, Move.token]
        · simp [hb, hd]
      · simp only [hb, if_false]
        split
        · exact .inl ⟨_, rfl, rfl⟩
        · split <;> exact .inl ⟨_, rfl, rfl⟩
  · simp [hk, Move.token]

/-- Every move of a token as a line gives it asks what it should of the token. -/
theorem movesOf_sound {mode : SplitMode} {s : List Open} {t : Token} {mv : Move}
    (hmv : mv ∈ movesOf mode s t) (hw : t.kind = .symbol → t.span.stop = t.span.start + t.content.length)
    (he : t.isEof = false) : mv.Sound mode (s.length - 1) := by
  unfold movesOf at hmv
  by_cases hk : t.kind = .symbol
  · simp only [hk, if_true] at hmv
    have hw := hw hk
    split at hmv
    · rename_i b hb
      rw [List.mem_singleton] at hmv
      subst hmv
      exact ⟨hk, (Bracket.openGlyph_of_ofOpen hb).symm, hw⟩
    · by_cases hbb : t.content = "]]"
      · simp only [hbb, if_true] at hmv
        split at hmv
        · rw [List.mem_singleton] at hmv
          subst hmv
          exact ⟨hk, hbb.trans rfl, hw⟩
        · rw [hbb] at hw
          simp only [List.mem_cons, List.not_mem_nil, or_false] at hmv
          rcases hmv with rfl | rfl
          · exact ⟨rfl, rfl, by simp only [firstHalf, Nat.add_left_cancel_iff]; rfl⟩
          · refine ⟨rfl, rfl, ?_⟩
            simp only [secondHalf]
            have : "]]".length = 2 := rfl
            have : "]".length = 1 := rfl
            omega
      · simp only [hbb, if_false] at hmv
        split at hmv
        · rename_i b hb
          rw [List.mem_singleton] at hmv
          subst hmv
          exact ⟨hk, (Bracket.closeGlyph_of_closingOf hb).symm, hw⟩
        · split at hmv
          · rename_i hcut
            rw [List.mem_singleton] at hmv
            subst hmv
            exact ⟨hk, hcut.1, hw, hcut.2⟩
          · rename_i hcut
            rw [List.mem_singleton] at hmv
            subst hmv
            refine ⟨he, fun hs => ?_⟩
            simp only [Token.isSymbol, Bool.and_eq_false_iff, beq_eq_false_iff_ne]
            exact .inr fun hc => hcut ⟨hc, hs⟩
  · simp only [hk, if_false, List.mem_singleton] at hmv
    subst hmv
    refine ⟨he, fun _ => ?_⟩
    simp [Token.isSymbol, hk]

theorem closeOrDrop_run (line : Nat) (chars : Array Char) (b : Bracket) (stop at' : Nat)
    (s : List Open) (j : Journal) :
    (closeOrDrop line chars b stop at' s).run j =
      if topIs s b then (closeTop chars stop s, j)
      else (s, { j with issues := j.issues.push ⟨line, at', .error, .unpairedBracket b.closeGlyph⟩ }) := by
  unfold closeOrDrop
  split <;> rfl

/-! ## Frames -/

namespace Open

variable (f : Open) (p : Piece) (n stop : Nat) (c : Bool) (chars : Array Char)

def pieces : List Piece := f.groups.toList.flatten ++ f.current.toList

def innerEnd : Nat := if c then stop - (f.bracket.map (·.closeGlyph.length)).getD 0 else stop

@[simp] theorem endGroup_bracket : (f.endGroup n).bracket = f.bracket := rfl
@[simp] theorem endGroup_start : (f.endGroup n).start = f.start := rfl
@[simp] theorem endGroup_groups :
    (f.endGroup n).groups.toList = f.groups.toList ++ [f.current.toList ++ [.token (Token.eof n)]] := by
  simp [endGroup]
@[simp] theorem endGroup_current : (f.endGroup n).current.toList = [] := rfl

@[simp] theorem add_bracket : (f.add p).bracket = f.bracket := rfl
@[simp] theorem add_start : (f.add p).start = f.start := rfl
@[simp] theorem add_groups : (f.add p).groups = f.groups := rfl
@[simp] theorem add_current : (f.add p).current.toList = f.current.toList ++ [p] := by simp [add]

@[simp] theorem close_span : (f.close stop c chars).span = ⟨f.start, stop⟩ := rfl
@[simp] theorem close_bracket : (f.close stop c chars).bracket = f.bracket := rfl
@[simp] theorem close_closed : (f.close stop c chars).closed = c := rfl
@[simp] theorem close_groups : (f.close stop c chars).groups =
    f.groups.toList ++ [f.current.toList ++ [.token (Token.eof (f.innerEnd stop c))]] := by
  simp [close, innerEnd, endGroup]

@[simp] theorem endGroup_pieces : (f.endGroup n).pieces = f.pieces ++ [.token (Token.eof n)] := by
  simp [pieces]

@[simp] theorem add_pieces : (f.add p).pieces = f.pieces ++ [p] := by
  simp [pieces]

theorem close_flatten :
    (f.close stop c chars).groups.flatten = f.pieces ++ [.token (Token.eof (f.innerEnd stop c))] := by
  simp [pieces]

theorem inner_close : (f.close stop c chars).inner = Piece.groupPairs f.pieces := by
  simp [inner, Piece.groupsPairs_eq_flatten, pieces]

/-- What holds of a frame at a depth of brackets while it is open: its finished groups end in one
end-of-text token and hold no other, the group being filled holds none, every pair inside is
sound, and either commas cut at its depth, and none is among its pieces, or it has no finished
group. -/
structure Ok (mode : SplitMode) (depth : Nat) (f : Open) : Prop where
  sealed : ∀ g ∈ f.groups.toList,
    ∃ items n, g = items ++ [.token (Token.eof n)] ∧ ∀ p ∈ items, p.isEof = false
  filling : ∀ p ∈ f.current.toList, p.isEof = false
  inner : ∀ q ∈ Piece.groupPairs f.pieces, q.GroupsEnd ∧ q.CutBy mode true
  cut : if splits mode depth then ∀ p ∈ f.pieces, p.isComma = false else f.groups.toList = []

section Ok

variable {mode : SplitMode} {d : Nat} {f p n stop c chars}

theorem Ok.empty (b : Option Bracket) (start : Nat) : Open.Ok mode d ⟨b, start, #[], #[]⟩ where
  sealed := by simp
  filling := by simp
  inner := by simp [pieces]
  cut := by split <;> simp [pieces]

theorem Ok.endGroup (h : f.Ok mode d) (hs : splits mode d = true) : (f.endGroup n).Ok mode d where
  sealed := by
    simp only [endGroup_groups, List.mem_append, List.mem_singleton]
    rintro g (hg | rfl)
    · exact h.sealed g hg
    · exact ⟨_, n, rfl, h.filling⟩
  filling := by simp
  inner := by simpa using h.inner
  cut := by
    have hc := h.cut
    rw [if_pos hs] at hc ⊢
    rw [endGroup_pieces, List.forall_mem_append, List.forall_mem_singleton]
    exact ⟨hc, rfl⟩

theorem Ok.add (h : f.Ok mode d) (he : p.isEof = false)
    (hp : ∀ q ∈ p.pairs, q.GroupsEnd ∧ q.CutBy mode true)
    (hc : splits mode d = true → p.isComma = false) : (f.add p).Ok mode d where
  sealed := h.sealed
  filling := by
    rw [add_current, List.forall_mem_append, List.forall_mem_singleton]
    exact ⟨h.filling, he⟩
  inner := by
    simp only [add_pieces, Piece.groupPairs_append, List.mem_append]
    rintro q (hq | hq)
    · exact h.inner q hq
    · exact hp q (by simpa [Piece.groupPairs] using hq)
  cut := by
    have hcut := h.cut
    split
    · rename_i hs
      rw [if_pos hs] at hcut
      rw [add_pieces, List.forall_mem_append, List.forall_mem_singleton]
      exact ⟨hcut, hc hs⟩
    · rename_i hs
      rw [if_neg hs] at hcut
      exact hcut

theorem mem_close_flatten {q : Piece} (hq : q ∈ (f.close stop c chars).groups.flatten) :
    q ∈ f.pieces ∨ q = .token (Token.eof (f.innerEnd stop c)) := by
  rw [close_flatten, List.mem_append, List.mem_singleton] at hq
  exact hq

theorem Ok.groupsEnd_close (h : f.Ok mode d) : (f.close stop c chars).GroupsEnd := by
  refine ⟨by simp, ?_⟩
  simp only [close_groups, List.mem_append, List.mem_singleton]
  rintro g (hg | rfl)
  · exact h.sealed g hg
  · exact ⟨_, _, rfl, h.filling⟩

theorem Ok.noCommaItems_close (h : f.Ok mode d) (hs : splits mode d = true) :
    (f.close stop c chars).NoCommaItems := by
  have hcut := h.cut
  rw [if_pos hs] at hcut
  intro g hg q hq
  rcases mem_close_flatten (List.mem_flatten.2 ⟨g, hg, hq⟩) with hq | rfl
  · exact hcut q hq
  · rfl

theorem Ok.one_group_close (h : f.Ok mode d) (hs : splits mode d = false) :
    (f.close stop c chars).groups.length = 1 := by
  have hcut := h.cut
  rw [if_neg (by simp [hs])] at hcut
  simp [hcut]

/-- The pair closed from a frame at depth `d` is cut as a pair inside brackets when `0 < d`, and
as a whole line otherwise. -/
theorem Ok.cutBy_close (h : f.Ok mode d) : (f.close stop c chars).CutBy mode (decide (0 < d)) := by
  cases mode with
  | always => exact h.noCommaItems_close rfl
  | never => exact h.one_group_close rfl
  | others =>
    by_cases hd : 0 < d
    · simp only [CutBy, hd, decide_true, if_true]
      exact h.noCommaItems_close (by simp [splits, hd])
    · simp only [CutBy, hd, decide_false, Bool.false_eq_true, if_false]
      exact h.one_group_close (by simp [splits, hd])

theorem Ok.pairs_close (h : f.Ok mode d) (hd : 0 < d) :
    ∀ q ∈ (Piece.ofPair (f.close stop c chars)).pairs, q.GroupsEnd ∧ q.CutBy mode true := by
  intro q hq
  simp only [Piece.ofPair, Piece.pairs, List.mem_cons] at hq
  rcases hq with rfl | hq
  · have hcut : (f.close stop c chars).CutBy mode (decide (0 < d)) := h.cutBy_close
    simp only [hd, decide_true] at hcut
    exact ⟨h.groupsEnd_close, hcut⟩
  · rw [← Bracketed.inner, inner_close] at hq
    exact h.inner q hq

end Ok

end Open

/-! ## The stack of open frames -/

/-- The stack of open frames, top first: one for each bracket of `opens`, innermost first, each
at its depth, above the line's own frame. -/
def Stacked (mode : SplitMode) : List Bracket → List Open → Prop
  | [], [root] => root.bracket = none ∧ root.Ok mode 0
  | b :: opens, top :: below =>
    top.bracket = some b ∧ top.Ok mode (opens.length + 1) ∧ Stacked mode opens below
  | _, _ => False

section Stacked

variable {mode : SplitMode}

theorem Stacked.length : ∀ {o : List Bracket} {s : List Open}, Stacked mode o s → s.length = o.length + 1
  | [], [_], _ => rfl
  | _ :: _, _ :: _, h => by simp [h.2.2.length]
  | [], [], h | [], _ :: _ :: _, h | _ :: _, [], h => h.elim

theorem Stacked.top_bracket : ∀ {o : List Bracket} {top : Open} {rest : List Open},
    Stacked mode o (top :: rest) → top.bracket = o.head?
  | [], _, [], h => h.1
  | _ :: _, _, _, h => h.1
  | [], _, _ :: _, h => h.elim

theorem Stacked.modifyTop : ∀ {o : List Bracket} {f g : Open} {rest : List Open},
    Stacked mode o (f :: rest) → g.bracket = f.bracket → (f.Ok mode o.length → g.Ok mode o.length) →
      Stacked mode o (g :: rest)
  | [], _, _, [], h, hb, hok => ⟨hb.trans h.1, hok h.2⟩
  | _ :: _, _, _, _, h, hb, hok => ⟨hb.trans h.1, hok h.2.1, h.2.2⟩
  | [], _, _, _ :: _, h, _, _ => h.elim

theorem Stacked.push {o : List Bracket} {s : List Open} (h : Stacked mode o s) (b : Bracket)
    (start : Nat) : Stacked mode (b :: o) (⟨some b, start, #[], #[]⟩ :: s) := by
  obtain ⟨top, rest, rfl⟩ : ∃ top rest, s = top :: rest := by
    cases s with
    | nil => cases o <;> exact h.elim
    | cons top rest => exact ⟨top, rest, rfl⟩
  exact ⟨rfl, Open.Ok.empty _ _, h⟩

theorem Stacked.closeWith {b : Bracket} {o : List Bracket} {top below : Open} {rest : List Open}
    (h : Stacked mode (b :: o) (top :: below :: rest)) (stop : Nat) (c : Bool) (chars : Array Char) :
    Stacked mode o (below.add (.ofPair (top.close stop c chars)) :: rest) := by
  obtain ⟨-, htop, hbelow⟩ := h
  refine hbelow.modifyTop rfl fun hok => hok.add rfl ?_ fun _ => rfl
  exact htop.pairs_close (by omega)

theorem Stacked.topIs_eq : ∀ {o : List Bracket} {s : List Open} (b : Bracket), Stacked mode o s →
    topIs s b = decide (o.head? = some b)
  | [], [_], _, _ => rfl
  | _ :: _, top :: below :: _, b, h => by
    simp [topIs, h.1, Bool.beq_eq_decide_eq]
  | _ :: o, [_], _, h => by cases o <;> exact h.2.2.elim
  | [], [], _, h | [], _ :: _ :: _, _, h | _ :: _, [], _, h => h.elim

theorem Stacked.exists_cons {o : List Bracket} {s : List Open} (h : Stacked mode o s) :
    ∃ top rest, s = top :: rest := by
  cases s with
  | nil => cases o <;> exact h.elim
  | cons top rest => exact ⟨top, rest, rfl⟩

theorem Stacked.exists_cons_cons {b : Bracket} {o : List Bracket} {s : List Open}
    (h : Stacked mode (b :: o) s) : ∃ top below rest, s = top :: below :: rest := by
  obtain ⟨top, rest, rfl⟩ := h.exists_cons
  obtain ⟨below, rest, rfl⟩ := h.2.2.exists_cons
  exact ⟨top, below, rest, rfl⟩

/-- While the stack stands for the open brackets, matching a token does what the moves of reading
it do. -/
theorem Stacked.matchToken_eq {o : List Bracket} {s : List Open} (h : Stacked mode o s) (t : Token) :
    matchToken o t = Move.keepAll (movesOf mode s t) o := by
  unfold matchToken movesOf
  by_cases hk : t.kind = .symbol
  · simp only [hk, if_true]
    cases ho : Bracket.ofOpen t.content with
    | some b => simp [Move.keep]
    | none =>
      simp only
      by_cases hb : t.content = "]]"
      · simp only [hb, if_true, h.topIs_eq, decide_eq_true_eq]
        by_cases hd : o.head? = some .doubleSquare
        · obtain ⟨o', rfl⟩ := List.head?_eq_some_iff.1 hd
          simp [Move.keep, closeOne]
        · simp [hd, Move.keepAll, Move.keep, Matching.next_nil]
      · simp only [hb, if_false]
        cases hc : closingOf t.content with
        | some b => simp [Move.keep]
        | none =>
          simp only
          split <;> simp [Move.keep]
  · simp [hk, Move.keep]

end Stacked

/-! ## A stack read back, and where its pieces lie -/

namespace Open

variable (f : Open) (p : Piece) (n stop : Nat) (c : Bool) (chars : Array Char)

/-- The frame read back as tokens so far: its opening bracket, each finished group with the comma
that ended it, and the group being filled. -/
def readBack : List Token :=
  Piece.openTokens f.bracket f.start ++
    f.groups.toList.flatMap (fun g => Piece.groupReadBack g ++ [Token.symbolAt "," (Piece.eofAt g)]) ++
    Piece.groupReadBack f.current.toList

@[simp] theorem readBack_empty (b : Option Bracket) (start : Nat) :
    readBack ⟨b, start, #[], #[]⟩ = Piece.openTokens b start := by
  simp [readBack]

theorem readBack_add : (f.add p).readBack = f.readBack ++ Piece.groupReadBack [p] := by
  simp [readBack]

theorem readBack_endGroup : (f.endGroup n).readBack = f.readBack ++ [Token.symbolAt "," n] := by
  simp [readBack]

theorem readBack_close :
    (Piece.ofPair (f.close stop c chars)).readBack = f.readBack ++ Piece.closeTokens f.bracket c stop := by
  simp [Piece.ofPair, Piece.readBack, readBack, Piece.groupsReadBack_snoc]

theorem innerEnd_le : f.innerEnd stop c ≤ stop := by
  unfold innerEnd
  split <;> omega

def unclosed : List Bracketed := (Piece.groupPairs f.pieces).filter (!·.closed)

/-- Where a frame's pieces lie: between its start and `pos`, each after the one before, and each
pair among them in order. -/
structure Fits (pos : Nat) (f : Open) : Prop where
  start_le : f.start ≤ pos
  within : ∀ p ∈ f.pieces, f.start ≤ p.span.start ∧ p.span.start ≤ p.span.stop ∧ p.span.stop ≤ pos
  ordered : f.pieces.Pairwise fun p q => p.span.stop ≤ q.span.start
  inner : ∀ q ∈ Piece.groupPairs f.pieces, q.InOrder

section Fits

variable {pos : Nat} {f p n stop c chars}

theorem Fits.mono (h : f.Fits pos) {pos' : Nat} (hle : pos ≤ pos') : f.Fits pos' where
  start_le := h.start_le.trans hle
  within q hq := by
    obtain ⟨h₁, h₂, h₃⟩ := h.within q hq
    exact ⟨h₁, h₂, h₃.trans hle⟩
  ordered := h.ordered
  inner := h.inner

theorem Fits.empty {b : Option Bracket} {start : Nat} (h : start ≤ pos) :
    Fits pos ⟨b, start, #[], #[]⟩ where
  start_le := h
  within := by simp [pieces]
  ordered := by simp [pieces]
  inner := by simp [pieces]

/-- A frame that gains one piece after `pos`, and keeps its start, fits up to where that piece
ends. -/
theorem Fits.snoc {g : Open} (h : f.Fits pos) (hstart : g.start = f.start)
    (hg : g.pieces = f.pieces ++ [p]) (hpos : pos ≤ p.span.start) (hp : p.span.start ≤ p.span.stop)
    (hq : ∀ q ∈ p.pairs, q.InOrder) : g.Fits p.span.stop where
  start_le := by
    have := h.start_le
    omega
  within := by
    rw [hg, hstart, List.forall_mem_append, List.forall_mem_singleton]
    refine ⟨?_, ?_⟩
    · intro q hq'
      obtain ⟨h₁, h₂, h₃⟩ := h.within q hq'
      exact ⟨h₁, h₂, by omega⟩
    · have := h.start_le
      exact ⟨by omega, hp, le_rfl⟩
  ordered := by
    rw [hg, List.pairwise_append]
    refine ⟨h.ordered, List.pairwise_singleton _ _, ?_⟩
    intro q hq' r hr
    rw [List.mem_singleton] at hr
    subst hr
    exact (h.within q hq').2.2.trans hpos
  inner := by
    rw [hg, Piece.groupPairs_append, List.forall_mem_append]
    exact ⟨h.inner, by simpa [Piece.groupPairs] using hq⟩

theorem Fits.add (h : f.Fits pos) (hpos : pos ≤ p.span.start) (hp : p.span.start ≤ p.span.stop)
    (hq : ∀ q ∈ p.pairs, q.InOrder) : (f.add p).Fits p.span.stop :=
  h.snoc (add_start f p) (add_pieces f p) hpos hp hq

theorem Fits.endGroup (h : f.Fits pos) (hn : pos ≤ n) : (f.endGroup n).Fits n :=
  h.snoc (endGroup_start f n) (endGroup_pieces f n) hn le_rfl (by simp [Piece.pairs])

/-- A frame that fits before where its last group ends closes into a pair in order. -/
theorem Fits.inOrder_close (h : f.Fits pos) (hend : pos ≤ f.innerEnd stop c)
    (hw : c = true → f.start + (f.close stop c chars).closeWidth ≤ stop) :
    (f.close stop c chars).InOrder := by
  have hle := f.innerEnd_le stop c
  have hstart := h.start_le
  refine ⟨hw, ?_, ?_⟩
  · simp only [close_span]
    intro q hq
    rcases mem_close_flatten hq with hq | rfl
    · obtain ⟨h₁, h₂, h₃⟩ := h.within q hq
      exact ⟨h₁, h₂, by omega⟩
    · exact ⟨by simp [Piece.span, Token.eof, Span.emptyAt]; omega, by simp [Piece.span, Token.eof, Span.emptyAt],
        by simp [Piece.span, Token.eof, Span.emptyAt]; omega⟩
  · rw [close_flatten, List.pairwise_append]
    refine ⟨h.ordered, List.pairwise_singleton _ _, ?_⟩
    intro q hq r hr
    rw [List.mem_singleton] at hr
    subst hr
    exact (h.within q hq).2.2.trans hend

theorem Fits.pairs_close (h : f.Fits pos) (hend : pos ≤ f.innerEnd stop c)
    (hw : c = true → f.start + (f.close stop c chars).closeWidth ≤ stop) :
    ∀ q ∈ (Piece.ofPair (f.close stop c chars)).pairs, q.InOrder := by
  intro q hq
  simp only [Piece.ofPair, Piece.pairs, List.mem_cons] at hq
  rcases hq with rfl | hq
  · exact h.inOrder_close hend hw
  · rw [← Bracketed.inner, inner_close] at hq
    exact h.inner q hq

end Fits

end Open

def stackReadBack : List Open → List Token
  | [] => []
  | f :: s => stackReadBack s ++ f.readBack

/-- Where the pieces of a stack lie, top first: the top frame's before `pos`, and each frame's
before the start of the frame above it. -/
def Placed : Nat → List Open → Prop
  | _, [] => True
  | pos, f :: s => f.Fits pos ∧ Placed f.start s

theorem Placed.mono : ∀ {s : List Open} {pos pos' : Nat}, Placed pos s → pos ≤ pos' → Placed pos' s
  | [], _, _, _, _ => trivial
  | _ :: _, _, _, h, hle => ⟨h.1.mono hle, h.2⟩

@[simp] theorem Piece.span_ofPair (b : Bracketed) : (Piece.ofPair b).span = b.span := rfl

theorem Piece.groupPairs_ofPair (b : Bracketed) : Piece.groupPairs [Piece.ofPair b] = b :: b.inner := by
  simp [Piece.ofPair, inner]

theorem Piece.groupReadBack_ofPair (b : Bracketed) :
    Piece.groupReadBack [Piece.ofPair b] = (Piece.ofPair b).readBack := by
  simp [Piece.ofPair]

/-! ## Reading the tokens of a line -/

/-- What holds after reading tokens from the line's own frame: the stack stands for the brackets
the matching left open, its pieces lie before `pos` and hold only closed pairs, it reads back as
the tokens the matching kept, and the journal gained one error for each closer it dropped. -/
structure Reading (line : Nat) (mode : SplitMode) (before : List Issue) (pos : Nat) (m : Matching)
    (r : List Open × Journal) : Prop where
  stacked : Stacked mode m.opens r.1
  placed : Placed pos r.1
  closed : ∀ f ∈ r.1, ∀ q ∈ Piece.groupPairs f.pieces, q.closed = true
  readBack : stackReadBack r.1 = m.kept.map Token.bare
  issues : r.2.issues.toList = before ++ m.dropped.map (unpairedIssue line)

section Reading

variable {line : Nat} {chars : Array Char} {mode : SplitMode} {before : List Issue} {pos : Nat}
  {m : Matching} {s : List Open} {j : Journal}

theorem Reading.mono (h : Reading line mode before pos m (s, j)) {pos' : Nat} (hle : pos ≤ pos') :
    Reading line mode before pos' m (s, j) :=
  { h with placed := h.placed.mono hle }

theorem Reading.opens (h : Reading line mode before pos m (s, j)) {b : Bracket} {t : Token}
    (hpos : pos ≤ t.span.start) (hsound : (Move.opens b t).Sound mode m.opens.length) :
    Reading line mode before t.span.stop (m.next (Move.opens b t).keep)
      (⟨some b, t.span.start, #[], #[]⟩ :: s, j) := by
  obtain ⟨hk, hb, hw⟩ := hsound
  refine ⟨h.stacked.push b t.span.start, ⟨Open.Fits.empty (by omega), h.placed.mono hpos⟩, ?_, ?_,
    by simpa [Move.keep] using h.issues⟩
  · intro f hf
    rcases List.mem_cons.1 hf with rfl | hf
    · simp [Open.pieces]
    · exact h.closed f hf
  · simp [stackReadBack, h.readBack, Move.keep, Piece.openTokens,
      Token.symbolAt_eq_bare hk hb.symm hw]

theorem Reading.adds {top : Open} {rest : List Open} (h : Reading line mode before pos m (top :: rest, j))
    {t : Token} (hpos : pos ≤ t.span.start) (hp : t.span.start ≤ t.span.stop)
    (hsound : (Move.adds t).Sound mode m.opens.length) :
    Reading line mode before t.span.stop (m.next (Move.adds t).keep) (top.add (.token t) :: rest, j) := by
  obtain ⟨he, hc⟩ := hsound
  refine ⟨h.stacked.modifyTop rfl fun hok => hok.add he (by simp [Piece.pairs]) hc,
    ⟨h.placed.1.add (show pos ≤ (Piece.token t).span.start from hpos) hp (by simp [Piece.pairs]),
      h.placed.2⟩, ?_, ?_,
    by simpa [Move.keep] using h.issues⟩
  · intro f hf
    rcases List.mem_cons.1 hf with rfl | hf
    · simpa using h.closed top List.mem_cons_self
    · exact h.closed f (List.mem_cons_of_mem _ hf)
  · have hr := h.readBack
    simp only [stackReadBack] at hr ⊢
    rw [Open.readBack_add, Piece.groupReadBack_token he, ← List.append_assoc, hr]
    simp [Move.keep]

theorem Reading.cuts {top : Open} {rest : List Open} (h : Reading line mode before pos m (top :: rest, j))
    {t : Token} (hpos : pos ≤ t.span.start) (hsound : (Move.cuts t).Sound mode m.opens.length) :
    Reading line mode before t.span.stop (m.next (Move.cuts t).keep)
      (top.endGroup t.span.start :: rest, j) := by
  obtain ⟨hk, hc, hw, hs⟩ := hsound
  refine ⟨h.stacked.modifyTop rfl fun hok => hok.endGroup hs,
    ⟨(h.placed.1.endGroup hpos).mono (by omega), h.placed.2⟩, ?_, ?_,
    by simpa [Move.keep] using h.issues⟩
  · intro f hf
    rcases List.mem_cons.1 hf with rfl | hf
    · simpa using h.closed top List.mem_cons_self
    · exact h.closed f (List.mem_cons_of_mem _ hf)
  · have hr := h.readBack
    simp only [stackReadBack] at hr ⊢
    rw [Open.readBack_endGroup, ← List.append_assoc, hr, Token.symbolAt_eq_bare hk hc.symm hw]
    simp [Move.keep]

/-- A closer of the top pair's kind closes it into the pair below. -/
theorem Reading.closeTop {f g : Open} {rest : List Open} {b : Bracket} {o : List Bracket} {c : Token}
    (h : Reading line mode before pos m (f :: g :: rest, j)) (ho : m.opens = b :: o)
    (hpos : pos ≤ c.span.start) (hsound : (Move.closes b c).Sound mode m.opens.length) :
    Reading line mode before c.span.stop (m.next (Move.closes b c).keep)
      (g.add (.ofPair (f.close c.span.stop true chars)) :: rest, j) := by
  obtain ⟨hk, hc, hw⟩ := hsound
  have hm : m.next (Move.closes b c).keep = ⟨o, m.kept ++ [c], m.dropped⟩ := by
    simp [Matching.next, Move.keep, closeOne, ho]
  have hs : Stacked mode (b :: o) (f :: g :: rest) := ho ▸ h.stacked
  have hb : f.bracket = some b := hs.top_bracket
  have hwidth : (f.close c.span.stop true chars).closeWidth = c.content.length := by
    simp [closeWidth, hb, hc]
  obtain ⟨hf, hg, hrest⟩ := h.placed
  have hstart := hf.start_le
  have hend : pos ≤ f.innerEnd c.span.stop true := by
    simp only [Open.innerEnd, if_true, hb, Option.map_some, Option.getD_some, ← hc]
    omega
  have hin : ∀ q ∈ (Piece.ofPair (f.close c.span.stop true chars)).pairs, q.InOrder :=
    hf.pairs_close hend fun _ => by rw [hwidth]; omega
  rw [hm]
  refine ⟨hs.closeWith c.span.stop true chars, ⟨hg.add le_rfl (by simp; omega) hin, hrest⟩, ?_, ?_, h.issues⟩
  · intro q hq
    rcases List.mem_cons.1 hq with rfl | hq
    · simp only [Open.add_pieces, Piece.groupPairs_append, Piece.groupPairs_ofPair, List.mem_append,
        List.mem_cons]
      rintro p (hp | rfl | hp)
      · exact h.closed g (by simp) p hp
      · rfl
      · rw [Open.inner_close] at hp
        exact h.closed f List.mem_cons_self p hp
    · exact h.closed q (by simp [hq])
  · have hr := h.readBack
    simp only [stackReadBack] at hr ⊢
    rw [Open.readBack_add, Piece.groupReadBack_ofPair, Open.readBack_close, hb]
    simp only [Piece.closeTokens, List.map_append, List.map_singleton, ← hr, List.append_assoc]
    rw [← hc, show c.span.stop - c.content.length = c.span.start by omega,
      Token.symbolAt_eq_bare hk rfl hw]

theorem Reading.drop (h : Reading line mode before pos m (s, j)) {b : Bracket} {c : Token}
    (hn : m.opens.head? ≠ some b) (hpos : pos ≤ c.span.start)
    (hsound : (Move.closes b c).Sound mode m.opens.length) :
    Reading line mode before c.span.stop (m.next (Move.closes b c).keep)
      (s, { j with issues := j.issues.push ⟨line, c.span.start, .error, .unpairedBracket b.closeGlyph⟩ }) := by
  obtain ⟨hk, hc, hw⟩ := hsound
  have hm : m.next (Move.closes b c).keep = ⟨m.opens, m.kept, m.dropped ++ [c]⟩ := by
    simp [Matching.next, Move.keep, closeOne, hn]
  rw [hm]
  refine ⟨h.stacked, h.placed.mono (by omega), h.closed, h.readBack, ?_⟩
  have hi : j.issues.toList = _ := h.issues
  simp [hi, unpairedIssue, hc]

theorem Reading.closes (h : Reading line mode before pos m (s, j)) {b : Bracket} {c : Token}
    (hpos : pos ≤ c.span.start) (hsound : (Move.closes b c).Sound mode m.opens.length) :
    Reading line mode before c.span.stop (m.next (Move.closes b c).keep)
      ((closeOrDrop line chars b c.span.stop c.span.start s).run j) := by
  rw [closeOrDrop_run]
  by_cases ht : topIs s b = true
  · rw [if_pos ht]
    have hhead : m.opens.head? = some b := by simpa [h.stacked.topIs_eq] using ht
    obtain ⟨o, ho⟩ := List.head?_eq_some_iff.1 hhead
    obtain ⟨f, g, rest, rfl⟩ := (ho ▸ h.stacked : Stacked mode (b :: o) s).exists_cons_cons
    exact h.closeTop ho hpos hsound
  · rw [if_neg ht]
    exact h.drop (by simpa [h.stacked.topIs_eq] using ht) hpos hsound

theorem Reading.move (h : Reading line mode before pos m (s, j)) (chars : Array Char) (mv : Move)
    (hpos : pos ≤ mv.token.span.start) (hp : mv.token.span.start ≤ mv.token.span.stop)
    (hsound : mv.Sound mode m.opens.length) :
    Reading line mode before mv.token.span.stop (m.next mv.keep) ((mv.apply line chars s).run j) := by
  cases mv with
  | opens b t => exact h.opens hpos hsound
  | closes b c => exact h.closes hpos hsound
  | cuts t =>
    obtain ⟨top, rest, rfl⟩ := h.stacked.exists_cons
    exact h.cuts hpos hsound
  | adds t =>
    obtain ⟨top, rest, rfl⟩ := h.stacked.exists_cons
    exact h.adds hpos hp hsound

/-- Reading one token keeps the invariant, with the matching gone on by that token. -/
theorem Reading.step (h : Reading line mode before pos m (s, j)) (chars : Array Char) {t : Token}
    (hpos : pos ≤ t.span.start) (hp : t.span.start ≤ t.span.stop)
    (hw : t.kind = .symbol → t.span.stop = t.span.start + t.content.length) (he : t.isEof = false) :
    Reading line mode before t.span.stop (m.next fun o => matchToken o t)
      ((step line chars mode s t).run j) := by
  have hdepth : s.length - 1 = m.opens.length := by
    have : s.length = m.opens.length + 1 := h.stacked.length
    omega
  have hsound : ∀ mv ∈ movesOf mode s t, mv.Sound mode m.opens.length :=
    fun mv hmv => hdepth ▸ movesOf_sound hmv hw he
  rw [Matching.next_congr (h.stacked.matchToken_eq t), step_eq]
  rcases movesOf_cases mode s t with ⟨mv, hmv, rfl⟩ | ⟨hmv, hk, hc⟩
  · rw [hmv, Move.keepAll_singleton]
    exact h.move chars mv hpos hp (hsound mv (by simp [hmv]))
  · -- the two halves of a `]]` that closes no `[[`, one character apart
    have hw := hw hk
    have h2 : "]]".length = 2 := rfl
    rw [hc, h2] at hw
    have h₁ := h.move chars (.closes .square (firstHalf t)) hpos (by simp [Move.token, firstHalf])
      (hsound _ (by simp [hmv]))
    have h₂ := h₁.move chars (.closes .square (secondHalf t))
      (by simp [Move.token, firstHalf, secondHalf]) (by simp [Move.token, secondHalf]; omega)
      (hsound (.closes .square (secondHalf t)) (by simp [hmv]))
    rw [hmv, Move.keepAll_pair, ← Matching.next_assoc]
    exact h₂

theorem Reading.init (line : Nat) (mode : SplitMode) (j : Journal) (start : Nat) :
    Reading line mode j.issues.toList start ⟨[], [], []⟩ ([⟨none, start, #[], #[]⟩], j) where
  stacked := ⟨rfl, Open.Ok.empty _ _⟩
  placed := ⟨Open.Fits.empty le_rfl, trivial⟩
  closed := by simp [Open.pieces]
  readBack := by simp [stackReadBack, Piece.openTokens]
  issues := by simp

/-- Reading tokens as a line gives them keeps the invariant, with the matching gone on by all of
them. -/
theorem Reading.fold (chars : Array Char) {bound : Nat} :
    ∀ {ts : List Token} {pos : Nat} {m : Matching} {s : List Open} {j : Journal},
    Reading line mode before pos m (s, j) → Lined ts →
    (∀ t ∈ ts, t.isEof = false ∧ pos ≤ t.span.start ∧ t.span.stop ≤ bound) → pos ≤ bound →
    Reading line mode before bound (m.next fun o => matchAll o ts)
      ((ts.foldlM (Bracketed.step line chars mode) s).run j)
  | [], _, m, _, _, h, _, _, hb => by
    rw [matchAll_nil m]
    exact h.mono hb
  | t :: ts, _, m, _, _, h, hl, hts, _ => by
    obtain ⟨he, hpos, hstop⟩ := hts t List.mem_cons_self
    have h₁ := h.step chars hpos (hl.proper t List.mem_cons_self) (hl.width t List.mem_cons_self) he
    have hrest : ∀ t' ∈ ts, t'.isEof = false ∧ t.span.stop ≤ t'.span.start ∧ t'.span.stop ≤ bound := by
      intro t' ht'
      obtain ⟨he', -, hstop'⟩ := hts t' (List.mem_cons_of_mem _ ht')
      exact ⟨he', List.rel_of_pairwise_cons hl.ordered ht', hstop'⟩
    rw [← matchAll_cons]
    exact Reading.fold chars h₁ hl.tail hrest hstop

end Reading

/-! ## Closing the pairs left open -/

theorem Piece.closeTokens_false (b : Option Bracket) (n : Nat) : Piece.closeTokens b false n = [] := by
  cases b <;> rfl

/-- What holds while the pairs left open at the end of a line are closed there: the stack stands
for the brackets still open, its pieces lie before `stop`, it reads back as `tokens`, the frames
below the top hold only closed pairs, and the journal has one error for each pair closed without
its closer, the innermost first. -/
structure Closing (line : Nat) (mode : SplitMode) (before : List Issue) (stop : Nat)
    (tokens : List Token) (o : List Bracket) (s : List Open) (j : Journal) : Prop where
  stacked : Stacked mode o s
  placed : Placed stop s
  readBack : stackReadBack s = tokens
  closed : ∀ f ∈ s.tail, ∀ q ∈ Piece.groupPairs f.pieces, q.closed = true
  issues : ∀ top ∈ s.head?, j.issues.toList = before ++ top.unclosed.reverse.map (unclosedIssue line)

section Closing

variable {line : Nat} {chars : Array Char} {mode : SplitMode} {before : List Issue} {stop : Nat}
  {tokens : List Token}

theorem Reading.closing {pos : Nat} {m : Matching} {s : List Open} {j : Journal}
    (h : Reading line mode before pos m (s, j)) (hle : pos ≤ stop) :
    Closing line mode (before ++ m.dropped.map (unpairedIssue line)) stop (m.kept.map Token.bare)
      m.opens s j where
  stacked := h.stacked
  placed := h.placed.mono hle
  readBack := h.readBack
  closed f hf := h.closed f (List.mem_of_mem_tail hf)
  issues top htop := by
    have hnone : top.unclosed = [] := by
      simp only [Open.unclosed, List.filter_eq_nil_iff, Bool.not_eq_eq_eq_not, Bool.not_true]
      intro q hq
      simp [h.closed top (List.mem_of_mem_head? htop) q hq]
    rw [hnone]
    simpa using h.issues

/-- Closing the top pair at the end of the line, without its closer, raises one error and keeps
the invariant. -/
theorem Closing.step (chars : Array Char) {b : Bracket} {o : List Bracket} {top below : Open}
    {rest : List Open} {j : Journal} (h : Closing line mode before stop tokens (b :: o) (top :: below :: rest) j) :
    Closing line mode before stop tokens o (below.add (.ofPair (top.close stop false chars)) :: rest)
      { j with issues := (j.issues.push
          ⟨line, top.start, .error, .unclosedBracket ((top.bracket.map (·.openGlyph)).getD "")⟩) } := by
  obtain ⟨htop, hbelow, hrest⟩ := h.placed
  have hin : ∀ q ∈ (Piece.ofPair (top.close stop false chars)).pairs, q.InOrder :=
    htop.pairs_close (by simp [Open.innerEnd]) (by simp)
  have hbelowClosed := h.closed below List.mem_cons_self
  refine ⟨h.stacked.closeWith stop false chars,
    ⟨hbelow.add le_rfl (by simpa using htop.start_le) hin, hrest⟩, ?_,
    fun f hf => h.closed f (List.mem_cons_of_mem _ hf), ?_⟩
  · have hr := h.readBack
    simp only [stackReadBack] at hr ⊢
    rw [Open.readBack_add, Piece.groupReadBack_ofPair, Open.readBack_close, Piece.closeTokens_false,
      List.append_nil, ← List.append_assoc, hr]
  · intro f hf
    rw [List.head?_cons, Option.mem_some_iff] at hf
    subst hf
    have hnone : (Piece.groupPairs below.pieces).filter (!·.closed) = [] := by
      simp only [List.filter_eq_nil_iff, Bool.not_eq_eq_eq_not, Bool.not_true]
      intro q hq
      simp [hbelowClosed q hq]
    have hunclosed : (below.add (.ofPair (top.close stop false chars))).unclosed =
        top.close stop false chars :: top.unclosed := by
      simp only [Open.unclosed, Open.add_pieces, Piece.groupPairs_append, Piece.groupPairs_ofPair,
        List.filter_append, hnone, Open.inner_close, List.nil_append]
      simp
    have hi : j.issues.toList = _ := h.issues top rfl
    rw [hunclosed]
    simp [hi, unclosedIssue]

/-- Closing every pair left open ends at the line's own frame, with the invariant. -/
theorem closeAll_run (chars : Array Char) : ∀ {o : List Bracket} {s : List Open} {j : Journal},
    Closing line mode before stop tokens o s j →
    ∃ root j', (closeAll line chars stop s).run j = ([root], j') ∧
      Closing line mode before stop tokens [] [root] j'
  | [], s, j, h => by
    obtain ⟨root, rest, rfl⟩ := h.stacked.exists_cons
    cases rest with
    | nil =>
      refine ⟨root, j, ?_, h⟩
      rw [closeAll]
      · rfl
      · simp
    | cons _ _ => exact h.stacked.elim
  | b :: o, s, j, h => by
    obtain ⟨top, below, rest, rfl⟩ := h.stacked.exists_cons_cons
    obtain ⟨root, j', hrun, h'⟩ := closeAll_run chars (h.step chars)
    exact ⟨root, j', by rw [closeAll]; exact hrun, h'⟩

end Closing

/-! ## The pairs of a line -/

/-- The pairs of a line's tokens. Read back, they give the tokens that bracket matching keeps,
each `]]` that closes no `[[` read as two `]`. The line is cut by commas as the command says, and
every pair inside it as commas inside brackets are. Every group of every pair ends in one
end-of-text token and holds no other, and every pair holds its pieces in order within its span.
The journal gains one error for each closer that matching drops, in order, then one for each pair
left open, the innermost first. -/
theorem ofTokens_reads_back (line : Nat) (chars : Array Char) (mode : SplitMode) (ts : List Token)
    (hts : Lined ts) (j : Journal) :
    let m := matchAll [] (ts.filter (!·.isEof))
    let r := (ofTokens line chars mode ts).run j
    r.1.readBack = m.kept.map Token.bare ∧
      r.1.CutBy mode false ∧ (∀ q ∈ r.1.inner, q.CutBy mode true) ∧
      (∀ q ∈ r.1 :: r.1.inner, q.GroupsEnd ∧ q.InOrder) ∧
      r.2.issues.toList = j.issues.toList ++ m.dropped.map (unpairedIssue line) ++
        (r.1.inner.filter (!·.closed)).reverse.map (unclosedIssue line) := by
  intro m r
  -- the line's own frame spans from where the first token starts to where the last one stops
  have hread := (Reading.init line mode j _).fold chars (hts.filter fun t => !t.isEof)
    (fun t ht => ⟨by simpa using (List.mem_filter.1 ht).2, hts.head_le (List.mem_of_mem_filter ht),
      hts.le_last (List.mem_of_mem_filter ht) _⟩) hts.head_le_last
  rw [Matching.nil_next] at hread
  generalize hf : ((ts.filter fun t => !t.isEof).foldlM (Bracketed.step line chars mode)
    [⟨none, (ts.head?.map (·.span.start)).getD 0, #[], #[]⟩]).run j = r₁ at hread
  obtain ⟨s₁, j₁⟩ := r₁
  set stop := (ts.getLast?.map (·.span.stop)).getD ((ts.head?.map (·.span.start)).getD 0)
  obtain ⟨root, j', hrun, hc⟩ := closeAll_run chars (hread.closing le_rfl)
  have hr : r = (root.close stop true chars, j') := by
    simp only [r, ofTokens]
    rw [StateT.run_bind, hf]
    change StateT.run (closeAll line chars _ s₁ >>= fun stack => pure _) j₁ = _
    rw [StateT.run_bind, hrun]
    rfl
  obtain ⟨⟨hbracket, hok⟩, ⟨hfits, -⟩, hreadBack, -, hissues⟩ := hc
  have hend : stop ≤ root.innerEnd stop true := by
    simp [Open.innerEnd, hbracket]
  have hwidth : true = true → root.start + (root.close stop true chars).closeWidth ≤ stop := by
    have := hfits.start_le
    simp [closeWidth, hbracket, this]
  rw [hr]
  refine ⟨?_, hok.cutBy_close, fun q hq => (hok.inner q (by rwa [Open.inner_close] at hq)).2, ?_, ?_⟩
  · rw [Bracketed.readBack, Open.readBack_close, hbracket, ← hreadBack]
    simp [stackReadBack, Piece.closeTokens]
  · intro q hq
    rcases List.mem_cons.1 hq with rfl | hq
    · exact ⟨hok.groupsEnd_close, hfits.inOrder_close hend hwidth⟩
    · rw [Open.inner_close] at hq
      exact ⟨(hok.inner q hq).1, hfits.inner q hq⟩
  · rw [Open.inner_close]
    simpa [Open.unclosed] using hissues root rfl

/-- The line `[a]]`, where the first half of the `]]` closes the `[` and the second is dropped. -/
theorem ofTokens_reads_back_half_closer :
    Lined [⟨.symbol, "[", ⟨0, 1⟩, true⟩, ⟨.word, "a", ⟨1, 2⟩, false⟩,
        ⟨.symbol, "]]", ⟨2, 4⟩, false⟩, Token.eof 4] ∧
      ((ofTokens 0 #[] .always [⟨.symbol, "[", ⟨0, 1⟩, true⟩, ⟨.word, "a", ⟨1, 2⟩, false⟩,
          ⟨.symbol, "]]", ⟨2, 4⟩, false⟩, Token.eof 4]).run {}).1.readBack =
        (matchAll [] ([⟨.symbol, "[", ⟨0, 1⟩, true⟩, ⟨.word, "a", ⟨1, 2⟩, false⟩,
          ⟨.symbol, "]]", ⟨2, 4⟩, false⟩, Token.eof 4].filter (!·.isEof))).kept.map Token.bare := by
  have hl : Lined [⟨.symbol, "[", ⟨0, 1⟩, true⟩, ⟨.word, "a", ⟨1, 2⟩, false⟩,
      ⟨.symbol, "]]", ⟨2, 4⟩, false⟩, Token.eof 4] := ⟨by decide, by decide, by decide⟩
  exact ⟨hl, (ofTokens_reads_back 0 #[] .always _ hl {}).1⟩

end Bracketed

end Jianpu
