import Mathlib
import Jianpu.Source.Bracket
/-!
# Bracket matching, and bracket pairs read back

`Bracketed.ofTokens` builds the bracket pairs of a line. This file says, apart from how it
builds them, what the result is to hold.

* `Bracketed.matchAll`  bracket matching on the tokens alone: an opening bracket opens; a closing
  one closes the innermost open bracket when that is of its kind, and is dropped otherwise; a `]]`
  that closes no `[[` counts as two `]`, one character apart. It gives the tokens kept, those
  dropped, and the brackets left open, innermost first.
* `Piece.readBack`  a pair read back as tokens: its opening bracket, its groups with a comma where
  each but the last ends, and its closing bracket when it was closed.
* `Piece.pairs`  every pair of a piece, outermost first.
* What each pair holds: `GroupsEnd` (each group ends in one end-of-text token and holds no
  other), `CutBy` (commas cut its groups as the command says), `InOrder` (its pieces lie in its
  span, each after the one before).
* `Lined`  tokens as a line gives them: in order, each symbol as wide as its text.
-/

namespace Jianpu

def Token.bare (t : Token) : Token := { t with lineHead := false }

def Token.symbolAt (glyph : String) (pos : Nat) : Token :=
  ⟨.symbol, glyph, ⟨pos, pos + glyph.length⟩, false⟩

/-- Tokens as a line gives them: each span after the one before, and each symbol as wide as
its text. -/
structure Lined (ts : List Token) : Prop where
  ordered : ts.Pairwise fun a b => a.span.stop ≤ b.span.start
  proper : ∀ t ∈ ts, t.span.start ≤ t.span.stop
  width : ∀ t ∈ ts, t.kind = .symbol → t.span.stop = t.span.start + t.content.length

theorem Token.symbolAt_eq_bare {t : Token} {glyph : String} (hk : t.kind = .symbol)
    (hc : glyph = t.content) (hw : t.span.stop = t.span.start + t.content.length) :
    Token.symbolAt glyph t.span.start = t.bare := by
  obtain ⟨kind, content, ⟨start, stop⟩, head⟩ := t
  simp only at hk hc hw
  subst hk hc hw
  rfl

namespace Bracketed

/-! ## Matching -/

def closingOf : String → Option Bracket
  | ")" => some .paren
  | "]" => some .square
  | "\x7d" => some .curly
  | _ => none

def firstHalf (t : Token) : Token := ⟨.symbol, "]", ⟨t.span.start, t.span.start + 1⟩, t.lineHead⟩

def secondHalf (t : Token) : Token := ⟨.symbol, "]", ⟨t.span.start + 1, t.span.stop⟩, false⟩

/-- What matching keeps and drops, and the brackets it leaves open, innermost first. -/
structure Matching where
  opens : List Bracket
  kept : List Token
  dropped : List Token

def Matching.next (m : Matching) (f : List Bracket → Matching) : Matching :=
  ⟨(f m.opens).opens, m.kept ++ (f m.opens).kept, m.dropped ++ (f m.opens).dropped⟩

/-- A closing bracket `c` of kind `b` closes the innermost open bracket when that is of kind
`b`, and is dropped otherwise. -/
def closeOne (b : Bracket) (c : Token) (opens : List Bracket) : Matching :=
  if opens.head? = some b then ⟨opens.tail, [c], []⟩ else ⟨opens, [], [c]⟩

/-- Matching one token. -/
def matchToken (opens : List Bracket) (t : Token) : Matching :=
  if t.kind = .symbol then
    match Bracket.ofOpen t.content with
    | some b => ⟨b :: opens, [t], []⟩
    | none =>
      if t.content = "]]" then
        if opens.head? = some .doubleSquare then ⟨opens.tail, [t], []⟩
        else (closeOne .square (firstHalf t) opens).next (closeOne .square (secondHalf t))
      else
        match closingOf t.content with
        | some b => closeOne b t opens
        | none => ⟨opens, [t], []⟩
  else ⟨opens, [t], []⟩

def matchAll (opens : List Bracket) : List Token → Matching
  | [] => ⟨opens, [], []⟩
  | t :: ts => (matchToken opens t).next fun o => matchAll o ts

@[simp] theorem Matching.next_opens (m : Matching) (f : List Bracket → Matching) :
    (m.next f).opens = (f m.opens).opens := rfl

@[simp] theorem Matching.next_kept (m : Matching) (f : List Bracket → Matching) :
    (m.next f).kept = m.kept ++ (f m.opens).kept := rfl

@[simp] theorem Matching.next_dropped (m : Matching) (f : List Bracket → Matching) :
    (m.next f).dropped = m.dropped ++ (f m.opens).dropped := rfl

theorem Matching.next_assoc (m : Matching) (f g : List Bracket → Matching) :
    (m.next f).next g = m.next fun o => (f o).next g := by
  simp [Matching.next]

theorem Matching.next_nil (m : Matching) : m.next (fun o => ⟨o, [], []⟩) = m := by
  simp [Matching.next]

theorem matchAll_nil (m : Matching) : m.next (fun o => matchAll o []) = m :=
  Matching.next_nil m

theorem matchAll_cons (m : Matching) (t : Token) (ts : List Token) :
    (m.next fun o => matchToken o t).next (fun o => matchAll o ts) =
      m.next fun o => matchAll o (t :: ts) := by
  rw [Matching.next_assoc]
  rfl

end Bracketed

/-! ## Reading pairs back -/

namespace Piece

def eofAt (g : List Piece) : Nat := (g.getLast?.map (·.span.start)).getD 0

def openTokens : Option Bracket → Nat → List Token
  | some b, pos => [Token.symbolAt b.openGlyph pos]
  | none, _ => []

def closeTokens : Option Bracket → Bool → Nat → List Token
  | some b, true, stop => [Token.symbolAt b.closeGlyph (stop - b.closeGlyph.length)]
  | _, _, _ => []

mutual
def readBack : Piece → List Token
  | token t => [t.bare]
  | pair s b c gs _ => openTokens b s.start ++ groupsReadBack gs ++ closeTokens b c s.stop

/-- Groups read back, with a comma where each but the last ends. -/
def groupsReadBack : List (List Piece) → List Token
  | [] => []
  | [g] => groupReadBack g
  | g :: g' :: gs => groupReadBack g ++ [Token.symbolAt "," (eofAt g)] ++ groupsReadBack (g' :: gs)

def groupReadBack : List Piece → List Token
  | [] => []
  | p :: ps => (if p.isEof then [] else readBack p) ++ groupReadBack ps
end

mutual
def pairs : Piece → List Bracketed
  | token _ => []
  | pair s b c gs x => ⟨s, b, c, gs, x⟩ :: groupsPairs gs

def groupsPairs : List (List Piece) → List Bracketed
  | [] => []
  | g :: gs => groupPairs g ++ groupsPairs gs

def groupPairs : List Piece → List Bracketed
  | [] => []
  | p :: ps => pairs p ++ groupPairs ps
end

def isComma : Piece → Bool
  | token t => t.isSymbol ","
  | pair .. => false

@[simp] theorem groupReadBack_nil : groupReadBack [] = [] := rfl

@[simp] theorem groupReadBack_append (ps qs : List Piece) :
    groupReadBack (ps ++ qs) = groupReadBack ps ++ groupReadBack qs := by
  induction ps with
  | nil => rfl
  | cons p ps ih => simp [groupReadBack, ih]

@[simp] theorem groupReadBack_eof (n : Nat) : groupReadBack [.token (Token.eof n)] = [] := rfl

@[simp] theorem groupReadBack_token {t : Token} (ht : t.isEof = false) :
    groupReadBack [.token t] = [t.bare] := by
  simp [groupReadBack, isEof, ht, readBack]

@[simp] theorem groupReadBack_pair (s : Span) (b : Option Bracket) (c : Bool)
    (gs : List (List Piece)) (x : String) :
    groupReadBack [.pair s b c gs x] = readBack (.pair s b c gs x) := by
  simp [groupReadBack, isEof]

@[simp] theorem eofAt_eof (items : List Piece) (n : Nat) :
    eofAt (items ++ [.token (Token.eof n)]) = n := by
  simp [eofAt, span, Token.eof, Span.emptyAt]

theorem groupsReadBack_snoc (gs : List (List Piece)) (g : List Piece) :
    groupsReadBack (gs ++ [g]) =
      gs.flatMap (fun g => groupReadBack g ++ [Token.symbolAt "," (eofAt g)]) ++ groupReadBack g := by
  induction gs with
  | nil => simp [groupsReadBack]
  | cons g₀ gs ih =>
    cases gs with
    | nil => simp [groupsReadBack]
    | cons g₁ gs =>
      rw [List.cons_append, List.cons_append, groupsReadBack, ← List.cons_append, ih]
      simp

@[simp] theorem groupPairs_nil : groupPairs [] = [] := rfl

@[simp] theorem groupPairs_append (ps qs : List Piece) :
    groupPairs (ps ++ qs) = groupPairs ps ++ groupPairs qs := by
  induction ps with
  | nil => rfl
  | cons p ps ih => simp [groupPairs, ih]

@[simp] theorem groupPairs_token (t : Token) : groupPairs [.token t] = [] := rfl

@[simp] theorem groupPairs_pair (s : Span) (b : Option Bracket) (c : Bool)
    (gs : List (List Piece)) (x : String) :
    groupPairs [.pair s b c gs x] = ⟨s, b, c, gs, x⟩ :: groupsPairs gs := by
  simp [groupPairs, pairs]

theorem groupsPairs_eq_flatten (gs : List (List Piece)) : groupsPairs gs = groupPairs gs.flatten := by
  induction gs with
  | nil => rfl
  | cons g gs ih => simp [groupsPairs, ih]

end Piece

namespace Bracketed

def readBack (b : Bracketed) : List Token := (Piece.ofPair b).readBack

def inner (b : Bracketed) : List Bracketed := Piece.groupsPairs b.groups

def GroupsEnd (b : Bracketed) : Prop :=
  b.groups ≠ [] ∧
    ∀ g ∈ b.groups, ∃ items n, g = items ++ [.token (Token.eof n)] ∧ ∀ p ∈ items, p.isEof = false

def NoCommaItems (b : Bracketed) : Prop := ∀ g ∈ b.groups, ∀ p ∈ g, p.isComma = false

/-- How commas cut the groups of a pair, inside a bracket or as a whole line: every comma cuts
(none is left among the pieces), no comma cuts (there is one group), or commas cut only inside
brackets. -/
def CutBy : SplitMode → Bool → Bracketed → Prop
  | .always, _, b => b.NoCommaItems
  | .never, _, b => b.groups.length = 1
  | .others, inside, b => if inside then b.NoCommaItems else b.groups.length = 1

def closeWidth (b : Bracketed) : Nat := (b.bracket.map (·.closeGlyph.length)).getD 0

/-- The closing bracket of a closed pair lies in its span, and so does each of its pieces, each
after the one before. -/
def InOrder (b : Bracketed) : Prop :=
  (b.closed = true → b.span.start + b.closeWidth ≤ b.span.stop) ∧
    (∀ p ∈ b.groups.flatten,
      b.span.start ≤ p.span.start ∧ p.span.start ≤ p.span.stop ∧ p.span.stop ≤ b.span.stop) ∧
    b.groups.flatten.Pairwise fun p q => p.span.stop ≤ q.span.start

def unpairedIssue (line : Nat) (c : Token) : Issue :=
  ⟨line, c.span.start, .error, .unpairedBracket c.content⟩

def unclosedIssue (line : Nat) (b : Bracketed) : Issue :=
  ⟨line, b.span.start, .error, .unclosedBracket ((b.bracket.map (·.openGlyph)).getD "")⟩

end Bracketed

end Jianpu
