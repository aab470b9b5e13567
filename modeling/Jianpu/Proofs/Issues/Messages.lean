import Mathlib
import Jianpu.Issue
/-!
# Issue messages are filled templates

A message is its problem's template with each hole `${i}` filled. `fillTemplate` reads the
template left to right: text up to the next `${` is copied; a hole closed by the next `}` gives
the argument its index names, or stays as written when the index is no number or names no
argument; an opener that nothing closes is copied with all that follows. An argument, once
written, is never read again.

* `HoleFree` — text in which no hole opens.
* `fillTemplate_of_holeFree`, `fillTemplate_closed`, `fillTemplate_unclosed` — the rules.
* `holesBelow n t` — every hole of `t` is closed and names an index below `n`.
* `Filled args t m` — `m` is `t` with every hole replaced by its argument, none left as written.
* `filled_of_holesBelow` — a template whose holes all name an argument is filled by it.
* `issue_messages_filled` — the rules, and every issue's message fills its known template.
-/

namespace Jianpu

def HoleFree (cs : List Char) : Prop := ¬ ['$', '{'].IsInfix cs

instance (cs : List Char) : Decidable (HoleFree cs) := inferInstanceAs (Decidable (¬ _))

theorem holeFree_nil : HoleFree [] := by decide

theorem holeFree_cons_iff (c : Char) (cs : List Char) :
    HoleFree (c :: cs) ↔ ¬ (c = '$' ∧ cs.head? = some '{') ∧ HoleFree cs := by
  unfold HoleFree
  rw [List.infix_cons_iff, not_or]
  cases cs with
  | nil => simp
  | cons d cs => simp [List.cons_prefix_cons, eq_comm]

theorem holeFree_append_dollar {pre : List Char} (h : HoleFree pre) : HoleFree (pre ++ ['$']) := by
  induction pre with
  | nil => decide
  | cons c pre ih =>
    rw [holeFree_cons_iff] at h
    rw [List.cons_append, holeFree_cons_iff]
    refine ⟨fun ⟨hc, hd⟩ => h.1 ⟨hc, ?_⟩, ih h.2⟩
    cases pre with
    | nil => simp at hd
    | cons d pre => simpa using hd

theorem not_opener_of_holeFree {c : Char} {pre rest : List Char}
    (h : HoleFree (c :: (pre ++ rest.take 1))) :
    ∀ r, c = '$' → pre ++ rest = '{' :: r → False := by
  rw [holeFree_cons_iff] at h
  intro r hc hr
  apply h.1 ⟨hc, ?_⟩
  cases pre with
  | nil => cases rest <;> simp_all
  | cons d pre => simp_all

section Filling

variable (args : List String)

theorem fillChars_append_of_holeFree (acc : String) (rest : List Char) :
    ∀ pre : List Char, HoleFree (pre ++ rest.take 1) →
      fillChars args acc (pre ++ rest) = fillChars args (acc ++ String.ofList pre) rest
  | [], _ => by simp
  | c :: pre, h => by
    rw [List.cons_append] at h
    rw [List.cons_append, fillChars.eq_3 args acc c _ (not_opener_of_holeFree h),
      fillChars_append_of_holeFree (acc.push c) rest pre ((holeFree_cons_iff _ _).1 h).2]
    congr 1
    simp [String.ext_iff]

theorem fillHole_closed (acc : String) (post : List Char) :
    ∀ (inner rev : List Char), '}' ∉ inner →
      fillHole args acc rev (inner ++ '}' :: post) =
        fillChars args (acc ++ holeText args (rev.reverse ++ inner)) post
  | [], rev, _ => by simp [fillHole]
  | c :: inner, rev, h => by
    rw [List.mem_cons, not_or] at h
    rw [List.cons_append, fillHole.eq_3 args acc rev c _ (fun hc => h.1 hc.symm),
      fillHole_closed acc post inner _ h.2]
    simp

theorem fillHole_unclosed (acc : String) :
    ∀ (rest rev : List Char), '}' ∉ rest →
      fillHole args acc rev rest = acc ++ "$\x7b" ++ String.ofList (rev.reverse ++ rest)
  | [], rev, _ => by simp [fillHole]
  | c :: rest, rev, h => by
    rw [List.mem_cons, not_or] at h
    rw [fillHole.eq_3 args acc rev c _ (fun hc => h.1 hc.symm), fillHole_unclosed acc rest _ h.2]
    simp

/-- what has been written stays in front -/
theorem fillChars_front (acc : String) (cs : List Char) :
    ∀ front : String, fillChars args (front ++ acc) cs = front ++ fillChars args acc cs := by
  induction acc, cs using fillChars.induct args
    (motive_2 := fun acc inner cs => ∀ front : String,
      fillHole args (front ++ acc) inner cs = front ++ fillHole args acc inner cs) with
  | case1 acc => simp [fillChars]
  | case2 acc rest ih => simpa only [fillChars.eq_2] using ih
  | case3 acc c rest hc ih =>
    intro front
    rw [fillChars.eq_3 args _ c rest hc, fillChars.eq_3 args acc c rest hc, ← ih front]
    congr 1
    simp [String.ext_iff]
  | case4 acc inner => simp [fillHole, String.append_assoc]
  | case5 acc inner rest ih front =>
    simp only [fillHole, String.append_assoc]
    exact ih front
  | case6 acc inner c rest hc ih front =>
    rw [fillHole.eq_3 args _ inner c rest hc, fillHole.eq_3 args acc inner c rest hc, ih front]

theorem fillChars_acc (acc : String) (cs : List Char) :
    fillChars args acc cs = acc ++ fillChars args "" cs := by
  simpa using fillChars_front args "" cs acc

theorem fillTemplate_of_holeFree (t : String) (h : HoleFree t.toList) :
    fillTemplate t args = t := by
  have hcopy := fillChars_append_of_holeFree args "" [] t.toList (by simpa using h)
  simpa [fillTemplate, fillChars] using hcopy

theorem fillTemplate_closed (pre inner post : String) (hpre : HoleFree pre.toList)
    (hinner : '}' ∉ inner.toList) :
    fillTemplate (pre ++ "$\x7b" ++ inner ++ "\x7d" ++ post) args =
      pre ++ holeText args inner.toList ++ fillTemplate post args := by
  have hsplit : (pre ++ "$\x7b" ++ inner ++ "\x7d" ++ post).toList =
      pre.toList ++ '$' :: '{' :: (inner.toList ++ '}' :: post.toList) := by simp
  rw [fillTemplate, hsplit,
    fillChars_append_of_holeFree args "" _ _ (by simpa using holeFree_append_dollar hpre),
    fillChars.eq_2, fillHole_closed args _ _ _ _ hinner, fillChars_acc]
  simp [fillTemplate]

theorem fillTemplate_unclosed (pre rest : String) (hpre : HoleFree pre.toList)
    (hrest : '}' ∉ rest.toList) :
    fillTemplate (pre ++ "$\x7b" ++ rest) args = pre ++ "$\x7b" ++ rest := by
  have hsplit : (pre ++ "$\x7b" ++ rest).toList = pre.toList ++ '$' :: '{' :: rest.toList := by
    simp
  rw [fillTemplate, hsplit,
    fillChars_append_of_holeFree args "" _ _ (by simpa using holeFree_append_dollar hpre),
    fillChars.eq_2, fillHole_unclosed args _ _ _ hrest]
  simp

theorem holeText_named {inner : List Char} {i : Nat} {a : String}
    (hi : Decimal.readU64 (String.ofList inner) = some i) (ha : args[i]? = some a) :
    holeText args inner = a := by
  simp [holeText, hi, ha]

theorem holeText_unnamed {inner : List Char}
    (h : ∀ i, Decimal.readU64 (String.ofList inner) = some i → args.length ≤ i) :
    holeText args inner = "$\x7b" ++ String.ofList inner ++ "\x7d" := by
  unfold holeText
  cases hi : Decimal.readU64 (String.ofList inner) with
  | none => rfl
  | some i => simp [List.getElem?_eq_none (h i hi)]

end Filling

/-! ## Templates whose holes all name an argument -/

mutual
/-- every hole of the text is closed and names an index below `n` -/
def holesBelow (n : Nat) : List Char → Bool
  | [] => true
  | '$' :: '{' :: rest => holeBelow n [] rest
  | _ :: rest => holesBelow n rest

/-- the same, inside a hole whose index so far is `inner`, last character first -/
def holeBelow (n : Nat) (inner : List Char) : List Char → Bool
  | [] => false
  | '}' :: rest => (Decimal.readU64 (String.ofList inner.reverse)).any (· < n) && holesBelow n rest
  | c :: rest => holeBelow n (c :: inner) rest
end

/-- `Filled args t m`: `m` is the template `t` with every hole, read left to right, replaced by
the argument its index names; no hole is left as written. -/
inductive Filled (args : List String) : String → String → Prop
  | plain {t : String} : HoleFree t.toList → Filled args t t
  | hole {pre inner post m a : String} {i : Nat} : HoleFree pre.toList → '}' ∉ inner.toList →
      Decimal.readU64 inner = some i → args[i]? = some a → Filled args post m →
      Filled args (pre ++ "$\x7b" ++ inner ++ "\x7d" ++ post) (pre ++ a ++ m)

theorem exists_first_opener : ∀ {t : List Char}, ¬ HoleFree t →
    ∃ pre rest, t = pre ++ '$' :: '{' :: rest ∧ HoleFree pre
  | [], h => absurd holeFree_nil h
  | c :: t, h => by
    rw [holeFree_cons_iff, not_and_or, not_not] at h
    by_cases hc : c = '$' ∧ t.head? = some '{'
    · obtain ⟨rfl, ht⟩ := hc
      obtain ⟨rest, rfl⟩ : ∃ rest, t = '{' :: rest := by
        cases t with
        | nil => simp at ht
        | cons d rest => exact ⟨rest, by simpa using ht⟩
      exact ⟨[], rest, rfl, holeFree_nil⟩
    · obtain ⟨pre, rest, rfl, hpre⟩ := exists_first_opener (h.resolve_left hc)
      refine ⟨c :: pre, rest, rfl,
        (holeFree_cons_iff c pre).2 ⟨fun ⟨hc', hd⟩ => hc ⟨hc', ?_⟩, hpre⟩⟩
      cases pre with
      | nil => simp at hd
      | cons d pre => simpa using hd

theorem holesBelow_append_of_holeFree (n : Nat) (rest : List Char) :
    ∀ pre : List Char, HoleFree (pre ++ rest.take 1) →
      holesBelow n (pre ++ rest) = holesBelow n rest
  | [], _ => rfl
  | c :: pre, h => by
    rw [List.cons_append] at h
    rw [List.cons_append, holesBelow.eq_3 n c _ (not_opener_of_holeFree h),
      holesBelow_append_of_holeFree n rest pre ((holeFree_cons_iff _ _).1 h).2]

theorem holeBelow_eq_true (n : Nat) :
    ∀ (rest inner : List Char), holeBelow n inner rest = true →
    ∃ mid post, rest = mid ++ '}' :: post ∧ '}' ∉ mid ∧
      (Decimal.readU64 (String.ofList (inner.reverse ++ mid))).any (· < n) = true ∧
      holesBelow n post = true
  | [], _, h => by simp [holeBelow] at h
  | c :: rest, inner, h => by
    by_cases hc : c = '}'
    · subst hc
      rw [holeBelow.eq_2, Bool.and_eq_true] at h
      exact ⟨[], rest, rfl, by simp, by simpa using h.1, h.2⟩
    · rw [holeBelow.eq_3 n inner c rest hc] at h
      obtain ⟨mid, post, rfl, hmid, hidx, hpost⟩ := holeBelow_eq_true n rest (c :: inner) h
      exact ⟨c :: mid, post, rfl, by simp [Ne.symm hc, hmid], by simpa using hidx, hpost⟩

/-- A template whose holes all name one of `args` fills every one of them. -/
theorem filled_of_holesBelow (args : List String) :
    ∀ t : List Char, holesBelow args.length t = true →
      Filled args (String.ofList t) (fillTemplate (String.ofList t) args)
  | t, h => by
    by_cases hf : HoleFree t
    · rw [fillTemplate_of_holeFree args _ (by simpa using hf)]
      exact Filled.plain (by simpa using hf)
    obtain ⟨pre, rest, rfl, hpre⟩ := exists_first_opener hf
    rw [holesBelow_append_of_holeFree _ _ pre (by simpa using holeFree_append_dollar hpre),
      holesBelow.eq_2] at h
    obtain ⟨inner, post, rfl, hinner, hidx, hpost⟩ := holeBelow_eq_true _ rest [] h
    obtain ⟨i, hi, hlt⟩ :
        ∃ i, Decimal.readU64 (String.ofList inner) = some i ∧ i < args.length := by
      simpa [Option.any_eq_true] using hidx
    have hsplit : String.ofList (pre ++ '$' :: '{' :: (inner ++ '}' :: post)) =
        String.ofList pre ++ "$\x7b" ++ String.ofList inner ++ "\x7d" ++ String.ofList post := by
      simp [String.ext_iff]
    have hpost_filled := filled_of_holesBelow args post hpost
    rw [hsplit, fillTemplate_closed args _ _ _ (by simpa using hpre) (by simpa using hinner),
      String.toList_ofList, holeText_named args hi (List.getElem?_eq_getElem hlt)]
    exact Filled.hole (by simpa using hpre) (by simpa using hinner) hi
      (List.getElem?_eq_getElem hlt) hpost_filled
termination_by t => t.length
decreasing_by
  subst_vars
  simp only [List.length_append, List.length_cons]
  omega

theorem Problem.holesBelow_args (p : Problem) :
    holesBelow p.args.length p.template.toList = true := by
  cases p <;> simp only [Problem.args, Problem.template, List.length_cons, List.length_nil] <;>
    decide +kernel

theorem Problem.template_ne_unknown (p : Problem) : p.template ≠ "Unknown issue" := by
  cases p <;> simp [Problem.template]

/-- **Issue messages are fully rendered.** Filling a template copies text with no opener;
replaces a hole closed by the next `}` by the argument its index names, or leaves it as written
when the index names none; copies an opener that nothing closes with what follows; and writes
an argument without reading it again. Every issue's template is a known one, and its message is
that template with all holes filled. -/
theorem issue_messages_filled :
    (∀ (args : List String) (t : String), HoleFree t.toList → fillTemplate t args = t) ∧
    (∀ (args : List String) (pre inner post a : String) (i : Nat), HoleFree pre.toList →
      '}' ∉ inner.toList → Decimal.readU64 inner = some i → args[i]? = some a →
      fillTemplate (pre ++ "$\x7b" ++ inner ++ "\x7d" ++ post) args =
        pre ++ a ++ fillTemplate post args) ∧
    (∀ (args : List String) (pre inner post : String), HoleFree pre.toList →
      '}' ∉ inner.toList → (∀ i, Decimal.readU64 inner = some i → args.length ≤ i) →
      fillTemplate (pre ++ "$\x7b" ++ inner ++ "\x7d" ++ post) args =
        pre ++ "$\x7b" ++ inner ++ "\x7d" ++ fillTemplate post args) ∧
    (∀ (args : List String) (pre rest : String), HoleFree pre.toList → '}' ∉ rest.toList →
      fillTemplate (pre ++ "$\x7b" ++ rest) args = pre ++ "$\x7b" ++ rest) ∧
    ∀ issue : Issue, issue.problem.template ≠ "Unknown issue" ∧
      Filled issue.problem.args issue.problem.template issue.message := by
  refine ⟨fillTemplate_of_holeFree, ?_, ?_, fillTemplate_unclosed, fun issue => ?_⟩
  · intro args pre inner post a k hpre hinner hk ha
    rw [fillTemplate_closed args pre inner post hpre hinner,
      holeText_named args (by simpa using hk) ha]
  · intro args pre inner post hpre hinner hnone
    rw [fillTemplate_closed args pre inner post hpre hinner,
      holeText_unnamed args (by simpa using hnone)]
    simp [String.append_assoc]
  · refine ⟨Problem.template_ne_unknown issue.problem, ?_⟩
    have hfilled := filled_of_holesBelow issue.problem.args _
      (Problem.holesBelow_args issue.problem)
    rwa [String.ofList_toList] at hfilled

/-- The first hole of a message of the line tree, filled from its two arguments. -/
theorem fillTemplate_required_command :
    HoleFree "Required command '".toList ∧ '}' ∉ "0".toList ∧ Decimal.readU64 "0" = some 0 ∧
      ["N", "part"][0]? = some "N" ∧
      fillTemplate ("Required command '" ++ "$\x7b" ++ "0" ++ "\x7d" ++ "' in this $\x7b1\x7d")
          ["N", "part"] =
        "Required command '" ++ "N" ++ fillTemplate "' in this $\x7b1\x7d" ["N", "part"] :=
  ⟨by decide, by decide, by decide, rfl,
    issue_messages_filled.2.1 ["N", "part"] "Required command '" "0" "' in this $\x7b1\x7d" "N" 0
      (by decide) (by decide) (by decide) rfl⟩

end Jianpu
