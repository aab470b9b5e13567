import Mathlib
import Jianpu.Score.Voices
import Jianpu.Proofs.Frac.Reading
/-!
# Signatures tell parts apart

A part's signature is its tags joined, a `#`, and how many parts before it in the fragment
carried the same tags; a lyric line's is formed the same way from its tags and passes. The
number after the last `#` is written in digits, which hold no `#`, so a signature gives back
its key and its number (`signature_inj`). A tally counts the signatures handed out per key,
and every number handed out under a key stays below the count the tally has reached for it
(`HandedOut`), so the next signature is new (`HandedOut.fresh`).

* `signTags` — the signatures handed out in turn to items of the given tags, and the tally
  they leave; they are pairwise different (`signTags_nodup`).
-/

namespace Jianpu

/-! ## Reading a signature back -/

def signature (key : String) (n : Nat) : String := s!"{key}#{n}"

theorem signature_toList (key : String) (n : Nat) :
    (signature key n).toList = key.toList ++ '#' :: Nat.toDigits 10 n := by
  unfold signature
  simp [Nat.toList_repr]
  rfl

theorem hash_not_mem_toDigits (n : Nat) : '#' ∉ Nat.toDigits 10 n := by
  intro h
  have := Nat.isDigit_of_mem_toDigits (by omega) (by omega) h
  simp at this

theorem eq_of_append_cons {a b c d : List Char} {x : Char} (ha : x ∉ a) (hc : x ∉ c)
    (h : a ++ x :: b = c ++ x :: d) : a = c ∧ b = d := by
  have hl : a.length = c.length := by
    have h1 := congrArg (List.idxOf x) h
    simpa [List.idxOf_append_of_notMem ha, List.idxOf_append_of_notMem hc] using h1
  obtain ⟨hac, hbd⟩ := List.append_inj h hl
  exact ⟨hac, List.cons_injective hbd⟩

/-- A signature gives back its key and its number: read from the end, the digits stop at the
last `#`. -/
theorem signature_inj {key key' : String} {n n' : Nat} (h : signature key n = signature key' n') :
    key = key' ∧ n = n' := by
  have hrev := congrArg (fun s : String => s.toList.reverse) h
  simp only [signature_toList, List.reverse_append, List.reverse_cons, List.append_assoc,
    List.singleton_append] at hrev
  obtain ⟨hdigits, hkey⟩ := eq_of_append_cons (by simpa using hash_not_mem_toDigits n)
    (by simpa using hash_not_mem_toDigits n') hrev
  refine ⟨String.toList_inj.1 (List.reverse_inj.1 hkey), ?_⟩
  have hn := congrArg Decimal.digitValue (List.reverse_inj.1 hdigits)
  rwa [Decimal.digitValue_toDigits, Decimal.digitValue_toDigits, Option.some_inj] at hn

/-! ## Tallies -/

def tallyOf (counts : List (String × Nat)) (key : String) : Nat := (counts.lookup key).getD 0

theorem lookup_filter_ne (counts : List (String × Nat)) {key key' : String} (h : key' ≠ key) :
    (counts.filter (·.1 != key)).lookup key' = counts.lookup key' := by
  induction counts with
  | nil => rfl
  | cons p counts ih =>
    obtain ⟨k, m⟩ := p
    by_cases hk : k = key
    · subst hk
      have hne : (key' == k) = false := by simpa using h
      simp [List.lookup_cons, hne, ih]
    · simp [hk, List.lookup_cons, ih]

theorem tallyOf_signatureOf (tags : List String) (counts : List (String × Nat)) (key : String) :
    tallyOf (signatureOf tags counts).2 key = if key = String.intercalate "," tags
      then tallyOf counts key + 1 else tallyOf counts key := by
  unfold signatureOf tallyOf
  by_cases hk : key = String.intercalate "," tags
  · subst hk
    simp
  · have hne : (key == String.intercalate "," tags) = false := by simpa using hk
    simp [hk, hne, List.lookup_cons, lookup_filter_ne counts hk]

theorem signatureOf_fst (tags : List String) (counts : List (String × Nat)) :
    (signatureOf tags counts).1 =
      signature (String.intercalate "," tags) (tallyOf counts (String.intercalate "," tags)) :=
  rfl

/-- Every signature of the list was handed out under the tally: some key's number below
the count the tally has reached for that key. -/
def HandedOut (counts : List (String × Nat)) (sigs : List String) : Prop :=
  ∀ s ∈ sigs, ∃ key m, s = signature key m ∧ m < tallyOf counts key

namespace HandedOut

variable {counts : List (String × Nat)} {sigs : List String}

theorem nil : HandedOut counts [] := fun _ h => absurd h List.not_mem_nil

theorem fresh (h : HandedOut counts sigs) (tags : List String) :
    (signatureOf tags counts).1 ∉ sigs := by
  intro hmem
  obtain ⟨key, m, hs, hm⟩ := h _ hmem
  rw [signatureOf_fst] at hs
  obtain ⟨rfl, rfl⟩ := signature_inj hs
  exact lt_irrefl _ hm

theorem step (h : HandedOut counts sigs) (tags : List String) :
    HandedOut (signatureOf tags counts).2 (sigs ++ [(signatureOf tags counts).1]) := by
  have hmono : ∀ key, tallyOf counts key ≤ tallyOf (signatureOf tags counts).2 key := by
    intro key
    rw [tallyOf_signatureOf]
    split <;> omega
  intro s hs
  rcases List.mem_append.1 hs with hs | hs
  · obtain ⟨key, m, rfl, hm⟩ := h s hs
    exact ⟨key, m, rfl, lt_of_lt_of_le hm (hmono key)⟩
  · rw [List.mem_singleton.1 hs, signatureOf_fst]
    refine ⟨_, _, rfl, ?_⟩
    rw [tallyOf_signatureOf, if_pos rfl]
    omega

end HandedOut

/-! ## Signatures handed out in turn -/

def signTags (tags : List (List String)) : List String × List (String × Nat) :=
  tags.foldl (fun (sigs, counts) t => (sigs ++ [(signatureOf t counts).1],
    (signatureOf t counts).2)) ([], [])

theorem signTags_append_single (tags : List (List String)) (t : List String) :
    signTags (tags ++ [t]) = ((signTags tags).1 ++ [(signatureOf t (signTags tags).2).1],
      (signatureOf t (signTags tags).2).2) := by
  simp [signTags, List.foldl_append]

theorem signTags_length (tags : List (List String)) : (signTags tags).1.length = tags.length := by
  induction tags using List.reverseRecOn with
  | nil => rfl
  | append_singleton tags t ih => simp [signTags_append_single, ih]

theorem handedOut_signTags (tags : List (List String)) :
    HandedOut (signTags tags).2 (signTags tags).1 := by
  induction tags using List.reverseRecOn with
  | nil => exact HandedOut.nil
  | append_singleton tags t ih =>
    rw [signTags_append_single]
    exact ih.step t

theorem signTags_nodup (tags : List (List String)) : (signTags tags).1.Nodup := by
  induction tags using List.reverseRecOn with
  | nil => exact List.nodup_nil
  | append_singleton tags t ih =>
    rw [signTags_append_single, List.nodup_append]
    refine ⟨ih, List.nodup_singleton _, ?_⟩
    intro a ha b hb hab
    rw [List.mem_singleton.1 hb] at hab
    exact (handedOut_signTags tags).fresh t (hab ▸ ha)

end Jianpu
