import Mathlib
import Jianpu.Score.Voices
/-!
# Rows of sections: padding, spreading, appending

The rows of a timeline grow by three operations. `padRow` appends fresh placeholders up to a
length; `expandRow` spreads a written row over a fragment's columns (its pure part is `spread`,
the written sections with their omissions counted out, cut at the fragment's width) and pads the
rest; `appendRow` adds a row as the `i`-th of its kind.

Compiling steps only draw serial numbers from the journal, so what matters about them is what
holds of their result whatever the journal: `Always x P`.

`Section.Shows s e` says that `s` stands for the expected section `e` as written (a placeholder
where `e` is none), whatever column and start it was told and however its ties were drawn;
`ShowsAt row start count ss` says that columns `[start, start + count)` of `row` show `ss`
spread over them.

* `padRow_spec`, `expandRow_spec`, `appendRow_spec` — what the three operations give.
* `ShowsAt.append`, `ShowsAt.of_pads`, `ShowsAt.of_shows` — where a fragment's columns stay
  shown.
-/

namespace Jianpu

theorem forall₂_mem_right {α β : Type} {R : α → β → Prop} :
    ∀ {xs : List α} {ys : List β}, List.Forall₂ R xs ys → ∀ b ∈ ys, ∃ a ∈ xs, R a b
  | _, _, .nil => fun _ h => absurd h List.not_mem_nil
  | _, _, .cons hr hs => fun b hb => by
    rcases List.mem_cons.1 hb with rfl | hb
    · exact ⟨_, List.mem_cons_self, hr⟩
    · obtain ⟨a, ha, hab⟩ := forall₂_mem_right hs b hb
      exact ⟨a, List.mem_cons_of_mem _ ha, hab⟩

theorem forall₂_mem_left {α β : Type} {R : α → β → Prop} :
    ∀ {xs : List α} {ys : List β}, List.Forall₂ R xs ys → ∀ a ∈ xs, ∃ b ∈ ys, R a b
  | _, _, .nil => fun _ h => absurd h List.not_mem_nil
  | _, _, .cons hr hs => fun a ha => by
    rcases List.mem_cons.1 ha with rfl | ha
    · exact ⟨_, List.mem_cons_self, hr⟩
    · obtain ⟨b, hb, hab⟩ := forall₂_mem_left hs a ha
      exact ⟨b, List.mem_cons_of_mem _ hb, hab⟩

/-! ## What a compiling step always returns -/

def Always {α : Type} (x : Compiling α) (P : α → Prop) : Prop := ∀ j, P (x.run j).1

namespace Always

variable {α β : Type} {P Q : α → Prop}

theorem pure {a : α} (h : P a) : Always (Pure.pure a : Compiling α) P := fun _ => h

theorem bind {x : Compiling α} {f : α → Compiling β} {Q : β → Prop} (hx : Always x P)
    (hf : ∀ a, P a → Always (f a) Q) : Always (x >>= f) Q :=
  fun j => hf _ (hx j) _

theorem map {x : Compiling α} {f : α → β} {Q : β → Prop} (hx : Always x P)
    (h : ∀ a, P a → Q (f a)) : Always (f <$> x) Q :=
  fun j => h _ (hx j)

theorem imp {x : Compiling α} (hx : Always x P) (h : ∀ a, P a → Q a) : Always x Q :=
  fun j => h _ (hx j)

theorem and {x : Compiling α} (hp : Always x P) (hq : Always x Q) :
    Always x fun a => P a ∧ Q a :=
  fun j => ⟨hp j, hq j⟩

theorem any {x : Compiling α} : Always x fun _ => True := fun _ => True.intro

theorem warn_then {line col : Nat} {p : Problem} {a : α} (h : P a) :
    Always (do warn line col p; Pure.pure a) P :=
  any.bind fun _ _ => Always.pure h

/-- A fold keeps an invariant of the items done so far when each step takes it from the
items done to one more. -/
theorem foldlM {f : β → α → Compiling β} (I : List α → β → Prop)
    (hf : ∀ done b a, I done b → Always (f b a) (I (done ++ [a]))) :
    ∀ (l done : List α) (b : β), I done b → Always (l.foldlM f b) (I (done ++ l))
  | [], done, _, hb => fun _ => by
    rw [List.append_nil]
    exact hb
  | a :: l, done, b, hb => fun j => by
    have h := foldlM I hf l (done ++ [a]) _ (hf done b a hb j) ((f b a).run j).2
    rw [List.append_assoc, List.singleton_append] at h
    exact h

theorem foldlM_keeps {f : β → α → Compiling β} (I : β → Prop)
    (hf : ∀ b a, I b → Always (f b a) I) (l : List α) (b : β) (hb : I b) :
    Always (l.foldlM f b) I :=
  foldlM (fun _ => I) (fun _ b a => hf b a) l [] b hb

/-- A fold over a list keeps an invariant of the items done when each step, for an item of
the list, takes it from the items done to one more. -/
theorem foldlM_of_mem {f : β → α → Compiling β} (I : List α → β → Prop) (l : List α)
    (hf : ∀ done b a, a ∈ l → I done b → Always (f b a) (I (done ++ [a]))) (b : β)
    (hb : I [] b) : Always (l.foldlM f b) (I l) := by
  have h := foldlM (fun done b => (∀ x ∈ done, x ∈ l) → I done b) (fun done b a hI => by
    intro j hsub
    exact hf done b a (hsub a (by simp)) (hI fun x hx => hsub x (by simp [hx])) j)
    l [] b (fun _ => hb)
  exact fun j => by simpa using h j

theorem mapM_list {f : α → Compiling β} (R : α → β → Prop) :
    ∀ l : List α, (∀ a ∈ l, Always (f a) (R a)) → Always (l.mapM f) fun ys => List.Forall₂ R l ys
  | [], _ => Always.pure List.Forall₂.nil
  | a :: l, hf => by
    rw [List.mapM_cons]
    exact (hf a List.mem_cons_self).bind fun b hb =>
      (mapM_list R l fun x hx => hf x (List.mem_cons_of_mem _ hx)).bind fun bs hbs =>
        Always.pure (List.Forall₂.cons hb hbs)

theorem mapM_array {f : α → Compiling β} (R : α → β → Prop) (xs : Array α)
    (hf : ∀ a ∈ xs, Always (f a) (R a)) :
    Always (xs.mapM f) fun ys => List.Forall₂ R xs.toList ys.toList := by
  rw [Array.mapM_eq_mapM_toList]
  exact (mapM_list R xs.toList fun a ha => hf a (Array.mem_toList_iff.1 ha)).map fun ys h => h

theorem mapM_forall {f : α → Compiling β} {Q : β → Prop} (l : List α)
    (hf : ∀ a ∈ l, Always (f a) Q) : Always (l.mapM f) fun ys => ∀ b ∈ ys, Q b :=
  (mapM_list (fun _ b => Q b) l hf).imp fun _ h b hb => by
    obtain ⟨_, _, hq⟩ := forall₂_mem_right h b hb
    exact hq

theorem mapM_array_forall {f : α → Compiling β} {Q : β → Prop} (xs : Array α)
    (hf : ∀ a ∈ xs, Always (f a) Q) : Always (xs.mapM f) fun ys => ∀ b ∈ ys, Q b :=
  (mapM_array (fun _ b => Q b) xs hf).imp fun _ h b hb => by
    obtain ⟨_, _, hq⟩ := forall₂_mem_right h b (Array.mem_toList_iff.2 hb)
    exact hq

theorem some_map {x : Compiling α} (h : Always x P) :
    Always (some <$> x) fun o => ∀ a ∈ o, P a :=
  h.map fun _ ha _ ha' => Option.some.inj ha' ▸ ha

theorem none_forall (P : α → Prop) :
    Always (Pure.pure none : Compiling (Option α)) fun o => ∀ a ∈ o, P a :=
  Always.pure fun _ h => nomatch h

end Always

variable {α : Type}

/-! ## Placeholders -/

/-- Padding appends fresh placeholders with the default properties up to the length, and
nothing to a row that reaches it. -/
theorem padRow_pads (row : Array (Section α)) (len : Nat) :
    Always (padRow row len) fun r => ∃ pads : Array (Section α), r = row ++ pads ∧
      pads.size = len - row.size ∧ ∀ p ∈ pads, ∃ serial, p = Section.nullish 0 serial {} := by
  have h := Always.foldlM (f := fun (r : Array (Section α)) (_ : Nat) => do
      Pure.pure (r.push (Section.nullish 0 (← freshSerial) {})))
    (fun done r => ∃ pads : Array (Section α), r = row ++ pads ∧ pads.size = done.length ∧
      ∀ p ∈ pads, ∃ serial, p = Section.nullish 0 serial {}) ?_ (List.range (len - row.size)) []
    row ⟨#[], by simp, rfl, by simp⟩
  · unfold padRow
    simpa using h
  · rintro done r - ⟨pads, rfl, hsize, hnull⟩ j
    refine ⟨pads.push (Section.nullish 0 j.serial {}), ?_, ?_, ?_⟩
    · show (row ++ pads).push (Section.nullish 0 j.serial {}) = _
      rw [Array.append_push]
    · simp [hsize]
    · intro p hp
      rcases Array.mem_push.1 hp with hp | rfl
      · exact hnull p hp
      · exact ⟨j.serial, rfl⟩

theorem padRow_spec (row : Array (Section α)) (len : Nat) :
    Always (padRow row len) fun r => ∃ pads : Array (Section α), r = row ++ pads ∧
      pads.size = len - row.size ∧ ∀ p ∈ pads, p.isNullish = true :=
  (padRow_pads row len).imp fun _ ⟨pads, hr, hsize, hnull⟩ => ⟨pads, hr, hsize, fun p hp => by
    obtain ⟨_, rfl⟩ := hnull p hp
    rfl⟩

theorem padRow_size (row : Array (Section α)) (len : Nat) :
    Always (padRow row len) fun r => r.size = max row.size len :=
  (padRow_spec row len).imp fun _ ⟨pads, hr, hsize, _⟩ => by
    rw [hr, Array.size_append, hsize]
    omega

/-! ## Spreading a written row over a fragment -/

/-- The written sections of a row over `count` columns: an omission `...n` copied `n` times, a
bare `...` taking what the row lacks of the width, all cut at the width. -/
def spread (ss : List (Section α)) (count : Nat) : Array (Section α) :=
  (ss.foldl (fun ((out, fill) : Array (Section α) × Nat) s =>
    let (copies, fill) := match s.body with
      | .omit (some n) => (max n 1, fill)
      | .omit none => (1 + fill, 0)
      | _ => (1, fill)
    (out ++ Array.replicate copies s, fill)) (#[], count - writtenWidth ss)).1.extract 0 count

theorem expandRow_eq (ss : List (Section α)) (count : Nat) :
    expandRow ss count = padRow (spread ss count) count := rfl

theorem spread_size_le (ss : List (Section α)) (count : Nat) : (spread ss count).size ≤ count := by
  simp [spread]

/-- The section stands for `e` as written: a placeholder where `e` is none, else a section of
`e`'s kind with `e`'s identity, source, separators and properties. Where it stands on the
axis and how its ties are drawn do not matter. -/
def Section.Shows (s : Section α) : Option (Section α) → Prop
  | none => s.isNullish = true
  | some e => s.isNullish = e.isNullish ∧ (e.isNullish = false →
      s.card = e.card ∧ s.span = e.span ∧ s.separators = e.separators ∧ s.props = e.props)

theorem Section.shows_self (s : Section α) : s.Shows (some s) :=
  ⟨rfl, fun _ => ⟨rfl, rfl, rfl, rfl⟩⟩

/-- Columns `[start, start + count)` of the row show `ss` spread over them, or placeholders
where `ss` is none. -/
def ShowsAt (row : Array (Section α)) (start count : Nat) (ss : Option (List (Section α))) :
    Prop :=
  ∀ j < count, ∃ h : start + j < row.size,
    row[start + j].Shows (ss.bind fun ss => (spread ss count)[j]?)

theorem expandRow_spec (ss : List (Section α)) (count : Nat) :
    Always (expandRow ss count) fun r => r.size = count ∧ ShowsAt r 0 count (some ss) := by
  rw [expandRow_eq]
  refine (padRow_spec _ _).imp fun r ⟨pads, hr, hsize, hnull⟩ => ?_
  have hle := spread_size_le ss count
  subst hr
  refine ⟨by simp [hsize]; omega, fun j hj => ⟨by simp [hsize]; omega, ?_⟩⟩
  simp only [Nat.zero_add, Option.bind_some]
  by_cases hin : j < (spread ss count).size
  · rw [Array.getElem_append_left hin, Array.getElem?_eq_getElem hin]
    exact Section.shows_self _
  · rw [Array.getElem_append_right (by omega), Array.getElem?_eq_none (by omega)]
    exact hnull _ (Array.getElem_mem _)

namespace ShowsAt

variable {row : Array (Section α)} {start count : Nat} {ss : Option (List (Section α))}

theorem append (h : ShowsAt row start count ss) (tail : Array (Section α)) :
    ShowsAt (row ++ tail) start count ss := fun j hj => by
  obtain ⟨hlt, hs⟩ := h j hj
  exact ⟨by simp; omega, by rwa [Array.getElem_append_left hlt]⟩

theorem shift (h : ShowsAt row 0 count ss) (head : Array (Section α)) :
    ShowsAt (head ++ row) head.size count ss := fun j hj => by
  obtain ⟨hlt, hs⟩ := h j hj
  refine ⟨by simp; omega, ?_⟩
  rw [Array.getElem_append_right (by omega)]
  simpa using hs

theorem of_pads {pads : Array (Section α)} (head : Array (Section α)) (hsize : count ≤ pads.size)
    (hnull : ∀ p ∈ pads, p.isNullish = true) : ShowsAt (head ++ pads) head.size count none :=
  fun j hj => ⟨by simp; omega, by
    rw [Array.getElem_append_right (by omega)]
    exact hnull _ (Array.getElem_mem _)⟩

theorem of_nullish (hnull : ∀ s ∈ row, s.isNullish = true) (hsize : start + count ≤ row.size) :
    ShowsAt row start count none :=
  fun j hj => ⟨by omega, hnull _ (Array.getElem_mem _)⟩

theorem of_shows {row' : Array (Section α)} (h : ShowsAt row start count ss)
    (hsize : row'.size = row.size)
    (hs : ∀ k (h : k < row.size) (h' : k < row'.size) e, row[k].Shows e → row'[k].Shows e) :
    ShowsAt row' start count ss := fun j hj => by
  obtain ⟨hlt, he⟩ := h j hj
  exact ⟨hsize ▸ hlt, hs _ hlt _ _ he⟩

end ShowsAt

/-! ## Rows by position -/

theorem getD_append_replicate_nil (rows : Array (Array (Section α))) (n k : Nat) :
    (rows ++ Array.replicate n #[]).getD k #[] = rows.getD k #[] := by
  simp only [Array.getD_eq_getD_getElem?]
  by_cases hk : k < rows.size
  · rw [Array.getElem?_append_left hk]
  · have hnone : rows[k]? = none := Array.getElem?_eq_none (by omega)
    rw [Array.getElem?_append_right (by omega), hnone, Array.getElem?_replicate]
    split <;> rfl

/-- Appending a row as the `i`-th of its kind leaves the other rows as they were (an empty
row where there was none) and makes the `i`-th row reach `offset` and then `count` more. -/
theorem appendRow_spec (rows : Array (Array (Section α))) (i : Nat) (ss : List (Section α))
    (offset count : Nat) :
    Always (appendRow rows i ss offset count) fun rows' =>
      (∀ k (h : k < rows'.size), k ≠ i → rows'[k] = rows.getD k #[]) ∧
      ∃ h : i < rows'.size, rows'[i].size = max (rows.getD i #[]).size offset + count := by
  unfold appendRow
  refine (padRow_size _ _).bind fun row hrow => (expandRow_spec ss count).bind fun E hE =>
    Always.pure ?_
  rw [getD_append_replicate_nil] at hrow
  refine ⟨fun k hk hki => ?_, ⟨by simp; omega, ?_⟩⟩
  · rw [Array.getElem_setIfInBounds, if_neg (Ne.symm hki), ← getD_append_replicate_nil rows
      (i + 1 - rows.size) k, Array.getD_eq_getD_getElem?,
      Array.getElem?_eq_getElem (by simpa using hk)]
    rfl
  · rw [Array.getElem_setIfInBounds_self, Array.size_append, hrow, hE.1]

end Jianpu
