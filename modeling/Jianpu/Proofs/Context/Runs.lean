import Mathlib
import Jianpu.Content.TypedTree
import Jianpu.Proofs.Columns.Rows
/-!
# Two runs of a compiling step

A compiling step reads its journal only to draw serial numbers. Two runs of steps on like
inputs therefore give like results whatever the two journals hold: `Always₂ x y R`. A step
that never draws a serial number gives one result on every journal: it is `Steady`.

Reading the words around a barline is steady (`BarlineAttr.parse_steady`,
`RowScope.readAttrs_steady`), and so is reading a barline run (`RowScope.separator_steady`).

* `Always₂` — with `pure`, `bind`, `map`, `of_always`, `unit`, `mapM` and `foldlM`.
* `Steady` — a step whose result does not depend on the journal.
-/

namespace Jianpu

def Always₂ {α β : Type} (x : Compiling α) (y : Compiling β) (R : α → β → Prop) : Prop :=
  ∀ j j', R (x.run j).1 (y.run j').1

namespace Always₂

variable {α β γ δ : Type} {R : α → β → Prop}

theorem pure {a : α} {b : β} (h : R a b) : Always₂ (Pure.pure a) (Pure.pure b) R :=
  fun _ _ => h

theorem bind {x : Compiling α} {y : Compiling β} {f : α → Compiling γ} {g : β → Compiling δ}
    {S : γ → δ → Prop} (hx : Always₂ x y R) (hf : ∀ a b, R a b → Always₂ (f a) (g b) S) :
    Always₂ (x >>= f) (y >>= g) S :=
  fun j j' => hf _ _ (hx j j') _ _

theorem map {x : Compiling α} {y : Compiling β} {f : α → γ} {g : β → δ} {S : γ → δ → Prop}
    (hx : Always₂ x y R) (h : ∀ a b, R a b → S (f a) (g b)) : Always₂ (f <$> x) (g <$> y) S :=
  fun j j' => h _ _ (hx j j')

theorem imp {x : Compiling α} {y : Compiling β} {S : α → β → Prop} (hx : Always₂ x y R)
    (h : ∀ a b, R a b → S a b) : Always₂ x y S :=
  fun j j' => h _ _ (hx j j')

theorem of_always {x : Compiling α} {y : Compiling β} {P : α → Prop} {Q : β → Prop}
    (hx : Always x P) (hy : Always y Q) (h : ∀ a b, P a → Q b → R a b) : Always₂ x y R :=
  fun j j' => h _ _ (hx j) (hy j')

theorem any {x : Compiling α} {y : Compiling β} : Always₂ x y fun _ _ => True :=
  fun _ _ => True.intro

theorem unit (x y : Compiling Unit) : Always₂ x y Eq := fun _ _ => rfl

theorem mapM {f : α → Compiling β} {g : α → Compiling γ} {S : β → γ → Prop} :
    ∀ l : List α, (∀ a ∈ l, Always₂ (f a) (g a) S) →
      Always₂ (l.mapM f) (l.mapM g) (List.Forall₂ S)
  | [], _ => pure List.Forall₂.nil
  | a :: l, hf => by
    rw [List.mapM_cons, List.mapM_cons]
    exact (hf a List.mem_cons_self).bind fun b c hbc =>
      (mapM l fun x hx => hf x (List.mem_cons_of_mem _ hx)).bind fun bs cs hbcs =>
        pure (List.Forall₂.cons hbc hbcs)

theorem foldlM {f : β → α → Compiling β} {g : γ → α → Compiling γ} (V : β → γ → Prop) :
    ∀ l : List α, (∀ b c, ∀ a ∈ l, V b c → Always₂ (f b a) (g c a) V) →
      ∀ b c, V b c → Always₂ (l.foldlM f b) (l.foldlM g c) V
  | [], _, _, _, h => pure h
  | a :: l, hf, b, c, h => by
    rw [List.foldlM_cons, List.foldlM_cons]
    exact (hf b c a List.mem_cons_self h).bind fun b' c' h' =>
      foldlM V l (fun b c x hx => hf b c x (List.mem_cons_of_mem _ hx)) b' c' h'

/-- Folding one list with steps that take a relation of the two states from the items done to
one more keeps it for all the items. -/
theorem foldlM_done {f : β → α → Compiling β} {g : γ → α → Compiling γ}
    (V : List α → β → γ → Prop)
    (hf : ∀ done b c a, V done b c → Always₂ (f b a) (g c a) (V (done ++ [a]))) :
    ∀ (l done : List α) (b : β) (c : γ), V done b c →
      Always₂ (l.foldlM f b) (l.foldlM g c) (V (done ++ l))
  | [], done, _, _, h => by
    rw [List.append_nil]
    exact pure h
  | a :: l, done, b, c, h => by
    rw [List.foldlM_cons, List.foldlM_cons]
    refine (hf done b c a h).bind fun b' c' h' => ?_
    have hrest := foldlM_done V hf l (done ++ [a]) b' c' h'
    rwa [List.append_assoc, List.singleton_append] at hrest

end Always₂

def Steady {α : Type} (x : Compiling α) : Prop := Always₂ x x Eq

namespace Steady

variable {α β : Type}

theorem pure (a : α) : Steady (Pure.pure a : Compiling α) := Always₂.pure rfl

theorem bind {x : Compiling α} {f : α → Compiling β} (hx : Steady x) (hf : ∀ a, Steady (f a)) :
    Steady (x >>= f) :=
  Always₂.bind hx fun a _ h => h ▸ hf a

theorem map {x : Compiling α} (f : α → β) (hx : Steady x) : Steady (f <$> x) :=
  Always₂.map hx fun _ _ h => congrArg f h

theorem unit (x : Compiling Unit) : Steady x := Always₂.unit x x

theorem mapM {f : α → Compiling β} (l : List α) (hf : ∀ a ∈ l, Steady (f a)) :
    Steady (l.mapM f) :=
  (Always₂.mapM l hf).imp fun _ _ h => List.forall₂_eq_eq_eq ▸ h

theorem foldlM {f : β → α → Compiling β} (l : List α) (hf : ∀ b, ∀ a ∈ l, Steady (f b a))
    (b : β) : Steady (l.foldlM f b) :=
  Always₂.foldlM Eq l (fun b _ a ha h => h ▸ hf b a ha) b b rfl

theorem warn_then (line index : Nat) (p : Problem) (a : α) :
    Steady (do warn line index p; Pure.pure a : Compiling α) :=
  (unit _).bind fun _ => pure a

theorem always_eq {x : Compiling α} (hx : Steady x) : Always x (· = (x.run {}).1) :=
  fun j => hx j {}

end Steady

/-! ## Reading the words of a barline -/

namespace PropItem

theorem clampTranspose_steady (line index : Nat) (v : Float) :
    Steady (clampTranspose line index v) := by
  unfold clampTranspose
  split
  · exact Steady.pure v
  · exact Steady.warn_then _ _ _ _

theorem parse_steady (line index : Nat) (text : String) : Steady (parse line index text) := by
  unfold parse
  simp only []
  -- every branch returns at once, after a warning, or after holding a transposition in range
  repeat' split
  all_goals first
    | exact Steady.pure _
    | exact Steady.warn_then _ _ _ _
    | exact (clampTranspose_steady _ _ _).bind fun _ => Steady.pure _

end PropItem

theorem BarlineAttr.parse_steady (line index : Nat) (text : String) :
    Steady (BarlineAttr.parse line index text) := by
  unfold BarlineAttr.parse
  simp only []
  repeat' split
  -- a word that is none of the barline's own is read as a property item
  all_goals first
    | exact Steady.pure _
    | exact Steady.warn_then _ _ _ _
    | exact (PropItem.parse_steady _ _ _).bind fun x => by split <;> exact Steady.pure _

theorem RowScope.readAttrs_steady (rx : RowScope) (slot : AttrSlot) (atBegin atEnd : Bool)
    (p : Bracketed) : Steady (rx.readAttrs slot atBegin atEnd p) := by
  unfold RowScope.readAttrs
  refine Steady.foldlM _ (fun out g _ => ?_) _
  cases groupSpan g with
  | none => exact Steady.pure _
  | some span =>
    dsimp only
    -- the word is read: a string literal is a label, anything else a barline attribute
    split
    on_goal 1 => split
    on_goal 1 => refine (Steady.pure _).bind fun attr => ?_
    on_goal 2 => refine (BarlineAttr.parse_steady _ _ _).bind fun attr => ?_
    on_goal 3 => refine (BarlineAttr.parse_steady _ _ _).bind fun attr => ?_
    -- then the attribute read is kept, or dropped with a warning
    all_goals
      split
      · split
        · exact Steady.warn_then _ _ _ _
        · exact Steady.pure _
      · exact Steady.pure _

theorem RowScope.separator_steady (rx : RowScope) (run : BarlineRun) (atBegin atEnd : Bool) :
    Steady (rx.separator run atBegin atEnd) := by
  unfold RowScope.separator
  -- an error for an unknown glyph, then the two edge checks, then the attributes
  cases h : Barline.parse run.glyph
  all_goals simp only [pure_bind]
  on_goal 1 => refine (Steady.unit _).bind fun _ => ?_
  all_goals
    split
    on_goal 1 => refine (Steady.unit _).bind fun _ => ?_
    all_goals
      split
      on_goal 1 => refine (Steady.unit _).bind fun _ => ?_
      all_goals
        refine Steady.bind ?_ fun _ => Steady.bind ?_ fun _ => Steady.bind ?_ fun _ =>
          Steady.pure _
        -- each slot's attributes, read when the slot holds a bracket
        all_goals
          split
          · exact rx.readAttrs_steady _ _ _ _
          · exact Steady.pure _

end Jianpu
