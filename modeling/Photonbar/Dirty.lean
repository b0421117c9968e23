import Mathlib.Data.List.Forall2

/-!
# Values behind a flag

Objects hold a value and a flag that says that the value is new. Writers raise the flag with
everything that they change, or replace all objects by new ones; a reader takes the values that are
new, and clears the flags. `Group.Step` is one such operation on a group of objects, and
`Group.Step.fresh` says what the flag is good for: a value without it is the one that was read
last.

What was read last is not in the objects. It is remembered beside them, for each object on its own,
and nothing at all for an object that no reader has come across. `Fresh` is said of one object and
then of all; a writer keeps it since it touches nothing without raising the flag (`Fresh.wrote`),
and the reader since it takes what has the flag and leaves what has not (`Fresh.read`).
-/

namespace Photonbar

universe u v

/-- How an object holds a value, and the flag. -/
structure Flagged (α : Type u) (V : Type v) where
  value : α → V
  dirty : α → Bool

namespace Flagged

variable {α : Type u} {V : Type v} (F : Flagged α V)

/-- A writer raises the flag, or leaves value and flag as they are. -/
def Wrote (a a' : α) : Prop := F.dirty a' = true ∨ (F.value a' = F.value a ∧ F.dirty a' = F.dirty a)

/-- The reader clears the flag. -/
def Read (a a' : α) : Prop := F.value a' = F.value a ∧ F.dirty a' = false

/-- The value that was read last, when the reader comes: it only takes a new one. -/
def see (a : α) (seen : Option V) : Option V := if F.dirty a then some (F.value a) else seen

/-- Without the flag, the value is the one that was read last, or the first one if none was. -/
def Fresh (first : V) (a : α) (seen : Option V) : Prop :=
  F.dirty a = false → F.value a = seen.getD first

variable {F} {first : V} {a a' : α} {seen : Option V}

theorem Wrote.refl (F : Flagged α V) (a : α) : F.Wrote a a := .inr ⟨rfl, rfl⟩

theorem Fresh.of_dirty (h : F.dirty a = true) : F.Fresh first a seen := by
  intro hclean
  rw [h] at hclean
  cases hclean

theorem Fresh.wrote (h : F.Fresh first a seen) (hw : F.Wrote a a') : F.Fresh first a' seen := by
  rcases hw with hdirty | ⟨hvalue, hdirty⟩
  · exact .of_dirty hdirty
  · intro hclean
    rw [hvalue]
    exact h (hdirty.symm.trans hclean)

theorem Fresh.read (h : F.Fresh first a seen) (hr : F.Read a a') :
    F.Fresh first a' (F.see a seen) := by
  intro _
  rw [hr.1, see]
  cases hdirty : F.dirty a with
  | true => rfl
  | false => exact h hdirty

/-! ## Groups -/

/-- Objects, and for each the value that was read last; `none` as long as none was. -/
structure Group (α : Type u) (V : Type v) where
  members : List α
  seen : List (Option V)

namespace Group

/-- Every value is new, or the one that was read last. -/
def Fresh (F : Flagged α V) (first : V) (g : Group α V) : Prop :=
  List.Forall₂ (F.Fresh first) g.members g.seen

/-- One operation. -/
inductive Step (F : Flagged α V) : Group α V → Group α V → Prop
  | write {as as' : List α} {seen : List (Option V)} :
      List.Forall₂ F.Wrote as as' → Step F ⟨as, seen⟩ ⟨as', seen⟩
  | rebuild {as as' : List α} {seen : List (Option V)} :
      (∀ a ∈ as', F.dirty a = true) → Step F ⟨as, seen⟩ ⟨as', as'.map fun _ => none⟩
  | read {as as' : List α} {seen : List (Option V)} :
      List.Forall₂ F.Read as as' → Step F ⟨as, seen⟩ ⟨as', List.zipWith F.see as seen⟩

variable {g g' : Group α V}

/-- New objects with the first value. -/
theorem fresh_new {as : List α} (h : ∀ a ∈ as, F.value a = first) :
    Fresh F first ⟨as, as.map fun _ => none⟩ := by
  refine List.forall₂_map_right_iff.mpr (List.forall₂_same.mpr ?_)
  exact fun a ha _ => h a ha

/-- **Every operation keeps the values fresh.** -/
theorem Step.fresh (hg : g.Fresh F first) (h : Step F g g') : g'.Fresh F first := by
  cases h with
  | @write as as' seen hw =>
    have hold : List.Forall₂ (F.Fresh first) as seen := hg
    clear hg
    induction hw generalizing seen with
    | nil => exact hold
    | cons hfirst _ ih =>
      obtain _ | ⟨hfresh, hrest⟩ := hold
      exact .cons (hfresh.wrote hfirst) (ih hrest)
  | @rebuild as as' seen hnew =>
    refine List.forall₂_map_right_iff.mpr (List.forall₂_same.mpr ?_)
    exact fun a ha => .of_dirty (hnew a ha)
  | @read as as' seen hr =>
    have hold : List.Forall₂ (F.Fresh first) as seen := hg
    clear hg
    induction hr generalizing seen with
    | nil =>
      obtain _ | _ := hold
      exact .nil
    | cons hfirst _ ih =>
      obtain _ | ⟨hfresh, hrest⟩ := hold
      exact .cons (hfresh.read hfirst) (ih hrest)

end Group

end Flagged

end Photonbar
