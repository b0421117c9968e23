import Mathlib.Data.List.Basic

/-!
# Sorting with a comparator

A sort is only as good as its comparator: `Sorts` is what `qsort` promises about a list whose
elements the comparator puts into one order (`Consistent`), and about any other list it promises
nothing. Such a list has one sorted permutation (`Sorts.eq_of_perm`), so that a program that sorts
it does not depend on the order that it is given in.

A comparator is consistent on a list if it decides between two elements in the same way, whichever
comes first (`Opposite`), and if what it decides is transitive. The elements are taken to be
different, so that none of them are equal in the order. `sortBy` is a sort that keeps the promise
(`sorts_sortBy`), by merging, for examples in which something has to be sorted.
-/

namespace Photonbar

universe u

namespace Sorting

variable {α : Type u}

/-- The comparator decides between two elements in the same way, whichever comes first. -/
def Opposite (cmp : α → α → Int) (a b : α) : Prop :=
  (cmp a b < 0 ∧ 0 < cmp b a) ∨ (0 < cmp a b ∧ cmp b a < 0)

/-- The comparator puts the elements of a list, which are different, into one order. -/
structure Consistent (cmp : α → α → Int) (l : List α) : Prop where
  nodup : l.Nodup
  opposite : ∀ a ∈ l, ∀ b ∈ l, a ≠ b → Opposite cmp a b
  trans : ∀ a ∈ l, ∀ b ∈ l, ∀ c ∈ l, cmp a b < 0 → cmp b c < 0 → a ≠ b → b ≠ c → cmp a c < 0

/-- What `qsort` promises. -/
structure Sorts (qsort : (α → α → Int) → List α → List α) : Prop where
  perm : ∀ cmp l, Consistent cmp l → (qsort cmp l).Perm l
  sorted : ∀ cmp l, Consistent cmp l → (qsort cmp l).Pairwise fun a b => cmp a b ≤ 0

variable {cmp : α → α → Int} {l l' : List α}

theorem Consistent.perm (h : Consistent cmp l) (hl : l'.Perm l) : Consistent cmp l' where
  nodup := hl.nodup_iff.mpr h.nodup
  opposite a ha b hb := h.opposite a (hl.mem_iff.mp ha) b (hl.mem_iff.mp hb)
  trans a ha b hb c hc :=
    h.trans a (hl.mem_iff.mp ha) b (hl.mem_iff.mp hb) c (hl.mem_iff.mp hc)

/-- **The result does not depend on the order of the list.** -/
theorem Sorts.eq_of_perm {qsort : (α → α → Int) → List α → List α} (hsort : Sorts qsort)
    (h : Consistent cmp l) (hl : l'.Perm l) : qsort cmp l' = qsort cmp l := by
  have hperm := hsort.perm cmp l h
  have hperm' := hsort.perm cmp l' (h.perm hl)
  refine List.Perm.eq_of_pairwise (fun a b ha hb hab hba => ?_) (hsort.sorted cmp l' (h.perm hl))
    (hsort.sorted cmp l h) (hperm'.trans (hl.trans hperm.symm))
  by_contra hne
  -- one of the two comparisons is positive
  rcases h.opposite a (hl.mem_iff.mp (hperm'.mem_iff.mp ha)) b (hperm.mem_iff.mp hb) hne with
    ⟨-, hpos⟩ | ⟨hpos, -⟩
  · omega
  · omega

/-! ## A sort that keeps the promise -/

section

variable [DecidableEq α]

/-- The order that a comparator stands for. -/
def precedes (cmp : α → α → Int) (a b : α) : Bool := a = b ∨ cmp a b < 0

/-- `qsort`, by merging. -/
def sortBy (cmp : α → α → Int) (l : List α) : List α := l.mergeSort (precedes cmp)

theorem precedes_total (h : Consistent cmp l) {a b : α} (ha : a ∈ l) (hb : b ∈ l) :
    precedes cmp a b = true ∨ precedes cmp b a = true := by
  simp only [precedes, decide_eq_true_eq]
  by_cases hab : a = b
  · exact .inl (.inl hab)
  · rcases h.opposite a ha b hb hab with ⟨hlt, -⟩ | ⟨-, hlt⟩
    · exact .inl (.inr hlt)
    · exact .inr (.inr hlt)

theorem precedes_trans (h : Consistent cmp l) {a b c : α} (ha : a ∈ l) (hb : b ∈ l) (hc : c ∈ l)
    (hab : precedes cmp a b = true) (hbc : precedes cmp b c = true) : precedes cmp a c = true := by
  simp only [precedes, decide_eq_true_eq] at hab hbc ⊢
  by_cases heq : a = b
  · exact heq ▸ hbc
  by_cases heq' : b = c
  · exact heq' ▸ hab
  · exact .inr (h.trans a ha b hb c hc (hab.resolve_left heq) (hbc.resolve_left heq') heq heq')

/-- The elements of a list in order, as elements of the list. -/
theorem sortBy_pairwise (h : Consistent cmp l) :
    (sortBy cmp l).Pairwise fun a b => precedes cmp a b = true := by
  let r (a b : {x // x ∈ l}) : Bool := precedes cmp a.1 b.1
  have hmap : (l.attach.mergeSort r).map Subtype.val = sortBy cmp l := by
    rw [List.map_mergeSort (s := precedes cmp) fun _ _ _ _ => rfl, List.attach_map_subtype_val]
    rfl
  have htrans (a b c : {x // x ∈ l}) : r a b = true → r b c = true → r a c = true :=
    precedes_trans h a.2 b.2 c.2
  have htotal (a b : {x // x ∈ l}) : (r a b || r b a) = true := by
    rw [Bool.or_eq_true]
    exact precedes_total h a.2 b.2
  rw [← hmap]
  exact List.pairwise_map.mpr (List.pairwise_mergeSort htrans htotal l.attach)

theorem sorts_sortBy : Sorts (sortBy : (α → α → Int) → List α → List α) where
  perm _ _ _ := List.mergeSort_perm _ _
  sorted cmp l h := by
    have hnodup : (sortBy cmp l).Nodup := (List.mergeSort_perm _ _).nodup_iff.mpr h.nodup
    refine ((sortBy_pairwise h).and hnodup).imp fun {a b} hab => ?_
    have hlt := (of_decide_eq_true hab.1).resolve_left hab.2
    omega

end

end Sorting

end Photonbar
