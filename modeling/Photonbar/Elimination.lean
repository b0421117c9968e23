import Mathlib.Data.Finset.Card

/-!
# Elimination in place

Two nested loops go through a set while they remove elements from it: what the element of the outer
loop covers is removed, unless this element has been removed itself. If covering is a preorder,
then everything is still covered afterwards (`covers_eliminate`), by elements none of which covers
another (`not_covers_of_mem_eliminate`).

The elements are of any type, the loops go through any lists of them, and covering is any relation.
An element that is removed was covered by one that was there at that moment, which may be removed
later, by a third one; this covers the first as well, since covering is transitive. Nothing about
the order of the lists is used, and of two elements that cover each other it is the order that
decides which one is left.
-/

namespace Photonbar

universe u

namespace Elimination

variable {ι : Type u} [DecidableEq ι] (R : ι → ι → Prop) [DecidableRel R]

/-- The inner loop at `j`: it is removed if it is another element that `i` covers. -/
def test (i : ι) (S : Finset ι) (j : ι) : Finset ι :=
  if i ≠ j ∧ j ∈ S ∧ R i j then S.erase j else S

/-- The outer loop at `i`. -/
def pass (js : List ι) (S : Finset ι) (i : ι) : Finset ι :=
  if i ∈ S then js.foldl (test R i) S else S

/-- The loops. -/
def eliminate (is js : List ι) (S : Finset ι) : Finset ι := is.foldl (pass R js) S

/-- A set covers another one. -/
def Covers (T S : Finset ι) : Prop := ∀ k ∈ S, ∃ m ∈ T, R m k

variable {R} {is js : List ι} {S : Finset ι} {i j k : ι}

theorem mem_test : k ∈ test R i S j ↔ k ∈ S ∧ ¬ (i ≠ j ∧ k = j ∧ R i j) := by
  rw [test]
  by_cases h : i ≠ j ∧ j ∈ S ∧ R i j
  · rw [if_pos h, Finset.mem_erase, and_comm]
    exact and_congr_right fun _ => not_congr ⟨fun hk => ⟨h.1, hk, h.2.2⟩, fun hk => hk.2.1⟩
  · rw [if_neg h]
    refine ⟨fun hk => ⟨hk, ?_⟩, fun hk => hk.1⟩
    rintro ⟨hne, rfl, hR⟩
    exact h ⟨hne, hk, hR⟩

/-- The element of the outer loop stays. -/
theorem self_mem_test : i ∈ test R i S j ↔ i ∈ S := by
  rw [mem_test]
  exact and_iff_left fun h => h.1 h.2.1

theorem mem_foldl_test :
    k ∈ js.foldl (test R i) S ↔ k ∈ S ∧ ¬ (i ≠ k ∧ k ∈ js ∧ R i k) := by
  induction js generalizing S with
  | nil => exact (and_iff_left fun h => absurd h.2.1 List.not_mem_nil).symm
  | cons j js ih =>
    rw [List.foldl_cons, ih, mem_test, and_assoc, List.mem_cons]
    refine and_congr_right fun _ => ?_
    refine ⟨?_, ?_⟩
    · rintro ⟨hj, hjs⟩ ⟨hne, rfl | hmem, hR⟩
      · exact hj ⟨hne, rfl, hR⟩
      · exact hjs ⟨hne, hmem, hR⟩
    · intro h
      refine ⟨?_, ?_⟩
      · rintro ⟨hne, rfl, hR⟩
        exact h ⟨hne, .inl rfl, hR⟩
      · rintro ⟨hne, hmem, hR⟩
        exact h ⟨hne, .inr hmem, hR⟩

theorem mem_pass : k ∈ pass R js S i ↔ k ∈ S ∧ ¬ (i ∈ S ∧ i ≠ k ∧ k ∈ js ∧ R i k) := by
  rw [pass]
  by_cases h : i ∈ S
  · rw [if_pos h, mem_foldl_test]
    simp only [h, true_and]
  · rw [if_neg h]
    exact (and_iff_left fun hk => h hk.1).symm

theorem eliminate_subset : eliminate R is js S ⊆ S := by
  induction is generalizing S with
  | nil => exact fun _ hk => hk
  | cons i is ih => exact fun k hk => (mem_pass.mp (ih hk)).1

/-- **No element that is left covers another one**, of those that both loops go through. -/
theorem not_covers_of_mem_eliminate (hi : i ∈ is) (hj : j ∈ js) (hne : i ≠ j)
    (hi' : i ∈ eliminate R is js S) (hj' : j ∈ eliminate R is js S) : ¬ R i j := by
  induction is generalizing S with
  | nil => exact absurd hi List.not_mem_nil
  | cons m is ih =>
    rcases List.mem_cons.mp hi with rfl | hi
    · -- the pass of `i` itself: what it covers is removed
      have hi : i ∈ pass R js S i := eliminate_subset (S := pass R js S i) hi'
      have hj' : j ∈ pass R js S i := eliminate_subset (S := pass R js S i) hj'
      exact fun hR => (mem_pass.mp hj').2 ⟨(mem_pass.mp hi).1, hne, hj, hR⟩
    · exact ih hi hi' hj'

/-- One pass keeps everything covered: what is removed is covered by what removes it. -/
theorem covers_pass [Std.Refl R] : Covers R (pass R js S i) S := by
  intro k hk
  by_cases h : i ∈ S ∧ i ≠ k ∧ k ∈ js ∧ R i k
  · exact ⟨i, mem_pass.mpr ⟨h.1, fun h' => h'.2.1 rfl⟩, h.2.2.2⟩
  · exact ⟨k, mem_pass.mpr ⟨hk, h⟩, Std.Refl.refl k⟩

/-- **Everything is still covered.** -/
theorem covers_eliminate [Std.Refl R] [IsTrans ι R] : Covers R (eliminate R is js S) S := by
  induction is generalizing S with
  | nil => exact fun k hk => ⟨k, hk, Std.Refl.refl k⟩
  | cons i is ih =>
    intro k hk
    have hpass : Covers R (pass R js S i) S := covers_pass
    obtain ⟨m, hm, hmk⟩ := hpass k hk
    obtain ⟨m', hm', hm'm⟩ := ih m hm
    exact ⟨m', hm', IsTrans.trans _ _ _ hm'm hmk⟩

end Elimination

end Photonbar
