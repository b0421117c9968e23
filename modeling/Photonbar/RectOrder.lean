import Mathlib.Data.Int.ConditionallyCompleteOrder
import Mathlib.Data.List.Pairwise
import Mathlib.Data.Set.Prod
import Mathlib.Order.CompletePartialOrder
import Mathlib.Order.ConditionallyCompleteLattice.Basic
import Mathlib.Order.Interval.Set.Basic
import Photonbar.Monitors
import Photonbar.Sorting

/-!
# The order of the monitors (`bar.h`)

`rectSortCb` puts monitors that do not overlap into one order if and only if none of them lies
further left than another one that is wholly above it: it takes such two for less than each other
(`consistent_iff`). Then the chain does not depend on the order of the outputs
(`chain_independent_iff`).

The comparator has two reasons to take one monitor for less than another: that it begins further
left, and that it is wholly above it. For two monitors that lie beside or above each other it
decides in the same way from both sides, except where each of them has one of the reasons
(`Crosses`, `opposite_iff`); and where no two cross, the decisions are transitive
(`rectSortCb_trans`). Monitors that do not overlap are always beside or above each other, since a
rectangle of positive size is an interval in each direction.
-/

namespace Photonbar

namespace Rect

/-- The pixels of a rectangle. -/
def area (r : Rect) : Set (Int × Int) := Set.Ico r.left r.right ×ˢ Set.Ico r.top r.bottom

/-- A rectangle lies further left than another one, which is wholly above it. -/
def Crosses (a b : Rect) : Prop := a.left < b.left ∧ b.bottom ≤ a.top

theorem left_lt_right {r : Rect} (h : 0 < r.width) : r.left < r.right := by
  have hpos : 0 < r.width.toNat := UInt16.lt_iff_toNat_lt.mp h
  rw [left, right]
  omega

theorem top_lt_bottom {r : Rect} (h : 0 < r.height) : r.top < r.bottom := by
  have hpos : 0 < r.height.toNat := UInt16.lt_iff_toNat_lt.mp h
  rw [top, bottom]
  omega

/-- Two rectangles lie beside or above each other. -/
def Apart (a b : Rect) : Prop :=
  a.right ≤ b.left ∨ b.right ≤ a.left ∨ a.bottom ≤ b.top ∨ b.bottom ≤ a.top

instance (a b : Rect) : Decidable (a.Apart b) := inferInstanceAs (Decidable (_ ∨ _ ∨ _ ∨ _))

theorem disjoint_of_apart {a b : Rect} (h : a.Apart b) : Disjoint a.area b.area := by
  rw [Set.disjoint_left]
  rintro ⟨x, y⟩ ⟨hx, hy⟩ ⟨hx', hy'⟩
  simp only [Set.mem_Ico] at hx hy hx' hy'
  rw [Apart] at h
  omega

theorem apart_of_disjoint {a b : Rect} (ha : 0 < a.width ∧ 0 < a.height)
    (hb : 0 < b.width ∧ 0 < b.height) (h : Disjoint a.area b.area) : a.Apart b := by
  rw [Apart]
  by_contra hover
  have hwidth := left_lt_right ha.1
  have hwidth' := left_lt_right hb.1
  have hheight := top_lt_bottom ha.2
  have hheight' := top_lt_bottom hb.2
  -- the upper left corner of what they have in common
  have hmem : (max a.left b.left, max a.top b.top) ∈ a.area ∩ b.area := by
    simp only [area, Set.mem_inter_iff, Set.mem_prod, Set.mem_Ico]
    omega
  rw [Set.disjoint_iff_inter_eq_empty.mp h] at hmem
  exact hmem

end Rect

/-- Monitors of positive size that do not overlap. -/
structure Monitors (rs : List Rect) : Prop where
  pos : ∀ r ∈ rs, 0 < r.width ∧ 0 < r.height
  disjoint : rs.Pairwise fun a b => Disjoint a.area b.area

namespace Monitors

variable {rs : List Rect} {a b : Rect}

instance : Std.Symm fun a b : Rect => Disjoint a.area b.area := ⟨fun _ _ hab => hab.symm⟩

theorem apart (h : Monitors rs) (ha : a ∈ rs) (hb : b ∈ rs) (hne : a ≠ b) : a.Apart b :=
  Rect.apart_of_disjoint (h.pos a ha) (h.pos b hb)
    (h.disjoint.forall ha hb hne)

theorem nodup (h : Monitors rs) : rs.Nodup := by
  refine h.disjoint.imp_of_mem fun {a b} ha hb hab heq => ?_
  subst heq
  have := Rect.left_lt_right (h.pos a ha).1
  have := Rect.top_lt_bottom (h.pos a ha).2
  rcases Rect.apart_of_disjoint (h.pos a ha) (h.pos a ha) hab with h | h | h | h
  all_goals omega

end Monitors

/-! ## The comparator -/

section

variable {a b c : Rect}

theorem rectSortCb_neg_iff : rectSortCb a b < 0 ↔ a.left < b.left ∨ a.bottom ≤ b.top := by
  rw [rectSortCb]
  split_ifs with hlt hgt
  · exact iff_of_true (by decide) hlt
  · exact iff_of_false (by decide) hlt
  · exact iff_of_false (by decide) hlt

/-- The comparator is never 0. -/
theorem rectSortCb_pos_iff : 0 < rectSortCb a b ↔ ¬ (a.left < b.left ∨ a.bottom ≤ b.top) := by
  rw [rectSortCb]
  split_ifs with hlt hgt
  · exact iff_of_false (by decide) (not_not.mpr hlt)
  · exact iff_of_true (by decide) hlt
  · omega

/-- **Two monitors beside or above each other** are told apart if and only if neither crosses the
other one. -/
theorem opposite_iff (ha : a.left < a.right ∧ a.top < a.bottom)
    (hb : b.left < b.right ∧ b.top < b.bottom)
    (hapart : a.Apart b) :
    Sorting.Opposite rectSortCb a b ↔ ¬ a.Crosses b ∧ ¬ b.Crosses a := by
  rw [Rect.Apart] at hapart
  unfold Sorting.Opposite Rect.Crosses
  rw [rectSortCb_neg_iff, rectSortCb_pos_iff, rectSortCb_neg_iff, rectSortCb_pos_iff]
  omega

/-- Where no monitor crosses another one, the comparator goes from left to right, and down. -/
theorem rectSortCb_trans (hb : b.top < b.bottom) (hab : ¬ b.Crosses a) (hbc : ¬ c.Crosses b)
    (h : rectSortCb a b < 0) (h' : rectSortCb b c < 0) : rectSortCb a c < 0 := by
  rw [rectSortCb_neg_iff] at h h' ⊢
  rw [Rect.Crosses] at hab hbc
  omega

end

namespace Monitors

variable {rs : List Rect}

/-- **The comparator is consistent** if and only if no monitor crosses another one. -/
theorem consistent_iff (h : Monitors rs) :
    Sorting.Consistent rectSortCb rs ↔ ∀ a ∈ rs, ∀ b ∈ rs, ¬ a.Crosses b := by
  have hsize (r : Rect) (hr : r ∈ rs) : r.left < r.right ∧ r.top < r.bottom :=
    ⟨Rect.left_lt_right (h.pos r hr).1, Rect.top_lt_bottom (h.pos r hr).2⟩
  have hself (r : Rect) : ¬ r.Crosses r := fun hr => lt_irrefl _ hr.1
  refine ⟨?_, ?_⟩
  · intro hcons a ha b hb
    by_cases hne : a = b
    · exact hne ▸ hself a
    · exact ((opposite_iff (hsize a ha) (hsize b hb) (h.apart ha hb hne)).mp
        (hcons.opposite a ha b hb hne)).1
  · intro hcross
    refine ⟨h.nodup, fun a ha b hb hne => ?_, fun a ha b hb c hc hab hbc _ _ => ?_⟩
    · exact (opposite_iff (hsize a ha) (hsize b hb) (h.apart ha hb hne)).mpr
        ⟨hcross a ha b hb, hcross b hb a ha⟩
    · exact rectSortCb_trans (hsize b hb).2 (hcross b hb a ha) (hcross c hc b hb) hab hbc

/-- **The comparator is what `qsort` requires, and the chain does not depend on the order of the
outputs**, if and only if no monitor lies further left than another one that is wholly above it. -/
theorem chain_independent_iff {qsort : QSort} (hsort : Sorting.Sorts qsort) (h : Monitors rs) :
    (Sorting.Consistent rectSortCb rs ∧ ∀ (s : BarSetup) (rs' : List Rect), rs'.Perm rs →
        s.monitorCreateChain qsort rs' = s.monitorCreateChain qsort rs) ↔
      ∀ a ∈ rs, ∀ b ∈ rs, ¬ a.Crosses b := by
  rw [← h.consistent_iff]
  refine and_iff_left_of_imp fun hcons s rs' hperm => ?_
  rw [BarSetup.monitorCreateChain, hsort.eq_of_perm hcons hperm]
  rfl

end Monitors

/-- A monitor, with one to the right of it that begins further down. -/
def sideBySide : List Rect := [⟨0, 0, 1920, 1080⟩, ⟨1920, 200, 1280, 1024⟩]

theorem sideBySide_monitors : Monitors sideBySide where
  pos := by decide
  disjoint := List.pairwise_pair.mpr (Rect.disjoint_of_apart (by decide))

theorem chain_independent_sideBySide :
    (Sorting.Consistent rectSortCb sideBySide ∧ ∀ (s : BarSetup) (rs' : List Rect),
        rs'.Perm sideBySide → s.monitorCreateChain Sorting.sortBy rs' =
          s.monitorCreateChain Sorting.sortBy sideBySide) ↔
      ∀ a ∈ sideBySide, ∀ b ∈ sideBySide, ¬ a.Crosses b :=
  sideBySide_monitors.chain_independent_iff Sorting.sorts_sortBy

/-- Two monitors that touch at a corner: the left one is below the right one. -/
def diagonal : List Rect := [⟨0, 1080, 1920, 1080⟩, ⟨1920, 0, 1920, 1080⟩]

/-- A bar that is as wide as each of them. -/
def onOneMonitor : BarSetup := { bw := 1920, bh := 20, fontHeight := 16 }

/-- Each of them is less than the other one, and the order of the outputs decides which of them has
the bar. -/
theorem diagonal_less_both_ways :
    Monitors diagonal ∧ rectSortCb ⟨0, 1080, 1920, 1080⟩ ⟨1920, 0, 1920, 1080⟩ = -1 ∧
      rectSortCb ⟨1920, 0, 1920, 1080⟩ ⟨0, 1080, 1920, 1080⟩ = -1 ∧
      ¬ Sorting.Consistent rectSortCb diagonal ∧
      (onOneMonitor.monitorCreateChain Sorting.sortBy diagonal).map BarSetup.windows =
        some [⟨0, 1080, 1920, 20⟩] ∧
      (onOneMonitor.monitorCreateChain Sorting.sortBy diagonal.reverse).map BarSetup.windows =
        some [⟨1920, 0, 1920, 20⟩] := by
  have hdiagonal : Monitors diagonal :=
    ⟨by decide, List.pairwise_pair.mpr (Rect.disjoint_of_apart (by decide))⟩
  have hsort : Sorting.sortBy rectSortCb diagonal = diagonal :=
    List.mergeSort_of_pairwise (by decide)
  have hsort' : Sorting.sortBy rectSortCb diagonal.reverse = diagonal.reverse :=
    List.mergeSort_of_pairwise (by decide)
  refine ⟨hdiagonal, by decide, by decide, fun hcons => ?_, ?_, ?_⟩
  · have hcross := hdiagonal.consistent_iff.mp hcons _ List.mem_cons_self _
      (List.mem_cons_of_mem _ List.mem_cons_self)
    exact hcross ⟨by decide, by decide⟩
  · rw [BarSetup.monitorCreateChain, hsort]
    decide
  · rw [BarSetup.monitorCreateChain, hsort']
    decide

end Photonbar
