import Photonbar.BarRuns
import Photonbar.FontFaults
import Mathlib.Algebra.Order.BigOperators.Group.List
import Mathlib.Data.Int.ConditionallyCompleteOrder
import Mathlib.Order.CompletePartialOrder
import Mathlib.Order.ConditionallyCompleteLattice.Basic
import Mathlib.Order.Interval.Set.Disjoint

/-!
# Frames that fit (`bar.h`)

On a monitor whose positions fit in 16 bits, with a left side that ends before the right one
starts, `renderAllElements` leaves an exact layout (`layout_of_fits`): both sides are placed as
computed, without a loss in `beginX`, and no two elements share a pixel.

The first section is about intervals in order, over any linear order. A list of things is spread
over `[x, y]` when every interval is within these bounds and each ends before any later one begins;
lists that are spread side by side are spread together (`Spread.append`), and the intervals of such
a list are disjoint (`Spread.pairwise_disjoint`). A row of elements is spread from its start to its
end (`Row.spread`), and so is a side (`Side.spread`), as long as no width is negative; and where
the end fits in 16 bits, nothing is lost on the way (`Row.exact`, `Side.exact`). A frame puts the
two sides together.
-/

namespace Photonbar

/-! ## Intervals in order -/

section

universe u v

variable {ι : Type u} {α : Type v} [LinearOrder α] {lo hi : ι → α} {x y x' y' : α}

/-- The intervals of a list follow each other between `x` and `y`. -/
structure Spread (lo hi : ι → α) (x y : α) (is : List ι) : Prop where
  within : ∀ i ∈ is, x ≤ lo i ∧ hi i ≤ y
  ordered : is.Pairwise fun i j => hi i ≤ lo j

theorem Spread.nil : Spread lo hi x y [] := ⟨nofun, .nil⟩

theorem Spread.cons {i : ι} {is : List ι} (hx : x ≤ lo i) (hi' : lo i ≤ hi i) (hy : hi i ≤ y)
    (h : Spread lo hi (hi i) y is) : Spread lo hi x y (i :: is) where
  within := by
    intro j hj
    rcases List.mem_cons.mp hj with rfl | hj
    · exact ⟨hx, hy⟩
    · obtain ⟨hlo, hhi⟩ := h.within j hj
      exact ⟨hx.trans (hi'.trans hlo), hhi⟩
  ordered := List.pairwise_cons.mpr ⟨fun j hj => (h.within j hj).1, h.ordered⟩

theorem Spread.mono {is : List ι} (h : Spread lo hi x y is) (hy : y ≤ y') : Spread lo hi x y' is :=
  ⟨fun i hi => ⟨(h.within i hi).1, (h.within i hi).2.trans hy⟩, h.ordered⟩

theorem Spread.append {is js : List ι} (h : Spread lo hi x y is) (h' : Spread lo hi x' y' js)
    (hx : x ≤ x') (hyx : y ≤ x') (hy : y ≤ y') : Spread lo hi x y' (is ++ js) where
  within := by
    intro i hi
    rcases List.mem_append.mp hi with hi | hi
    · exact ⟨(h.within i hi).1, (h.within i hi).2.trans hy⟩
    · exact ⟨hx.trans (h'.within i hi).1, (h'.within i hi).2⟩
  ordered := List.pairwise_append.mpr ⟨h.ordered, h'.ordered, fun i hi j hj =>
    ((h.within i hi).2.trans hyx).trans (h'.within j hj).1⟩

/-- The intervals have nothing in common. -/
theorem Spread.pairwise_disjoint {is : List ι} (h : Spread lo hi x y is) :
    is.Pairwise fun i j => Disjoint (Set.Ico (lo i) (hi i)) (Set.Ico (lo j) (hi j)) := by
  refine h.ordered.imp fun hij => ?_
  rw [Set.Ico_disjoint_Ico]
  exact (min_le_left _ _).trans (hij.trans (le_max_right _ _))

/-- The intervals are between the bounds. -/
theorem Spread.subset {is : List ι} (h : Spread lo hi x y is) {i : ι} (hi' : i ∈ is) :
    Set.Ico (lo i) (hi i) ⊆ Set.Ico x y :=
  Set.Ico_subset_Ico (h.within i hi').1 (h.within i hi').2

end

/-! ## The places of a frame -/

variable {H : Type}

/-- `[beginX, beginX + width)`. -/
def BarElement.interval (e : BarElement H) : Set Int :=
  Set.Ico (e.beginX.toNat : Int) (e.beginX.toNat + e.width.toNat)

namespace Frame

/-- The elements of a side, in the order in which they are painted. -/
def sideElements (ms : List (RenderedModule H)) : List (BarElement H) :=
  ms.flatMap fun m => m.elements.map (·.element)

/-- All elements, in the order in which they are painted. -/
def elements (f : Frame H) : List (BarElement H) := sideElements f.left ++ sideElements f.right

end Frame

/-- The glyphs of the separator are 0 to 127 wide. -/
def BarConfig.NarrowSeparator (cfg : BarConfig) : Prop :=
  ∀ c ∈ separatorText, ∀ xft, (cfg.fontUsed c).xft_ft = some xft →
    (0 ≤ xft.xOff c ∧ xft.xOff c ≤ 127) ∧ 0 ≤ xft.width c ∧ xft.width c ≤ 127

namespace BarConfig

variable {cfg : BarConfig}

/-- A width up to 127 survives the signed `char` that keeps it. -/
theorem measure_nonneg {xft : XftFont} {c : UInt32}
    (h : (0 ≤ xft.xOff c ∧ xft.xOff c ≤ 127) ∧ 0 ≤ xft.width c ∧ xft.width c ≤ 127) :
    0 ≤ (xft.measure c).toInt := by
  obtain ⟨⟨h₁, h₂⟩, h₃, h₄⟩ := h
  rw [XftFont.measure]
  split
  · rw [Int8.toInt_ofInt_of_le (by omega) (by omega)]
    exact h₁
  · rw [Int8.toInt_ofInt_of_le (by omega) (by omega)]
    exact h₃

theorem cellWidth_nonneg {c : UInt32} {w : Int} (hxft : cfg.AllXft) (hnarrow : cfg.NarrowSeparator)
    (hc : c ∈ separatorText) (hw : cfg.cellWidth c = some w) : 0 ≤ w := by
  obtain ⟨xft, hx⟩ := Option.isSome_iff_exists.mp (hxft.fontUsed c)
  rw [cellWidth, hx] at hw
  obtain rfl := Option.some.inj hw
  exact measure_nonneg (hnarrow c hc xft hx)

theorem margin_nonneg (hxft : cfg.AllXft) (hnarrow : cfg.NarrowSeparator) : 0 ≤ cfg.margin := by
  obtain ⟨w, hw⟩ := Option.isSome_iff_exists.mp (hxft.cellWidth 32)
  rw [margin, hw]
  exact cellWidth_nonneg hxft hnarrow (by decide) hw

theorem sepWidth_nonneg (hxft : cfg.AllXft) (hnarrow : cfg.NarrowSeparator) :
    0 ≤ cfg.sepWidth := by
  apply List.sum_nonneg
  intro w hw
  obtain ⟨c, hc, rfl⟩ := List.mem_map.mp hw
  rw [measured]
  split
  · exact le_refl 0
  · obtain ⟨w, hw⟩ := Option.isSome_iff_exists.mp (hxft.cellWidth c)
    rw [hw]
    exact cellWidth_nonneg hxft hnarrow hc hw

end BarConfig

/-! ## Positions that fit -/

variable {cfg : BarConfig} {x y : Int}

theorem elementsWidth_nonneg (es : List (BarElement H)) : 0 ≤ elementsWidth es := by
  apply List.sum_nonneg
  intro w hw
  obtain ⟨e, -, rfl⟩ := List.mem_map.mp hw
  exact Int.natCast_nonneg _

theorem sideWidth_nonneg (hsep : 0 ≤ cfg.sepWidth) (modules : List (List (BarElement H))) :
    0 ≤ sideWidth cfg modules := by
  refine Int.add_nonneg (List.sum_nonneg fun w hw => ?_)
    (Int.mul_nonneg (Int.natCast_nonneg _) hsep)
  obtain ⟨es, -, rfl⟩ := List.mem_map.mp hw
  exact elementsWidth_nonneg es

/-- A row between 0 and the 16-bit limit keeps its positions. -/
theorem Row.exact {es : List (BarElement H)} {rs : List (Rendered H)}
    (h : Row cfg wrap16 x es rs y) (hx : 0 ≤ x) (hy : y ≤ 65535) : Row cfg id x es rs y := by
  induction h with
  | nil x => exact .nil x
  | @cons x y e es r rs hpos hsame hlaid hrow ih =>
    have hstop := hrow.stop_eq
    have hrest := elementsWidth_nonneg es
    refine .cons ?_ hsame hlaid (ih (by omega) hy)
    rw [hpos, wrap16, id, Int.emod_eq_of_lt hx (by omega)]

/-- A side between 0 and the 16-bit limit keeps its positions. -/
theorem Side.exact {modules : List (List (BarElement H))} {ms : List (RenderedModule H)}
    (h : Side cfg wrap16 x modules ms y) (hsep : 0 ≤ cfg.sepWidth) (hx : 0 ≤ x)
    (hy : y ≤ 65535) : Side cfg id x modules ms y := by
  induction h with
  | nil x => exact .nil x
  | last hrow hnone => exact .last (hrow.exact hx hy) hnone
  | @cons x y es es' modules m ms s hrow hsome hstop hlaid hside ih =>
    have hwidth := elementsWidth_nonneg es
    have hrest := sideWidth_nonneg hsep (es' :: modules)
    have hstart := hrow.stop_eq
    have hend := hside.stop_eq
    exact .cons (hrow.exact hx (by omega)) hsome hstop hlaid (ih (by omega) hy)

/-- The elements of a row follow each other. -/
theorem Row.spread {es : List (BarElement H)} {rs : List (Rendered H)}
    (h : Row cfg id x es rs y) :
    Spread (fun e : BarElement H => (e.beginX.toNat : Int))
      (fun e => (e.beginX.toNat : Int) + e.width.toNat) x y (rs.map (·.element)) := by
  induction h with
  | nil x => exact .nil
  | @cons x y e es r rs hpos hsame _ hrow ih =>
    have hwidth : r.element.width = e.width := by rw [hsame]
    have hstop := hrow.stop_eq
    have hrest := elementsWidth_nonneg es
    have hpos : (r.element.beginX.toNat : Int) = x := hpos
    have hnext : (r.element.beginX.toNat : Int) + r.element.width.toNat = x + e.width.toNat := by
      rw [hpos, hwidth]
    refine .cons (le_of_eq hpos.symm) ?_ ?_ ?_
    · exact Int.le_add_of_nonneg_right (Int.natCast_nonneg _)
    · exact hnext.trans_le (by omega)
    · exact hnext ▸ ih

/-- The elements of a side follow each other. -/
theorem Side.spread {modules : List (List (BarElement H))} {ms : List (RenderedModule H)}
    (h : Side cfg id x modules ms y) (hsep : 0 ≤ cfg.sepWidth) :
    Spread (fun e : BarElement H => (e.beginX.toNat : Int))
      (fun e => (e.beginX.toNat : Int) + e.width.toNat) x y (Frame.sideElements ms) := by
  induction h with
  | nil x => exact .nil
  | last hrow _ =>
    rw [Frame.sideElements, List.flatMap_singleton]
    exact hrow.spread
  | @cons x y es es' modules m ms s hrow _ hstop _ hside ih =>
    have hwidth := elementsWidth_nonneg es
    have hrest := sideWidth_nonneg hsep (es' :: modules)
    have hstart := hrow.stop_eq
    have hend := hside.stop_eq
    rw [Frame.sideElements, List.flatMap_cons]
    exact hrow.spread.append ih (by omega) (by omega) (by omega)

/-! ## Frames -/

/-- What the frames have in common here: the fonts, the monitor and two sides that fit. -/
structure Fits (cfg : BarConfig) (leftModules rightModules : List (List (BarElement H))) :
    Prop where
  width_le : cfg.width ≤ 65535
  allXft : cfg.AllXft
  drawsSeparator : cfg.DrawsSeparator
  narrowSeparator : cfg.NarrowSeparator
  start_nonneg : 0 ≤ cfg.rightStart rightModules
  left_le : sideWidth cfg leftModules ≤ cfg.rightStart rightModules

/-- The sides of a frame that fits keep their positions, and its elements follow each other. -/
theorem Fits.sides {b : Bar} (hb : b.Kept) {leftModules rightModules : List (List (BarElement H))}
    (hfits : Fits b.toBarConfig leftModules rightModules) {f : Frame H}
    (hf : b.renderAllElements leftModules rightModules = .ok f) :
    Side b.toBarConfig id 0 leftModules f.left (sideWidth b.toBarConfig leftModules) ∧
      Side b.toBarConfig id (b.rightStart rightModules) rightModules f.right
        (b.width - b.margin) ∧
      Spread (fun e : BarElement H => (e.beginX.toNat : Int))
        (fun e => (e.beginX.toNat : Int) + e.width.toNat) 0 b.width f.elements := by
  obtain ⟨-, hleft, hright⟩ := Bar.renderAllElements_ok hb.coherent hb.separator hf
  have hsep := BarConfig.sepWidth_nonneg hfits.allXft hfits.narrowSeparator
  have hmargin := BarConfig.margin_nonneg hfits.allXft hfits.narrowSeparator
  have hwidth := sideWidth_nonneg hsep rightModules
  have hstop := hright.stop_eq
  have hW := hfits.width_le
  have hstart := hfits.start_nonneg
  have hfit := hfits.left_le
  have hleft := hleft.exact hsep (le_refl 0) (by omega)
  have hright := hright.exact hsep hstart (by omega)
  refine ⟨hleft, hright, ?_⟩
  have hspread := (hleft.spread hsep).append (hright.spread hsep) hstart hfit (by omega)
  exact hspread.mono (by omega)

/-- **The layout of a frame that fits.** On a monitor of width at most 65535, with fonts of
Xft that have the separator, let the left side end where the right one starts or before, and
let that start not be negative. Then a frame has both sides placed exactly, the left one from
0 and the right one up to the margin, and the elements share no pixel and are inside the
monitor. And there is a frame as long as the table of widths has room for what is drawn. -/
theorem layout_of_fits {b : Bar} (hb : Bar.Reachable H b)
    {leftModules rightModules : List (List (BarElement H))}
    (hfits : Fits b.toBarConfig leftModules rightModules) :
    (∀ f, b.renderAllElements leftModules rightModules = .ok f →
      Side b.toBarConfig id 0 leftModules f.left (sideWidth b.toBarConfig leftModules) ∧
      Side b.toBarConfig id (b.rightStart rightModules) rightModules f.right (b.width - b.margin) ∧
      f.elements.Pairwise (fun e e' => Disjoint e.interval e'.interval) ∧
      ∀ e ∈ f.elements, e.interval ⊆ Set.Ico 0 b.width) ∧
    (Bar.frameGlyphs leftModules rightModules ≤ b.free →
      ∃ f, b.renderAllElements leftModules rightModules = .ok f) := by
  have hkept := hb.kept
  refine ⟨fun f hf => ?_, Bar.renderAllElements_total leftModules rightModules hkept.coherent
    hfits.allXft hfits.drawsSeparator hkept.separator⟩
  obtain ⟨hleft, hright, hspread⟩ := hfits.sides hkept hf
  exact ⟨hleft, hright, hspread.pairwise_disjoint, fun e he => hspread.subset he⟩

theorem asciiBar_allXft (w W : Int) : (asciiBar w W).AllXft := by
  intro f hf
  obtain rfl : f = asciiFont w := List.mem_singleton.mp hf
  rfl

theorem asciiBar_drawsSeparator (w W : Int) : (asciiBar w W).DrawsSeparator := by
  intro c hc
  rcases List.mem_cons.mp hc with rfl | hc
  · rfl
  · obtain rfl := List.mem_singleton.mp hc
    rfl

theorem asciiBar_narrowSeparator {w : Int} (h₀ : 0 ≤ w) (h : w ≤ 127) (W : Int) :
    (asciiBar w W).NarrowSeparator := by
  intro c hc xft hxft
  have hfont : (asciiBar w W).fontUsed c = asciiFont w := by
    obtain ⟨f, hf⟩ := Option.isSome_iff_exists.mp (asciiBar_drawsSeparator w W c hc)
    rw [BarConfig.fontUsed_of_fontFor hf]
    exact List.mem_singleton.mp (List.mem_of_find?_eq_some hf)
  rw [hfont] at hxft
  obtain rfl := Option.some.inj hxft
  exact ⟨⟨h₀, h⟩, h₀, h⟩

/-- Three elements of width 20 on a monitor of width 100, with separators of width 20. -/
theorem layout_of_fits_three :
    let e : BarElement Unit := { BarElement.new with width := 20 }
    ∃ f, (asciiBar 10 100).renderAllElements [[e], [e]] [[e]] = .ok f ∧
      f.elements.Pairwise (fun e e' => Disjoint e.interval e'.interval) := by
  intro e
  have hfits : Fits (asciiBar 10 100).toBarConfig [[e], [e]] [[e]] :=
    ⟨by decide, asciiBar_allXft 10 100, asciiBar_drawsSeparator 10 100,
      asciiBar_narrowSeparator (by decide) (by decide) 100, by decide, by decide⟩
  obtain ⟨hlayout, htotal⟩ := layout_of_fits (asciiBar_reachable 10 100) hfits
  have hroom : Bar.frameGlyphs [[e], [e]] [[e]] ≤ (asciiBar 10 100).free :=
    le_trans (by decide) (asciiBar_free 10 100)
  obtain ⟨f, hf⟩ := htotal hroom
  exact ⟨f, hf, (hlayout f hf).2.2.1⟩

/-- A left side whose first module has no elements: its first element starts behind a
separator, at 20. -/
theorem first_element_behind_empty_module :
    let e : BarElement Unit := { BarElement.new with width := 20 }
    Bar.Reachable Unit (asciiBar 10 100) ∧ Fits (asciiBar 10 100).toBarConfig [[], [e]] [] ∧
    ((asciiBar 10 100).renderAllElements [[], [e]] []).map
      (fun f => (Frame.sideElements f.left).map (·.beginX)) = .ok [20] :=
  ⟨asciiBar_reachable 10 100,
    ⟨by decide, asciiBar_allXft 10 100, asciiBar_drawsSeparator 10 100,
      asciiBar_narrowSeparator (by decide) (by decide) 100, by decide, by decide⟩,
    by decide +kernel⟩

end Photonbar
