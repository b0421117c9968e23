import Photonbar.ButtonPress
import Photonbar.FrameLayout

/-!
# Clicks and what they hit (`bar.h`)

Painting lets the last element win, `processXEvents` the first. `PressOk` says that a press
nevertheless runs what is seen under the pointer, and `pressOk_iff_clickableAt` for which frames it
always does: at every pixel no earlier element that has handlers claims what a later one has
painted over. Both the click intervals and the painted cells come from the widths alone
(`BarConfig.placement`, `BarConfig.Paints`), so that the condition can be checked before anything
is painted.

A frame is connected to its placement first: the elements of the frame are those of the placement
(`elements_eq`), and what is painted over a pixel is what the widths say (`paintedAt_iff`). Then
one press is looked at (`pressOk_iff_topmost`): the topmost element must claim the pixel if it has
a handler, and no earlier one with a handler may. The condition on a frame is this for all presses,
with the buttons gone. Frames that fit meet it, as far as their elements are as wide as their
characters (`clickableAt_of_fits`).
-/

namespace Photonbar

variable {H : Type}

/-! ## Where elements are placed and painted -/

/-- The elements of a module, placed from `x` on. -/
def placeElements : Int → List (BarElement H) → List (BarElement H)
  | _, [] => []
  | x, e :: es => { e with beginX := UInt16.ofInt x } :: placeElements (x + e.width.toNat) es

/-- The elements of a side, placed from `x` on. -/
def placeModules (sepWidth : Int) : Int → List (List (BarElement H)) → List (BarElement H)
  | _, [] => []
  | x, es :: modules =>
    placeElements x es ++ placeModules sepWidth (x + elementsWidth es + sepWidth) modules

namespace BarConfig

variable (cfg : BarConfig)

/-- All elements of a frame, placed. -/
def placement (leftModules rightModules : List (List (BarElement H))) : List (BarElement H) :=
  placeModules cfg.sepWidth 0 leftModules ++
    placeModules cfg.sepWidth (cfg.rightStart rightModules) rightModules

/-- The cells of characters, from `x` on: where each starts and how wide it is. -/
def rects : Int → List (UInt32 × Int) → List (Int × Int)
  | _, [] => []
  | x, (c, w) :: cs => (x, (cfg.cellWidth c).getD 0) :: rects (x + w) cs

/-- A cell of the element is painted over the pixel. -/
def Paints (e : BarElement H) (px : Int) : Prop :=
  ∃ rect ∈ cfg.rects (Bar.textStart e) e.glyphs, Covers rect px

end BarConfig

/-- The element has a handler for some button. -/
def BarElement.HasHandler (e : BarElement H) : Prop := ∃ detail, (e.handler detail).isSome

/-- At this pixel clicking agrees with painting: the element that is painted there last claims
it, if it has handlers, and no earlier element with handlers does. -/
def BarConfig.ClickableAt (cfg : BarConfig) (es : List (BarElement H)) (px : Int) : Prop :=
  ∀ (t : Nat) e, es[t]? = some e → cfg.Paints e px →
    (∀ (j : Nat) e', t < j → es[j]? = some e' → ¬ cfg.Paints e' px) →
    (e.HasHandler → px ∈ e.interval) ∧
      ∀ (j : Nat) e', j < t → es[j]? = some e' → e'.HasHandler → px ∉ e'.interval

/-! ## What a press does to a frame -/

namespace Frame

/-- Everything that is rendered, in this order. -/
def rendered (f : Frame H) : List (Rendered H) := (f.left ++ f.right).flatMap (·.elements)

/-- The modules as `processXEvents` finds them: `parseLeftModules` and `parseRightModules`
have set their window. -/
def modules (f : Frame H) : List (BarModule H) :=
  (f.left ++ f.right).map fun m => ⟨f.bar.window, m.elements.map (·.element)⟩

/-- A cell of element `i` was painted over the pixel. -/
def PaintedAt (f : Frame H) (px : Int) (i : Nat) : Prop :=
  ∃ r, f.rendered[i]? = some r ∧ ∃ cell ∈ r.painting.cells, Covers (cell.x, cell.chWidth) px

/-- Element `i` is the last one that was painted there. -/
def Topmost (f : Frame H) (px : Int) (i : Nat) : Prop :=
  f.PaintedAt px i ∧ ∀ j, i < j → ¬ f.PaintedAt px j

/-- Something was painted there after element `i`. -/
def Hidden (f : Frame H) (px : Int) (i : Nat) : Prop := ∃ j, i < j ∧ f.PaintedAt px j

/-- The handler of element `i` for a button. -/
def handler (f : Frame H) (i detail : Nat) : Option H :=
  f.rendered[i]?.bind fun r => r.element.handler detail

/-- What is promised of a press: one handler at most, that of the topmost element if it has
one, and otherwise none of an element that is hidden there. -/
structure PressOk (f : Frame H) (press_ev : ButtonPress) : Prop where
  one : (processButtonPress f.modules press_ev).length ≤ 1
  topmost : ∀ t handler, f.Topmost press_ev.event_x.toInt t →
    f.handler t press_ev.detail = some handler →
    processButtonPress f.modules press_ev = [(t, handler)]
  hidden : (¬ ∃ t, f.Topmost press_ev.event_x.toInt t ∧ (f.handler t press_ev.detail).isSome) →
    ∀ q ∈ processButtonPress f.modules press_ev, ¬ f.Hidden press_ev.event_x.toInt q.1

end Frame

/-! ## A frame and its placement -/

variable {cfg : BarConfig} {x y : Int}

theorem Laid.rects_eq {cs : List (UInt32 × Int)} {cells : List Cell} (h : Laid cfg x cs cells) :
    cells.map (fun cell => (cell.x, cell.chWidth)) = cfg.rects x cs := by
  induction h with
  | nil x => rfl
  | cons hx _ hwidth _ ih => rw [List.map_cons, BarConfig.rects, ih, hx, hwidth, Option.getD_some]

theorem Row.elements_eq {es : List (BarElement H)} {rs : List (Rendered H)}
    (h : Row cfg wrap16 x es rs y) : rs.map (·.element) = placeElements x es := by
  induction h with
  | nil x => rfl
  | @cons x y e es r rs hpos hsame _ _ ih =>
    have hbegin : r.element.beginX = UInt16.ofInt x := by
      rw [← UInt16.toNat_inj, UInt16.ofInt, UInt16.toNat_ofNat']
      rw [wrap16] at hpos
      omega
    rw [List.map_cons, placeElements, ih, hsame, hbegin]

theorem Row.painted {keep : Int → Int} {es : List (BarElement H)} {rs : List (Rendered H)}
    (h : Row cfg keep x es rs y) :
    ∀ r ∈ rs, Laid cfg (Bar.textStart r.element) r.element.glyphs r.painting.cells := by
  induction h with
  | nil x => exact fun _ hr => (List.not_mem_nil hr).elim
  | cons _ _ hlaid _ ih => exact List.forall_mem_cons.mpr ⟨hlaid, ih⟩

theorem Side.elements_eq {modules : List (List (BarElement H))} {ms : List (RenderedModule H)}
    (h : Side cfg wrap16 x modules ms y) :
    Frame.sideElements ms = placeModules cfg.sepWidth x modules := by
  induction h with
  | nil x => rfl
  | last hrow _ =>
    rw [Frame.sideElements, List.flatMap_singleton, hrow.elements_eq, placeModules, placeModules,
      List.append_nil]
  | cons hrow _ hstop _ _ ih =>
    rw [Frame.sideElements] at ih ⊢
    rw [List.flatMap_cons, hrow.elements_eq, ih, hstop, hrow.stop_eq]
    rfl

theorem Side.painted {keep : Int → Int} {modules : List (List (BarElement H))}
    {ms : List (RenderedModule H)} (h : Side cfg keep x modules ms y) :
    ∀ r ∈ ms.flatMap (·.elements),
      Laid cfg (Bar.textStart r.element) r.element.glyphs r.painting.cells := by
  induction h with
  | nil x => exact fun _ hr => (List.not_mem_nil hr).elim
  | last hrow _ =>
    rw [List.flatMap_singleton]
    exact hrow.painted
  | cons hrow _ _ _ _ ih =>
    rw [List.flatMap_cons]
    intro r hr
    exact (List.mem_append.mp hr).elim (hrow.painted r) (ih r)

namespace Frame

variable {b : Bar} {leftModules rightModules : List (List (BarElement H))} {f : Frame H}

theorem map_rendered (f : Frame H) : f.rendered.map (·.element) = f.elements := by
  rw [rendered, elements, sideElements, sideElements, List.map_flatMap, List.flatMap_append]

/-- The elements of a frame are the given ones, placed. -/
theorem elements_eq (hb : b.Kept) (hf : b.renderAllElements leftModules rightModules = .ok f) :
    f.elements = b.placement leftModules rightModules := by
  obtain ⟨-, hleft, hright⟩ := Bar.renderAllElements_ok hb.coherent hb.separator hf
  rw [elements, hleft.elements_eq, hright.elements_eq, BarConfig.placement]

/-- What is painted of a frame is what the fonts say. -/
theorem paintedAt_iff (hb : b.Kept) (hf : b.renderAllElements leftModules rightModules = .ok f)
    {px : Int} {i : Nat} :
    f.PaintedAt px i ↔
      ∃ e, (b.placement leftModules rightModules)[i]? = some e ∧ b.Paints e px := by
  rw [← elements_eq hb hf, ← map_rendered]
  obtain ⟨-, hleft, hright⟩ := Bar.renderAllElements_ok hb.coherent hb.separator hf
  have hlaid : ∀ r ∈ f.rendered,
      Laid b.toBarConfig (Bar.textStart r.element) r.element.glyphs r.painting.cells := by
    rw [rendered, List.flatMap_append]
    intro r hr
    exact (List.mem_append.mp hr).elim (hleft.painted r) (hright.painted r)
  have hpaints : ∀ r ∈ f.rendered, b.Paints r.element px ↔
      ∃ cell ∈ r.painting.cells, Covers (cell.x, cell.chWidth) px := by
    intro r hr
    rw [BarConfig.Paints, ← (hlaid r hr).rects_eq]
    simp only [List.mem_map, exists_exists_and_eq_and]
  rw [PaintedAt, List.getElem?_map]
  refine ⟨?_, ?_⟩
  · rintro ⟨r, hr, hcell⟩
    exact ⟨r.element, by rw [hr]; rfl, (hpaints r (List.mem_of_getElem? hr)).mpr hcell⟩
  · rintro ⟨e, he, hpaint⟩
    obtain ⟨r, hr, rfl⟩ := Option.map_eq_some_iff.mp he
    exact ⟨r, hr, (hpaints r (List.mem_of_getElem? hr)).mp hpaint⟩

theorem handler_eq (f : Frame H) (i detail : Nat) :
    f.handler i detail = f.elements[i]?.bind fun e => e.handler detail := by
  rw [handler, ← map_rendered, List.getElem?_map, Option.bind_map]
  rfl

/-- What the elements answer to a press. -/
theorem answers_eq (f : Frame H) (press_ev : ButtonPress) :
    answers press_ev f.modules = f.elements.map (BarElement.answer f.bar.window press_ev) := by
  rw [← map_rendered, rendered, List.map_map, List.map_flatMap, answers, modules,
    List.flatMap_map]
  simp only [List.map_map]

end Frame

/-- An element answers a press in its window at a pixel that it claims. -/
theorem answer_eq_some_iff {window : Nat} {press_ev : ButtonPress} (h : press_ev.event = window)
    {e : BarElement H} {handler : H} :
    e.answer window press_ev = some handler ↔
      press_ev.event_x.toInt ∈ e.interval ∧ e.handler press_ev.detail = some handler := by
  rw [BarElement.answer]
  have hhit : e.hit window press_ev = true ↔ press_ev.event_x.toInt ∈ e.interval := by
    rw [BarElement.hit, h]
    simp only [true_and, decide_eq_true_eq]
    rfl
  rw [← hhit]
  exact Option.ite_none_right_eq_some

/-! ## One press -/

/-- Of finitely many there is a last one, not before a given one. -/
theorem exists_last {P : Nat → Prop} {n : Nat} (hP : ∀ i, P i → i < n) {i : Nat} (hi : P i) :
    ∃ t, i ≤ t ∧ P t ∧ ∀ j, t < j → ¬ P j := by
  by_cases hlater : ∃ j, i < j ∧ P j
  · obtain ⟨j, hij, hj⟩ := hlater
    obtain ⟨t, hjt, ht, hlast⟩ := exists_last hP hj
    exact ⟨t, by omega, ht, hlast⟩
  · push Not at hlater
    exact ⟨i, le_refl i, hi, hlater⟩
termination_by n - i
decreasing_by
  have hlt := hP j hj
  omega

namespace Frame

variable {f : Frame H} {press_ev : ButtonPress}

theorem Topmost.unique {px : Int} {t t' : Nat} (h : f.Topmost px t) (h' : f.Topmost px t') :
    t = t' := by
  rcases Nat.lt_trichotomy t t' with hlt | heq | hlt
  · exact absurd h'.1 (h.2 t' hlt)
  · exact heq
  · exact absurd h.1 (h'.2 t hlt)

/-- What is painted over has a topmost element above it. -/
theorem Hidden.exists_topmost {px : Int} {i : Nat} (h : f.Hidden px i) :
    ∃ t, i < t ∧ f.Topmost px t := by
  obtain ⟨j, hij, hj⟩ := h
  have hlength : ∀ k, f.PaintedAt px k → k < f.rendered.length := by
    rintro k ⟨r, hr, -⟩
    exact (List.getElem?_eq_some_iff.mp hr).1
  obtain ⟨t, hjt, ht, hlast⟩ := exists_last hlength hj
  exact ⟨t, by omega, ht, hlast⟩

/-- What a press runs: the handler of the first element that claims the pixel and has one. -/
theorem mem_processButtonPress_iff (h : press_ev.event = f.bar.window) {k : Nat} {handler : H} :
    (k, handler) ∈ processButtonPress f.modules press_ev ↔
      (∃ e, f.elements[k]? = some e ∧ press_ev.event_x.toInt ∈ e.interval ∧
        e.handler press_ev.detail = some handler) ∧
      ∀ j < k, ∀ e, f.elements[j]? = some e → (e.handler press_ev.detail).isSome →
        press_ev.event_x.toInt ∉ e.interval := by
  rw [processButtonPress_eq, answers_eq, mem_first_iff]
  simp only [Nat.zero_add, List.getElem?_map]
  refine ⟨?_, ?_⟩
  · rintro ⟨j, rfl, hk, hbefore⟩
    obtain ⟨e, he, hanswer⟩ := Option.map_eq_some_iff.mp hk
    refine ⟨⟨e, he, (answer_eq_some_iff h).mp hanswer⟩, fun j hj e' he' hhandler hpx => ?_⟩
    obtain ⟨handler', hhandler'⟩ := Option.isSome_iff_exists.mp hhandler
    have hnone := hbefore j hj
    rw [he', Option.map_some, (answer_eq_some_iff h).mpr ⟨hpx, hhandler'⟩] at hnone
    cases hnone
  · rintro ⟨⟨e, he, hanswer⟩, hbefore⟩
    refine ⟨k, rfl, by rw [he, Option.map_some, (answer_eq_some_iff h).mpr hanswer], ?_⟩
    intro j hj
    -- there is an element `j`, as there is one behind it
    have hlt := (List.getElem?_eq_some_iff.mp he).1
    have hj' := List.getElem?_eq_getElem (Nat.lt_trans hj hlt)
    rw [hj', Option.map_some, Option.some.injEq, Option.eq_none_iff_forall_ne_some]
    intro handler' hanswer'
    obtain ⟨hpx, hhandler'⟩ := (answer_eq_some_iff h).mp hanswer'
    exact hbefore j hj _ hj' (by rw [hhandler']; rfl) hpx

/-- **One press**: it runs what it should when the topmost element claims the pixel, if it has
a handler for the button, and no earlier element with one does. -/
theorem pressOk_iff_topmost (h : press_ev.event = f.bar.window) :
    f.PressOk press_ev ↔ ∀ t, f.Topmost press_ev.event_x.toInt t → ∀ e, f.elements[t]? = some e →
      ((e.handler press_ev.detail).isSome → press_ev.event_x.toInt ∈ e.interval) ∧
      ∀ j < t, ∀ e', f.elements[j]? = some e' → (e'.handler press_ev.detail).isSome →
        press_ev.event_x.toInt ∉ e'.interval := by
  refine ⟨?_, ?_⟩
  · intro hok t htop e he
    cases hhandler : e.handler press_ev.detail with
    | some handler =>
      have hrun := hok.topmost t handler htop (by rw [handler_eq, he]; exact hhandler)
      have hmem : (t, handler) ∈ processButtonPress f.modules press_ev := by
        rw [hrun]
        exact List.mem_singleton_self _
      obtain ⟨⟨e', he', hpx, -⟩, hbefore⟩ := (mem_processButtonPress_iff h).mp hmem
      obtain rfl := Option.some.inj (he.symm.trans he')
      exact ⟨fun _ => hpx, hbefore⟩
    | none =>
      refine ⟨nofun, fun j hj e' he' hsome hpx => ?_⟩
      -- the press would run something that is hidden
      have hnone : ¬ ∃ t, f.Topmost press_ev.event_x.toInt t ∧
          (f.handler t press_ev.detail).isSome := by
        rintro ⟨t', htop', hsome'⟩
        obtain rfl := htop'.unique htop
        rw [handler_eq, he, Option.bind_some, hhandler] at hsome'
        cases hsome'
      obtain ⟨handler', hhandler'⟩ := Option.isSome_iff_exists.mp hsome
      have hanswer : (answers press_ev f.modules)[j]? = some (some handler') := by
        rw [answers_eq, List.getElem?_map, he', Option.map_some,
          (answer_eq_some_iff h).mpr ⟨hpx, hhandler'⟩]
      obtain ⟨q, hq, hle⟩ := exists_mem_first (i := 0) _ hanswer
      rw [← processButtonPress_eq] at hq
      exact hok.hidden hnone q hq ⟨t, by omega, htop.1⟩
  · intro hcond
    have hone : (processButtonPress f.modules press_ev).length ≤ 1 := by
      rw [processButtonPress_eq]
      exact first_length_le _ 0
    refine ⟨hone, fun t handler htop hhandler => ?_, fun hnone q hq hhidden => ?_⟩
    · rw [handler_eq] at hhandler
      obtain ⟨e, he, hhandler⟩ := Option.bind_eq_some_iff.mp hhandler
      obtain ⟨hpx, hbefore⟩ := hcond t htop e he
      have hmem := (mem_processButtonPress_iff h).mpr
        ⟨⟨e, he, hpx (by rw [hhandler]; rfl), hhandler⟩, hbefore⟩
      obtain ⟨q, hq⟩ := List.length_eq_one_iff.mp
        (Nat.le_antisymm hone (List.length_pos_of_mem hmem))
      rw [hq] at hmem ⊢
      rw [List.mem_singleton.mp hmem]
    · obtain ⟨k, handler⟩ := q
      obtain ⟨⟨e, he, hpx, hhandler⟩, -⟩ := (mem_processButtonPress_iff h).mp hq
      obtain ⟨t, hkt, htop⟩ := hhidden.exists_topmost
      obtain ⟨r, hr, -⟩ := htop.1
      have het : f.elements[t]? = some r.element := by
        rw [← map_rendered, List.getElem?_map, hr, Option.map_some]
      exact (hcond t htop r.element het).2 k hkt e he (by rw [hhandler]; rfl) hpx

end Frame

/-! ## All presses -/

/-- The topmost element, from the placement. -/
theorem topmost_iff {b : Bar} (hb : b.Kept) {leftModules rightModules : List (List (BarElement H))}
    {f : Frame H} (hf : b.renderAllElements leftModules rightModules = .ok f) {px : Int} {t : Nat}
    {e : BarElement H} (he : (b.placement leftModules rightModules)[t]? = some e) :
    f.Topmost px t ↔ b.Paints e px ∧ ∀ (j : Nat) e', t < j →
      (b.placement leftModules rightModules)[j]? = some e' → ¬ b.Paints e' px := by
  rw [Frame.Topmost, Frame.paintedAt_iff hb hf]
  refine ⟨?_, ?_⟩
  · rintro ⟨⟨e', he', hpaint⟩, hlast⟩
    obtain rfl := Option.some.inj (he.symm.trans he')
    refine ⟨hpaint, fun j e' hj he' hpaint' => hlast j hj ?_⟩
    exact (Frame.paintedAt_iff hb hf).mpr ⟨e', he', hpaint'⟩
  · rintro ⟨hpaint, hlast⟩
    refine ⟨⟨e, he, hpaint⟩, fun j hj hpainted => ?_⟩
    obtain ⟨e', he', hpaint'⟩ := (Frame.paintedAt_iff hb hf).mp hpainted
    exact hlast j e' hj he' hpaint'

/-- **Presses run what is seen** in a frame exactly when at every pixel of the window that a press
can name clicking agrees with painting. A press names a pixel in 16 bits, and painting reaches a
pixel through 16 bits too; what is claimed is `beginX` and the width, as numbers. -/
theorem pressOk_iff_clickableAt {b : Bar} (hb : Bar.Reachable H b)
    {leftModules rightModules : List (List (BarElement H))} {f : Frame H}
    (hf : b.renderAllElements leftModules rightModules = .ok f) :
    (∀ press_ev : ButtonPress, press_ev.event = b.window → 0 ≤ press_ev.event_x.toInt →
      press_ev.event_x.toInt < b.width → f.PressOk press_ev) ↔
    ∀ x : Int16, 0 ≤ x.toInt → x.toInt < b.width →
      b.ClickableAt (b.placement leftModules rightModules) x.toInt := by
  have hkept := hb.kept
  have hwindow : f.bar.window = b.window := by
    rw [(Bar.renderAllElements_ok hkept.coherent hkept.separator hf).1.config]
  have helements := Frame.elements_eq hkept hf
  refine ⟨?_, ?_⟩
  · intro hpress x h₀ hx t e he hpaint hlast
    have htop := (topmost_iff hkept hf he).mpr ⟨hpaint, hlast⟩
    have hclick : ∀ detail, ((e.handler detail).isSome → x.toInt ∈ e.interval) ∧
        ∀ j < t, ∀ e', f.elements[j]? = some e' → (e'.handler detail).isSome →
          x.toInt ∉ e'.interval := by
      intro detail
      have hok := hpress ⟨b.window, detail, x⟩ rfl h₀ hx
      rw [Frame.pressOk_iff_topmost hwindow.symm] at hok
      exact hok t htop e (helements ▸ he)
    refine ⟨fun ⟨detail, hsome⟩ => (hclick detail).1 hsome, ?_⟩
    rintro j e' hj he' ⟨detail, hsome⟩
    exact (hclick detail).2 j hj e' (helements ▸ he') hsome
  · intro hclick press_ev hevent h₀ hx
    rw [Frame.pressOk_iff_topmost (hevent.trans hwindow.symm), helements]
    intro t htop e he
    obtain ⟨hpaint, hlast⟩ := (topmost_iff hkept hf he).mp htop
    obtain ⟨hown, hearlier⟩ := hclick press_ev.event_x h₀ hx t e he hpaint hlast
    exact ⟨fun hsome => hown ⟨_, hsome⟩,
      fun j hj e' he' hsome => hearlier j e' hj he' ⟨_, hsome⟩⟩

/-! ## Frames that fit -/

/-- The characters of an element are as wide as recorded, from its start on, and fill its
place. -/
structure Measured (cfg : BarConfig) (e : BarElement H) : Prop where
  widths : ∀ p ∈ e.glyphs, cfg.cellWidth p.1 = some p.2
  sum : (e.glyphs.map Prod.snd).sum = e.width.toNat
  offset : e.offsetPixels ≤ 0

/-- The cells of characters that are as wide as their distances lie side by side. -/
theorem covers_of_rects {cs : List (UInt32 × Int)}
    (hwidths : ∀ p ∈ cs, cfg.cellWidth p.1 = some p.2) (hpos : ∀ p ∈ cs, 0 ≤ p.2) {px : Int} :
    ∀ {x : Int}, 0 ≤ x → x + (cs.map Prod.snd).sum ≤ 32767 →
      (∃ rect ∈ cfg.rects x cs, Covers rect px) → px ∈ Set.Ico x (x + (cs.map Prod.snd).sum) := by
  induction cs with
  | nil => rintro x - - ⟨rect, hrect, -⟩; cases hrect
  | cons p cs ih =>
    obtain ⟨c, w⟩ := p
    obtain ⟨hw, hwidths⟩ := List.forall_mem_cons.mp hwidths
    obtain ⟨hw₀, hpos⟩ := List.forall_mem_cons.mp hpos
    intro x hx hle hcover
    have hw₀ : 0 ≤ w := hw₀
    have hw : cfg.cellWidth c = some w := hw
    have hsum : 0 ≤ (cs.map Prod.snd).sum := List.sum_nonneg fun w' hw' => by
      obtain ⟨p, hp, rfl⟩ := List.mem_map.mp hw'
      exact hpos p hp
    rw [List.map_cons, List.sum_cons] at hle ⊢
    rw [BarConfig.rects, hw, Option.getD_some] at hcover
    obtain ⟨rect, hrect, hcovers⟩ := hcover
    rcases List.mem_cons.mp hrect with rfl | hrect
    · obtain ⟨hlo, hhi⟩ := hcovers
      have hbmod : x.bmod 65536 = x := Int.bmod_eq_of_le (by omega) (by omega)
      rw [hbmod] at hlo hhi
      rw [Int.emod_eq_of_lt hw₀ (by omega)] at hhi
      exact ⟨hlo, by omega⟩
    · obtain ⟨hlo, hhi⟩ := ih hwidths hpos (x := x + w) (by omega) (by omega) ⟨rect, hrect, hcovers⟩
      exact ⟨by omega, by omega⟩

/-- Such an element is painted only where it claims pixels. -/
theorem Measured.mem_interval {e : BarElement H} (h : Measured cfg e)
    (hle : (e.beginX.toNat : Int) + e.width.toNat ≤ 32767) {px : Int} (hpaint : cfg.Paints e px) :
    px ∈ e.interval := by
  have hpos : ∀ p ∈ e.glyphs, 0 ≤ p.2 := by
    rw [BarElement.glyphs, List.forall_mem_map]
    exact fun p _ => Int.natCast_nonneg _
  have hstart : Bar.textStart e = e.beginX.toNat := by
    rw [Bar.textStart, max_eq_right h.offset, Int.add_zero]
  rw [BarConfig.Paints, hstart] at hpaint
  have hcover := covers_of_rects h.widths hpos (Int.natCast_nonneg _) (by rw [h.sum]; exact hle)
    hpaint
  rwa [h.sum] at hcover

/-- Where elements follow each other and are painted only where they claim pixels, clicking
agrees with painting. -/
theorem clickableAt_of_ordered {es : List (BarElement H)}
    (hordered : es.Pairwise fun e e' =>
      (e.beginX.toNat : Int) + e.width.toNat ≤ e'.beginX.toNat)
    {px : Int} (hpaint : ∀ e ∈ es, cfg.Paints e px → px ∈ e.interval) :
    cfg.ClickableAt es px := by
  intro t e he hpainted _
  have hpx := hpaint e (List.mem_of_getElem? he) hpainted
  refine ⟨fun _ => hpx, fun j e' hj he' _ hpx' => ?_⟩
  obtain ⟨ht, rfl⟩ := List.getElem?_eq_some_iff.mp he
  obtain ⟨hj', rfl⟩ := List.getElem?_eq_some_iff.mp he'
  have hle := List.pairwise_iff_getElem.mp hordered j t hj' ht hj
  have hlo := hpx.1
  have hhi := hpx'.2
  omega

/-- In a frame that fits, of elements that are as wide as recorded, clicking agrees with
painting everywhere. -/
theorem clickableAt_of_fits {b : Bar} (hb : b.Kept)
    {leftModules rightModules : List (List (BarElement H))}
    (hfits : Fits b.toBarConfig leftModules rightModules) (hW : b.width ≤ 32767) {f : Frame H}
    (hf : b.renderAllElements leftModules rightModules = .ok f)
    (hmeasured : ∀ e ∈ b.placement leftModules rightModules, Measured b.toBarConfig e)
    (px : Int) : b.ClickableAt (b.placement leftModules rightModules) px := by
  obtain ⟨-, -, hspread⟩ := hfits.sides hb hf
  rw [Frame.elements_eq hb hf] at hspread
  refine clickableAt_of_ordered hspread.ordered fun e he hpaint => ?_
  exact (hmeasured e he).mem_interval ((hspread.within e he).2.trans hW) hpaint

/-- An element that shows `A`, with a handler for the left button. -/
def letterElement (handler : H) : BarElement H :=
  { (BarElement.new : BarElement H) with
    ucsContent := (Vector.replicate CONTENT_MAX_LEN 0).setIfInBounds 0 65
    ucsContentCharWidths := (Vector.replicate CONTENT_MAX_LEN 0).setIfInBounds 0 10
    ucsContentLen := 1
    width := 10
    events := fun type => if type = .CLICK_LEFT then some handler else none }

theorem letterElement_measured (handler : H) (x : UInt16) (W : Int) :
    Measured (asciiBar 10 W).toBarConfig { letterElement handler with beginX := x } := by
  have hunit : BarElement.glyphs (letterElement ()) = [(65, 10)] := by decide +kernel
  have hglyphs : BarElement.glyphs { letterElement handler with beginX := x } = [(65, 10)] := hunit
  refine ⟨?_, by rw [hglyphs]; rfl, le_refl 0⟩
  rw [hglyphs]
  intro p hp
  obtain rfl := List.mem_singleton.mp hp
  rfl

/-- Two elements that fit on a monitor of width 100. -/
theorem pressOk_two_letters :
    ∃ f, (asciiBar 10 100).renderAllElements [[letterElement "left"]] [[letterElement "right"]] =
      .ok f ∧
    ∀ press_ev : ButtonPress, press_ev.event = 1 → 0 ≤ press_ev.event_x.toInt →
      press_ev.event_x.toInt < 100 → f.PressOk press_ev := by
  have hb := asciiBar_reachable (H := String) 10 100
  have hfits : Fits (asciiBar 10 100).toBarConfig [[letterElement "left"]]
      [[letterElement "right"]] :=
    ⟨by decide, asciiBar_allXft 10 100, asciiBar_drawsSeparator 10 100,
      asciiBar_narrowSeparator (by decide) (by decide) 100, by decide, by decide⟩
  obtain ⟨f, hf⟩ := Bar.renderAllElements_total [[letterElement "left"]] [[letterElement "right"]]
    hb.kept.coherent hfits.allXft hfits.drawsSeparator hb.kept.separator
    (le_trans (by decide +kernel) (asciiBar_free 10 100))
  refine ⟨f, hf, (pressOk_iff_clickableAt hb hf).mpr fun x _ _ => ?_⟩
  refine clickableAt_of_fits hb.kept hfits (by decide) hf ?_ _
  intro e he
  rcases List.mem_cons.mp he with rfl | he
  · exact letterElement_measured _ _ 100
  · obtain rfl := List.mem_singleton.mp he
    exact letterElement_measured _ _ 100

/-- Two elements on a monitor of width 25: the right one is painted from 5 to 15, over the left
one, but a press at 7 runs the handler of the left one. -/
theorem press_runs_hidden_handler :
    ∃ f, (asciiBar 10 25).renderAllElements [[letterElement "left"]] [[letterElement "right"]] =
      .ok f ∧ Bar.Reachable String (asciiBar 10 25) ∧
      processButtonPress f.modules ⟨1, 1, 7⟩ = [(0, "left")] ∧ f.Topmost 7 1 ∧
      f.handler 1 1 = some "right" ∧ ¬ f.PressOk ⟨1, 1, 7⟩ := by
  have hrun : ((asciiBar 10 25).renderAllElements [[letterElement "left"]]
      [[letterElement "right"]]).map (fun f => (processButtonPress f.modules ⟨1, 1, 7⟩,
        f.rendered.map fun r => (r.painting.cells.map fun cell => (cell.x, cell.chWidth),
          r.element.handler 1))) =
      .ok ([(0, "left")], [([(0, 10)], some "left"), ([(5, 10)], some "right")]) := by
    decide +kernel
  cases hf : (asciiBar 10 25).renderAllElements [[letterElement "left"]]
      [[letterElement "right"]] with
  | error fault => rw [hf] at hrun; cases hrun
  | ok f =>
    rw [hf] at hrun
    obtain ⟨hpress, hrendered⟩ := Prod.mk.inj (Except.ok.inj hrun)
    obtain ⟨r₀, rs, hrs, hr₀, hrest⟩ := List.map_eq_cons_iff.mp hrendered
    obtain ⟨r₁, rs', rfl, hr₁, hnil⟩ := List.map_eq_cons_iff.mp hrest
    obtain rfl := List.map_eq_nil_iff.mp hnil
    obtain ⟨hcells, hhandler⟩ := Prod.mk.inj hr₁
    obtain ⟨cell, cells, hcell, hat, -⟩ := List.map_eq_cons_iff.mp hcells
    have hcovers : Covers (cell.x, cell.chWidth) 7 := by
      rw [hat]
      exact ⟨by decide, by decide⟩
    have htop : f.Topmost 7 1 := by
      refine ⟨⟨r₁, by rw [hrs]; rfl, cell, by rw [hcell]; exact List.mem_cons_self, hcovers⟩, ?_⟩
      rintro j hj ⟨r, hr, -⟩
      have hlt := (List.getElem?_eq_some_iff.mp hr).1
      rw [hrs, List.length_cons, List.length_cons, List.length_nil] at hlt
      omega
    have hright : f.handler 1 1 = some "right" := by
      rw [Frame.handler, hrs]
      exact hhandler
    refine ⟨f, rfl, asciiBar_reachable 10 25, hpress, htop, hright, fun hok => ?_⟩
    have hruns := hok.topmost 1 "right" htop hright
    rw [hpress] at hruns
    exact absurd hruns (by decide)

end Photonbar
