import Photonbar.Clicks
import Photonbar.FeedTwice

/-!
# What is underlined (`bar.h`)

`drawLines` underlines whatever is drawn while the attribute is set, and only `renderElement` sets
it or takes it back. A separator is drawn with what the element before it has left; and the offset
in front of an element is drawn with the attribute of the element. `underlines_iff` says in which
frames only the glyphs of underlined elements are underlined.

An `Underline` is a rectangle that is filled, and remembers the element whose glyph is over it, if
there is one. The underlines of a frame are read off what was rendered, so that the statement is
about all of them. `Clear` is a walk through the things that are painted, with the attribute as it
is left by each of them (`underlAfter`), and the loops of the frame are the same walk: each of them
is judged by the part of the list that it paints (`clear_append`).
-/

namespace Photonbar

variable {H : Type}

/-- A rectangle that `drawLines` fills at the bottom. -/
structure Underline (H : Type) where
  x : Int
  w : Int
  /-- the element whose glyph is over it, if there is one -/
  glyph : Option (BarElement H)

namespace Underline

/-- The part of `drawLines` for `ATTR_UNDERL`. -/
def drawn (attrs : Attrs) (x w : Int) (glyph : Option (BarElement H)) : List (Underline H) :=
  if attrs.underl then [⟨x, w, glyph⟩] else []

/-- It is under a glyph of an underlined element. -/
def Own (u : Underline H) : Prop := ∃ e, u.glyph = some e ∧ e.underline = true

end Underline

/-- The underlines of an element: of its offset, and of its characters. -/
def Rendered.underlines (r : Rendered H) : List (Underline H) :=
  (r.painting.shift.elim [] fun s => Underline.drawn s.attrs s.x s.w none) ++
    r.painting.cells.flatMap fun cell =>
      Underline.drawn cell.attrs cell.x cell.chWidth (some r.element)

/-- The underlines of a separator. -/
def Separator.underlines (s : Separator) : List (Underline H) :=
  s.cells.flatMap fun cell => Underline.drawn cell.attrs cell.x cell.chWidth none

/-- The underlines of a module and the separator behind it. -/
def RenderedModule.underlines (m : RenderedModule H) : List (Underline H) :=
  m.elements.flatMap Rendered.underlines ++ m.separator.elim [] Separator.underlines

/-- The underlines of a frame. -/
def Frame.underlines (f : Frame H) : List (Underline H) :=
  (f.left ++ f.right).flatMap RenderedModule.underlines

/-- Whether the attribute is set behind the things that are painted. -/
def underlAfter (underl : Bool) (ps : List (Option (BarElement H))) : Bool :=
  ps.foldl (fun underl p => p.elim underl (·.underline)) underl

/-- No separator comes while the attribute is set, and no underlined element has an offset. -/
def Clear : Bool → List (Option (BarElement H)) → Prop
  | _, [] => True
  | _, some e :: ps => (e.underline = true → e.offsetPixels ≤ 0) ∧ Clear e.underline ps
  | underl, none :: ps => underl = false ∧ Clear underl ps

theorem clear_append (ps : List (Option (BarElement H))) {qs : List (Option (BarElement H))} :
    ∀ {underl : Bool},
      Clear underl (ps ++ qs) ↔ Clear underl ps ∧ Clear (underlAfter underl ps) qs := by
  induction ps with
  | nil => exact (iff_of_eq (true_and _)).symm
  | cons p ps ih =>
    intro underl
    cases p with
    | some e => exact (and_congr_right fun _ => ih).trans and_assoc.symm
    | none => exact (and_congr_right fun _ => ih).trans and_assoc.symm

namespace Bar

variable {b b' : Bar} {x y : Int}

open Underline

theorem own_drawn_iff {attrs : Attrs} {x w : Int} {glyph : Option (BarElement H)} :
    (∀ u ∈ drawn attrs x w glyph, u.Own) ↔
      (attrs.underl = true → ∃ e, glyph = some e ∧ e.underline = true) := by
  rw [drawn]
  cases attrs.underl with
  | true => simp [Own]
  | false => simp

/-- The underlines of one element. -/
theorem renderElement_underlines {e : BarElement H} {painting : Painting}
    (h : b.renderElement e = .ok (b', painting)) :
    b'.attrs.underl = e.underline ∧
      ((∀ u ∈ Rendered.underlines ⟨e, painting⟩, u.Own) ↔
        (e.underline = true → e.offsetPixels ≤ 0)) := by
  have hattrs : (b.elementColors e).attrs = { overl := false, underl := e.underline } := by
    obtain ⟨_, _, _, _, _, heq⟩ := b.elementColors_eq e
    rw [heq]
  obtain ⟨hquiet, hdraws⟩ := renderElement_quiet h
  refine ⟨by rw [hquiet.attrs, hattrs], ?_⟩
  have hcells : ∀ u ∈ painting.cells.flatMap fun cell =>
      drawn cell.attrs cell.x cell.chWidth (some e), u.Own := by
    intro u hu
    obtain ⟨cell, hcell, hu⟩ := List.mem_flatMap.mp hu
    refine own_drawn_iff.mpr (fun hunderl => ?_) u hu
    rw [(hdraws cell hcell).attrs, hattrs] at hunderl
    exact ⟨e, rfl, hunderl⟩
  rw [Rendered.underlines, List.forall_mem_append, and_iff_left hcells]
  -- what is left is the offset
  rw [renderElement] at h
  split at h
  · next hoffset =>
    obtain ⟨⟨b₁, cells⟩, -, h⟩ := bind_eq_ok_iff.mp h
    obtain ⟨rfl, rfl⟩ := Prod.mk.inj (Except.ok.inj h)
    simp only [Option.elim_some, own_drawn_iff, drawShift, hattrs]
    refine ⟨?_, ?_⟩
    · intro howned hunderline
      obtain ⟨_, hnone, -⟩ := howned hunderline
      cases hnone
    · intro hle hunderline
      exact absurd (hle hunderline) (not_le.mpr hoffset)
  · next hoffset =>
    obtain ⟨⟨b₁, cells⟩, -, h⟩ := bind_eq_ok_iff.mp h
    obtain ⟨rfl, rfl⟩ := Prod.mk.inj (Except.ok.inj h)
    simp only [Option.elim_none, List.not_mem_nil, false_implies, implies_true, true_iff]
    exact fun _ => not_lt.mp hoffset

/-- The underlines of the elements of a module. -/
theorem renderElements_underlines {es : List (BarElement H)} {rs : List (Rendered H)}
    (h : b.renderElements x es = .ok (b', y, rs)) :
    b'.attrs.underl = underlAfter b.attrs.underl (es.map some) ∧
      ((∀ u ∈ rs.flatMap Rendered.underlines, u.Own) ↔ Clear b.attrs.underl (es.map some)) := by
  replace h := renderElements_eq_ok_iff.mp h
  induction h with
  | nil => exact ⟨rfl, iff_of_true nofun trivial⟩
  | cons hrender _ ih =>
    obtain ⟨hattrs, howned⟩ := renderElement_underlines hrender
    obtain ⟨hafter, hall⟩ := ih
    rw [hattrs] at hafter hall
    refine ⟨hafter, ?_⟩
    rw [List.flatMap_cons, List.forall_mem_append, howned, hall]
    rfl

/-- The underlines of a separator. -/
theorem renderSeparatorAt_underlines {cells : List Cell} (hsep : b.separator = b.sepChars)
    (h : b.renderSeparatorAt x = .ok (b', y, cells)) :
    b'.attrs = b.attrs ∧
      ((∀ u ∈ Separator.underlines (H := H) ⟨x, y, cells⟩, u.Own) ↔ b.attrs.underl = false) := by
  have hfirst := renderSeparatorAt_attrs hsep h
  rw [renderSeparatorAt_eq_separatorChars] at h
  obtain ⟨hquiet, hdraws⟩ := separatorChars_quiet _ h
  refine ⟨hquiet.attrs, ?_⟩
  refine ⟨?_, ?_⟩
  · intro howned
    cases cells with
    | nil => cases hfirst
    | cons cell cells =>
      by_contra hunderl
      have hcell : cell.attrs = b.attrs := Option.some.inj hfirst
      have hmem : (⟨cell.x, cell.chWidth, none⟩ : Underline H) ∈
          Separator.underlines ⟨x, y, cell :: cells⟩ := by
        refine List.mem_flatMap.mpr ⟨cell, List.mem_cons_self, ?_⟩
        rw [drawn, hcell, if_pos (by simpa using hunderl)]
        exact List.mem_singleton_self _
      obtain ⟨_, hnone, -⟩ := howned _ hmem
      cases hnone
  · intro hunderl u hu
    obtain ⟨cell, hcell, hu⟩ := List.mem_flatMap.mp hu
    rw [drawn, (hdraws cell hcell).attrs] at hu
    have hoff : b.separatorColors.attrs.underl = false := hunderl
    rw [hoff] at hu
    cases hu

theorem forall_flatMap_cons {m : RenderedModule H} {ms : List (RenderedModule H)} :
    (∀ u ∈ (m :: ms).flatMap RenderedModule.underlines, u.Own) ↔
      (∀ u ∈ m.elements.flatMap Rendered.underlines, u.Own) ∧
        (∀ u ∈ m.separator.elim [] Separator.underlines, Own (H := H) u) ∧
          ∀ u ∈ ms.flatMap RenderedModule.underlines, u.Own := by
  rw [List.flatMap_cons, List.forall_mem_append, RenderedModule.underlines, List.forall_mem_append,
    and_assoc]

/-- The underlines of a side. -/
theorem renderModules_underlines {modules : List (List (BarElement H))}
    {ms : List (RenderedModule H)} (hb : b.Kept) (h : b.renderModules x modules = .ok (b', y, ms)) :
    b'.attrs.underl = underlAfter b.attrs.underl (painted modules) ∧
      ((∀ u ∈ ms.flatMap RenderedModule.underlines, u.Own) ↔
        Clear b.attrs.underl (painted modules)) := by
  replace h := renderModules_eq_ok_iff.mp h
  induction h with
  | nil => exact ⟨rfl, iff_of_true (by simp) trivial⟩
  | last hrow =>
    obtain ⟨hafter, howned⟩ := renderElements_underlines hrow
    refine ⟨hafter, ?_⟩
    rw [forall_flatMap_cons, howned, painted]
    exact and_iff_left (by simp)
  | cons hrow hsepAt _ ih =>
    have hkept₁ := (renderElements_ok hb.coherent hrow).1.kept hb
    have hkept₂ := (renderSeparatorAt_ok hkept₁.coherent hkept₁.separator hsepAt).1.kept hkept₁
    obtain ⟨hafter₁, howned₁⟩ := renderElements_underlines hrow
    obtain ⟨hattrs₂, howned₂⟩ := renderSeparatorAt_underlines (H := H) hkept₁.separator hsepAt
    obtain ⟨hafter₃, howned₃⟩ := ih hkept₂
    rw [hattrs₂, hafter₁] at hafter₃ howned₃
    rw [hafter₁] at howned₂
    refine ⟨?_, ?_⟩
    · rw [hafter₃, painted, underlAfter, underlAfter, underlAfter, List.foldl_append]
      rfl
    · rw [forall_flatMap_cons, howned₁, howned₃, painted, clear_append]
      exact and_congr_right fun _ => and_congr_left fun _ => howned₂

/-- **Only glyphs of underlined elements are underlined** in a frame if and only if no separator
comes while the attribute is set, and no underlined element has an offset. The attribute that
counts for a separator is that of the element before it, and for one that comes first that of the
frame before. No other condition is needed, since the separator has two characters, and `drawShift`
paints exactly the offsets above 0. -/
theorem underlines_iff (hb : Reachable H b) {L R : List (List (BarElement H))} {f : Frame H}
    (h : b.renderAllElements L R = .ok f) :
    (∀ u ∈ f.underlines, u.Own) ↔ Clear b.attrs.underl (painted L ++ painted R) := by
  have hkept := hb.kept
  obtain ⟨b₁, margin, b₂, x, b₃, w, y, hmargin, hleft, hw, hright⟩ := renderAllElements_eq_ok h
  have hattrs₁ := ((b.selectDrawableFont_quiet 32).trans (xftCharWidth_learns hmargin).quiet).attrs
  have hkept₁ := (margin_later hmargin).kept hkept
  have hkept₂ := (renderModules_ok hkept₁.coherent hkept₁.separator hleft).1.kept hkept₁
  have hattrs₃ := (separatorWidth_quiet 4 hw).attrs
  have hkept₃ := (separatorWidth_ok hkept₂.coherent hw).1.kept hkept₂
  obtain ⟨hafter, hownedL⟩ := renderModules_underlines hkept₁ hleft
  obtain ⟨-, hownedR⟩ := renderModules_underlines hkept₃ hright
  rw [hattrs₁] at hafter hownedL
  rw [hattrs₃, hafter] at hownedR
  rw [Frame.underlines, List.flatMap_append, List.forall_mem_append, hownedL, hownedR, clear_append]

end Bar

/-- The letter `A`, underlined. -/
def underlinedLetter : BarElement Unit := { letterElement () with underline := true }

/-- The separator behind an underlined letter is underlined too: both of its characters. -/
theorem underlined_separator :
    ∃ f, (asciiBar 10 100).renderAllElements [[underlinedLetter], [letterElement ()]] [] = .ok f ∧
      ¬ ∀ u ∈ f.underlines, u.Own := by
  have hrun : ((asciiBar 10 100).renderAllElements [[underlinedLetter], [letterElement ()]] []).map
      (fun f => f.underlines.map fun u => (u.x, u.w, u.glyph.isSome)) =
      .ok [(0, 10, true), (10, 10, false), (20, 10, false)] := by
    decide +kernel
  cases hf : (asciiBar 10 100).renderAllElements [[underlinedLetter], [letterElement ()]] [] with
  | error fault => rw [hf] at hrun; cases hrun
  | ok f =>
    rw [hf] at hrun
    refine ⟨f, rfl, fun howned => ?_⟩
    have hall : f.underlines.map (fun u => (u.x, u.w, u.glyph.isSome)) =
        [(0, 10, true), (10, 10, false), (20, 10, false)] := Except.ok.inj hrun
    have hmem : ((10, 10, false) : Int × Int × Bool) ∈
        f.underlines.map fun u => (u.x, u.w, u.glyph.isSome) := by
      rw [hall]
      exact List.mem_cons_of_mem _ List.mem_cons_self
    obtain ⟨u, hu, heq⟩ := List.mem_map.mp hmem
    obtain ⟨e, he, -⟩ := howned u hu
    simp [he] at heq

/-- Where it comes last, only the letter is. -/
theorem underlined_last :
    ∃ f, (asciiBar 10 100).renderAllElements [[letterElement ()], [underlinedLetter]] [] = .ok f ∧
      ∀ u ∈ f.underlines, u.Own := by
  have hrun : ((asciiBar 10 100).renderAllElements
      [[letterElement ()], [underlinedLetter]] []).isOk = true := by
    decide +kernel
  cases hf : (asciiBar 10 100).renderAllElements [[letterElement ()], [underlinedLetter]] [] with
  | error fault => rw [hf] at hrun; cases hrun
  | ok f =>
    refine ⟨f, rfl, (Bar.underlines_iff (asciiBar_reachable 10 100) hf).mpr ?_⟩
    exact ⟨nofun, rfl, fun _ => le_refl _, trivial⟩

end Photonbar
