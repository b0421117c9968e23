import Photonbar.Layout
import Photonbar.Parse
import Mathlib.Logic.Relation

/-!
# Bars that the program can reach (`bar.h`)

A `Step` is one operation on a bar: an element is parsed, its colours are applied, or something is
measured or painted. `Reachable` are the bars that any sequence of them leads to from a new bar,
whose table of widths is empty. Elements are arguments of the steps, and any element may come with
any step.

`Reachable.kept` is the invariant: the table is coherent and the separator is the one that the
fonts give. It follows from `Step.later`, since every operation only learns widths. One pass of the
program is such a sequence (`parseModules_reaches`), so that what holds of all reachable bars holds
before and after every frame. Parsing a left side differs from parsing a right one only in where
the elements are put (`parseLeftElements_right`). The last section has a bar with one font, for
examples.
-/

namespace Photonbar

variable {H : Type}

/-- The element at another place. -/
def BarElement.Moved (e e' : BarElement H) : Prop := ∃ x, e' = { e with beginX := x }

namespace Bar

/-- One operation on a bar. -/
inductive Step (H : Type) (b : Bar) : Bar → Prop
  | parse {b' : Bar} (e e' : BarElement H) :
      b.parseElementContent e = .ok (b', e') → Step H b b'
  | colors (e : BarElement H) : Step H b (b.applyColors e)
  | margin {b' : Bar} {w : Int} :
      (b.selectDrawableFont 32).1.xftCharWidth 32 (b.selectDrawableFont 32).2 = .ok (b', w) →
      Step H b b'
  | element {b' : Bar} (e : BarElement H) (painting : Painting) :
      b.renderElement e = .ok (b', painting) → Step H b b'
  | separator {b' : Bar} {x stop : Int} {cells : List Cell} :
      b.renderSeparatorAt x = .ok (b', stop, cells) → Step H b b'
  | separatorWidth {b' : Bar} {w : Int} : b.separatorWidth 4 0 = .ok (b', w) → Step H b b'

/-- Any number of operations. -/
def Reaches (H : Type) : Bar → Bar → Prop := Relation.ReflTransGen (Step H)

/-- The bars that can occur: the constructor ends with `initSeparator`, with an empty table of
widths. -/
inductive Reachable (H : Type) : Bar → Prop
  | start {b₀ b : Bar} : (∀ slot < MAX_WIDTHS, b₀.xftChar slot = 0) →
      b₀.initSeparator = .ok b → Reachable H b
  | step {b b' : Bar} : Reachable H b → Step H b b' → Reachable H b'

/-- The invariant. -/
structure Kept (b : Bar) : Prop where
  coherent : b.Coherent
  separator : b.separator = b.sepChars

theorem Later.kept {n : Nat} {b b' : Bar} (h : Later n b b') (hb : b.Kept) : b'.Kept where
  coherent := h.coherent hb.coherent
  separator := by rw [h.separator, hb.separator, h.config]

/-- The margin is measured as anything else. -/
theorem margin_later {b b' : Bar} {w : Int}
    (h : (b.selectDrawableFont 32).1.xftCharWidth 32 (b.selectDrawableFont 32).2 = .ok (b', w)) :
    Later 1 b b' := by
  obtain ⟨i, hselect⟩ := b.selectDrawableFont_eq 32
  rw [hselect] at h
  have hsel : Later 0 b { b with offsetYIndex := i } := .of_eq rfl rfl rfl rfl
  exact hsel.trans (xftCharWidth_ok (b := { b with offsetYIndex := i })
    (fun f hf => (BarConfig.fontUsed_of_fontFor hf).symm) h).1

/-- **What an operation keeps.** -/
theorem Step.later {b b' : Bar} (h : Step H b b') (hb : b.Kept) : ∃ n, Later n b b' := by
  cases h with
  | parse e e' h => exact ⟨_, parseElementContent_later hb.coherent h⟩
  | colors e => exact ⟨_, applyColors_later b e⟩
  | margin h => exact ⟨_, margin_later h⟩
  | element e painting h => exact ⟨_, (renderElement_ok hb.coherent h).1⟩
  | separator h => exact ⟨_, (renderSeparatorAt_ok hb.coherent hb.separator h).1⟩
  | separatorWidth h => exact ⟨_, (separatorWidth_ok hb.coherent h).1⟩

/-- What any number of operations keeps. -/
theorem Reaches.later {b b' : Bar} (h : Reaches H b b') (hb : b.Kept) : ∃ n, Later n b b' := by
  induction h with
  | refl => exact ⟨0, .refl b⟩
  | tail _ hstep ih =>
    obtain ⟨m, hm⟩ := ih
    obtain ⟨n, hn⟩ := hstep.later (hm.kept hb)
    exact ⟨m + n, hm.trans hn⟩

/-- **Every bar that can occur keeps the invariant.** -/
theorem Reachable.kept {b : Bar} (h : Reachable H b) : b.Kept := by
  induction h with
  | start hempty hinit =>
    have hcoherent : Coherent _ := ProbeTable.Sound.of_empty hempty
    obtain ⟨hconfig, hb, hsep, -⟩ := initSeparator_ok hcoherent hinit
    exact ⟨hb, by rw [hsep, hconfig]⟩
  | step _ hstep ih =>
    obtain ⟨n, hn⟩ := hstep.later ih
    exact hn.kept ih

theorem Reachable.reaches {b b' : Bar} (hb : Reachable H b) (h : Reaches H b b') :
    Reachable H b' := by
  induction h with
  | refl => exact hb
  | tail _ hstep ih => exact .step ih hstep

/-! ## One pass of the program -/

theorem renderElements_reaches {b b' : Bar} {x y : Int} {es : List (BarElement H)}
    {rs : List (Rendered H)} (h : b.renderElements x es = .ok (b', y, rs)) : Reaches H b b' := by
  replace h := renderElements_eq_ok_iff.mp h
  induction h with
  | nil => exact .refl
  | cons hrender _ ih => exact .head (.element _ _ hrender) ih

theorem renderModules_reaches {b b' : Bar} {x y : Int} {modules : List (List (BarElement H))}
    {ms : List (RenderedModule H)} (h : b.renderModules x modules = .ok (b', y, ms)) :
    Reaches H b b' := by
  replace h := renderModules_eq_ok_iff.mp h
  induction h with
  | nil => exact .refl
  | last hrow => exact renderElements_reaches hrow
  | cons hrow hsep _ ih => exact (renderElements_reaches hrow).trans (.head (.separator hsep) ih)

theorem renderAllElements_reaches {b : Bar} {leftModules rightModules : List (List (BarElement H))}
    {f : Frame H} (h : b.renderAllElements leftModules rightModules = .ok f) :
    Reaches H b f.bar := by
  obtain ⟨b₁, margin, b₂, x, b₃, w, y, hmargin, hleft, hw, hright⟩ := renderAllElements_eq_ok h
  have hleft := renderModules_reaches hleft
  have hright := renderModules_reaches hright
  exact .head (.margin hmargin) (hleft.trans (.head (.separatorWidth hw) hright))

theorem parseRightElements_reaches (es : List (BarElement H)) :
    ∀ {b b' : Bar} {es' : List (BarElement H)},
      b.parseRightElements es = .ok (b', es') → Reaches H b b' := by
  induction es with
  | nil =>
    intro b b' es' h
    obtain ⟨rfl, -⟩ := Prod.mk.inj (Except.ok.inj h)
    exact .refl
  | cons e es ih =>
    intro b b' es' h
    obtain ⟨⟨b₁, e'⟩, hparse, h⟩ := bind_eq_ok_iff.mp h
    obtain ⟨⟨b₂, es''⟩, hrest, h⟩ := bind_eq_ok_iff.mp h
    obtain ⟨rfl, -⟩ := Prod.mk.inj (Except.ok.inj h)
    exact .head (.colors e) (.head (.parse e e' hparse) (ih hrest))

theorem parseRightModules_reaches (modules : List (List (BarElement H))) :
    ∀ {b b' : Bar} {modules' : List (List (BarElement H))},
      b.parseRightModules modules = .ok (b', modules') → Reaches H b b' := by
  induction modules with
  | nil =>
    intro b b' modules' h
    obtain ⟨rfl, -⟩ := Prod.mk.inj (Except.ok.inj h)
    exact .refl
  | cons es modules ih =>
    intro b b' modules' h
    obtain ⟨⟨b₁, es'⟩, hes, h⟩ := bind_eq_ok_iff.mp h
    obtain ⟨⟨b₂, rest⟩, hrest, h⟩ := bind_eq_ok_iff.mp h
    obtain ⟨rfl, -⟩ := Prod.mk.inj (Except.ok.inj h)
    exact (parseRightElements_reaches es hes).trans (ih hrest)

/-- What every parse does is done to every element. -/
theorem parseRightModules_forall₂ {R : BarElement H → BarElement H → Prop}
    (hR : ∀ {b b' : Bar} {e e' : BarElement H}, b.parseElementContent e = .ok (b', e') → R e e')
    (modules : List (List (BarElement H))) :
    ∀ {b b' : Bar} {modules' : List (List (BarElement H))},
      b.parseRightModules modules = .ok (b', modules') →
      List.Forall₂ (List.Forall₂ R) modules modules' := by
  have hmodule (es : List (BarElement H)) : ∀ {b b' : Bar} {es' : List (BarElement H)},
      b.parseRightElements es = .ok (b', es') → List.Forall₂ R es es' := by
    induction es with
    | nil =>
      intro b b' es' h
      obtain ⟨-, rfl⟩ := Prod.mk.inj (Except.ok.inj h)
      exact .nil
    | cons e es ih =>
      intro b b' es' h
      obtain ⟨⟨b₁, e'⟩, hparse, h⟩ := bind_eq_ok_iff.mp h
      obtain ⟨⟨b₂, es''⟩, hrest, h⟩ := bind_eq_ok_iff.mp h
      obtain ⟨-, rfl⟩ := Prod.mk.inj (Except.ok.inj h)
      exact .cons (hR hparse) (ih hrest)
  induction modules with
  | nil =>
    intro b b' modules' h
    obtain ⟨-, rfl⟩ := Prod.mk.inj (Except.ok.inj h)
    exact .nil
  | cons es modules ih =>
    intro b b' modules' h
    obtain ⟨⟨b₁, es'⟩, hes, h⟩ := bind_eq_ok_iff.mp h
    obtain ⟨⟨b₂, rest⟩, hrest, h⟩ := bind_eq_ok_iff.mp h
    obtain ⟨-, rfl⟩ := Prod.mk.inj (Except.ok.inj h)
    exact .cons (hmodule es hes) (ih hrest)

/-- The elements of a left module are parsed as those of a right one, and put in their places. -/
theorem parseLeftElements_right (es : List (BarElement H)) :
    ∀ {b b' : Bar} {x y : Int} {es' : List (BarElement H)},
      b.parseLeftElements x es = .ok (b', y, es') →
      ∃ es₁, b.parseRightElements es = .ok (b', es₁) ∧ List.Forall₂ BarElement.Moved es₁ es' := by
  induction es with
  | nil =>
    intro b b' x y es' h
    obtain ⟨rfl, -, rfl⟩ : b = b' ∧ x = y ∧ [] = es' := by simpa [parseLeftElements] using h
    exact ⟨[], rfl, .nil⟩
  | cons e es ih =>
    intro b b' x y es' h
    obtain ⟨⟨b₁, e₁⟩, hparse, h⟩ := bind_eq_ok_iff.mp h
    obtain ⟨⟨b₂, y', es''⟩, hrest, h⟩ := bind_eq_ok_iff.mp h
    obtain ⟨rfl, -, rfl⟩ : b₂ = b' ∧ y' = y ∧ _ :: es'' = es' := by
      simpa [pure, Except.pure] using h
    obtain ⟨es₁, hright, hmoved⟩ := ih hrest
    refine ⟨e₁ :: es₁, ?_, .cons ⟨_, rfl⟩ hmoved⟩
    exact bind_eq_ok_iff.mpr ⟨_, hparse, bind_eq_ok_iff.mpr ⟨_, hright, rfl⟩⟩

theorem parseLeftModules_right (modules : List (List (BarElement H))) :
    ∀ {b b' : Bar} {x : Int} {modules' : List (List (BarElement H))},
      b.parseLeftModules x modules = .ok (b', modules') →
      ∃ modules₁, b.parseRightModules modules = .ok (b', modules₁) ∧
        List.Forall₂ (List.Forall₂ BarElement.Moved) modules₁ modules' := by
  induction modules with
  | nil =>
    intro b b' x modules' h
    obtain ⟨rfl, rfl⟩ := Prod.mk.inj (Except.ok.inj h)
    exact ⟨[], rfl, .nil⟩
  | cons es modules ih =>
    intro b b' x modules' h
    obtain ⟨⟨b₁, y, es'⟩, hes, h⟩ := bind_eq_ok_iff.mp h
    obtain ⟨⟨b₂, rest⟩, hrest, h⟩ := bind_eq_ok_iff.mp h
    obtain ⟨rfl, rfl⟩ := Prod.mk.inj (Except.ok.inj h)
    obtain ⟨es₁, hes, hmoved⟩ := parseLeftElements_right es hes
    obtain ⟨modules₁, hrest, hmoved'⟩ := ih hrest
    refine ⟨es₁ :: modules₁, ?_, .cons hmoved hmoved'⟩
    exact bind_eq_ok_iff.mpr ⟨_, hes, bind_eq_ok_iff.mpr ⟨_, hrest, rfl⟩⟩

theorem parseLeftModules_reaches (modules : List (List (BarElement H))) {b b' : Bar} {x : Int}
    {modules' : List (List (BarElement H))}
    (h : b.parseLeftModules x modules = .ok (b', modules')) : Reaches H b b' := by
  obtain ⟨modules₁, hright, -⟩ := parseLeftModules_right modules h
  exact parseRightModules_reaches modules hright

/-- **A pass of the program** is a sequence of operations. -/
theorem parseModules_reaches {b : Bar} {leftModules rightModules : List (List (BarElement H))}
    {f : Frame H} (h : b.parseModules leftModules rightModules = .ok f) : Reaches H b f.bar := by
  obtain ⟨⟨b₁, left⟩, hleft, h⟩ := bind_eq_ok_iff.mp h
  obtain ⟨⟨b₂, right⟩, hright, h⟩ := bind_eq_ok_iff.mp h
  have hparse := (parseLeftModules_reaches _ hleft).trans (parseRightModules_reaches _ hright)
  exact hparse.trans (renderAllElements_reaches h)

end Bar

/-! ## Bars with one font -/

/-- A font of Xft that has printable ASCII and the separator, each character `w` wide. -/
def asciiFont (w : Int) : Font where
  width_lut := none
  xft_ft := some ⟨fun c => (32 ≤ c ∧ c < 127) ∨ c = 0x258F, fun _ => w, fun _ => w⟩
  descent := 4
  height := 16
  width := 0
  charMax := 0
  charMin := 0

/-- A bar with this font on a monitor of width `W`, before `initSeparator`. -/
def asciiSetup (w W : Int) : Bar where
  fontList := [asciiFont w]
  fontList_ne_nil := List.cons_ne_nil _ _
  offsetsY := fun _ => 0
  bh := 24
  bu := 1
  width := W
  window := 1
  defaultForegroundColor := ⟨0xffffffff⟩
  defaultBackgroundColor := ⟨0xff000000⟩
  defaultUnderlineColor := ⟨0xffffffff⟩
  foregroundColor := ⟨0xffffffff⟩
  backgroundColor := ⟨0xff000000⟩
  underlineColor := ⟨0xffffffff⟩
  gcDraw := ⟨0xffffffff⟩
  gcClear := ⟨0xff000000⟩
  gcAttr := ⟨0xffffffff⟩
  selFg := 0

/-- The bar that comes of it. -/
def asciiBar (w W : Int) : Bar :=
  match (asciiSetup w W).initSeparator with
  | .ok b => b
  | .error _ => asciiSetup w W

theorem asciiSetup_initSeparator (w W : Int) :
    (asciiSetup w W).initSeparator = .ok (asciiBar w W) := rfl

theorem asciiBar_reachable (w W : Int) : Bar.Reachable H (asciiBar w W) := by
  refine .start ?_ (asciiSetup_initSeparator w W)
  exact fun _ _ => rfl

/-- The table is empty but for the two characters of the separator. -/
theorem asciiBar_free (w W : Int) : 65534 ≤ (asciiBar w W).free := by
  have hempty : ∀ slot < MAX_WIDTHS, (asciiSetup w W).xftChar slot = 0 := fun _ _ => rfl
  obtain ⟨-, -, -, hfree⟩ := Bar.initSeparator_ok (ProbeTable.Sound.of_empty hempty)
    (asciiSetup_initSeparator w W)
  rw [Bar.free, ProbeTable.free_of_empty hempty] at hfree
  have hmax : MAX_WIDTHS = 65536 := rfl
  omega

/-- An element that holds a text. -/
def textElement (s : Bytes) : BarElement H := { BarElement.new.print s with dirtyContent := true }

end Photonbar
