import Photonbar.BarRuns

/-!
# Colours and graphics contexts (`bar.h`)

The colours that X and Xft draw with are updated lazily: the colour variables are changed in
several places, and `updateGc` writes them to the contexts only where something seemed to change.
`InSync` is the invariant that makes this right: outside of these places the contexts hold the
variables, whatever the dirty flag says. All other operations are `Quiet`: they change nothing but
the table of widths and the font that was noted last, and go through whole loops as such.

`Step.inSync` is the invariant for every operation. With it `renderElement` sets the colours of its
element whatever was drawn before (`elementColors_shows`): where it finds the variables as it wants
them, and leaves the contexts alone, these hold the right colours already. What is drawn after that
is drawn with what the contexts hold (`Draws`), and so every cell of a frame has the colours of its
element (`drawn_in_own_colours`).
-/

namespace Photonbar

variable {H : Type}

/-- A bar as the constructor and `init` leave it, before `initSeparator`: the contexts and
`selFg` are created from the default colours. -/
def BarConfig.newBar (cfg : BarConfig) : Bar where
  toBarConfig := cfg
  foregroundColor := cfg.defaultForegroundColor
  backgroundColor := cfg.defaultBackgroundColor
  underlineColor := cfg.defaultUnderlineColor
  gcDraw := cfg.defaultForegroundColor
  gcClear := cfg.defaultBackgroundColor
  gcAttr := cfg.defaultUnderlineColor
  selFg := cfg.defaultForegroundColor.v &&& 0x00ffffff

namespace BarElement

/-- The colour of the text of an element. -/
def foreground (cfg : BarConfig) (e : BarElement H) : Color :=
  if e.foregroundColor ≠ .unset then e.foregroundColor else cfg.defaultForegroundColor

/-- The colour behind it. -/
def background (cfg : BarConfig) (e : BarElement H) : Color :=
  if e.backgroundColor ≠ .unset then e.backgroundColor else cfg.defaultBackgroundColor

/-- The colour of its underline. -/
def underlined (cfg : BarConfig) (e : BarElement H) : Color :=
  if e.underline ∧ e.underlineColor ≠ .unset then e.underlineColor
  else cfg.defaultUnderlineColor

end BarElement

namespace Bar

variable {b b' b'' : Bar} {x y : Int}

/-! ## Operations that leave the colours -/

/-- `b'` is `b` but for the table of widths and the font that was noted last. -/
def Quiet (b b' : Bar) : Prop :=
  ∃ xftChar xftWidth i, b' = { b with xftChar, xftWidth, offsetYIndex := i }

theorem Quiet.refl (b : Bar) : Quiet b b := ⟨_, _, _, rfl⟩

theorem Quiet.trans (h : Quiet b b') (h' : Quiet b' b'') : Quiet b b'' := by
  obtain ⟨_, _, _, rfl⟩ := h
  obtain ⟨_, _, _, rfl⟩ := h'
  exact ⟨_, _, _, rfl⟩

/-- `b'` is `b` but for the table of widths. -/
def Learns (b b' : Bar) : Prop := ∃ xftChar xftWidth, b' = { b with xftChar, xftWidth }

theorem Learns.refl (b : Bar) : Learns b b := ⟨_, _, rfl⟩

theorem Learns.quiet (h : Learns b b') : Quiet b b' := by
  obtain ⟨_, _, rfl⟩ := h
  exact ⟨_, _, _, rfl⟩

theorem selectDrawableFont_quiet (b : Bar) (c : UInt32) : Quiet b (b.selectDrawableFont c).1 := by
  obtain ⟨i, hselect⟩ := b.selectDrawableFont_eq c
  rw [hselect]
  exact ⟨_, _, _, rfl⟩

theorem xftCharWidth_learns {c : UInt32} {font : Option Font} {w : Int}
    (h : b.xftCharWidth c font = .ok (b', w)) : Learns b b' := by
  obtain ⟨slot, -, ⟨-, f, xft, -, -, -, rfl⟩ | ⟨-, rfl, -⟩⟩ := xftCharWidth_cases h
  · exact ⟨_, _, rfl⟩
  · exact .refl b'

theorem getUtf8CharWidth_learns {c : UInt32} {font : Option Font} {w : Int}
    (h : b.getUtf8CharWidth c font = .ok (b', w)) : Learns b b' := by
  cases font with
  | none =>
    obtain ⟨rfl, -⟩ := Prod.mk.inj (Except.ok.inj h)
    exact .refl b
  | some f =>
    simp only [getUtf8CharWidth] at h
    split at h
    · exact xftCharWidth_learns h
    · split at h
      · split at h <;>
        · obtain ⟨rfl, -⟩ := Prod.mk.inj (Except.ok.inj h)
          exact .refl b
      · obtain ⟨rfl, -⟩ := Prod.mk.inj (Except.ok.inj h)
        exact .refl b

theorem drawWidth_learns {f : Font} {c : UInt32} {w : Int} (h : b.drawWidth f c = .ok (b', w)) :
    Learns b b' := by
  rw [drawWidth] at h
  split at h
  · exact xftCharWidth_learns h
  · split at h
    · obtain ⟨w', -, h⟩ := bind_eq_ok_iff.mp h
      obtain ⟨rfl, -⟩ := Prod.mk.inj (Except.ok.inj h)
      exact .refl b
    · obtain ⟨rfl, -⟩ := Prod.mk.inj (Except.ok.inj h)
      exact .refl b

/-- A cell that is drawn with what the contexts of `b` hold. -/
structure Draws (b : Bar) (cell : Cell) : Prop where
  gcDraw : cell.gcDraw = b.gcDraw
  gcClear : cell.gcClear = b.gcClear
  gcAttr : cell.gcAttr = b.gcAttr
  selFg : cell.selFg = b.selFg
  attrs : cell.attrs = b.attrs

theorem Quiet.draws {cell : Cell} (h : Quiet b b') (hcell : b'.Draws cell) : b.Draws cell := by
  obtain ⟨_, _, _, rfl⟩ := h
  exact ⟨hcell.gcDraw, hcell.gcClear, hcell.gcAttr, hcell.selFg, hcell.attrs⟩

theorem drawChar_learns {f : Font} {c : UInt32} {cell : Cell}
    (h : b.drawChar f x c = .ok (b', cell)) : Learns b b' ∧ b.Draws cell := by
  obtain ⟨⟨b₁, w⟩, hw, h⟩ := bind_eq_ok_iff.mp h
  obtain ⟨rfl, rfl⟩ := Prod.mk.inj (Except.ok.inj h)
  have hlearns := drawWidth_learns hw
  exact ⟨hlearns, hlearns.quiet.draws ⟨rfl, rfl, rfl, rfl, rfl⟩⟩

theorem renderChars_quiet (cs : List (UInt32 × UInt8)) :
    ∀ {b b' : Bar} {x : Int} {cells : List Cell}, b.renderChars x cs = .ok (b', cells) →
      Quiet b b' ∧ ∀ cell ∈ cells, b.Draws cell := by
  induction cs with
  | nil =>
    intro b b' x cells h
    obtain ⟨rfl, rfl⟩ := Prod.mk.inj (Except.ok.inj h)
    exact ⟨.refl b, fun _ hc => (List.not_mem_nil hc).elim⟩
  | cons p cs ih =>
    intro b b' x cells h
    obtain ⟨i, hselect⟩ := b.selectDrawableFont_eq p.1
    rw [renderChars, hselect] at h
    obtain ⟨⟨b₁, cell⟩, hcell, h⟩ := bind_eq_ok_iff.mp h
    obtain ⟨⟨b₂, cells'⟩, hcells, h⟩ := bind_eq_ok_iff.mp h
    obtain ⟨rfl, rfl⟩ := Prod.mk.inj (Except.ok.inj h)
    have hnoted : Quiet b { b with offsetYIndex := i } := ⟨_, _, _, rfl⟩
    obtain ⟨hlearns, hdraws⟩ := drawChar_learns hcell
    obtain ⟨hrest, hall⟩ := ih hcells
    have hquiet := hnoted.trans hlearns.quiet
    refine ⟨hquiet.trans hrest, ?_⟩
    rintro c (_ | ⟨_, hc⟩)
    · exact hnoted.draws hdraws
    · exact hquiet.draws (hall c hc)

theorem separatorChars_quiet (seps : List SeparatorChar) :
    ∀ {b b' : Bar} {x stop : Int} {cells : List Cell},
      b.separatorChars x seps = .ok (b', stop, cells) →
      Quiet b b' ∧ ∀ cell ∈ cells, b.Draws cell := by
  induction seps with
  | nil =>
    intro b b' x stop cells h
    obtain ⟨rfl, -, rfl⟩ : b = b' ∧ x = stop ∧ [] = cells := by simpa [separatorChars] using h
    exact ⟨.refl b, fun _ hc => (List.not_mem_nil hc).elim⟩
  | cons sep seps ih =>
    intro b b' x stop cells h
    rw [separatorChars] at h
    cases hfont : sep.font with
    | none => rw [hfont] at h; cases h
    | some f =>
      simp only [hfont] at h
      obtain ⟨⟨b₁, cell⟩, hcell, h⟩ := bind_eq_ok_iff.mp h
      obtain ⟨⟨b₂, stop', cells'⟩, hcells, h⟩ := bind_eq_ok_iff.mp h
      obtain ⟨rfl, -, rfl⟩ : b₂ = b' ∧ stop' = stop ∧ cell :: cells' = cells := by
        simpa [pure, Except.pure] using h
      obtain ⟨hlearns, hdraws⟩ := drawChar_learns hcell
      obtain ⟨hrest, hall⟩ := ih hcells
      refine ⟨hlearns.quiet.trans hrest, ?_⟩
      rintro c (_ | ⟨_, hc⟩)
      · exact hdraws
      · exact hlearns.quiet.draws (hall c hc)

theorem separatorLoop_quiet (n : Nat) :
    ∀ {b b' : Bar} {p : Nat} {chars : List SeparatorChar},
      b.separatorLoop n p = .ok (b', chars) → Quiet b b' := by
  induction n with
  | zero =>
    intro b b' p chars h
    obtain ⟨rfl, -⟩ := Prod.mk.inj (Except.ok.inj h)
    exact .refl b
  | succ n ih =>
    intro b b' p chars h
    rw [separatorLoop] at h
    split at h
    · obtain ⟨rfl, -⟩ := Prod.mk.inj (Except.ok.inj h)
      exact .refl b
    · obtain ⟨result, -, h⟩ := bind_eq_ok_iff.mp h
      obtain ⟨i, hselect⟩ := b.selectDrawableFont_eq result.ucs
      rw [hselect] at h
      obtain ⟨⟨b₁, w⟩, hw, h⟩ := bind_eq_ok_iff.mp h
      obtain ⟨⟨b₂, rest⟩, hrest, h⟩ := bind_eq_ok_iff.mp h
      obtain ⟨rfl, -⟩ := Prod.mk.inj (Except.ok.inj h)
      have hnoted : Quiet b { b with offsetYIndex := i } := ⟨_, _, _, rfl⟩
      exact hnoted.trans ((getUtf8CharWidth_learns hw).quiet.trans (ih hrest))

theorem separatorWidth_quiet (n : Nat) :
    ∀ {b b' : Bar} {p : Nat} {w : Int}, b.separatorWidth n p = .ok (b', w) → Quiet b b' := by
  induction n with
  | zero =>
    intro b b' p w h
    obtain ⟨rfl, -⟩ := Prod.mk.inj (Except.ok.inj h)
    exact .refl b
  | succ n ih =>
    intro b b' p w h
    by_cases hbyte : sep_string p = 0
    · rw [separatorWidth, if_pos hbyte] at h
      obtain ⟨rfl, -⟩ := Prod.mk.inj (Except.ok.inj h)
      exact .refl b
    · obtain ⟨result, hresult⟩ := exists_decoded hbyte h
      obtain ⟨i, hselect⟩ := b.selectDrawableFont_eq result.ucs
      rw [separatorWidth_step hbyte hresult hselect] at h
      obtain ⟨⟨b₁, v⟩, hv, h⟩ := bind_eq_ok_iff.mp h
      obtain ⟨⟨b₂, rest⟩, hrest, h⟩ := bind_eq_ok_iff.mp h
      obtain ⟨rfl, -⟩ := Prod.mk.inj (Except.ok.inj h)
      have hnoted : Quiet b { b with offsetYIndex := i } := ⟨_, _, _, rfl⟩
      exact hnoted.trans ((getUtf8CharWidth_learns hv).quiet.trans (ih hrest))

theorem parseLoop_quiet {e e' : BarElement H} {n i p : Nat} {total total' : Int}
    (h : b.parseLoop e n i p total = .ok (b', e', total')) : Quiet b b' := by
  replace h := parseLoop_eq_ok h
  induction h with
  | full b => exact .refl b
  | @stop b => exact .refl b
  | @char b _ _ _ _ _ _ _ j _ _ _ _ _ _ _ _ hw _ ih =>
    have hnoted : Quiet b { b with offsetYIndex := j } := ⟨_, _, _, rfl⟩
    exact hnoted.trans ((getUtf8CharWidth_learns hw).quiet.trans ih)

theorem parseElementContent_quiet {e e' : BarElement H}
    (h : b.parseElementContent e = .ok (b', e')) : Quiet b b' := by
  rw [parseElementContent] at h
  split at h
  · obtain ⟨rfl, -⟩ := Prod.mk.inj (Except.ok.inj h)
    exact .refl b
  · obtain ⟨⟨b₁, e₁, total⟩, hloop, h⟩ := bind_eq_ok_iff.mp h
    obtain ⟨rfl, -⟩ := Prod.mk.inj (Except.ok.inj h)
    exact parseLoop_quiet hloop

/-! ## The invariant -/

/-- The contexts hold the colour variables. -/
structure InSync (b : Bar) : Prop where
  gcDraw : b.gcDraw = b.foregroundColor
  gcClear : b.gcClear = b.backgroundColor
  gcAttr : b.gcAttr = b.underlineColor
  selFg : b.selFg = b.foregroundColor.v &&& 0x00ffffff

theorem Quiet.inSync (h : Quiet b b') (hb : b.InSync) : b'.InSync := by
  obtain ⟨_, _, _, rfl⟩ := h
  exact ⟨hb.gcDraw, hb.gcClear, hb.gcAttr, hb.selFg⟩

/-- Colours that are written are in the contexts. -/
theorem updateGc_inSync (b : Bar) : b.markColorsDirty.updateGc.InSync := ⟨rfl, rfl, rfl, rfl⟩

/-- Colours that are written where `p` holds are in the contexts, if they were so otherwise. -/
theorem inSync_ite {p : Prop} [Decidable p] (h : ¬ p → b.InSync) :
    (if p then b.markColorsDirty.updateGc else b).InSync := by
  by_cases hp : p
  · rw [if_pos hp]
    exact updateGc_inSync b
  · rw [if_neg hp]
    exact h hp

theorem elementColors_inSync (hb : b.InSync) (e : BarElement H) : (b.elementColors e).InSync := by
  rw [elementColors]
  apply inSync_ite
  intro hsame
  -- no colour has changed: the contexts hold them still
  simp only [not_or, not_not] at hsame
  obtain ⟨hbackground, hforeground, hunderline⟩ := hsame
  refine ⟨hb.gcDraw.trans (Color.eq_of_v hforeground), hb.gcClear.trans (Color.eq_of_v hbackground),
    hb.gcAttr.trans (Color.eq_of_v hunderline), ?_⟩
  exact hb.selFg.trans (congrArg (· &&& 0x00ffffff) hforeground)

theorem applyColors_inSync (hb : b.InSync) (e : BarElement H) : (b.applyColors e).InSync := by
  rw [applyColors]
  apply inSync_ite
  intro hunset
  simp only [not_or, not_not] at hunset
  obtain ⟨hbackground, hforeground, hunderline⟩ := hunset
  simp only [hbackground, hforeground, hunderline, ne_eq, not_true_eq_false, if_false]
  exact ⟨hb.gcDraw, hb.gcClear, hb.gcAttr, hb.selFg⟩

/-- The colours that `renderSeparatorAt` sets. -/
def separatorColors (b : Bar) : Bar :=
  { b with
    backgroundColor := b.defaultBackgroundColor
    foregroundColor := b.defaultForegroundColor : Bar }.markColorsDirty.updateGc

theorem renderSeparatorAt_eq_separatorChars (b : Bar) (x : Int) :
    b.renderSeparatorAt x = b.separatorColors.separatorChars x b.separator := rfl

/-- **Every operation keeps the invariant.** -/
theorem Step.inSync (h : Step H b b') (hb : b.InSync) : b'.InSync := by
  cases h with
  | parse e e' h => exact (parseElementContent_quiet h).inSync hb
  | colors e => exact applyColors_inSync hb e
  | margin h => exact ((b.selectDrawableFont_quiet 32).trans (xftCharWidth_learns h).quiet).inSync hb
  | element e painting h =>
    rw [renderElement] at h
    split at h <;>
    · obtain ⟨⟨b₁, cells⟩, hcells, h⟩ := bind_eq_ok_iff.mp h
      obtain ⟨rfl, -⟩ := Prod.mk.inj (Except.ok.inj h)
      exact (renderChars_quiet _ hcells).1.inSync (elementColors_inSync hb e)
  | separator h => exact (separatorChars_quiet _ h).1.inSync (updateGc_inSync _)
  | separatorWidth h => exact (separatorWidth_quiet 4 h).inSync hb

theorem Reaches.inSync (h : Reaches H b b') (hb : b.InSync) : b'.InSync := by
  induction h with
  | refl => exact hb
  | tail _ hstep ih => exact hstep.inSync ih

/-- A new bar is in sync. -/
theorem newBar_inSync {cfg : BarConfig} (h : cfg.newBar.initSeparator = .ok b) : b.InSync := by
  obtain ⟨⟨b₁, chars⟩, hloop, h⟩ := bind_eq_ok_iff.mp h
  obtain rfl := Except.ok.inj h
  have hb₁ : b₁.InSync := (separatorLoop_quiet 2 hloop).inSync ⟨rfl, rfl, rfl, rfl⟩
  exact ⟨hb₁.gcDraw, hb₁.gcClear, hb₁.gcAttr, hb₁.selFg⟩

/-! ## Elements and separators -/

/-- The contexts and `selFg` hold the colours of an element. -/
structure Shows (b : Bar) (e : BarElement H) : Prop where
  gcDraw : b.gcDraw = e.foreground b.toBarConfig
  gcClear : b.gcClear = e.background b.toBarConfig
  gcAttr : b.gcAttr = e.underlined b.toBarConfig
  selFg : b.selFg = (e.foreground b.toBarConfig).v &&& 0x00ffffff

theorem Quiet.shows {e : BarElement H} (h : Quiet b b') (hb : b.Shows e) : b'.Shows e := by
  obtain ⟨_, _, _, rfl⟩ := h
  exact ⟨hb.gcDraw, hb.gcClear, hb.gcAttr, hb.selFg⟩

/-- Writing colours to the contexts changes nothing else. -/
theorem ite_updateGc {p : Prop} [Decidable p] (b : Bar) :
    ∃ gcDraw gcClear gcAttr selFg colorsDirty, (if p then b.markColorsDirty.updateGc else b) =
      { b with gcDraw, gcClear, gcAttr, selFg, colorsDirty } := by
  by_cases hp : p
  · rw [if_pos hp]
    exact ⟨_, _, _, _, _, rfl⟩
  · rw [if_neg hp]
    exact ⟨_, _, _, _, _, rfl⟩

/-- The colours and attributes that `renderElement` sets; the contexts follow. -/
theorem elementColors_eq (b : Bar) (e : BarElement H) :
    ∃ gcDraw gcClear gcAttr selFg colorsDirty, b.elementColors e =
      { b with
        attrs := { overl := false, underl := e.underline }
        foregroundColor := e.foreground b.toBarConfig
        backgroundColor := e.background b.toBarConfig
        underlineColor := e.underlined b.toBarConfig
        gcDraw, gcClear, gcAttr, selFg, colorsDirty } := by
  rw [elementColors]
  exact ite_updateGc _

/-- **`renderElement` sets the colours of its element**, whatever was drawn before. -/
theorem elementColors_shows (hb : b.InSync) (e : BarElement H) : (b.elementColors e).Shows e := by
  have hsync := elementColors_inSync hb e
  obtain ⟨_, _, _, _, _, heq⟩ := b.elementColors_eq e
  rw [heq] at hsync ⊢
  exact ⟨hsync.gcDraw, hsync.gcClear, hsync.gcAttr, hsync.selFg⟩

end Bar

/-! ## Cells -/

/-- A cell is drawn in the colours of an element. -/
structure Cell.Shows (cfg : BarConfig) (e : BarElement H) (cell : Cell) : Prop where
  gcDraw : cell.gcDraw = e.foreground cfg
  gcClear : cell.gcClear = e.background cfg
  gcAttr : cell.gcAttr = e.underlined cfg
  selFg : cell.selFg = (e.foreground cfg).v &&& 0x00ffffff

/-- A cell is drawn in the colours of the bar. -/
structure Cell.ShowsDefaults (cfg : BarConfig) (cell : Cell) : Prop where
  gcDraw : cell.gcDraw = cfg.defaultForegroundColor
  gcClear : cell.gcClear = cfg.defaultBackgroundColor

/-- The elements of a module are drawn in their own colours, and the separator in those of the
bar. -/
structure RenderedModule.InColours (cfg : BarConfig) (m : RenderedModule H) : Prop where
  elements : ∀ r ∈ m.elements, ∀ cell ∈ r.painting.cells, cell.Shows cfg r.element
  separator : ∀ s, m.separator = some s → ∀ cell ∈ s.cells, cell.ShowsDefaults cfg

namespace Bar

variable {b b' : Bar} {x y : Int}

theorem Draws.shows {e : BarElement H} {cell : Cell} (h : b.Draws cell) (hb : b.Shows e) :
    cell.Shows b.toBarConfig e :=
  ⟨h.gcDraw.trans hb.gcDraw, h.gcClear.trans hb.gcClear, h.gcAttr.trans hb.gcAttr,
    h.selFg.trans hb.selFg⟩

theorem elementColors_config (b : Bar) (e : BarElement H) :
    (b.elementColors e).toBarConfig = b.toBarConfig := (b.elementColors_later e).config

theorem Quiet.config (h : Quiet b b') : b'.toBarConfig = b.toBarConfig := by
  obtain ⟨_, _, _, rfl⟩ := h
  rfl

/-- `renderElement` sets the colours, and draws. -/
theorem renderElement_quiet {e : BarElement H} {painting : Painting}
    (h : b.renderElement e = .ok (b', painting)) :
    Quiet (b.elementColors e) b' ∧ ∀ cell ∈ painting.cells, (b.elementColors e).Draws cell := by
  rw [renderElement] at h
  split at h <;>
  · obtain ⟨⟨b₁, cells⟩, hcells, h⟩ := bind_eq_ok_iff.mp h
    obtain ⟨rfl, rfl⟩ := Prod.mk.inj (Except.ok.inj h)
    exact renderChars_quiet _ hcells

theorem renderElements_shows {es : List (BarElement H)} {rs : List (Rendered H)} (hb : b.InSync)
    (h : b.renderElements x es = .ok (b', y, rs)) :
    b'.InSync ∧ b'.toBarConfig = b.toBarConfig ∧
      ∀ r ∈ rs, ∀ cell ∈ r.painting.cells, cell.Shows b.toBarConfig r.element := by
  replace h := renderElements_eq_ok_iff.mp h
  induction h with
  | nil => exact ⟨hb, rfl, fun _ hr => (List.not_mem_nil hr).elim⟩
  | @cons b b₁ b' x y e es painting rs hrender _ ih =>
    obtain ⟨hquiet, hdraws⟩ := renderElement_quiet hrender
    have hshows := elementColors_shows hb { e with beginX := UInt16.ofInt x }
    have hsync := hquiet.inSync (elementColors_inSync hb _)
    have hconfig := hquiet.config.trans (b.elementColors_config _)
    obtain ⟨hsync', hconfig', hall⟩ := ih hsync
    rw [hconfig] at hconfig' hall
    refine ⟨hsync', hconfig', ?_⟩
    rintro r (_ | ⟨_, hr⟩)
    · intro cell hcell
      have hcell := (hdraws cell hcell).shows hshows
      rwa [b.elementColors_config] at hcell
    · exact hall r hr

theorem renderSeparatorAt_shows {stop : Int} {cells : List Cell}
    (h : b.renderSeparatorAt x = .ok (b', stop, cells)) :
    b'.InSync ∧ b'.toBarConfig = b.toBarConfig ∧
      ∀ cell ∈ cells, cell.ShowsDefaults b.toBarConfig := by
  rw [renderSeparatorAt_eq_separatorChars] at h
  obtain ⟨hquiet, hdraws⟩ := separatorChars_quiet _ h
  exact ⟨hquiet.inSync (updateGc_inSync _), hquiet.config,
    fun cell hcell => ⟨(hdraws cell hcell).gcDraw, (hdraws cell hcell).gcClear⟩⟩

theorem renderModules_shows {modules : List (List (BarElement H))} {ms : List (RenderedModule H)}
    (hb : b.InSync) (h : b.renderModules x modules = .ok (b', y, ms)) :
    b'.InSync ∧ b'.toBarConfig = b.toBarConfig ∧ ∀ m ∈ ms, m.InColours b.toBarConfig := by
  replace h := renderModules_eq_ok_iff.mp h
  induction h with
  | nil => exact ⟨hb, rfl, fun _ hm => (List.not_mem_nil hm).elim⟩
  | last hrow =>
    obtain ⟨hsync, hconfig, hshows⟩ := renderElements_shows hb hrow
    exact ⟨hsync, hconfig, List.forall_mem_singleton.mpr ⟨hshows, nofun⟩⟩
  | cons hrow hsepAt _ ih =>
    obtain ⟨hsync₁, hconfig₁, hshows₁⟩ := renderElements_shows hb hrow
    obtain ⟨hsync₂, hconfig₂, hshows₂⟩ := renderSeparatorAt_shows hsepAt
    obtain ⟨hsync₃, hconfig₃, hshows₃⟩ := ih hsync₂
    have hconfig₂ := hconfig₂.trans hconfig₁
    rw [hconfig₁] at hshows₂
    rw [hconfig₂] at hconfig₃ hshows₃
    refine ⟨hsync₃, hconfig₃, List.forall_mem_cons.mpr ⟨⟨hshows₁, ?_⟩, hshows₃⟩⟩
    rintro s hs
    obtain rfl := Option.some.inj hs
    exact hshows₂

/-- The colours of a frame. -/
theorem renderAllElements_shows {leftModules rightModules : List (List (BarElement H))}
    {f : Frame H} (hb : b.InSync) (h : b.renderAllElements leftModules rightModules = .ok f) :
    ∀ m ∈ f.left ++ f.right, m.InColours b.toBarConfig := by
  obtain ⟨b₁, margin, b₂, x, b₃, w, y, hmargin, hleft, hw, hright⟩ := renderAllElements_eq_ok h
  have hquiet₁ := (b.selectDrawableFont_quiet 32).trans (xftCharWidth_learns hmargin).quiet
  obtain ⟨hsync₂, hconfig₂, hleft⟩ := renderModules_shows (hquiet₁.inSync hb) hleft
  have hquiet₃ := separatorWidth_quiet 4 hw
  obtain ⟨-, -, hright⟩ := renderModules_shows (hquiet₃.inSync hsync₂) hright
  rw [hquiet₃.config, hconfig₂, hquiet₁.config] at hright
  rw [hquiet₁.config] at hleft
  intro m hm
  rcases List.mem_append.mp hm with hm | hm
  · exact hleft m hm
  · exact hright m hm

/-- **Everything is drawn in its own colours.** On a new bar and after any operations, and so in
any sequence of feeds: when `drawChar` is called for the next character of an element, the contexts
hold the colours of that element; when it is called for the next character of a separator, they
hold the defaults; and so it is with the cells of every frame. Drawing is quiet, so the colours
that were set for the first character are there for the last one. -/
theorem drawn_in_own_colours {cfg : BarConfig} {b₀ : Bar}
    (hnew : cfg.newBar.initSeparator = .ok b₀) (hreach : Reaches H b₀ b) :
    (∀ (e : BarElement H) (x : Int) (n : Nat) b' cells,
      (b.elementColors e).renderChars x ((chars e).take n) = .ok (b', cells) → b'.Shows e) ∧
    (∀ (x : Int) (n : Nat) b' stop cells,
      b.separatorColors.separatorChars x (b.separator.take n) = .ok (b', stop, cells) →
      b'.gcDraw = b'.defaultForegroundColor ∧ b'.gcClear = b'.defaultBackgroundColor) ∧
    ∀ (leftModules rightModules : List (List (BarElement H))) (f : Frame H),
      b.parseModules leftModules rightModules = .ok f →
      Reaches H b₀ f.bar ∧ ∀ m ∈ f.left ++ f.right, m.InColours cfg := by
  have hsync := hreach.inSync (newBar_inSync hnew)
  have hconfig : b.toBarConfig = cfg := by
    obtain ⟨n, hlater⟩ := hreach.later (Reachable.start (H := H) (fun _ _ => rfl) hnew).kept
    have hcoherent : Coherent cfg.newBar := ProbeTable.Sound.of_empty fun _ _ => rfl
    exact hlater.config.trans (initSeparator_ok hcoherent hnew).1
  refine ⟨fun e x n b' cells h => ?_, fun x n b' stop cells h => ?_, fun L R f h => ?_⟩
  · exact (renderChars_quiet _ h).1.shows (elementColors_shows hsync e)
  · obtain ⟨_, _, _, rfl⟩ := (separatorChars_quiet _ h).1
    exact ⟨rfl, rfl⟩
  · refine ⟨hreach.trans (parseModules_reaches h), ?_⟩
    obtain ⟨⟨b₁, left⟩, hleft, h⟩ := bind_eq_ok_iff.mp h
    obtain ⟨⟨b₂, right⟩, hright, h⟩ := bind_eq_ok_iff.mp h
    have hparse : Reaches H b b₂ :=
      (parseLeftModules_reaches _ hleft).trans (parseRightModules_reaches _ hright)
    have hkept := ((Reachable.start (fun _ _ => rfl) hnew).reaches hreach).kept
    obtain ⟨n, hlater⟩ := hparse.later hkept
    have hframe := renderAllElements_shows (hparse.inSync hsync) h
    rwa [hlater.config, hconfig] at hframe

/-- The first frame of a bar, with an element on red in front of a separator. -/
theorem drawn_in_own_colours_red :
    let cfg := (asciiSetup 10 100).toBarConfig
    let red : BarElement Unit := { textElement [65] with backgroundColor := ⟨0xffff0000⟩ }
    ∃ b₀ f, cfg.newBar.initSeparator = .ok b₀ ∧ b₀.parseModules [[red], []] [] = .ok f ∧
      ∀ m ∈ f.left ++ f.right, m.InColours cfg := by
  intro cfg red
  have hok : (cfg.newBar.initSeparator >>= fun b => b.parseModules [[red], []] []).toOption.isSome :=
    by decide +kernel
  cases hnew : cfg.newBar.initSeparator with
  | error fault => rw [hnew] at hok; cases hok
  | ok b₀ =>
    rw [hnew] at hok
    replace hok : (b₀.parseModules [[red], []] []).toOption.isSome := hok
    cases hf : b₀.parseModules [[red], []] [] with
    | error fault => rw [hf] at hok; cases hok
    | ok f => exact ⟨b₀, f, rfl, hf, ((drawn_in_own_colours hnew .refl).2.2 _ _ f hf).2⟩

end Bar

end Photonbar
