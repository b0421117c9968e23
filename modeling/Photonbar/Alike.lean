import Photonbar.ColorSync

/-!
# Bars that paint alike (`bar.h`)

What is painted depends on the configuration, on the separator, on the colours and on the font
that was noted last, but not on how much of the table of widths is filled. Two bars are `Alike`
that have these in common. A bar `Follows` another one if moreover it has learnt nothing since its
table was a given one. Where this table has all widths that the other bar ends with, it completes
what the other bar has completed, unless it gets `Stuck`, and paints the same wherever their
attributes are the same (`renderAllElements_follows`).
-/

namespace Photonbar

variable {H : Type}

namespace Bar

variable {b b' c c' : Bar} {x y y' : Int}

/-- What two bars have in common that paint alike, but for the font that was noted last. -/
structure Akin (b c : Bar) : Prop where
  config : c.toBarConfig = b.toBarConfig
  separator : c.separator = b.separator
  foregroundColor : c.foregroundColor = b.foregroundColor
  backgroundColor : c.backgroundColor = b.backgroundColor
  underlineColor : c.underlineColor = b.underlineColor
  coherent : b.Coherent
  coherent' : c.Coherent
  inSync : b.InSync
  inSync' : c.InSync

/-- What two bars have in common that paint alike, but for the attributes. -/
structure Alike (b c : Bar) : Prop extends Akin b c where
  offsetYIndex : c.offsetYIndex = b.offsetYIndex

/-- Both may learn widths. -/
theorem Alike.learns (h : Alike b c) (hb : Learns b b') (hc : Learns c c') (hb' : b'.Coherent)
    (hc' : c'.Coherent) : Alike b' c' := by
  have hsync := hb.quiet.inSync h.inSync
  have hsync' := hc.quiet.inSync h.inSync'
  obtain ⟨_, _, rfl⟩ := hb
  obtain ⟨_, _, rfl⟩ := hc
  exact ⟨⟨h.config, h.separator, h.foregroundColor, h.backgroundColor, h.underlineColor, hb', hc',
    hsync, hsync'⟩, h.offsetYIndex⟩

/-- Both note the same font. -/
theorem Akin.noted (h : Akin b c) (i : Nat) :
    Alike { b with offsetYIndex := i } { c with offsetYIndex := i } :=
  ⟨⟨h.config, h.separator, h.foregroundColor, h.backgroundColor, h.underlineColor, h.coherent,
    h.coherent', (Quiet.inSync ⟨_, _, _, rfl⟩ h.inSync), (Quiet.inSync ⟨_, _, _, rfl⟩ h.inSync')⟩,
    rfl⟩

/-- Both select the same font, and note its index. -/
theorem Akin.selectDrawableFont {u : UInt32} (h : Akin b c)
    (hfont : (b.fontFor u).isSome ∨ c.offsetYIndex = b.offsetYIndex) :
    ∃ i, b.selectDrawableFont u = ({ b with offsetYIndex := i }, b.fontFor u) ∧
      c.selectDrawableFont u = ({ c with offsetYIndex := i }, b.fontFor u) := by
  have hlist : c.fontList = b.fontList := congrArg BarConfig.fontList h.config
  have hfirst := firstFont_snd u b.fontList 0
  rw [Bar.selectDrawableFont, Bar.selectDrawableFont, hlist]
  rw [BarConfig.fontFor, ← hfirst] at hfont ⊢
  cases hf : firstFont u 0 b.fontList with
  | some p => exact ⟨p.1, rfl, rfl⟩
  | none =>
    rw [hf] at hfont
    refine ⟨b.offsetYIndex, rfl, ?_⟩
    rw [← hfont.resolve_left Bool.false_ne_true]
    rfl

/-! ## Following -/

/-- A table has all widths that `b` has. -/
def Covers (table : Nat → UInt32) (b : Bar) : Prop :=
  ∀ u, u ≠ 0 → b.Known u → ∃ slot < MAX_WIDTHS, table slot = u

/-- An endless search, in a table that is full. -/
def Stuck (table : Nat → UInt32) (fault : Fault) : Prop :=
  fault = .probeLoop ∧ ProbeTable.free MAX_WIDTHS 0 table = 0

/-- `c` has come as far as `b`, and has learnt nothing since its table was `table`. -/
structure Follows (table : Nat → UInt32) (b c : Bar) : Prop extends Alike b c where
  table_eq : c.xftChar = table

variable {table : Nat → UInt32}

theorem Covers.back {n : Nat} (h : Covers table b') (hlater : Later n b b') : Covers table b :=
  fun u hu hknown => h u hu (hlater.known u hu hknown)

theorem Follows.noted (h : Follows table b c) (i : Nat) :
    Follows table { b with offsetYIndex := i } { c with offsetYIndex := i } :=
  ⟨h.toAkin.noted i, h.table_eq⟩

/-- Where the table has the width, nothing is learnt. -/
theorem xftCharWidth_table {u : UInt32} {font : Option Font} {w : Int} (hc : c.Coherent)
    (hknown : u ≠ 0 → c.Known u) (h : c.xftCharWidth u font = .ok (c', w)) :
    c'.xftChar = c.xftChar := by
  obtain ⟨slot, hslot, ⟨hempty, f, xft, -, -, -, rfl⟩ | ⟨-, rfl, -⟩⟩ := xftCharWidth_cases h
  · -- only the character 0 is searched for in vain
    obtain rfl : u = 0 := by
      by_contra hu
      obtain ⟨s, hs, rfl⟩ := hknown hu
      obtain rfl := Option.some.inj ((hc s hs hu).1.symm.trans hslot)
      exact hu hempty
    exact (congrArg _ hempty.symm).trans (Function.update_eq_self slot c.xftChar)
  · rfl

/-- `c` finds the width that `b` has found, in a font of Xft. -/
theorem Follows.xftCharWidth {u : UInt32} {font : Option Font} {w : Int} (h : Follows table b c)
    (hfont : font = some (b.fontUsed u)) (hxft : (b.fontUsed u).xft_ft.isSome)
    (hb : b.xftCharWidth u font = .ok (b', w)) (hcovers : Covers table b') :
    Meets (Stuck table) (fun r => r.2 = w ∧ Follows table b' r.1) (c.xftCharWidth u font) := by
  have hused : ∀ f, font = some f → f = b.fontUsed u :=
    fun f hf => Option.some.inj (hf.symm.trans hfont)
  obtain ⟨hlater, hw, hknown⟩ := xftCharWidth_ok hused hb
  refine FailsOnly.meets (xftCharWidth_fails ?_ (.inr (by rw [hfont]; rfl)) (.inr ?_)) ?_
  · by_cases hfree : c.free = 0
    · rw [← h.table_eq]
      exact .inl ⟨rfl, hfree⟩
    · exact .inr (ends_of_free (Nat.pos_of_ne_zero hfree) u)
  · rintro f hf
    rw [hused f hf]
    exact hxft
  · rintro ⟨c', w'⟩ hc
    obtain ⟨hlater', hw', -⟩ := xftCharWidth_ok (by rwa [h.config]) hc
    have hknown' : u ≠ 0 → c.Known u := by
      intro hu
      rw [Known, h.table_eq]
      exact hcovers u hu (hknown hu)
    refine ⟨Option.some.inj ?_, ?_, ?_⟩
    · rw [← hw h.coherent, ← hw' h.coherent', h.config]
    · exact h.learns (xftCharWidth_learns hb) (xftCharWidth_learns hc)
        (hlater.coherent h.coherent) (hlater'.coherent h.coherent')
    · exact (xftCharWidth_table h.coherent' hknown' hc).trans h.table_eq

/-- `c` draws a character as wide as `b` has drawn it. -/
theorem Follows.drawWidth {u : UInt32} {w : Int} (h : Follows table b c)
    (hb : b.drawWidth (b.fontUsed u) u = .ok (b', w)) (hcovers : Covers table b') :
    Meets (Stuck table) (fun r => r.2 = w ∧ Follows table b' r.1)
      (c.drawWidth (b.fontUsed u) u) := by
  rw [Bar.drawWidth] at hb ⊢
  cases hxft : (b.fontUsed u).xft_ft with
  | some xft =>
    simp only [hxft] at hb ⊢
    exact h.xftCharWidth rfl (by rw [hxft]; rfl) hb hcovers
  | none =>
    simp only [hxft] at hb ⊢
    cases hlut : (b.fontUsed u).width_lut with
    | none =>
      simp only [hlut] at hb ⊢
      obtain ⟨rfl, rfl⟩ := Prod.mk.inj (Except.ok.inj hb)
      exact ⟨rfl, h⟩
    | some lut =>
      simp only [hlut] at hb ⊢
      obtain ⟨v, hv, hb⟩ := bind_eq_ok_iff.mp hb
      obtain ⟨rfl, rfl⟩ := Prod.mk.inj (Except.ok.inj hb)
      rw [hv]
      exact ⟨rfl, h⟩

theorem Quiet.attrs (h : Quiet b b') : b'.attrs = b.attrs := by
  obtain ⟨_, _, _, rfl⟩ := h
  rfl

/-- Both draw the same cell, with their attributes. -/
theorem Follows.drawChar {u : UInt32} {cell : Cell} (h : Follows table b c)
    (hb : b.drawChar (b.fontUsed u) x u = .ok (b', cell)) (hcovers : Covers table b') :
    Meets (Stuck table)
      (fun r => (c.attrs = b.attrs → r.2 = cell ∧ r.1.attrs = b'.attrs) ∧ Follows table b' r.1)
      (c.drawChar (b.fontUsed u) x u) := by
  obtain ⟨⟨b₁, w⟩, hw, hb⟩ := bind_eq_ok_iff.mp hb
  obtain ⟨rfl, rfl⟩ := Prod.mk.inj (Except.ok.inj hb)
  refine (h.drawWidth hw hcovers).bind fun ⟨c₁, w'⟩ hw' hdraw => ?_
  obtain ⟨rfl, hfollows⟩ : w' = w ∧ Follows table b₁ c₁ := hdraw
  refine ⟨fun hattrs => ?_, hfollows⟩
  have hattrs : c₁.attrs = b₁.attrs := by
    rw [(drawWidth_learns hw).quiet.attrs, (drawWidth_learns hw').quiet.attrs, hattrs]
  refine ⟨?_, hattrs⟩
  simp only [hfollows.config, hfollows.offsetYIndex, hattrs, hfollows.inSync.gcDraw,
    hfollows.inSync'.gcDraw, hfollows.inSync.gcClear, hfollows.inSync'.gcClear,
    hfollows.inSync.gcAttr, hfollows.inSync'.gcAttr, hfollows.inSync.selFg,
    hfollows.inSync'.selFg, hfollows.foregroundColor, hfollows.backgroundColor,
    hfollows.underlineColor]

/-- Both draw the same characters. -/
theorem renderChars_follows (cs : List (UInt32 × UInt8)) :
    ∀ {b b' c : Bar} {x : Int} {cells : List Cell}, Follows table b c →
      b.renderChars x cs = .ok (b', cells) → Covers table b' →
      Meets (Stuck table)
        (fun r => (c.attrs = b.attrs → r.2 = cells ∧ r.1.attrs = b'.attrs) ∧ Follows table b' r.1)
        (c.renderChars x cs) := by
  induction cs with
  | nil =>
    intro b b' c x cells h hb _
    obtain ⟨rfl, rfl⟩ := Prod.mk.inj (Except.ok.inj hb)
    exact ⟨fun hattrs => ⟨rfl, hattrs⟩, h⟩
  | cons p cs ih =>
    intro b b' c x cells h hb hcovers
    obtain ⟨i, hselect, hselect'⟩ := h.selectDrawableFont (u := p.1) (.inr h.offsetYIndex)
    rw [renderChars, hselect] at hb
    rw [renderChars, hselect']
    obtain ⟨⟨b₁, cell⟩, hcell, hb⟩ := bind_eq_ok_iff.mp hb
    obtain ⟨⟨b₂, cells₂⟩, hcells, hb⟩ := bind_eq_ok_iff.mp hb
    obtain ⟨rfl, rfl⟩ := Prod.mk.inj (Except.ok.inj hb)
    have hnoted := h.noted i
    have hlater := (drawChar_ok (b := { b with offsetYIndex := i }) (c := p.1) hcell).1
    have hcovers₁ := hcovers.back (renderChars_ok cs (hlater.coherent hnoted.coherent) hcells).1
    have hdraw := hnoted.drawChar (u := p.1) hcell hcovers₁
    have hused : (b.fontFor p.1).getD (c.fontList.head c.fontList_ne_nil) = b.fontUsed p.1 := by
      rw [BarConfig.fontUsed]
      simp only [h.config]
    have hused' : BarConfig.fontUsed (toBarConfig { b with offsetYIndex := i }) p.1 =
      (b.fontFor p.1).getD (c.fontList.head c.fontList_ne_nil) := hused.symm
    rw [hused'] at hdraw
    refine hdraw.bind ?_
    rintro ⟨c₁, cell'⟩ - hdrawn
    obtain ⟨hsame, hfollows⟩ :
      (c.attrs = b.attrs → cell' = cell ∧ c₁.attrs = b₁.attrs) ∧ Follows table b₁ c₁ := hdrawn
    refine (ih hfollows hcells hcovers).bind ?_
    rintro ⟨c₂, cells₂'⟩ - hrest
    obtain ⟨hsame', hfollows'⟩ :
      (c₁.attrs = b₁.attrs → cells₂' = cells₂ ∧ c₂.attrs = b₂.attrs) ∧ Follows table b₂ c₂ := hrest
    refine ⟨fun hattrs => ?_, hfollows'⟩
    obtain ⟨rfl, hattrs₁⟩ := hsame hattrs
    obtain ⟨rfl, hattrs₂⟩ := hsame' hattrs₁
    exact ⟨rfl, hattrs₂⟩

/-- Both draw the same separator. -/
theorem separatorChars_follows (cs : List UInt32) :
    ∀ {b b' c : Bar} {x y : Int} {cells : List Cell}, Follows table b c →
      b.separatorChars x (cs.map b.sepChar) = .ok (b', y, cells) → Covers table b' →
      Meets (Stuck table)
        (fun r => r.2.1 = y ∧ (c.attrs = b.attrs → r.2.2 = cells ∧ r.1.attrs = b'.attrs) ∧
          Follows table b' r.1)
        (c.separatorChars x (cs.map b.sepChar)) := by
  induction cs with
  | nil =>
    intro b b' c x y cells h hb _
    obtain ⟨rfl, rfl, rfl⟩ : b = b' ∧ x = y ∧ [] = cells := by simpa [separatorChars] using hb
    exact ⟨rfl, fun hattrs => ⟨rfl, hattrs⟩, h⟩
  | cons u cs ih =>
    intro b b' c x y cells h hb hcovers
    rw [List.map_cons, separatorChars] at hb ⊢
    cases hfont : b.fontFor u with
    | none => simp only [BarConfig.sepChar, hfont] at hb; cases hb
    | some f =>
      have hshown : b.shown u = u := by rw [BarConfig.shown, hfont]; rfl
      simp only [BarConfig.sepChar, hfont, hshown] at hb ⊢
      obtain ⟨⟨b₁, cell⟩, hcell, hb⟩ := bind_eq_ok_iff.mp hb
      obtain ⟨⟨b₂, stop, cells₂⟩, hcells, hb⟩ := bind_eq_ok_iff.mp hb
      obtain ⟨rfl, rfl, rfl⟩ : b₂ = b' ∧ stop = y ∧ cell :: cells₂ = cells := by
        simpa [pure, Except.pure] using hb
      rw [← BarConfig.fontUsed_of_fontFor hfont] at hcell ⊢
      have hlater := (drawChar_ok hcell).1
      have hcells : b₁.separatorChars (x + b.measured u) (cs.map b₁.sepChar) =
          .ok (b₂, stop, cells₂) := by
        rw [hlater.config]
        exact hcells
      have hcovers₁ := hcovers.back (separatorChars_ok cs (hlater.coherent h.coherent) hcells).1
      refine (h.drawChar hcell hcovers₁).bind ?_
      rintro ⟨c₁, cell'⟩ - hdrawn
      obtain ⟨hsame, hfollows⟩ :
        (c.attrs = b.attrs → cell' = cell ∧ c₁.attrs = b₁.attrs) ∧ Follows table b₁ c₁ := hdrawn
      have hrest := ih hfollows hcells hcovers
      rw [hlater.config] at hrest
      refine hrest.bind ?_
      rintro ⟨c₂, stop', cells₂'⟩ - hrest
      obtain ⟨rfl, hsame', hfollows'⟩ : stop' = stop ∧
        (c₁.attrs = b₁.attrs → cells₂' = cells₂ ∧ c₂.attrs = b₂.attrs) ∧ Follows table b₂ c₂ := hrest
      refine ⟨rfl, fun hattrs => ?_, hfollows'⟩
      obtain ⟨rfl, hattrs₁⟩ := hsame hattrs
      obtain ⟨rfl, hattrs₂⟩ := hsame' hattrs₁
      exact ⟨rfl, hattrs₂⟩

/-! ## Colours -/

/-- Both set the same colours, and the same attributes. -/
theorem Alike.elementColors (h : Alike b c) (e : BarElement H) :
    Alike (b.elementColors e) (c.elementColors e) ∧
      (c.elementColors e).attrs = (b.elementColors e).attrs := by
  have hsync := elementColors_inSync h.inSync e
  have hsync' := elementColors_inSync h.inSync' e
  have hcoherent := (b.elementColors_later e).coherent h.coherent
  have hcoherent' := (c.elementColors_later e).coherent h.coherent'
  obtain ⟨_, _, _, _, _, heq⟩ := b.elementColors_eq e
  obtain ⟨_, _, _, _, _, heq'⟩ := c.elementColors_eq e
  rw [heq] at hsync hcoherent ⊢
  rw [heq'] at hsync' hcoherent' ⊢
  refine ⟨⟨⟨h.config, h.separator, ?_, ?_, ?_, hcoherent, hcoherent', hsync, hsync'⟩,
    h.offsetYIndex⟩, rfl⟩
  · exact congrArg (fun cfg => e.foreground cfg) h.config
  · exact congrArg (fun cfg => e.background cfg) h.config
  · exact congrArg (fun cfg => e.underlined cfg) h.config

/-- Both set the colours of the separator. -/
theorem Alike.separatorColors (h : Alike b c) :
    Alike b.separatorColors c.separatorColors := by
  have hlater : Later 0 b b.separatorColors := .of_eq rfl rfl rfl rfl
  have hlater' : Later 0 c c.separatorColors := .of_eq rfl rfl rfl rfl
  exact ⟨⟨h.config, h.separator, congrArg BarConfig.defaultForegroundColor h.config,
    congrArg BarConfig.defaultBackgroundColor h.config, h.underlineColor,
    hlater.coherent h.coherent, hlater'.coherent h.coherent', updateGc_inSync _,
    updateGc_inSync _⟩, h.offsetYIndex⟩

theorem Follows.elementColors (h : Follows table b c) (e : BarElement H) :
    Follows table (b.elementColors e) (c.elementColors e) ∧
      (c.elementColors e).attrs = (b.elementColors e).attrs := by
  obtain ⟨halike, hattrs⟩ := h.toAlike.elementColors e
  obtain ⟨_, _, _, _, _, heq⟩ := c.elementColors_eq e
  exact ⟨⟨halike, by rw [heq]; exact h.table_eq⟩, hattrs⟩

theorem Follows.separatorColors (h : Follows table b c) :
    Follows table b.separatorColors c.separatorColors :=
  ⟨h.toAlike.separatorColors, h.table_eq⟩

/-! ## Elements and modules -/

/-- Both paint the same of an element, and leave the same attributes. -/
theorem renderElement_follows {e : BarElement H} {painting : Painting} (h : Follows table b c)
    (hb : b.renderElement e = .ok (b', painting)) (hcovers : Covers table b') :
    Meets (Stuck table)
      (fun r => r.2 = painting ∧ r.1.attrs = b'.attrs ∧ Follows table b' r.1)
      (c.renderElement e) := by
  obtain ⟨hfollows, hattrs⟩ := h.elementColors e
  rw [renderElement] at hb ⊢
  by_cases hoffset : e.offsetPixels > 0
  · rw [if_pos hoffset] at hb ⊢
    obtain ⟨⟨b₁, cells⟩, hcells, hb⟩ := bind_eq_ok_iff.mp hb
    obtain ⟨rfl, rfl⟩ := Prod.mk.inj (Except.ok.inj hb)
    refine (renderChars_follows _ hfollows hcells hcovers).bind ?_
    rintro ⟨c₁, cells'⟩ - hdrawn
    obtain ⟨hsame, hfollows₁⟩ : (_ → cells' = cells ∧ c₁.attrs = b₁.attrs) ∧
      Follows table b₁ c₁ := hdrawn
    obtain ⟨rfl, hattrs₁⟩ := hsame hattrs
    refine ⟨?_, hattrs₁, hfollows₁⟩
    simp only [drawShift, hattrs, hfollows.inSync.gcClear, hfollows.inSync'.gcClear,
      hfollows.inSync.gcAttr, hfollows.inSync'.gcAttr, hfollows.backgroundColor,
      hfollows.underlineColor]
  · rw [if_neg hoffset] at hb ⊢
    obtain ⟨⟨b₁, cells⟩, hcells, hb⟩ := bind_eq_ok_iff.mp hb
    obtain ⟨rfl, rfl⟩ := Prod.mk.inj (Except.ok.inj hb)
    refine (renderChars_follows _ hfollows hcells hcovers).bind ?_
    rintro ⟨c₁, cells'⟩ - hdrawn
    obtain ⟨hsame, hfollows₁⟩ : (_ → cells' = cells ∧ c₁.attrs = b₁.attrs) ∧
      Follows table b₁ c₁ := hdrawn
    obtain ⟨rfl, hattrs₁⟩ := hsame hattrs
    exact ⟨rfl, hattrs₁, hfollows₁⟩

/-- Both render the elements of a module alike, wherever they were before. The first element sets
the attributes. -/
theorem renderElements_follows {es es' : List (BarElement H)}
    (hmoved : List.Forall₂ BarElement.Moved es es') :
    ∀ {b b' c : Bar} {x y : Int} {rs : List (Rendered H)}, Follows table b c →
      b.renderElements x es = .ok (b', y, rs) → Covers table b' →
      Meets (Stuck table)
        (fun r => r.2 = (y, rs) ∧ (c.attrs = b.attrs ∨ es ≠ [] → r.1.attrs = b'.attrs) ∧
          Follows table b' r.1)
        (c.renderElements x es') := by
  induction hmoved with
  | nil =>
    intro b b' c x y rs h hb _
    obtain _ | _ := renderElements_eq_ok_iff.mp hb
    exact ⟨rfl, fun hattrs => hattrs.resolve_right fun hne => hne rfl, h⟩
  | @cons e es es es' he _ ih =>
    intro b b' c x y rs h hb hcovers
    obtain ⟨x₀, rfl⟩ := he
    obtain _ | @⟨_, b₁, _, _, _, _, _, painting, rs₂, hrender, hrest⟩ :=
      renderElements_eq_ok_iff.mp hb
    replace hrest := renderElements_eq_ok_iff.mpr hrest
    have hlater := (renderElement_ok h.coherent hrender).1
    have hcovers₁ := hcovers.back (renderElements_ok (hlater.coherent h.coherent) hrest).1
    have hpainted :=
      renderElement_follows (e := { e with beginX := UInt16.ofInt x }) h hrender hcovers₁
    refine hpainted.bind fun ⟨c₁, painting'⟩ _ hpainted => ?_
    obtain ⟨rfl, hattrs, hfollows⟩ :
      painting' = painting ∧ c₁.attrs = b₁.attrs ∧ Follows table b₁ c₁ := hpainted
    refine (ih hfollows hrest hcovers).bind fun ⟨c₂, y₂', rs₂'⟩ _ hpost => ?_
    obtain ⟨heq, hkept, hfollows⟩ : (y₂', rs₂') = (y, rs₂) ∧
      (c₁.attrs = b₁.attrs ∨ es ≠ [] → c₂.attrs = b'.attrs) ∧ Follows table b' c₂ := hpost
    obtain ⟨rfl, rfl⟩ := Prod.mk.inj heq
    exact ⟨rfl, fun _ => hkept (.inl hattrs), hfollows⟩

/-- Both paint a separator, alike where their attributes are the same. -/
theorem renderSeparatorAt_follows {cells : List Cell} (h : Follows table b c)
    (hsep : b.separator = b.sepChars) (hb : b.renderSeparatorAt x = .ok (b', y, cells))
    (hcovers : Covers table b') :
    Meets (Stuck table)
      (fun r => r.2.1 = y ∧ (c.attrs = b.attrs → r.2.2 = cells ∧ r.1.attrs = b'.attrs) ∧
        Follows table b' r.1)
      (c.renderSeparatorAt x) := by
  rw [renderSeparatorAt_eq_separatorChars, hsep] at hb
  rw [renderSeparatorAt_eq_separatorChars, h.separator, hsep]
  exact separatorChars_follows (b := b.separatorColors) separatorText h.separatorColors hb hcovers

end Bar

/-- What is painted on a side, in order: its elements, and `none` for a separator. -/
def painted {α : Type} : List (List α) → List (Option α)
  | [] => []
  | [es] => es.map some
  | es :: es' :: modules => es.map some ++ none :: painted (es' :: modules)


namespace Bar

variable {b b' c : Bar} {x y : Int} {table : Nat → UInt32}

/-- Both paint a side, alike if their attributes are the same or an element comes first. -/
theorem renderModules_follows {modules modules' : List (List (BarElement H))}
    (hmoved : List.Forall₂ (List.Forall₂ BarElement.Moved) modules modules') :
    ∀ {b b' c : Bar} {x y : Int} {ms : List (RenderedModule H)}, Follows table b c →
      b.separator = b.sepChars → b.renderModules x modules = .ok (b', y, ms) → Covers table b' →
      Meets (Stuck table)
        (fun r => r.2.1 = y ∧
          (c.attrs = b.attrs ∨ (painted modules).head? ≠ some none → r.2.2 = ms ∧
            (c.attrs = b.attrs ∨ painted modules ≠ [] → r.1.attrs = b'.attrs)) ∧
          Follows table b' r.1)
        (c.renderModules x modules') := by
  induction hmoved with
  | nil =>
    intro b b' c x y ms h _ hb _
    obtain _ | _ | _ := renderModules_eq_ok_iff.mp hb
    exact ⟨rfl, fun _ => ⟨rfl, fun hattrs => hattrs.resolve_right fun hne => hne rfl⟩, h⟩
  | @cons es es' modules modules' hes hrest ih =>
    intro b b' c x y ms h hsep hb hcovers
    cases hrest with
    | nil =>
      obtain _ | @⟨_, _, _, _, _, rs, hrow⟩ | _ := renderModules_eq_ok_iff.mp hb
      refine (renderElements_follows hes h hrow hcovers).bind fun ⟨c₁, y₁', rs'⟩ _ hpost => ?_
      obtain ⟨heq, hattrs, hfollows⟩ : (y₁', rs') = (y, rs) ∧
        (c.attrs = b.attrs ∨ es ≠ [] → c₁.attrs = b'.attrs) ∧ Follows table b' c₁ := hpost
      obtain ⟨rfl, rfl⟩ := Prod.mk.inj heq
      refine ⟨rfl, fun _ => ⟨rfl, fun hor => hattrs (hor.imp_right fun hne => ?_)⟩, hfollows⟩
      rintro rfl
      exact hne rfl
    | @cons es₂ es₂' modules modules' hes₂ hmodules =>
      obtain _ | _ | @⟨_, b₁, b₂, _, _, start, stop, _, _, _, _, rs, cells, ms₁, hrow, hsepAt,
        hside⟩ := renderModules_eq_ok_iff.mp hb
      replace hside := renderModules_eq_ok_iff.mpr hside
      -- what is known in the end is what was known after each part
      have hlater := (renderElements_ok h.coherent hrow).1
      have hsep₁ : b₁.separator = b₁.sepChars := by rw [hlater.separator, hsep, hlater.config]
      have hlater₂ := (renderSeparatorAt_ok (hlater.coherent h.coherent) hsep₁ hsepAt).1
      have hsep₂ : b₂.separator = b₂.sepChars := by
        rw [hlater₂.separator, hsep₁, hlater₂.config]
      have hcoherent₂ := hlater₂.coherent (hlater.coherent h.coherent)
      have hcovers₂ := hcovers.back (renderModules_ok hcoherent₂ hsep₂ hside).1
      have hcovers₁ := hcovers₂.back hlater₂
      refine (renderElements_follows hes h hrow hcovers₁).bind fun ⟨c₁, start', rs'⟩ _ hpost => ?_
      obtain ⟨heq, hattrs, hfollows⟩ : (start', rs') = (start, rs) ∧
        (c.attrs = b.attrs ∨ es ≠ [] → c₁.attrs = b₁.attrs) ∧ Follows table b₁ c₁ := hpost
      obtain ⟨rfl, rfl⟩ := Prod.mk.inj heq
      refine (renderSeparatorAt_follows hfollows hsep₁ hsepAt hcovers₂).bind
        fun ⟨c₂, stop', cells'⟩ _ hpost => ?_
      obtain ⟨rfl, hsame, hfollows⟩ : stop' = stop ∧
        (c₁.attrs = b₁.attrs → cells' = cells ∧ c₂.attrs = b₂.attrs) ∧
          Follows table b₂ c₂ := hpost
      refine (ih hfollows hsep₂ hside hcovers).bind fun ⟨c₃, y₁', ms₁'⟩ _ hpost => ?_
      obtain ⟨rfl, hsame', hfollows⟩ : y₁' = y ∧
        (c₂.attrs = b₂.attrs ∨ (painted (es₂ :: modules)).head? ≠ some none → ms₁' = ms₁ ∧
          (c₂.attrs = b₂.attrs ∨ painted (es₂ :: modules) ≠ [] → c₃.attrs = b'.attrs)) ∧
        Follows table b' c₃ := hpost
      refine ⟨rfl, fun hfirst => ?_, hfollows⟩
      -- the separator comes first only if the attributes are the same
      have hattrs₁ := hattrs (hfirst.imp_right fun hne hnil => hne (by rw [hnil]; rfl))
      obtain ⟨rfl, hattrs₂⟩ := hsame hattrs₁
      obtain ⟨rfl, hkept⟩ := hsame' (.inl hattrs₂)
      exact ⟨rfl, fun _ => hkept (.inl hattrs₂)⟩

/-! ## A whole frame -/

/-- Both measure a character that is shown. -/
theorem Follows.getUtf8CharWidth {u : UInt32} {w : Int} (h : Follows table b c)
    (hb : b.getUtf8CharWidth (b.shown u) (b.fontFor u) = .ok (b', w)) (hcovers : Covers table b') :
    Meets (Stuck table) (fun r => r.2 = w ∧ Follows table b' r.1)
      (c.getUtf8CharWidth (b.shown u) (b.fontFor u)) := by
  cases hfont : b.fontFor u with
  | none =>
    rw [hfont] at hb
    obtain ⟨rfl, rfl⟩ := Prod.mk.inj (Except.ok.inj hb)
    exact ⟨rfl, h⟩
  | some f =>
    -- what is measured is what is drawn
    have hshown : b.shown u = u := by rw [BarConfig.shown, hfont]; rfl
    have hglyph := BarConfig.hasGlyph_of_fontFor hfont
    rw [hshown] at hb ⊢
    rw [hfont, getUtf8CharWidth_eq_drawWidth _ hglyph,
      ← BarConfig.fontUsed_of_fontFor hfont] at hb
    rw [getUtf8CharWidth_eq_drawWidth _ hglyph, ← BarConfig.fontUsed_of_fontFor hfont]
    exact h.drawWidth hb hcovers

/-- Measuring the separator anew learns at most a width for each byte. -/
theorem separatorWidth_later (n : Nat) :
    ∀ {b b' : Bar} {p : Nat} {w : Int}, b.separatorWidth n p = .ok (b', w) → Later n b b' := by
  induction n with
  | zero =>
    intro b b' p w h
    obtain ⟨rfl, -⟩ := Prod.mk.inj (Except.ok.inj h)
    exact .refl b
  | succ n ih =>
    intro b b' p w h
    by_cases hbyte : sep_string p = 0
    · rw [separatorWidth, if_pos hbyte] at h
      obtain ⟨rfl, -⟩ := Prod.mk.inj (Except.ok.inj h)
      exact (Later.refl b).mono (Nat.zero_le _)
    · obtain ⟨result, hresult⟩ := exists_decoded hbyte h
      obtain ⟨i, hselect⟩ := b.selectDrawableFont_eq result.ucs
      rw [separatorWidth_step hbyte hresult hselect] at h
      obtain ⟨⟨b₁, v⟩, hv, h⟩ := bind_eq_ok_iff.mp h
      obtain ⟨⟨b₂, rest⟩, hrest, h⟩ := bind_eq_ok_iff.mp h
      obtain ⟨rfl, rfl⟩ := Prod.mk.inj (Except.ok.inj h)
      have hnoted : Later 0 b { b with offsetYIndex := i } := .of_eq rfl rfl rfl rfl
      have hmeasured := (getUtf8CharWidth_ok (b := { b with offsetYIndex := i })
        (c := result.ucs) hv).1
      exact (hnoted.trans (hmeasured.trans (ih hrest))).mono (by omega)

/-- Both measure the separator anew. -/
theorem separatorWidth_follows (n : Nat) :
    ∀ {b b' c : Bar} {p : Nat} {w : Int}, Follows table b c → b.separatorWidth n p = .ok (b', w) →
      Covers table b' →
      Meets (Stuck table) (fun r => r.2 = w ∧ Follows table b' r.1) (c.separatorWidth n p) := by
  induction n with
  | zero =>
    intro b b' c p w h hb _
    obtain ⟨rfl, rfl⟩ := Prod.mk.inj (Except.ok.inj hb)
    exact ⟨rfl, h⟩
  | succ n ih =>
    intro b b' c p w h hb hcovers
    by_cases hbyte : sep_string p = 0
    · rw [separatorWidth, if_pos hbyte] at hb ⊢
      obtain ⟨rfl, rfl⟩ := Prod.mk.inj (Except.ok.inj hb)
      exact ⟨rfl, h⟩
    · obtain ⟨result, hresult⟩ := exists_decoded hbyte hb
      obtain ⟨i, hselect, hselect'⟩ :=
        h.selectDrawableFont (u := result.ucs) (.inr h.offsetYIndex)
      have hfont : c.fontFor result.ucs = b.fontFor result.ucs :=
        congrArg (BarConfig.fontFor · result.ucs) h.config
      have hshown : c.shown result.ucs = b.shown result.ucs :=
        congrArg (BarConfig.shown · result.ucs) h.config
      rw [← hfont] at hselect'
      rw [separatorWidth_step hbyte hresult hselect] at hb
      rw [separatorWidth_step hbyte hresult hselect', hshown, hfont]
      obtain ⟨⟨b₁, v⟩, hv, hb⟩ := bind_eq_ok_iff.mp hb
      obtain ⟨⟨b₂, rest⟩, hrest, hb⟩ := bind_eq_ok_iff.mp hb
      obtain ⟨rfl, rfl⟩ := Prod.mk.inj (Except.ok.inj hb)
      have hmeasured : Meets (Stuck table) (fun r => r.2 = v ∧ Follows table b₁ r.1)
          (Bar.getUtf8CharWidth { c with offsetYIndex := i } (b.shown result.ucs)
            (b.fontFor result.ucs)) :=
        (h.noted i).getUtf8CharWidth hv (hcovers.back (separatorWidth_later n hrest))
      refine hmeasured.bind ?_
      rintro ⟨c₁, v'⟩ - hpost
      obtain ⟨rfl, hfollows⟩ : v' = v ∧ Follows table b₁ c₁ := hpost
      refine (ih hfollows hrest hcovers).bind ?_
      rintro ⟨c₂, rest'⟩ - hpost
      obtain ⟨rfl, hfollows⟩ : rest' = rest ∧ Follows table b₂ c₂ := hpost
      exact ⟨rfl, hfollows⟩

theorem totalWidth_moved {modules modules' : List (List (BarElement H))}
    (hmoved : List.Forall₂ (List.Forall₂ BarElement.Moved) modules modules') :
    totalWidth modules' = totalWidth modules := by
  refine congrArg List.sum (map_eq_of_forall₂ (hmoved.imp fun es es' hes => ?_)).symm
  refine congrArg List.sum (map_eq_of_forall₂ (hes.imp fun e e' he => ?_))
  obtain ⟨x, rfl⟩ := he
  rfl

/-- **Both paint a frame**, if there is a font for a space, from which on the same font is noted,
and alike if their attributes are the same or an element comes first. The widths that `b` has in
the end must be those that `c` begins with. -/
theorem renderAllElements_follows {L L' R R' : List (List (BarElement H))} {f : Frame H}
    {font : Font} (h : Akin b c) (hspace : b.fontFor 32 = some font) (hxft : font.xft_ft.isSome)
    (hsep : b.separator = b.sepChars) (hL : List.Forall₂ (List.Forall₂ BarElement.Moved) L L')
    (hR : List.Forall₂ (List.Forall₂ BarElement.Moved) R R') (hb : b.renderAllElements L R = .ok f)
    (hcovers : Covers c.xftChar f.bar) :
    Meets (Stuck c.xftChar)
      (fun f' => c.attrs = b.attrs ∨ (painted L ++ painted R).head? ≠ some none →
        f'.left = f.left ∧ f'.right = f.right)
      (c.renderAllElements L' R') := by
  have hused : b.fontUsed 32 = font := BarConfig.fontUsed_of_fontFor hspace
  obtain ⟨i, hselect, hselect'⟩ := h.selectDrawableFont (u := 32) (.inl (by rw [hspace]; rfl))
  rw [renderAllElements, hselect] at hb
  rw [renderAllElements, hselect']
  obtain ⟨⟨b₁, margin⟩, hmargin, hb⟩ := bind_eq_ok_iff.mp hb
  obtain ⟨⟨b₂, x₂, left⟩, hleft, hb⟩ := bind_eq_ok_iff.mp hb
  obtain ⟨⟨b₃, w⟩, hw, hb⟩ := bind_eq_ok_iff.mp hb
  obtain ⟨⟨b₄, x₄, right⟩, hright, hb⟩ := bind_eq_ok_iff.mp hb
  obtain rfl := Except.ok.inj hb
  have hnoted : Follows c.xftChar { b with offsetYIndex := i } { c with offsetYIndex := i } :=
    ⟨h.noted i, rfl⟩
  -- what is known in the end is what was known after each part
  have hlater₁ := (xftCharWidth_ok (b := { b with offsetYIndex := i })
    (fun f hf => (BarConfig.fontUsed_of_fontFor hf).symm) hmargin).1
  have hcoherent₁ := hlater₁.coherent hnoted.coherent
  have hsep₁ : b₁.separator = b₁.sepChars := by
    rw [hlater₁.separator, hlater₁.config]
    exact hsep
  have hlater₂ := (renderModules_ok hcoherent₁ hsep₁ hleft).1
  have hsep₂ : b₂.separator = b₂.sepChars := by rw [hlater₂.separator, hsep₁, hlater₂.config]
  have hcoherent₂ := hlater₂.coherent hcoherent₁
  have hlater₃ := separatorWidth_later 4 hw
  have hsep₃ : b₃.separator = b₃.sepChars := by rw [hlater₃.separator, hsep₂, hlater₃.config]
  have hcovers₃ := hcovers.back (renderModules_ok (hlater₃.coherent hcoherent₂) hsep₃ hright).1
  have hcovers₂ := hcovers₃.back hlater₃
  have hcovers₁ := hcovers₂.back hlater₂
  -- the margin
  refine (hnoted.xftCharWidth (u := 32) (by rw [hspace, ← hused]) (by rwa [← hused] at hxft)
    hmargin hcovers₁).bind ?_
  rintro ⟨c₁, margin'⟩ hmargin' hpost
  obtain ⟨rfl, hfollows₁⟩ : margin' = margin ∧ Follows c.xftChar b₁ c₁ := hpost
  have hattrs₁ : c₁.attrs = b₁.attrs ↔ c.attrs = b.attrs := by
    rw [(xftCharWidth_learns hmargin).quiet.attrs, (xftCharWidth_learns hmargin').quiet.attrs]
  -- the left side
  refine (renderModules_follows hL hfollows₁ hsep₁ hleft hcovers₂).bind ?_
  rintro ⟨c₂, x₂', left'⟩ - hpost
  obtain ⟨rfl, hsame, hfollows₂⟩ : x₂' = x₂ ∧
    (c₁.attrs = b₁.attrs ∨ (painted L).head? ≠ some none → left' = left ∧
      (c₁.attrs = b₁.attrs ∨ painted L ≠ [] → c₂.attrs = b₂.attrs)) ∧
    Follows c.xftChar b₂ c₂ := hpost
  -- the separator, measured anew
  refine (separatorWidth_follows 4 hfollows₂ hw hcovers₃).bind ?_
  rintro ⟨c₃, w'⟩ hw' hpost
  obtain ⟨rfl, hfollows₃⟩ : w' = w ∧ Follows c.xftChar b₃ c₃ := hpost
  -- the right side
  have hlen : R'.length = R.length := hR.length_eq.symm
  simp only [hfollows₁.config, totalWidth_moved hR, hlen]
  refine (renderModules_follows hR hfollows₃ hsep₃ hright hcovers).bind ?_
  rintro ⟨c₄, x₄', right'⟩ - hpost hfirst
  obtain ⟨-, hsame', -⟩ : x₄' = x₄ ∧
    (c₃.attrs = b₃.attrs ∨ (painted R).head? ≠ some none → right' = right ∧
      (c₃.attrs = b₃.attrs ∨ painted R ≠ [] → c₄.attrs = b₄.attrs)) ∧
    Follows c.xftChar b₄ c₄ := hpost
  obtain ⟨rfl, hkept⟩ := hsame <| by
    rw [hattrs₁]
    refine hfirst.imp_right fun hne hhead => hne ?_
    rw [List.head?_append, hhead]
    rfl
  obtain ⟨rfl, -⟩ := hsame' <| by
    rw [(separatorWidth_quiet 4 hw).attrs, (separatorWidth_quiet 4 hw').attrs]
    by_cases hnil : painted L = []
    · rw [hnil, List.nil_append] at hfirst
      exact hfirst.imp_left fun hattrs => hkept (.inl (hattrs₁.mpr hattrs))
    · exact .inl (hkept (.inr hnil))
  exact ⟨rfl, rfl⟩

end Bar

end Photonbar
