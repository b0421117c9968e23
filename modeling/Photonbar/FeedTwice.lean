import Photonbar.FontUse
import Photonbar.FrameColours

/-!
# The picture of a frame, and of the next one (`bar.h`)

`feed` clears the pixmap with what `gc[GC_CLEAR]` holds, parses and paints. The context is left by
the frame before: it holds the background of what was painted last. So a second frame of the same
elements is cleared in that colour, and it starts with the attributes of the element that was
painted last. `Settled` is the condition under which neither matters (`feed_twice`).

A `Picture` has a colour for every pixel, and painting a frame is a function of pictures, with the
glyphs as a parameter. `First` collects what is known of the first frame of a new bar;
`First.again` says that the second one renders the same elements on a bar that is akin, and then it
draws the same, unless a separator comes first and is painted with other attributes
(`First.again_iff`). The three colours of a bar behave alike, and are treated as one `Coloring`.
-/

namespace Photonbar

variable {H : Type}

/-- A pixmap: the colour of each pixel. -/
abbrev Picture := Int → Int → Color

/-- `fillRect`: X keeps positions in 16 bits, with a sign, and sizes in 16 bits. -/
def fillRect (color : Color) (x y width height : Int) (p : Picture) : Picture := fun i j =>
  let x := (Int16.ofInt x).toInt
  let y := (Int16.ofInt y).toInt
  if x ≤ i ∧ i < x + (UInt16.ofInt width).toNat ∧ y ≤ j ∧ j < y + (UInt16.ofInt height).toNat then
    color
  else p i j

/-- `drawLines`. -/
def drawLines (cfg : BarConfig) (attrs : Attrs) (gcAttr : Color) (x w : Int) (p : Picture) :
    Picture :=
  let p := if attrs.overl then fillRect gcAttr x 0 w cfg.bu p else p
  if attrs.underl then fillRect gcAttr x (cfg.bh - cfg.bu) w cfg.bu p else p

/-- What `drawShift` paints. -/
def Shift.paint (cfg : BarConfig) (s : Shift) (p : Picture) : Picture :=
  drawLines cfg s.attrs s.gcAttr s.x s.w (fillRect s.gcClear s.x 0 s.w cfg.bh p)

section

/- What X and Xft draw of a character, over what is there. -/
variable (glyph : Cell → Picture → Picture)

/-- What `drawChar` paints. -/
def Cell.paint (cfg : BarConfig) (p : Picture) (cell : Cell) : Picture :=
  drawLines cfg cell.attrs cell.gcAttr cell.x cell.chWidth
    (glyph cell (fillRect cell.gcClear cell.x 0 cell.chWidth cfg.bh p))

/-- What `renderElement` paints. -/
def Rendered.paint (cfg : BarConfig) (p : Picture) (r : Rendered H) : Picture :=
  r.painting.cells.foldl (Cell.paint glyph cfg)
    (match r.painting.shift with
    | some s => s.paint cfg p
    | none => p)

/-- What is painted of a module, with the separator behind it. -/
def RenderedModule.paint (cfg : BarConfig) (p : Picture) (m : RenderedModule H) : Picture :=
  let p := m.elements.foldl (Rendered.paint glyph cfg) p
  match m.separator with
  | some s => s.cells.foldl (Cell.paint glyph cfg) p
  | none => p

/-- What a frame paints. -/
def Frame.paint (cfg : BarConfig) (f : Frame H) (p : Picture) : Picture :=
  (f.left ++ f.right).foldl (RenderedModule.paint glyph cfg) p

/-- `feed`, and the picture that it leaves in the pixmap of the first monitor. -/
def Bar.feed (b : Bar) (leftModules rightModules : List (List (BarElement H))) :
    Except Fault (Frame H × Picture) := do
  let f ← b.parseModules leftModules rightModules
  return (f, f.paint glyph b.toBarConfig fun _ _ => b.gcClear)

end

/-- If a separator is painted before any element, the last element is not underlined. -/
def FirstPlain (L R : List (List (BarElement H))) : Prop :=
  (painted L ++ painted R).head? = some none → lastUnderlined (painted L ++ painted R) = false

/-- And the last thing that is painted has the default background. -/
structure Settled (cfg : BarConfig) (L R : List (List (BarElement H))) : Prop where
  background : lastBackground cfg (painted L ++ painted R) = cfg.defaultBackgroundColor
  plain : FirstPlain L R

/-- The attributes of the first character of the first separator. -/
def Frame.separatorAttrs (f : Frame H) : Option Attrs :=
  (((f.left ++ f.right).findSome? (·.separator)).bind (·.cells.head?)).map (·.attrs)

/-- A pixel that a frame leaves as it is. -/
def Frame.Leaves (glyph : Cell → Picture → Picture) (cfg : BarConfig) (f : Frame H) (i j : Int) :
    Prop :=
  ∀ p, f.paint glyph cfg p i j = p i j

/-! ## What is painted of elements that look the same -/

theorem painted_map {α β : Type} (f : α → β) (ms : List (List α)) :
    (painted ms).map (Option.map f) = painted (ms.map (List.map f)) := by
  induction ms with
  | nil => rfl
  | cons es ms ih =>
    cases ms with
    | nil => simp [painted]
    | cons es' ms =>
      simp only [painted, List.map_cons, List.map_append, List.map_map] at ih ⊢
      rw [ih]
      rfl

theorem flatten_eq_nil_of_painted {α : Type} {ms : List (List α)} (h : painted ms = []) :
    ms.flatten = [] := by
  rcases ms with _ | ⟨es, _ | ⟨es', ms⟩⟩
  · rfl
  · simpa [painted] using h
  · simp [painted] at h

theorem mem_flatten_of_painted {α : Type} {e : α} (ms : List (List α)) (h : some e ∈ painted ms) :
    e ∈ ms.flatten := by
  induction ms with
  | nil => cases h
  | cons es ms ih =>
    cases ms with
    | nil => simpa [painted] using h
    | cons es' ms =>
      simp only [painted, List.mem_append, List.mem_map, Option.some.injEq, exists_eq_right,
        List.mem_cons, reduceCtorEq, false_or] at h
      rw [List.flatten_cons]
      exact List.mem_append.mpr (h.imp_right ih)

/-- The last background is a matter of looks. -/
theorem lastBackground_look (cfg : BarConfig) (ps : List (Option (BarElement H))) :
    lastBackground cfg ps =
      match (ps.map (Option.map BarElement.look)).getLast? with
      | some (some l) =>
        if l.backgroundColor ≠ .unset then l.backgroundColor else cfg.defaultBackgroundColor
      | _ => cfg.defaultBackgroundColor := by
  rw [lastBackground, List.getLast?_map]
  rcases ps.getLast? with _ | _ | e <;> rfl

/-- And so is the last underline. -/
theorem lastUnderlined_look (ps : List (Option (BarElement H))) :
    lastUnderlined ps =
      ((ps.map (Option.map BarElement.look)).filterMap id).getLast?.any (·.underline) := by
  have hlooks : (ps.map (Option.map BarElement.look)).filterMap id =
      (ps.filterMap id).map BarElement.look := by
    rw [List.filterMap_map, List.map_filterMap]
    rfl
  rw [lastUnderlined, hlooks, List.getLast?_map]
  cases (ps.filterMap id).getLast? <;> rfl

theorem head?_look (ps : List (Option (BarElement H))) :
    ps.head? = some none ↔ (ps.map (Option.map BarElement.look)).head? = some none := by
  rw [List.head?_map]
  rcases ps.head? with _ | _ | e <;> simp

/-- Elements that look the same, module by module. -/
theorem map_look {Rel : BarElement H → BarElement H → Prop}
    (hrel : ∀ e e', Rel e e' → e'.look = e.look) {ms ms' : List (List (BarElement H))}
    (h : List.Forall₂ (List.Forall₂ Rel) ms ms') :
    ms'.map (List.map BarElement.look) = ms.map (List.map BarElement.look) := by
  refine (map_eq_of_forall₂ (h.imp fun es es' hes => ?_)).symm
  exact map_eq_of_forall₂ (hes.imp fun e e' he => (hrel e e' he).symm)

namespace Bar

variable {b b' b₁ b₂ : Bar} {es es₂ : List (BarElement H)} {ps : List (Option (BarElement H))}

/-! ## The colours after the next parsing -/

/-- One of the three colours of a bar: where it is kept, what an element asks for, what it is by
default, and what parsing and painting make of it. -/
structure Coloring (H : Type) (cfg : BarConfig) where
  get : Bar → Color
  sel : Look → Color
  dflt : Color
  quiet : ∀ {b b' : Bar}, Quiet b b' → get b' = get b
  parsed : ∀ (es : List (BarElement H)) (b : Bar),
    get (es.foldl applyColors b) = lastSet (get b) (es.map fun e => sel e.look)
  element : ∀ (b : Bar) (e : BarElement H), b.toBarConfig = cfg → sel e.look = .unset →
    get (b.elementColors e) = dflt
  separator : ∀ b : Bar, b.toBarConfig = cfg → get b = dflt → get b.separatorColors = dflt

/-- The foreground. -/
def foregroundColoring (H : Type) (cfg : BarConfig) : Coloring H cfg where
  get b := b.foregroundColor
  sel l := l.foregroundColor
  dflt := cfg.defaultForegroundColor
  quiet h := by
    obtain ⟨_, _, _, rfl⟩ := h
    rfl
  parsed es b := by
    obtain ⟨_, _, _, _, _, heq⟩ := foldl_applyColors_eq es b
    rw [heq]
    rfl
  element b e hcfg hunset := by
    obtain ⟨_, _, _, _, _, heq⟩ := b.elementColors_eq e
    rw [heq, ← hcfg]
    exact if_neg (not_not.mpr hunset)
  separator b hcfg _ := congrArg BarConfig.defaultForegroundColor hcfg

/-- The background. -/
def backgroundColoring (H : Type) (cfg : BarConfig) : Coloring H cfg where
  get b := b.backgroundColor
  sel l := l.backgroundColor
  dflt := cfg.defaultBackgroundColor
  quiet h := by
    obtain ⟨_, _, _, rfl⟩ := h
    rfl
  parsed es b := by
    obtain ⟨_, _, _, _, _, heq⟩ := foldl_applyColors_eq es b
    rw [heq]
    rfl
  element b e hcfg hunset := by
    obtain ⟨_, _, _, _, _, heq⟩ := b.elementColors_eq e
    rw [heq, ← hcfg]
    exact if_neg (not_not.mpr hunset)
  separator b hcfg _ := congrArg BarConfig.defaultBackgroundColor hcfg

/-- The underline. -/
def underlineColoring (H : Type) (cfg : BarConfig) : Coloring H cfg where
  get b := b.underlineColor
  sel l := l.underlineColor
  dflt := cfg.defaultUnderlineColor
  quiet h := by
    obtain ⟨_, _, _, rfl⟩ := h
    rfl
  parsed es b := by
    obtain ⟨_, _, _, _, _, heq⟩ := foldl_applyColors_eq es b
    rw [heq]
    rfl
  element b e hcfg hunset := by
    obtain ⟨_, _, _, _, _, heq⟩ := b.elementColors_eq e
    rw [heq, ← hcfg]
    exact if_neg fun h => h.2 hunset
  separator b _ hkeep := hkeep

/-- **A colour after the next parsing** is what it was after this one: either an element sets it,
or it is the default all the time. -/
theorem Coloring.next {cfg : BarConfig} (col : Coloring H cfg) (hcfg : b₁.toBarConfig = cfg)
    (hb : col.get b = col.dflt) (h₁ : Quiet (es.foldl applyColors b) b₁)
    (h₂ : Quiet (ps.foldl colored b₁) b₂)
    (hps : ∀ e, some e ∈ ps → ∃ e₀ ∈ es, e.look = e₀.look)
    (hes : es₂.map BarElement.look = es.map BarElement.look) :
    col.get (es₂.foldl applyColors b₂) = col.get b₁ := by
  have hsel : es₂.map (fun e => col.sel e.look) = es.map fun e => col.sel e.look := by
    have hmap := congrArg (List.map col.sel) hes
    rwa [List.map_map, List.map_map] at hmap
  rw [col.parsed, hsel, col.quiet h₁, col.parsed]
  refine lastSet_congr fun hunset => ?_
  rw [List.forall_mem_map] at hunset
  -- no element sets the colour: painting keeps the default
  have hfirst : col.get b₁ = col.dflt := by
    rw [col.quiet h₁, col.parsed, lastSet_unset (List.forall_mem_map.mpr hunset), hb]
  have hkeeps : (ps.foldl colored b₁).toBarConfig = cfg ∧
      col.get (ps.foldl colored b₁) = col.dflt := by
    refine foldl_colored_keeps (P := fun b' => b'.toBarConfig = cfg ∧ col.get b' = col.dflt) ps
      ?_ ?_ ⟨hcfg, hfirst⟩
    · rintro b' e he ⟨hb', -⟩
      obtain ⟨e₀, he₀, hlook⟩ := hps e he
      refine ⟨(b'.elementColors_config e).trans hb', col.element b' e hb' ?_⟩
      rw [hlook]
      exact hunset e₀ he₀
    · rintro b' ⟨hb', hget⟩
      exact ⟨hb', col.separator b' hb' hget⟩
  rw [col.quiet h₂, hkeeps.2, hb]

/-! ## A separator that comes first -/

theorem renderSeparatorAt_attrs {x y : Int} {cells : List Cell} (hsep : b.separator = b.sepChars)
    (h : b.renderSeparatorAt x = .ok (b', y, cells)) :
    cells.head?.map (·.attrs) = some b.attrs := by
  rw [renderSeparatorAt_eq_separatorChars] at h
  cases cells with
  | nil =>
    -- the separator has characters
    rw [hsep, BarConfig.sepChars, separatorText, List.map_cons, separatorChars] at h
    split at h
    · cases h
    · obtain ⟨⟨b₁, cell⟩, -, h⟩ := bind_eq_ok_iff.mp h
      obtain ⟨⟨b₂, stop, cells⟩, -, h⟩ := bind_eq_ok_iff.mp h
      cases h
  | cons cell cells =>
    have hattrs := ((separatorChars_quiet _ h).2 cell List.mem_cons_self).attrs
    exact congrArg some hattrs

/-- A separator that is painted before any element has the attributes that the bar had. -/
theorem renderModules_separatorAttrs {modules : List (List (BarElement H))} {x y : Int}
    {ms : List (RenderedModule H)} (hsep : b.separator = b.sepChars)
    (hfirst : (painted modules).head? = some none)
    (h : b.renderModules x modules = .ok (b', y, ms)) :
    ((ms.findSome? (·.separator)).bind (·.cells.head?)).map (·.attrs) = some b.attrs := by
  cases renderModules_eq_ok_iff.mp h with
  | nil => cases hfirst
  | @last _ _ _ _ es => cases es <;> cases hfirst
  | cons hrow hsepAt =>
    cases renderElements_eq_ok_iff.mp hrow with
    | nil => exact renderSeparatorAt_attrs hsep hsepAt
    | cons => cases hfirst

/-- Where nothing is painted there is no separator. -/
theorem renderModules_of_painted_nil {modules : List (List (BarElement H))} {x y : Int}
    {ms : List (RenderedModule H)} (hnil : painted modules = [])
    (h : b.renderModules x modules = .ok (b', y, ms)) :
    b' = b ∧ ms.findSome? (·.separator) = none := by
  cases renderModules_eq_ok_iff.mp h with
  | nil => exact ⟨rfl, rfl⟩
  | last hrow =>
    cases renderElements_eq_ok_iff.mp hrow with
    | nil => exact ⟨rfl, rfl⟩
    | cons => cases hnil
  | @cons _ _ _ _ _ _ _ _ es => cases es <;> cases hnil

theorem renderAllElements_separatorAttrs {L R : List (List (BarElement H))} {f : Frame H}
    (hb : b.Kept) (hfirst : (painted L ++ painted R).head? = some none)
    (h : b.renderAllElements L R = .ok f) : f.separatorAttrs = some b.attrs := by
  obtain ⟨b₁, margin, b₂, x, b₃, w, y, hmargin, hleft, hw, hright⟩ := renderAllElements_eq_ok h
  have hquiet₁ := (b.selectDrawableFont_quiet 32).trans (xftCharWidth_learns hmargin).quiet
  have hkept₁ := (margin_later hmargin).kept hb
  rw [Frame.separatorAttrs, List.findSome?_append]
  by_cases hnil : painted L = []
  · obtain ⟨rfl, hnone⟩ := renderModules_of_painted_nil hnil hleft
    have hkept₃ := (separatorWidth_ok hkept₁.coherent hw).1.kept hkept₁
    rw [hnil, List.nil_append] at hfirst
    rw [hnone, Option.none_or, renderModules_separatorAttrs hkept₃.separator hfirst hright,
      (separatorWidth_quiet 4 hw).attrs, hquiet₁.attrs]
  · have hfirstL : (painted L).head? = some none := by
      rwa [List.head?_append_of_ne_nil _ hnil] at hfirst
    have hattrs := renderModules_separatorAttrs hkept₁.separator hfirstL hleft
    cases hsome : f.left.findSome? (·.separator) with
    | none => rw [hsome] at hattrs; cases hattrs
    | some s => rw [← hsome, Option.or_of_isSome (by rw [hsome]; rfl), hattrs, hquiet₁.attrs]

/-! ## Two frames -/

/-- The new bar is as `newBar`, but for the table, the font noted last and the separator. -/
theorem newBar_quiet {cfg : BarConfig} (h : cfg.newBar.initSeparator = .ok b) :
    ∃ separator, Quiet { cfg.newBar with separator } b := by
  obtain ⟨⟨b₁, chars⟩, hloop, h⟩ := bind_eq_ok_iff.mp h
  obtain rfl := Except.ok.inj h
  obtain ⟨_, _, _, rfl⟩ := separatorLoop_quiet 2 hloop
  exact ⟨chars, _, _, _, rfl⟩

/-- A margin that was measured was so in a font of Xft that has a space. -/
theorem font_of_margin {w : Int} (hb : b.Coherent) (hnamed : b.Named)
    (h : (b.selectDrawableFont 32).1.xftCharWidth 32 (b.selectDrawableFont 32).2 = .ok (b', w)) :
    ∃ f, b.fontFor 32 = some f ∧ f.xft_ft.isSome := by
  obtain ⟨i, hselect⟩ := b.selectDrawableFont_eq 32
  rw [hselect] at h
  obtain ⟨slot, hslot, ⟨-, f, xft, hfont, hxft, -⟩ | ⟨hempty, -⟩⟩ := xftCharWidth_cases h
  · exact ⟨f, hfont, by rw [hxft]; rfl⟩
  · -- the space is known: it has a font, and its width is one of Xft
    obtain ⟨hlt, hstop⟩ := ProbeTable.probe_eq_some (home_lt 32) hslot
    have hkey : b.xftChar slot = 32 := hstop.resolve_left hempty
    obtain ⟨f, hf⟩ := Option.isSome_iff_exists.mp (hnamed 32 (by decide) ⟨slot, hlt, hkey⟩)
    obtain ⟨-, xft, hxft, -⟩ := hb slot hlt hempty
    rw [hkey, BarConfig.fontUsed_of_fontFor hf] at hxft
    exact ⟨f, hf, by rw [hxft]; rfl⟩

end Bar

/-- What each member of one list gives for the other. -/
theorem forall_mem_of_forall₂ {α β : Type} {R : α → β → Prop} {P : α → Prop} {Q : β → Prop}
    {xs : List α} {ys : List β} (h : List.Forall₂ R xs ys) (hR : ∀ x y, R x y → P x → Q y)
    (hP : ∀ x ∈ xs, P x) : ∀ y ∈ ys, Q y := by
  induction h with
  | nil => exact fun _ hy => (List.not_mem_nil hy).elim
  | cons hxy _ ih =>
    obtain ⟨hx, hxs⟩ := List.forall_mem_cons.mp hP
    exact List.forall_mem_cons.mpr ⟨hR _ _ hxy hx, ih hxs⟩

theorem painted_look {ms ms' : List (List (BarElement H))}
    (h : ms'.map (List.map BarElement.look) = ms.map (List.map BarElement.look)) :
    (painted ms').map (Option.map BarElement.look) =
      (painted ms).map (Option.map BarElement.look) := by
  rw [painted_map, painted_map, h]

theorem flatten_look {ms ms' : List (List (BarElement H))}
    (h : ms'.map (List.map BarElement.look) = ms.map (List.map BarElement.look)) :
    ms'.flatten.map BarElement.look = ms.flatten.map BarElement.look := by
  rw [List.map_flatten, List.map_flatten, h]

theorem clean_of_parsed {ms ms' : List (List (BarElement H))}
    (h : List.Forall₂ (List.Forall₂ BarElement.ParsedFrom) ms ms') :
    ∀ es ∈ ms', ∀ e ∈ es, e.dirtyContent = false := by
  refine forall_mem_of_forall₂ (P := fun _ => True) h (fun _ _ hes _ => ?_) fun _ _ => trivial
  exact forall_mem_of_forall₂ (P := fun _ => True) hes (fun _ _ he _ => he.clean) fun _ _ => trivial

namespace Bar

variable {cfg : BarConfig} {b b₁ : Bar} {L R L₁ R₁ : List (List (BarElement H))} {f : Frame H}

/-- The first frame of a new bar `b`: `L` and `R` are parsed to `L₁` and `R₁`, and rendered
on `b₁`. -/
structure First (cfg : BarConfig) (L R : List (List (BarElement H))) (b b₁ : Bar)
    (L₁ R₁ : List (List (BarElement H))) (f : Frame H) : Prop where
  new : cfg.newBar.initSeparator = .ok b
  reaches : Reaches H b b₁
  quiet : Quiet ((L.flatten ++ R.flatten).foldl applyColors b) b₁
  left : List.Forall₂ (List.Forall₂ BarElement.ParsedFrom) L L₁
  right : List.Forall₂ (List.Forall₂ BarElement.ParsedFrom) R R₁
  frame : b₁.renderAllElements L₁ R₁ = .ok f
  margin : ∃ font, b₁.fontFor 32 = some font ∧ font.xft_ft.isSome

theorem exists_first (hnew : cfg.newBar.initSeparator = .ok b) (hf : b.parseModules L R = .ok f) :
    ∃ b₁ L₁ R₁, First cfg L R b b₁ L₁ R₁ f := by
  obtain ⟨b₁, L₁, R₁, hreach, hquiet, hnamed, hL, hR, hframe⟩ := parseModules_parsed hf
  have hstart : Reachable H b := .start (fun _ _ => rfl) hnew
  have hkept := (hstart.reaches hreach).kept
  have hmargin : ∃ font, b₁.fontFor 32 = some font ∧ font.xft_ft.isSome := by
    obtain ⟨_, _, _, _, _, _, _, hmargin, -⟩ := renderAllElements_eq_ok hframe
    exact font_of_margin hkept.coherent (hnamed (newBar_named hnew)) hmargin
  exact ⟨b₁, L₁, R₁, hnew, hreach, hquiet, hL, hR, hframe, hmargin⟩

namespace First

variable (h : First cfg L R b b₁ L₁ R₁ f)

include h

theorem reachable : Reachable H b := .start (fun _ _ => rfl) h.new

theorem kept : b₁.Kept := (h.reachable.reaches h.reaches).kept

theorem config : b.toBarConfig = cfg := by
  obtain ⟨separator, _, _, _, rfl⟩ := newBar_quiet h.new
  rfl

theorem config₁ : b₁.toBarConfig = cfg := by
  obtain ⟨n, hlater⟩ := h.reaches.later h.reachable.kept
  exact hlater.config.trans h.config

theorem attrs : b₁.attrs = {} := by
  obtain ⟨_, _, _, _, _, heq⟩ := foldl_applyColors_eq (L.flatten ++ R.flatten) b
  obtain ⟨separator, hquiet⟩ := newBar_quiet h.new
  rw [h.quiet.attrs, heq]
  exact hquiet.attrs

/-- The frame is made from what was parsed. -/
theorem moved : List.Forall₂ (List.Forall₂ BarElement.Moved) L₁ f.leftModules ∧
    List.Forall₂ (List.Forall₂ BarElement.Moved) R₁ f.rightModules :=
  renderAllElements_moved h.frame

theorem later : Later (frameGlyphs L₁ R₁) b₁ f.bar :=
  (renderAllElements_ok h.kept.coherent h.kept.separator h.frame).1

theorem reachesFrame : Reaches H b f.bar := h.reaches.trans (renderAllElements_reaches h.frame)

theorem inSync : f.bar.InSync := h.reachesFrame.inSync (newBar_inSync h.new)

/-- What was parsed looks as before. -/
theorem looks : (painted L₁ ++ painted R₁).map (Option.map BarElement.look) =
    (painted L ++ painted R).map (Option.map BarElement.look) := by
  have hL := map_look (fun _ _ he => BarElement.ParsedFrom.look he) h.left
  have hR := map_look (fun _ _ he => BarElement.ParsedFrom.look he) h.right
  rw [List.map_append, List.map_append, painted_look hL, painted_look hR]

theorem flatLooks : (L₁.flatten ++ R₁.flatten).map BarElement.look =
    (L.flatten ++ R.flatten).map BarElement.look := by
  have hL := map_look (fun _ _ he => BarElement.ParsedFrom.look he) h.left
  have hR := map_look (fun _ _ he => BarElement.ParsedFrom.look he) h.right
  rw [List.map_append, List.map_append, flatten_look hL, flatten_look hR]

/-- And so does what was rendered. -/
theorem frameLooks : (f.leftModules.flatten ++ f.rightModules.flatten).map BarElement.look =
    (L.flatten ++ R.flatten).map BarElement.look := by
  obtain ⟨hmovedL, hmovedR⟩ := h.moved
  have hL := map_look (fun _ _ he => BarElement.Moved.look_eq he) hmovedL
  have hR := map_look (fun _ _ he => BarElement.Moved.look_eq he) hmovedR
  rw [← h.flatLooks, List.map_append, List.map_append, flatten_look hL, flatten_look hR]

/-- What is painted looks like one of the elements. -/
theorem exists_look {e : BarElement H} (he : some e ∈ painted L₁ ++ painted R₁) :
    ∃ e₀ ∈ L.flatten ++ R.flatten, e.look = e₀.look := by
  have hmem : e ∈ L₁.flatten ++ R₁.flatten :=
    List.mem_append.mpr ((List.mem_append.mp he).imp (mem_flatten_of_painted L₁)
      (mem_flatten_of_painted R₁))
  have hlook : e.look ∈ (L₁.flatten ++ R₁.flatten).map BarElement.look := List.mem_map_of_mem hmem
  rw [h.flatLooks] at hlook
  obtain ⟨e₀, he₀, hlook⟩ := List.mem_map.mp hlook
  exact ⟨e₀, he₀, hlook.symm⟩

/-- The attributes that the frame leaves. -/
theorem frameAttrs :
    f.bar.attrs = { overl := false, underl := lastUnderlined (painted L ++ painted R) } := by
  rw [lastUnderlined_look, ← h.looks, ← lastUnderlined_look, ← foldl_colored_attrs _ h.attrs,
    ← (renderAllElements_colored h.frame).attrs]

/-- The colour that the next frame is cleared with. -/
theorem frameGcClear : f.bar.gcClear = lastBackground cfg (painted L ++ painted R) := by
  have hnil : painted L₁ ++ painted R₁ = [] → b₁.backgroundColor = b₁.defaultBackgroundColor := by
    intro hnil
    obtain ⟨hnilL, hnilR⟩ := List.append_eq_nil_iff.mp hnil
    have hflat := h.flatLooks
    rw [flatten_eq_nil_of_painted hnilL, flatten_eq_nil_of_painted hnilR] at hflat
    have hquiet := h.quiet
    rw [List.map_eq_nil_iff.mp hflat.symm, List.foldl_nil] at hquiet
    obtain ⟨separator, hnew⟩ := newBar_quiet h.new
    obtain ⟨_, _, _, rfl⟩ := hnew.trans hquiet
    rfl
  rw [lastBackground_look, ← h.looks, ← lastBackground_look, ← h.config₁,
    ← foldl_colored_background _ hnil, h.inSync.gcClear]
  exact (backgroundColoring H cfg).quiet (renderAllElements_colored h.frame)

/-- A colour for the next frame, if a new bar has its default. -/
theorem nextColor (col : Coloring H cfg) (hdflt : col.get b = col.dflt) :
    col.get ((f.leftModules.flatten ++ f.rightModules.flatten).foldl applyColors f.bar) =
      col.get b₁ :=
  col.next h.config₁ hdflt h.quiet (renderAllElements_colored h.frame) (fun _ => h.exists_look)
    h.frameLooks

/-- **The second frame** renders the same elements, on a bar that is akin. -/
theorem again : ∃ c L₂ R₂, Akin b₁ c ∧ c.attrs = f.bar.attrs ∧ Later 0 f.bar c ∧
    List.Forall₂ (List.Forall₂ BarElement.Moved) L₁ L₂ ∧
    List.Forall₂ (List.Forall₂ BarElement.Moved) R₁ R₂ ∧
    f.bar.parseModules f.leftModules f.rightModules = c.renderAllElements L₂ R₂ := by
  obtain ⟨hmovedL, hmovedR⟩ := h.moved
  obtain ⟨L₂, R₂, hL, hR, heq⟩ := f.bar.parseModules_clean
    (clean_of_parsed (parsed_moved h.left hmovedL))
    (clean_of_parsed (parsed_moved h.right hmovedR))
  obtain ⟨separator, hnew⟩ := newBar_quiet h.new
  have hforeground := h.nextColor (foregroundColoring H cfg)
    ((foregroundColoring H cfg).quiet hnew)
  have hbackground := h.nextColor (backgroundColoring H cfg)
    ((backgroundColoring H cfg).quiet hnew)
  have hunderline := h.nextColor (underlineColoring H cfg)
    ((underlineColoring H cfg).quiet hnew)
  have hreach : Reaches H b _ := h.reachesFrame.trans
    (foldl_applyColors_reaches (f.leftModules.flatten ++ f.rightModules.flatten) f.bar)
  obtain ⟨_, _, _, _, _, hfold⟩ :=
    foldl_applyColors_eq (f.leftModules.flatten ++ f.rightModules.flatten) f.bar
  have hlater : Later 0 f.bar
      ((f.leftModules.flatten ++ f.rightModules.flatten).foldl applyColors f.bar) := by
    rw [hfold]
    exact .of_eq rfl rfl rfl rfl
  have hakin := h.later.trans hlater
  refine ⟨_, L₂, R₂, ⟨hakin.config, hakin.separator, hforeground, hbackground, hunderline,
    h.kept.coherent, (h.reachable.reaches hreach).kept.coherent,
    h.reaches.inSync (newBar_inSync h.new), hreach.inSync (newBar_inSync h.new)⟩, ?_, hlater,
    moved_trans hmovedL hL, moved_trans hmovedR hR, heq⟩
  rw [hfold]

theorem head?_painted : (painted L₁ ++ painted R₁).head? = some none ↔
    (painted L ++ painted R).head? = some none := by
  rw [head?_look, h.looks, ← head?_look]

/-- On a bar that is akin, and later than the first frame, a frame of the same elements follows
the first one. -/
theorem follows {c : Bar} {L₂ R₂ : List (List (BarElement H))} (hakin : Akin b₁ c)
    (hlater : Later 0 f.bar c) (hL : List.Forall₂ (List.Forall₂ BarElement.Moved) L₁ L₂)
    (hR : List.Forall₂ (List.Forall₂ BarElement.Moved) R₁ R₂) :
    Meets (Stuck c.xftChar)
      (fun f' => c.attrs = b₁.attrs ∨ (painted L₁ ++ painted R₁).head? ≠ some none →
        f'.left = f.left ∧ f'.right = f.right)
      (c.renderAllElements L₂ R₂) := by
  obtain ⟨font, hfont, hxft⟩ := h.margin
  exact renderAllElements_follows hakin hfont hxft h.kept.separator hL hR h.frame hlater.known

/-- **When the second frame draws what the first one drew.** -/
theorem again_iff {f' : Frame H}
    (hf' : f.bar.parseModules f.leftModules f.rightModules = .ok f') :
    f'.left = f.left ∧ f'.right = f.right ↔ FirstPlain L R := by
  obtain ⟨c, L₂, R₂, hakin, hattrs, hlater, hL, hR, heq⟩ := h.again
  rw [heq] at hf'
  have hc : c.Kept := (h.later.trans hlater).kept h.kept
  refine ⟨?_, ?_⟩
  · rintro ⟨hleft, hright⟩ hfirst
    rw [← h.head?_painted] at hfirst
    have hfirst₂ : (painted L₂ ++ painted R₂).head? = some none := by
      have hlookL := map_look (fun _ _ he => BarElement.Moved.look_eq he) hL
      have hlookR := map_look (fun _ _ he => BarElement.Moved.look_eq he) hR
      rw [head?_look, List.map_append, painted_look hlookL, painted_look hlookR,
        ← List.map_append, ← head?_look]
      exact hfirst
    -- the separator that comes first has the attributes that the bar had
    have hsep := renderAllElements_separatorAttrs h.kept hfirst h.frame
    have hsep₂ := renderAllElements_separatorAttrs hc hfirst₂ hf'
    rw [Frame.separatorAttrs, hleft, hright, ← Frame.separatorAttrs, hsep, h.attrs, hattrs,
      h.frameAttrs] at hsep₂
    exact (congrArg Attrs.underl (Option.some.inj hsep₂)).symm
  · intro hplain
    have hfollows := h.follows hakin hlater hL hR
    refine hfollows.of_ok hf' ?_
    refine or_iff_not_imp_right.mpr fun hne => ?_
    rw [hattrs, h.frameAttrs, hplain (h.head?_painted.mp (not_not.mp hne)), h.attrs]

/-- The second frame is completed, if the table of widths is not full: all that it measures is
in the table. -/
theorem again_completes (hfree : 0 < f.bar.free) :
    ∃ f', f.bar.parseModules f.leftModules f.rightModules = .ok f' := by
  obtain ⟨c, L₂, R₂, hakin, -, hlater, hL, hR, heq⟩ := h.again
  rw [heq]
  apply (h.follows hakin hlater hL hR).exists_ok
  rintro fault ⟨-, hfull⟩
  have hroom := hlater.free
  have hfull : c.free = 0 := hfull
  omega

end First

end Bar

/-- **Two feeds in a row.** The second one draws what the first one drew if and only if
`FirstPlain`; a pixel that neither of them draws on is the same if and only if the last thing that
is painted has the default background; and with both the pictures are the same. The second feed is
completed if the table of widths has a free slot: it asks for no width that the first one has not
asked for. -/
theorem feed_twice (glyph : Cell → Picture → Picture) {cfg : BarConfig} {b : Bar}
    {L R : List (List (BarElement H))} {f : Frame H} {p : Picture}
    (hnew : cfg.newBar.initSeparator = .ok b) (h : b.feed glyph L R = .ok (f, p)) :
    (0 < f.bar.free → ∃ r, f.bar.feed glyph f.leftModules f.rightModules = .ok r) ∧
    ∀ f' p', f.bar.feed glyph f.leftModules f.rightModules = .ok (f', p') →
      (f'.left = f.left ∧ f'.right = f.right ↔ FirstPlain L R) ∧
      (∀ i j, f.Leaves glyph cfg i j → f'.Leaves glyph cfg i j →
        (p' i j = p i j ↔
          lastBackground cfg (painted L ++ painted R) = cfg.defaultBackgroundColor)) ∧
      (Settled cfg L R → p' = p) := by
  obtain ⟨f₁, hf, h⟩ := bind_eq_ok_iff.mp h
  obtain ⟨rfl, rfl⟩ := Prod.mk.inj (Except.ok.inj h)
  obtain ⟨b₁, L₁, R₁, hfirst⟩ := Bar.exists_first hnew hf
  have hclear : b.gcClear = cfg.defaultBackgroundColor := by
    obtain ⟨separator, _, _, _, rfl⟩ := Bar.newBar_quiet hnew
    rfl
  refine ⟨fun hfree => ?_, fun f' p' h' => ?_⟩
  · obtain ⟨f', hf'⟩ := hfirst.again_completes hfree
    exact ⟨_, bind_eq_ok_iff.mpr ⟨f', hf', rfl⟩⟩
  · obtain ⟨f₂, hf', h'⟩ := bind_eq_ok_iff.mp h'
    obtain ⟨rfl, rfl⟩ := Prod.mk.inj (Except.ok.inj h')
    have hagain := hfirst.again_iff hf'
    rw [hfirst.config, hfirst.later.config, hfirst.config₁, hclear, hfirst.frameGcClear]
    refine ⟨hagain, fun i j hleaves hleaves' => ?_, fun hsettled => ?_⟩
    · rw [hleaves, hleaves']
    · obtain ⟨hleft, hright⟩ := hagain.mpr hsettled.plain
      rw [hsettled.background, Frame.paint, hleft, hright, ← Frame.paint]

/-- The first two feeds of a new bar; the glyphs are blank. -/
def BarConfig.feeds (cfg : BarConfig) (L R : List (List (BarElement H))) :
    Except Fault (Picture × Picture) := do
  let b ← cfg.newBar.initSeparator
  let (f, p) ← b.feed (fun _ p => p) L R
  let (_, p') ← f.bar.feed (fun _ p => p) f.leftModules f.rightModules
  return (p, p')

theorem exists_feeds {cfg : BarConfig} {L R : List (List (BarElement H))} {p p' : Picture}
    (h : cfg.feeds L R = .ok (p, p')) :
    ∃ b f f', cfg.newBar.initSeparator = .ok b ∧ b.feed (fun _ p => p) L R = .ok (f, p) ∧
      f.bar.feed (fun _ p => p) f.leftModules f.rightModules = .ok (f', p') := by
  obtain ⟨b, hnew, h⟩ := bind_eq_ok_iff.mp h
  obtain ⟨⟨f, q⟩, hfeed, h⟩ := bind_eq_ok_iff.mp h
  obtain ⟨⟨f', q'⟩, hfeed', h⟩ := bind_eq_ok_iff.mp h
  obtain ⟨rfl, rfl⟩ := Prod.mk.inj (Except.ok.inj h)
  exact ⟨b, f, f', hnew, hfeed, hfeed'⟩

theorem exists_feeds_at {cfg : BarConfig} {L R : List (List (BarElement H))} {i j : Int}
    {color color' : Color}
    (h : (cfg.feeds L R).toOption.map (fun ps => (ps.1 i j, ps.2 i j)) = some (color, color')) :
    ∃ b f p f' p', cfg.newBar.initSeparator = .ok b ∧ b.feed (fun _ p => p) L R = .ok (f, p) ∧
      f.bar.feed (fun _ p => p) f.leftModules f.rightModules = .ok (f', p') ∧
      p i j = color ∧ p' i j = color' := by
  cases hfeeds : cfg.feeds L R with
  | error fault => rw [hfeeds] at h; cases h
  | ok ps =>
    obtain ⟨b, f, f', hnew, hfeed, hfeed'⟩ := exists_feeds hfeeds
    rw [hfeeds] at h
    obtain ⟨hcolor, hcolor'⟩ := Prod.mk.inj (Option.some.inj h)
    exact ⟨b, f, ps.1, f', ps.2, hnew, hfeed, hfeed', hcolor, hcolor'⟩

/-- A space on red. -/
def redSpace : BarElement H := { textElement [32] with backgroundColor := ⟨0xffff0000⟩ }

/-- With an empty module behind the red space, and so a separator, the pictures are the same. -/
theorem feed_twice_separator :
    let cfg := (asciiSetup 10 100).toBarConfig
    ∃ p, cfg.feeds ([[redSpace], []] : List (List (BarElement Unit))) [] = .ok (p, p) := by
  intro cfg
  have hok : (cfg.feeds ([[redSpace], []] : List (List (BarElement Unit))) []).toOption.isSome := by
    decide +kernel
  cases hfeeds : cfg.feeds ([[redSpace], []] : List (List (BarElement Unit))) [] with
  | error fault => rw [hfeeds] at hok; cases hok
  | ok ps =>
    obtain ⟨p, p'⟩ := ps
    obtain ⟨b, f, f', hnew, hfeed, hfeed'⟩ := exists_feeds hfeeds
    have hsettled : Settled cfg ([[redSpace], []] : List (List (BarElement Unit))) [] :=
      ⟨rfl, fun hfirst => nomatch hfirst⟩
    obtain rfl := ((feed_twice _ hnew hfeed).2 f' p' hfeed').2.2 hsettled
    exact ⟨p', rfl⟩

/-- Without the separator the next frame is cleared in red. And of an empty module and an
underlined element, the second frame underlines the separator between them as well. -/
theorem second_feed_differs :
    let cfg := (asciiSetup 10 100).toBarConfig
    let underlined : BarElement Unit := { textElement [32] with underline := true }
    (∃ b f p f' p', cfg.newBar.initSeparator = .ok b ∧
      b.feed (fun _ p => p) ([[redSpace]] : List (List (BarElement Unit))) [] = .ok (f, p) ∧
      f.bar.feed (fun _ p => p) f.leftModules f.rightModules = .ok (f', p') ∧
      p 50 5 = cfg.defaultBackgroundColor ∧ p' 50 5 = ⟨0xffff0000⟩) ∧
    ∃ b f p f' p', cfg.newBar.initSeparator = .ok b ∧
      b.feed (fun _ p => p) [[], [underlined]] [] = .ok (f, p) ∧
      f.bar.feed (fun _ p => p) f.leftModules f.rightModules = .ok (f', p') ∧
      p 5 23 = cfg.defaultBackgroundColor ∧ p' 5 23 = cfg.defaultUnderlineColor :=
  ⟨exists_feeds_at (by decide +kernel), exists_feeds_at (by decide +kernel)⟩

end Photonbar
