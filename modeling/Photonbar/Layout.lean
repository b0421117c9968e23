import Photonbar.Painting

/-!
# Where a frame puts things (`bar.h`)

`Row` is about the elements of one module and `Side` about the modules of one side, with the
separators between them: what they are made from, where they start and end, and what is painted. A
position is kept in `beginX` through a function `keep`: modulo 2^16 in general, unchanged where
everything fits. So one induction over the loops serves both.

`renderElements_ok` and `renderModules_ok` take the loops apart, and `renderAllElements_ok` is the
whole frame: the left side starts at 0, and the right side where its width and the margin leave it
room at the end. All of that is said in terms of the fonts and of the elements alone, though the
code goes through the table of widths; the table only has to be coherent. The separator is measured
three times over, by `initSeparator`, by `renderAllElements` and as it is drawn, and each time it
comes out as `sepWidth`.
-/

namespace Photonbar

variable {H : Type}

/-! ## The separator -/

/-- The characters of the separator. -/
def separatorText : List UInt32 := [0x20, 0x258F]

namespace BarConfig

/-- A character as `initSeparator` keeps it. -/
def sepChar (cfg : BarConfig) (c : UInt32) : SeparatorChar :=
  ⟨cfg.shown c, cfg.fontFor c, cfg.measured c⟩

/-- The separator as `initSeparator` keeps it. -/
def sepChars (cfg : BarConfig) : List SeparatorChar := separatorText.map cfg.sepChar

/-- The width of the separator. -/
def sepWidth (cfg : BarConfig) : Int := (separatorText.map cfg.measured).sum

/-- Characters, each with the distance to the next that was measured. -/
def sepGlyphs (cfg : BarConfig) (cs : List UInt32) : List (UInt32 × Int) :=
  cs.map fun c => (c, cfg.measured c)

end BarConfig

namespace Bar

variable {b b' : Bar} {x y : Int}

/-- A character of the separator is decoded and measured. -/
theorem separatorLoop_succ {n p k : Nat} {c : UInt32} {chars : List SeparatorChar}
    (hbyte : sep_string p ≠ 0)
    (hdecode : decodeUtf8Char (fun i => .ok (sep_string (p + i))) = .ok ⟨c, k⟩) (hb : b.Coherent)
    (h : b.separatorLoop (n + 1) p = .ok (b', chars)) :
    ∃ b₁ chars', Later 1 b b₁ ∧ chars = b.sepChar c :: chars' ∧
      b₁.separatorLoop n (p + k) = .ok (b', chars') := by
  obtain ⟨i, hselect⟩ := b.selectDrawableFont_eq c
  rw [separatorLoop, if_neg hbyte] at h
  obtain ⟨result, hresult, h⟩ := bind_eq_ok_iff.mp h
  obtain rfl : ⟨c, k⟩ = result := Except.ok.inj (hdecode.symm.trans hresult)
  rw [hselect] at h
  obtain ⟨⟨b₁, w⟩, hw, h⟩ := bind_eq_ok_iff.mp h
  obtain ⟨⟨b₂, chars'⟩, hrest, h⟩ := bind_eq_ok_iff.mp h
  obtain ⟨rfl, rfl⟩ := Prod.mk.inj (Except.ok.inj h)
  have hsel : Later 0 b { b with offsetYIndex := i } := .of_eq rfl rfl rfl rfl
  obtain ⟨hlater, hmeasured, -⟩ :=
    getUtf8CharWidth_ok (b := { b with offsetYIndex := i }) (c := c) hw
  obtain rfl := hmeasured (hsel.coherent hb)
  exact ⟨b₁, chars', hsel.trans hlater, rfl, hrest⟩

/-- **What `initSeparator` keeps.** -/
theorem initSeparator_ok (hb : b.Coherent) (h : b.initSeparator = .ok b') :
    b'.toBarConfig = b.toBarConfig ∧ b'.Coherent ∧ b'.separator = b.sepChars ∧
      b.free ≤ b'.free + 2 := by
  obtain ⟨⟨b₁, chars⟩, hloop, h⟩ := bind_eq_ok_iff.mp h
  obtain rfl := Except.ok.inj h
  obtain ⟨b₂, chars₂, hlater₂, rfl, hloop₂⟩ :=
    separatorLoop_succ (c := 0x20) (k := 1) (by decide) (by decide) hb hloop
  obtain ⟨b₃, chars₃, hlater₃, rfl, hloop₃⟩ :=
    separatorLoop_succ (c := 0x258F) (k := 3) (by decide) (by decide) (hlater₂.coherent hb) hloop₂
  obtain ⟨rfl, rfl⟩ := Prod.mk.inj (Except.ok.inj hloop₃)
  have hlater := hlater₂.trans hlater₃
  refine ⟨hlater.config, hlater.coherent hb, ?_, hlater.free⟩
  rw [hlater₂.config]
  rfl

/-- A character of the separator, which is measured as it is shown, and the rest. -/
theorem separatorWidth_step {n p i : Nat} {result : UTF8Result} (hbyte : sep_string p ≠ 0)
    (hdecode : decodeUtf8Char (fun i => .ok (sep_string (p + i))) = .ok result)
    (hselect : b.selectDrawableFont result.ucs =
      ({ b with offsetYIndex := i }, b.fontFor result.ucs)) :
    b.separatorWidth (n + 1) p =
      getUtf8CharWidth { b with offsetYIndex := i } (b.shown result.ucs) (b.fontFor result.ucs) >>=
        fun r => r.1.separatorWidth n (p + result.bytesConsumed) >>= fun s => .ok (s.1, r.2 + s.2) := by
  rw [separatorWidth, if_neg hbyte, hdecode, BarConfig.shown]
  simp only [bind, Except.bind, hselect]
  cases b.fontFor result.ucs <;> rfl

/-- Unless the string ends, a character can be decoded where the loop is completed. -/
theorem exists_decoded {n p : Nat} {r : Bar × Int} (hbyte : sep_string p ≠ 0)
    (h : b.separatorWidth (n + 1) p = .ok r) :
    ∃ result, decodeUtf8Char (fun i => .ok (sep_string (p + i))) = .ok result := by
  rw [separatorWidth, if_neg hbyte] at h
  obtain ⟨result, hresult, -⟩ := bind_eq_ok_iff.mp h
  exact ⟨result, hresult⟩

/-- A character of the separator is decoded and measured anew. -/
theorem separatorWidth_succ {n p k : Nat} {c : UInt32} {w : Int}
    (hbyte : sep_string p ≠ 0)
    (hdecode : decodeUtf8Char (fun i => .ok (sep_string (p + i))) = .ok ⟨c, k⟩) (hb : b.Coherent)
    (h : b.separatorWidth (n + 1) p = .ok (b', w)) :
    ∃ b₁ w', Later 1 b b₁ ∧ w = b.measured c + w' ∧
      b₁.separatorWidth n (p + k) = .ok (b', w') := by
  obtain ⟨i, hselect⟩ := b.selectDrawableFont_eq c
  rw [separatorWidth_step hbyte hdecode hselect] at h
  obtain ⟨⟨b₁, v⟩, hv, h⟩ := bind_eq_ok_iff.mp h
  obtain ⟨⟨b₂, w'⟩, hrest, h⟩ := bind_eq_ok_iff.mp h
  obtain ⟨rfl, rfl⟩ := Prod.mk.inj (Except.ok.inj h)
  have hsel : Later 0 b { b with offsetYIndex := i } := .of_eq rfl rfl rfl rfl
  obtain ⟨hlater, hmeasured, -⟩ :=
    getUtf8CharWidth_ok (b := { b with offsetYIndex := i }) (c := c) hv
  obtain rfl := hmeasured (hsel.coherent hb)
  exact ⟨b₁, w', hsel.trans hlater, rfl, hrest⟩

/-- The width that is computed anew is the one that `initSeparator` keeps. -/
theorem separatorWidth_ok {w : Int} (hb : b.Coherent) (h : b.separatorWidth 4 0 = .ok (b', w)) :
    Later 2 b b' ∧ w = b.sepWidth := by
  obtain ⟨b₁, w₁, hlater₁, rfl, h₁⟩ :=
    separatorWidth_succ (c := 0x20) (k := 1) (by decide) (by decide) hb h
  obtain ⟨b₂, w₂, hlater₂, rfl, h₂⟩ :=
    separatorWidth_succ (c := 0x258F) (k := 3) (by decide) (by decide) (hlater₁.coherent hb) h₁
  obtain ⟨rfl, rfl⟩ := Prod.mk.inj (Except.ok.inj h₂)
  rw [hlater₁.config]
  exact ⟨hlater₁.trans hlater₂, rfl⟩

/-- The characters of a separator. -/
theorem separatorChars_ok (cs : List UInt32) :
    ∀ {b b' : Bar} {x stop : Int} {cells : List Cell}, b.Coherent →
      b.separatorChars x (cs.map b.sepChar) = .ok (b', stop, cells) →
      Later cs.length b b' ∧ stop = x + (cs.map b.measured).sum ∧
        Laid b.toBarConfig x (b.sepGlyphs cs) cells := by
  induction cs with
  | nil =>
    intro b b' x stop cells _ h
    obtain ⟨rfl, rfl, rfl⟩ : b = b' ∧ x = stop ∧ [] = cells := by simpa [separatorChars] using h
    exact ⟨.refl b, (Int.add_zero x).symm, .nil x⟩
  | cons c cs ih =>
    intro b b' x stop cells hb h
    rw [List.map_cons, separatorChars] at h
    cases hfont : b.fontFor c with
    | none => simp only [BarConfig.sepChar, hfont] at h; cases h
    | some f =>
      have hshown : b.shown c = c := by rw [BarConfig.shown, hfont]; rfl
      simp only [BarConfig.sepChar, hfont, hshown] at h
      obtain ⟨⟨b₁, cell⟩, hcell, h⟩ := bind_eq_ok_iff.mp h
      obtain ⟨⟨b₂, stop', cells'⟩, hcells, h⟩ := bind_eq_ok_iff.mp h
      obtain ⟨rfl, rfl, rfl⟩ : b₂ = b' ∧ stop' = stop ∧ cell :: cells' = cells := by
        simpa [pure, Except.pure] using h
      rw [← BarConfig.fontUsed_of_fontFor hfont] at hcell
      obtain ⟨hlater, hx, hch, hwidth⟩ := drawChar_ok hcell
      have hcells : b₁.separatorChars (x + b.measured c) (cs.map b₁.sepChar) =
          .ok (b₂, stop', cells') := by
        rw [hlater.config]
        exact hcells
      obtain ⟨hrest, rfl, hlaid⟩ := ih (hlater.coherent hb) hcells
      rw [hlater.config] at hlaid ⊢
      refine ⟨(hlater.trans hrest).mono (by simp; omega), ?_, .cons hx hch (hwidth hb) hlaid⟩
      rw [List.map_cons, List.sum_cons, Int.add_assoc]

end Bar

/-! ## Rows and sides -/

/-- How a position is kept in the 16 bits of `beginX`. -/
def wrap16 (x : Int) : Int := x % 65536

/-- The elements of a module side by side, from one position to another: made from the given
ones, with `beginX` set, and painted from there on. -/
inductive Row (cfg : BarConfig) (keep : Int → Int) :
    Int → List (BarElement H) → List (Rendered H) → Int → Prop
  | nil (x : Int) : Row cfg keep x [] [] x
  | cons {x y : Int} {e : BarElement H} {es : List (BarElement H)} {r : Rendered H}
      {rs : List (Rendered H)} :
      (r.element.beginX.toNat : Int) = keep x → r.element = { e with beginX := r.element.beginX } →
      Laid cfg (Bar.textStart r.element) r.element.glyphs r.painting.cells →
      Row cfg keep (x + e.width.toNat) es rs y → Row cfg keep x (e :: es) (r :: rs) y

/-- The modules of a side, from one position to another: a separator follows each but the
last. -/
inductive Side (cfg : BarConfig) (keep : Int → Int) :
    Int → List (List (BarElement H)) → List (RenderedModule H) → Int → Prop
  | nil (x : Int) : Side cfg keep x [] [] x
  | last {x y : Int} {es : List (BarElement H)} {m : RenderedModule H} :
      Row cfg keep x es m.elements y → m.separator = none → Side cfg keep x [es] [m] y
  | cons {x y : Int} {es es' : List (BarElement H)} {modules : List (List (BarElement H))}
      {m : RenderedModule H} {ms : List (RenderedModule H)} {s : Separator} :
      Row cfg keep x es m.elements s.start → m.separator = some s →
      s.stop = s.start + cfg.sepWidth → Laid cfg s.start (cfg.sepGlyphs separatorText) s.cells →
      Side cfg keep s.stop (es' :: modules) ms y →
      Side cfg keep x (es :: es' :: modules) (m :: ms) y

/-- The widths of elements together. -/
def elementsWidth (es : List (BarElement H)) : Int := (es.map fun e => (e.width.toNat : Int)).sum

/-- The width of a side: elements and separators. -/
def sideWidth (cfg : BarConfig) (modules : List (List (BarElement H))) : Int :=
  Bar.totalWidth modules + (modules.length - 1 : Nat) * cfg.sepWidth

theorem Row.stop_eq {cfg : BarConfig} {keep : Int → Int} {x y : Int} {es : List (BarElement H)}
    {rs : List (Rendered H)} (h : Row cfg keep x es rs y) : y = x + elementsWidth es := by
  induction h with
  | nil x => exact (Int.add_zero x).symm
  | cons _ _ _ _ ih =>
    rw [ih, elementsWidth, elementsWidth, List.map_cons, List.sum_cons, Int.add_assoc]

theorem Side.stop_eq {cfg : BarConfig} {keep : Int → Int} {x y : Int}
    {modules : List (List (BarElement H))} {ms : List (RenderedModule H)}
    (h : Side cfg keep x modules ms y) : y = x + sideWidth cfg modules := by
  induction h with
  | nil x => simp [sideWidth, Bar.totalWidth]
  | last hrow _ =>
    rw [hrow.stop_eq]
    simp [sideWidth, Bar.totalWidth, elementsWidth]
  | cons hrow _ hstop _ _ ih =>
    rw [ih, hstop, hrow.stop_eq]
    simp only [sideWidth, Bar.totalWidth, elementsWidth, List.map_cons, List.sum_cons,
      List.length_cons, Nat.add_sub_cancel, Int.natCast_add, Int.add_mul, Int.natCast_one,
      Int.one_mul]
    omega

/-! ## The loops of a frame -/

namespace Bar

/-- The characters of elements. -/
def rowGlyphs (es : List (BarElement H)) : Nat := (es.map fun e => (chars e).length).sum

/-- The characters of modules, with those of a separator for each. -/
def sideGlyphs (modules : List (List (BarElement H))) : Nat :=
  (modules.map fun es => rowGlyphs es + 2).sum

theorem sideGlyphs_cons (es : List (BarElement H)) (modules : List (List (BarElement H))) :
    sideGlyphs (es :: modules) = rowGlyphs es + 2 + sideGlyphs modules := by
  rw [sideGlyphs, List.map_cons, List.sum_cons]
  rfl

theorem renderElements_ok {b b' : Bar} {x y : Int} {es : List (BarElement H)}
    {rs : List (Rendered H)} (hb : b.Coherent) (h : b.renderElements x es = .ok (b', y, rs)) :
    Later (rowGlyphs es) b b' ∧ Row b.toBarConfig wrap16 x es rs y := by
  replace h := renderElements_eq_ok_iff.mp h
  induction h with
  | nil b x => exact ⟨.refl b, .nil x⟩
  | @cons b b₁ b' x y e es painting rs hrender _ ih =>
    obtain ⟨hlater, hlaid⟩ := renderElement_ok hb hrender
    obtain ⟨hlater', hrow⟩ := ih (hlater.coherent hb)
    rw [hlater.config] at hrow
    refine ⟨(hlater.trans hlater').mono ?_, .cons ?_ rfl hlaid hrow⟩
    · rw [rowGlyphs, rowGlyphs, List.map_cons, List.sum_cons]
      rfl
    · show ((UInt16.ofInt x).toNat : Int) = x % 65536
      rw [UInt16.ofInt, UInt16.toNat_ofNat']
      omega

/-- `renderSeparatorAt` draws the separator in the default colours. -/
theorem renderSeparatorAt_eq (b : Bar) (x : Int) :
    ∃ b₁, Later 0 b b₁ ∧ b.renderSeparatorAt x = b₁.separatorChars x b.separator := by
  have hset : Later 0 b { b with
      backgroundColor := b.defaultBackgroundColor
      foregroundColor := b.defaultForegroundColor
      colorsDirty := true } := .of_eq rfl rfl rfl rfl
  exact ⟨_, hset.trans (updateGc_later _), rfl⟩

theorem renderSeparatorAt_ok {b b' : Bar} {x stop : Int} {cells : List Cell} (hb : b.Coherent)
    (hsep : b.separator = b.sepChars) (h : b.renderSeparatorAt x = .ok (b', stop, cells)) :
    Later 2 b b' ∧ stop = x + b.sepWidth ∧
      Laid b.toBarConfig x (b.sepGlyphs separatorText) cells := by
  obtain ⟨b₁, hgc, heq⟩ := b.renderSeparatorAt_eq x
  rw [heq, hsep, ← hgc.config] at h
  obtain ⟨hlater, hstop, hlaid⟩ := separatorChars_ok _ (hgc.coherent hb) h
  rw [hgc.config] at hstop hlaid
  exact ⟨hgc.trans hlater, hstop, hlaid⟩

theorem renderModules_ok {b b' : Bar} {x y : Int} {modules : List (List (BarElement H))}
    {ms : List (RenderedModule H)} (hb : b.Coherent) (hsep : b.separator = b.sepChars)
    (h : b.renderModules x modules = .ok (b', y, ms)) :
    Later (sideGlyphs modules) b b' ∧ Side b.toBarConfig wrap16 x modules ms y := by
  replace h := renderModules_eq_ok_iff.mp h
  induction h with
  | nil b x => exact ⟨.refl b, .nil x⟩
  | last hrow =>
    obtain ⟨hlater, hrow⟩ := renderElements_ok hb hrow
    exact ⟨hlater.mono (by simp [sideGlyphs]), .last hrow rfl⟩
  | @cons b b₁ b₂ b' x start stop y es es' modules rs cells ms hrow hsepAt _ ih =>
    obtain ⟨hlater₁, hrow⟩ := renderElements_ok hb hrow
    have hsep₁ : b₁.separator = b₁.sepChars := by rw [hlater₁.separator, hsep, hlater₁.config]
    obtain ⟨hlater₂, hstop, hlaid⟩ := renderSeparatorAt_ok (hlater₁.coherent hb) hsep₁ hsepAt
    have hlater₂ := hlater₁.trans hlater₂
    have hsep₂ : b₂.separator = b₂.sepChars := by rw [hlater₂.separator, hsep, hlater₂.config]
    obtain ⟨hlater₃, hside⟩ := ih (hlater₂.coherent hb) hsep₂
    rw [hlater₁.config] at hstop hlaid
    rw [hlater₂.config] at hside
    refine ⟨(hlater₂.trans hlater₃).mono ?_, .cons hrow rfl hstop hlaid hside⟩
    rw [sideGlyphs_cons es]

/-! ## A whole frame -/

end Bar

namespace BarConfig

/-- The margin on the right: as wide as a space. -/
def margin (cfg : BarConfig) : Int := (cfg.cellWidth 32).getD 0

/-- Where the right side starts. -/
def rightStart (cfg : BarConfig) (rightModules : List (List (BarElement H))) : Int :=
  cfg.width - cfg.margin - sideWidth cfg rightModules

end BarConfig

namespace Bar

/-- The characters of a frame: with the margin and the separator that is measured anew. -/
def frameGlyphs (leftModules rightModules : List (List (BarElement H))) : Nat :=
  1 + sideGlyphs leftModules + 2 + sideGlyphs rightModules

/-- **What `renderAllElements` leaves**: the left side from 0 on, and the right side up to
the margin. -/
theorem renderAllElements_ok {b : Bar} {leftModules rightModules : List (List (BarElement H))}
    {f : Frame H} (hb : b.Coherent) (hsep : b.separator = b.sepChars)
    (h : b.renderAllElements leftModules rightModules = .ok f) :
    Later (frameGlyphs leftModules rightModules) b f.bar ∧
      Side b.toBarConfig wrap16 0 leftModules f.left (sideWidth b.toBarConfig leftModules) ∧
      Side b.toBarConfig wrap16 (b.rightStart rightModules) rightModules f.right
        (b.width - b.margin) := by
  obtain ⟨i, hselect⟩ := b.selectDrawableFont_eq 32
  rw [renderAllElements, hselect] at h
  obtain ⟨⟨b₁, margin⟩, hmargin, h⟩ := bind_eq_ok_iff.mp h
  obtain ⟨⟨b₂, x, left⟩, hleft, h⟩ := bind_eq_ok_iff.mp h
  obtain ⟨⟨b₃, w⟩, hw, h⟩ := bind_eq_ok_iff.mp h
  obtain ⟨⟨b₄, y, right⟩, hright, h⟩ := bind_eq_ok_iff.mp h
  obtain rfl := Except.ok.inj h
  -- the margin
  have hsel : Later 0 b { b with offsetYIndex := i } := .of_eq rfl rfl rfl rfl
  obtain ⟨hlater₁, hwidth, -⟩ := xftCharWidth_ok (b := { b with offsetYIndex := i })
    (fun f hf => (BarConfig.fontUsed_of_fontFor hf).symm) hmargin
  have hlater₁ := hsel.trans hlater₁
  obtain rfl : b.margin = margin := by
    rw [BarConfig.margin]
    rw [hwidth (hsel.coherent hb), Option.getD_some]
  -- the left side
  have hsep₁ : b₁.separator = b₁.sepChars := by rw [hlater₁.separator, hsep, hlater₁.config]
  obtain ⟨hlater₂, hleft⟩ := renderModules_ok (hlater₁.coherent hb) hsep₁ hleft
  have hlater₂ := hlater₁.trans hlater₂
  rw [hlater₁.config] at hleft
  obtain rfl := hleft.stop_eq
  rw [Int.zero_add] at hleft
  -- the separator, measured anew
  obtain ⟨hlater₃, rfl⟩ := separatorWidth_ok (hlater₂.coherent hb) hw
  have hlater₃ := hlater₂.trans hlater₃
  -- the right side
  have hsep₃ : b₃.separator = b₃.sepChars := by rw [hlater₃.separator, hsep, hlater₃.config]
  obtain ⟨hlater₄, hright⟩ := renderModules_ok (hlater₃.coherent hb) hsep₃ hright
  rw [hlater₁.config, hlater₂.config, hlater₃.config] at hright
  obtain rfl := hright.stop_eq
  refine ⟨(hlater₃.trans hlater₄).mono ?_, hleft, ?_⟩
  · rw [frameGlyphs]
  · simpa [BarConfig.rightStart, sideWidth] using hright

end Bar

/-! ## Fonts for everything -/

/-- All fonts are Xft fonts. -/
def BarConfig.AllXft (cfg : BarConfig) : Prop := ∀ f ∈ cfg.fontList, f.xft_ft.isSome

/-- There are fonts for the separator. -/
def BarConfig.DrawsSeparator (cfg : BarConfig) : Prop :=
  ∀ c ∈ separatorText, (cfg.fontFor c).isSome

theorem BarConfig.AllXft.fontUsed {cfg : BarConfig} (h : cfg.AllXft) (c : UInt32) :
    (cfg.fontUsed c).xft_ft.isSome := by
  apply h
  rw [BarConfig.fontUsed]
  cases hfont : cfg.fontFor c with
  | none => exact List.head_mem _
  | some f => exact List.mem_of_find?_eq_some hfont

theorem BarConfig.AllXft.cellWidth {cfg : BarConfig} (h : cfg.AllXft) (c : UInt32) :
    (cfg.cellWidth c).isSome := by
  obtain ⟨xft, hxft⟩ := Option.isSome_iff_exists.mp (h.fontUsed c)
  rw [BarConfig.cellWidth, hxft]
  rfl

end Photonbar
