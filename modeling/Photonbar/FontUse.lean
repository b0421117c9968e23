import Photonbar.BarRuns
import Photonbar.FontFaults

/-!
# How a frame uses fonts (`bar.h`)

`UsesFonts` says that no font is misused in a frame: none is null, Xft is asked about fonts of Xft
only, and no table of a core font is read outside its range. The renderer checks this in some
places and not in others. `FontsSuffice` is what the fonts and the characters must satisfy for the
places without a check: the margin, the separator, and characters that are drawn in a core font
(`usesFonts_iff`).

That the fonts suffice for a good frame is `renderAllElements_fails`, with the faults of fonts
excluded. The converse reads the fonts off a frame that was completed, place by place: a separator
that was drawn had its fonts (`fonts_of_separatorChars`), and an element that was drawn had its
widths (`Row.draws`, `Side.draws`). But a frame is completed only if no search is endless, and so
the table of widths needs room for it.
-/

namespace Photonbar

variable {H : Type}

/-- Faults that come of a font. -/
def Fault.ofFont : Fault → Bool
  | .nullFont | .notXft | .lutIndex => true
  | .contentIndex _ | .probeLoop => false

/-- `renderAllElements` asks Xft for the margin in a font of Xft, and ends in no fault that comes
of a font. -/
structure UsesFonts (b : Bar) (leftModules rightModules : List (List (BarElement H))) : Prop where
  margin : ∃ f, (b.selectDrawableFont 32).2 = some f ∧ f.xft_ft.isSome
  faults : ∀ fault, b.renderAllElements leftModules rightModules = .error fault →
    fault.ofFont = false

namespace BarConfig

/-- The table of the font that a character is drawn in, if it has one, has the character. -/
def InTable (cfg : BarConfig) (c : UInt32) : Prop :=
  (cfg.fontUsed c).xft_ft = none → (cfg.fontUsed c).width_lut.isSome →
    (cfg.fontUsed c).charMin ≤ c ∧ c ≤ (cfg.fontUsed c).charMax

theorem cellWidth_isSome_iff (cfg : BarConfig) (c : UInt32) :
    (cfg.cellWidth c).isSome ↔ cfg.InTable c := by
  rw [cellWidth, InTable]
  cases hxft : (cfg.fontUsed c).xft_ft with
  | some xft => simp
  | none =>
    cases hlut : (cfg.fontUsed c).width_lut with
    | none => simp
    | some lut =>
      simp only [Font.lutWidth, Option.isSome_some, true_imp_iff]
      split
      · next hrange => exact iff_of_true rfl hrange
      · next hrange => exact iff_of_false Bool.false_ne_true hrange

end BarConfig

/-- The fonts suffice for a frame: the first font with a space is one of Xft; if there is a
separator, a font has its bar; and the tables have the characters that are drawn. -/
structure FontsSuffice (cfg : BarConfig) (leftModules rightModules : List (List (BarElement H))) :
    Prop where
  margin : ∃ f, cfg.fontFor 32 = some f ∧ f.xft_ft.isSome
  separators : 2 ≤ leftModules.length ∨ 2 ≤ rightModules.length → (cfg.fontFor 0x258F).isSome
  elements : ∀ es ∈ leftModules ++ rightModules, ∀ e ∈ es, ∀ p ∈ Bar.chars e, cfg.InTable p.1

theorem draws_iff (cfg : BarConfig) (es : List (BarElement H)) :
    cfg.Draws es ↔ ∀ e ∈ es, ∀ p ∈ Bar.chars e, cfg.InTable p.1 := by
  simp only [BarConfig.Draws, cfg.cellWidth_isSome_iff]

/-! ## What a completed frame says about the fonts -/

section

variable {cfg : BarConfig} {keep : Int → Int} {x y : Int}

theorem Laid.cellWidth_isSome {cs : List (UInt32 × Int)} {cells : List Cell}
    (h : Laid cfg x cs cells) : ∀ p ∈ cs, (cfg.cellWidth p.1).isSome := by
  induction h with
  | nil => exact nofun
  | cons _ _ hwidth _ ih =>
    refine List.forall_mem_cons.mpr ⟨?_, ih⟩
    rw [hwidth]
    rfl

theorem Row.draws {es : List (BarElement H)} {rs : List (Rendered H)}
    (h : Row cfg keep x es rs y) : cfg.Draws es := by
  induction h with
  | nil => exact nofun
  | @cons x y e es r rs _ hsame hlaid _ ih =>
    refine List.forall_mem_cons.mpr ⟨fun p hp => ?_, ih⟩
    have hglyph : (p.1, (p.2.toNat : Int)) ∈ r.element.glyphs := by
      rw [hsame]
      exact List.mem_map.mpr ⟨p, hp, rfl⟩
    exact hlaid.cellWidth_isSome _ hglyph

theorem Side.draws {modules : List (List (BarElement H))} {ms : List (RenderedModule H)}
    (h : Side cfg keep x modules ms y) : ∀ es ∈ modules, cfg.Draws es := by
  induction h with
  | nil => exact nofun
  | last hrow _ => exact List.forall_mem_singleton.mpr hrow.draws
  | cons hrow _ _ _ _ ih => exact List.forall_mem_cons.mpr ⟨hrow.draws, ih⟩

end

namespace Bar

variable {b b' : Bar} {x y : Int}

/-- A separator is drawn in fonts that have its characters. -/
theorem fonts_of_separatorChars (cs : List UInt32) :
    ∀ {b b' : Bar} {x stop : Int} {cells : List Cell},
      b.separatorChars x (cs.map b.sepChar) = .ok (b', stop, cells) →
      ∀ c ∈ cs, (b.fontFor c).isSome := by
  induction cs with
  | nil => intro b b' x stop cells _; exact nofun
  | cons c cs ih =>
    intro b b' x stop cells h
    rw [List.map_cons, separatorChars] at h
    cases hfont : b.fontFor c with
    | none => simp only [BarConfig.sepChar, hfont] at h; cases h
    | some f =>
      have hshown : b.shown c = c := by rw [BarConfig.shown, hfont]; rfl
      simp only [BarConfig.sepChar, hfont, hshown] at h
      obtain ⟨⟨b₁, cell⟩, hcell, h⟩ := bind_eq_ok_iff.mp h
      obtain ⟨⟨b₂, stop', cells'⟩, hcells, -⟩ := bind_eq_ok_iff.mp h
      rw [← BarConfig.fontUsed_of_fontFor hfont] at hcell
      have hlater := (drawChar_ok hcell).1
      have hrest := ih (b := b₁) (x := x + b.measured c) (by rw [hlater.config]; exact hcells)
      rw [hlater.config] at hrest
      exact List.forall_mem_cons.mpr ⟨by rw [hfont]; rfl, hrest⟩

theorem drawsSeparator_of_renderSeparatorAt {stop : Int} {cells : List Cell}
    (hsep : b.separator = b.sepChars) (h : b.renderSeparatorAt x = .ok (b', stop, cells)) :
    b.DrawsSeparator := by
  obtain ⟨b₁, hgc, heq⟩ := b.renderSeparatorAt_eq x
  rw [heq, hsep, ← hgc.config] at h
  have hfonts := fonts_of_separatorChars _ h
  rwa [hgc.config] at hfonts

/-- With two modules there is a separator. -/
theorem drawsSeparator_of_renderModules {modules : List (List (BarElement H))}
    {ms : List (RenderedModule H)} (hb : b.Coherent) (hsep : b.separator = b.sepChars)
    (h : b.renderModules x modules = .ok (b', y, ms)) (hlen : 2 ≤ modules.length) :
    b.DrawsSeparator := by
  cases renderModules_eq_ok_iff.mp h with
  | nil => simp at hlen
  | last => simp at hlen
  | cons hrow hsepAt =>
    have hlater := (renderElements_ok hb hrow).1
    have hfonts := drawsSeparator_of_renderSeparatorAt
      (by rw [hlater.separator, hsep, hlater.config]) hsepAt
    rwa [hlater.config] at hfonts

/-- A frame that was completed has drawn its separators. -/
theorem drawsSeparator_of_renderAllElements {leftModules rightModules : List (List (BarElement H))}
    {f : Frame H} (hb : b.Coherent) (hsep : b.separator = b.sepChars)
    (h : b.renderAllElements leftModules rightModules = .ok f)
    (hlen : 2 ≤ leftModules.length ∨ 2 ≤ rightModules.length) : b.DrawsSeparator := by
  obtain ⟨b₁, margin, b₂, x, b₃, w, y, hmargin, hleft, hw, hright⟩ := renderAllElements_eq_ok h
  have hkept : b.Kept := ⟨hb, hsep⟩
  have hlater₁ := margin_later hmargin
  have hkept₁ := hlater₁.kept hkept
  have hlater₂ := hlater₁.trans (renderModules_ok hkept₁.coherent hkept₁.separator hleft).1
  have hlater₃ := hlater₂.trans (separatorWidth_ok (hlater₂.coherent hb) hw).1
  have hkept₃ := hlater₃.kept hkept
  rcases hlen with hlen | hlen
  · have hfonts :=
      drawsSeparator_of_renderModules hkept₁.coherent hkept₁.separator hleft hlen
    rwa [hlater₁.config] at hfonts
  · have hfonts :=
      drawsSeparator_of_renderModules hkept₃.coherent hkept₃.separator hright hlen
    rwa [hlater₃.config] at hfonts

end Bar

/-! ## Frames -/

variable {b : Bar} {leftModules rightModules : List (List (BarElement H))}

/-- The font of the margin is the first one that has a space. -/
theorem margin_iff (b : Bar) :
    (∃ f, (b.selectDrawableFont 32).2 = some f ∧ f.xft_ft.isSome) ↔
      ∃ f, b.fontFor 32 = some f ∧ f.xft_ft.isSome := by
  obtain ⟨i, hselect⟩ := b.selectDrawableFont_eq 32
  rw [hselect]

/-- Where the fonts suffice, a frame fails for want of room at most. -/
theorem FontsSuffice.fails {S : Fault → Prop} (hb : b.Kept)
    (h : FontsSuffice b.toBarConfig leftModules rightModules)
    (hroom : Bar.RoomFor S (Bar.frameGlyphs leftModules rightModules) b) :
    FailsOnly S (b.renderAllElements leftModules rightModules) := by
  obtain ⟨f, hfont, hxft⟩ := h.margin
  refine Bar.renderAllElements_fails leftModules rightModules hb.coherent hb.separator hroom
    (.inr ?_) (.inr ?_) (.inr ?_) (.inr ?_)
  · rw [hfont]
    rfl
  · rintro f' hf'
    obtain rfl := Option.some.inj (hfont.symm.trans hf')
    exact hxft
  · intro hlen c hc
    rcases List.mem_cons.mp hc with rfl | hc
    · rw [hfont]
      rfl
    · obtain rfl := List.mem_singleton.mp hc
      exact h.separators hlen
  · exact fun es hes => (draws_iff b.toBarConfig es).mpr (h.elements es hes)

/-- The fonts suffice for a frame that was completed. -/
theorem fontsSuffice_of_ok {f : Frame H} (hb : b.Kept)
    (hmargin : ∃ f, b.fontFor 32 = some f ∧ f.xft_ft.isSome)
    (hf : b.renderAllElements leftModules rightModules = .ok f) :
    FontsSuffice b.toBarConfig leftModules rightModules := by
  obtain ⟨-, hleft, hright⟩ := Bar.renderAllElements_ok hb.coherent hb.separator hf
  refine ⟨hmargin, fun hlen => ?_, fun es hes => (draws_iff b.toBarConfig es).mp ?_⟩
  · exact Bar.drawsSeparator_of_renderAllElements hb.coherent hb.separator hf hlen 0x258F
      (by decide)
  · rcases List.mem_append.mp hes with hes | hes
    · exact hleft.draws es hes
    · exact hright.draws es hes

/-- Where the fonts suffice none is misused. -/
theorem FontsSuffice.usesFonts (hb : b.Kept)
    (h : FontsSuffice b.toBarConfig leftModules rightModules) :
    UsesFonts b leftModules rightModules where
  margin := (margin_iff b).mpr h.margin
  faults := h.fails (S := fun fault => fault.ofFont = false) hb (.inl rfl)

/-- Where none is misused, and the table of widths has room for the frame, they suffice. -/
theorem UsesFonts.fontsSuffice (hb : b.Kept) (h : UsesFonts b leftModules rightModules)
    (hroom : Bar.frameGlyphs leftModules rightModules ≤ b.free) :
    FontsSuffice b.toBarConfig leftModules rightModules := by
  -- the frame is completed: without room for a fault of another kind there is none
  have hfails : FailsOnly (fun fault => fault.ofFont = true)
      (b.renderAllElements leftModules rightModules) :=
    Bar.renderAllElements_fails leftModules rightModules hb.coherent hb.separator (.inr hroom)
      (.inl rfl) (.inl rfl) (.inl rfl) (.inl rfl)
  obtain ⟨f, hf⟩ : ∃ f, b.renderAllElements leftModules rightModules = .ok f := by
    refine FailsOnly.exists_ok fun fault hfault => ?_
    have hnot := h.faults fault hfault
    rw [hfails fault hfault] at hnot
    cases hnot
  exact fontsSuffice_of_ok hb ((margin_iff b).mp h.margin) hf

/-- **When fonts are used well**: on every bar that can occur and for all elements, if the fonts
suffice; and only if they do, as long as the table of widths has room for the frame, so that no
search in it is endless. A frame without a misuse is then completed, and the fonts that it has used
can be read off it. -/
theorem usesFonts_iff (hb : Bar.Reachable H b)
    (leftModules rightModules : List (List (BarElement H))) :
    (FontsSuffice b.toBarConfig leftModules rightModules →
      UsesFonts b leftModules rightModules) ∧
    (Bar.frameGlyphs leftModules rightModules ≤ b.free →
      UsesFonts b leftModules rightModules →
        FontsSuffice b.toBarConfig leftModules rightModules) :=
  ⟨fun h => h.usesFonts hb.kept, fun hroom h => h.fontsSuffice hb.kept hroom⟩

/-- The font of `asciiBar` suffices for `Aé`, which is shown as `A?`, and for a separator behind
it. -/
theorem usesFonts_letters : ∃ b left,
    (asciiBar 10 100).parseLeftModules 0
        [[(textElement [65, 0xC3, 0xA9] : BarElement Unit)], []] = .ok (b, left) ∧
      left.map (·.map Bar.chars) = [[[(65, 10), (63, 0)]], []] ∧ UsesFonts b left [] := by
  have hchars : ((asciiBar 10 100).parseLeftModules 0
      [[(textElement [65, 0xC3, 0xA9] : BarElement Unit)], []]).map
        (fun r => r.2.map (·.map Bar.chars)) = .ok [[[(65, 10), (63, 0)]], []] := by
    decide +kernel
  cases hparse : (asciiBar 10 100).parseLeftModules 0
      [[(textElement [65, 0xC3, 0xA9] : BarElement Unit)], []] with
  | error fault =>
    rw [hparse] at hchars
    cases hchars
  | ok r =>
    obtain ⟨b, left⟩ := r
    rw [hparse] at hchars
    have hchars : left.map (·.map Bar.chars) = [[[(65, 10), (63, 0)]], []] :=
      Except.ok.inj hchars
    have hb : Bar.Reachable Unit (asciiBar 10 100) := asciiBar_reachable 10 100
    have hreaches := Bar.parseLeftModules_reaches _ hparse
    obtain ⟨n, hlater⟩ := hreaches.later hb.kept
    refine ⟨b, left, rfl, hchars, (usesFonts_iff (hb.reaches hreaches) left []).1 ?_⟩
    rw [hlater.config]
    refine ⟨⟨_, rfl, rfl⟩, fun _ => rfl, fun es hes e he p hp hxft => ?_⟩
    -- the one element has two characters, and both are shown in the font of Xft
    rw [List.append_nil] at hes
    have hmem : Bar.chars e ∈ (left.map (·.map Bar.chars)).flatten :=
      List.mem_flatten.mpr ⟨_, List.mem_map_of_mem hes, List.mem_map_of_mem he⟩
    rw [hchars] at hmem
    obtain hmem : Bar.chars e = [(65, 10), (63, 0)] := List.mem_singleton.mp hmem
    rw [hmem] at hp
    have hp : p = (65, 10) ∨ p = (63, 0) := by simpa using hp
    obtain rfl | rfl := hp
    · cases hxft
    · cases hxft

/-! ## Fonts that do not suffice -/

/-- A core font whose table has the characters from `lo` to `hi`. -/
def coreFont (lo hi : UInt32) : Font where
  width_lut := some fun _ => 6
  xft_ft := none
  descent := 3
  height := 13
  width := 6
  charMax := hi
  charMin := lo

/-- A font of Xft that has a space, and no more. -/
def spaceFont : Font := { asciiFont 10 with xft_ft := some ⟨(· = 32), fun _ => 10, fun _ => 10⟩ }

/-- A new bar with these fonts. -/
def setupWith (f : Font) (fs : List Font) : Bar :=
  { asciiSetup 10 100 with fontList := f :: fs, fontList_ne_nil := List.cons_ne_nil f fs }

/-- The fault that the first frame of a new bar ends in, after parsing. -/
def firstFault (b : Bar) (modules : List (List (BarElement Unit))) : Option Fault :=
  match b.initSeparator with
  | .error _ => none
  | .ok b =>
    match b.parseLeftModules 0 modules with
    | .error _ => none
    | .ok (b, modules) =>
      match b.renderAllElements modules [] with
      | .error fault => some fault
      | .ok _ => none

theorem exists_not_usesFonts {f : Font} {fs : List Font} {modules : List (List (BarElement Unit))}
    {fault : Fault} (h : firstFault (setupWith f fs) modules = some fault)
    (hfont : fault.ofFont = true) :
    ∃ b b' left, (setupWith f fs).initSeparator = .ok b ∧
      b.parseLeftModules 0 modules = .ok (b', left) ∧ Bar.Reachable Unit b' ∧
      b'.renderAllElements left [] = .error fault ∧ ¬ UsesFonts b' left [] := by
  rw [firstFault] at h
  split at h
  · cases h
  next b hinit =>
  split at h
  · cases h
  next b' left hparse =>
  split at h
  next fault' hfault =>
    obtain rfl := Option.some.inj h
    have hreach : Bar.Reachable Unit b := .start (fun _ _ => rfl) hinit
    refine ⟨b, b', left, hinit, hparse,
      hreach.reaches (Bar.parseLeftModules_reaches _ hparse), hfault, fun huses => ?_⟩
    have hnot := huses.faults _ hfault
    rw [hfont] at hnot
    cases hnot
  · cases h

/-- Three misuses in the first frame. With a core font alone, as where `init` falls back to
`fixed`, Xft is asked for the margin in it. With a font that has no bar, and two modules, the font
of the separator is null. And an `é` that no font has becomes a `?`, which is looked up in the
table of the first font, although that one starts at `A`. -/
theorem three_misuses :
    (∃ b b' left, (setupWith (coreFont 32 126) []).initSeparator = .ok b ∧
      b.parseLeftModules 0 ([] : List (List (BarElement Unit))) = .ok (b', left) ∧
      Bar.Reachable Unit b' ∧ b'.renderAllElements left [] = .error .notXft ∧
      ¬ UsesFonts b' left []) ∧
    (∃ b b' left, (setupWith spaceFont []).initSeparator = .ok b ∧
      b.parseLeftModules 0 ([[], []] : List (List (BarElement Unit))) = .ok (b', left) ∧
      Bar.Reachable Unit b' ∧ b'.renderAllElements left [] = .error .nullFont ∧
      ¬ UsesFonts b' left []) ∧
    (∃ b b' left, (setupWith (coreFont 65 90) [spaceFont]).initSeparator = .ok b ∧
      b.parseLeftModules 0 [[(textElement [0xC3, 0xA9] : BarElement Unit)]] = .ok (b', left) ∧
      Bar.Reachable Unit b' ∧ b'.renderAllElements left [] = .error .lutIndex ∧
      ¬ UsesFonts b' left []) :=
  ⟨exists_not_usesFonts (by decide +kernel) rfl, exists_not_usesFonts (by decide +kernel) rfl,
    exists_not_usesFonts (by decide +kernel) rfl⟩

end Photonbar
