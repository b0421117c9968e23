import Photonbar.Loops
import Photonbar.Render

/-!
# The widths of characters

`BarConfig.cellWidth` says, from the fonts alone, how wide a character is drawn. The table of
widths keeps the answers of Xft; `Bar.Coherent` is its invariant, and under it `drawWidth`, by
which everything is measured and drawn, is `cellWidth` (`drawWidth_ok`). `Bar.Later` is what all
operations on a bar have in common: they leave the configuration and the separator, and forget no
width.

`Later` counts the slots as well: `Later n` takes up to `n` of them, one for each character that is
looked up. That is what makes the searches end: one ends while there is a free slot
(`ends_of_free`), so that with `n` free slots `n` characters can be drawn. A character whose width
is known, or whose font is a core font, takes none (`Cheap`). `xftCharWidth_fails` and
`drawWidth_fails` say which faults remain, and where they come from.
-/

namespace Photonbar

namespace BarConfig

/-- The first font that has a character. -/
def fontFor (cfg : BarConfig) (c : UInt32) : Option Font := cfg.fontList.find? (·.hasGlyph c)

/-- The font that a character is drawn in: without one that has it, the first. -/
def fontUsed (cfg : BarConfig) (c : UInt32) : Font :=
  (cfg.fontFor c).getD (cfg.fontList.head cfg.fontList_ne_nil)

/-- The width of a character in the font that it is drawn in; `none` outside the table of
that font. -/
def cellWidth (cfg : BarConfig) (c : UInt32) : Option Int :=
  let f := cfg.fontUsed c
  match f.xft_ft with
  | some xft => some (xft.measure c).toInt
  | none =>
    match f.width_lut with
    | some lut => (f.lutWidth lut c).toOption
    | none => some f.width

/-- The character that stands for `c` in the bar. -/
def shown (cfg : BarConfig) (c : UInt32) : UInt32 :=
  if (cfg.fontFor c).isNone then questionMark else c

/-- The width that is measured for `c`: without a font that has it, 0. -/
def measured (cfg : BarConfig) (c : UInt32) : Int :=
  if (cfg.fontFor c).isNone then 0 else (cfg.cellWidth c).getD 0

/-- The width that the table may hold for a character: that of Xft. -/
def Right (cfg : BarConfig) (c : UInt32) (w : Int8) : Prop :=
  ∃ xft, (cfg.fontUsed c).xft_ft = some xft ∧ w = xft.measure c

theorem fontUsed_of_fontFor {cfg : BarConfig} {c : UInt32} {f : Font}
    (h : cfg.fontFor c = some f) : cfg.fontUsed c = f := by
  rw [fontUsed, h, Option.getD_some]

theorem hasGlyph_of_fontFor {cfg : BarConfig} {c : UInt32} {f : Font}
    (h : cfg.fontFor c = some f) : f.hasGlyph c = true := by
  have hfound := List.find?_some h
  exact hfound

theorem hasGlyph_range {f : Font} {c : UInt32} (h : f.hasGlyph c = true) (hxft : f.xft_ft = none) :
    f.charMin ≤ c ∧ c ≤ f.charMax := by
  simp only [Font.hasGlyph, hxft] at h
  split at h
  · cases h
  · next hrange => simpa [not_or] using hrange

/-- A font that has the character has its width. -/
theorem cellWidth_isSome {cfg : BarConfig} {c : UInt32} (h : (cfg.fontFor c).isSome) :
    (cfg.cellWidth c).isSome := by
  obtain ⟨f, hf⟩ := Option.isSome_iff_exists.mp h
  rw [cellWidth, fontUsed_of_fontFor hf]
  cases hxft : f.xft_ft with
  | some xft => rfl
  | none =>
    cases hlut : f.width_lut with
    | none => rfl
    | some lut =>
      have hrange := hasGlyph_range (hasGlyph_of_fontFor hf) hxft
      simp only [Font.lutWidth, if_pos hrange]
      rfl

end BarConfig

namespace Bar

/-! ## Selecting a font -/

theorem firstFont_snd (c : UInt32) (fs : List Font) :
    ∀ i, (firstFont c i fs).map Prod.snd = fs.find? (·.hasGlyph c) := by
  induction fs with
  | nil => intro i; rfl
  | cons f fs ih =>
    intro i
    cases h : f.hasGlyph c with
    | true => simp [firstFont, h]
    | false => simp [firstFont, h, ih]

/-- `selectDrawableFont` finds the first font, and notes its index. -/
theorem selectDrawableFont_eq (b : Bar) (c : UInt32) :
    ∃ i, b.selectDrawableFont c = ({ b with offsetYIndex := i }, b.fontFor c) := by
  have h := firstFont_snd c b.fontList 0
  rw [selectDrawableFont, BarConfig.fontFor, ← h]
  cases firstFont c 0 b.fontList with
  | none => exact ⟨b.offsetYIndex, rfl⟩
  | some p => exact ⟨p.1, rfl⟩

/-- The loop of `parseElementContent` succeeds. -/
inductive ParsesLoop {H : Type} : Bar → BarElement H → Nat → Nat → Nat → Int →
    Bar → BarElement H → Int → Prop
  | full (b : Bar) (e : BarElement H) (i p : Nat) (total : Int) :
      ParsesLoop b e 0 i p total b e total
  | stop {b : Bar} {e : BarElement H} {n i p : Nat} {total : Int} {u : UInt8} :
      contentByte e.content p = .ok u → (u = 0 ∨ u = 10) →
      ParsesLoop b e (n + 1) i p total b
        { e with ucsContent := e.ucsContent.setIfInBounds i 0, ucsContentLen := i } total
  | char {b b₁ b' : Bar} {e e' : BarElement H} {n i p j : Nat} {total total' w : Int} {u : UInt8}
      {result : UTF8Result} :
      contentByte e.content p = .ok u → ¬ (u = 0 ∨ u = 10) →
      decodeUtf8Char (fun j => contentByte e.content (p + j)) = .ok result →
      getUtf8CharWidth { b with offsetYIndex := j } (b.shown result.ucs) (b.fontFor result.ucs) =
        .ok (b₁, w) →
      ParsesLoop b₁
        { e with
          ucsContent := e.ucsContent.setIfInBounds i (b.shown result.ucs)
          ucsContentCharWidths := e.ucsContentCharWidths.setIfInBounds i (UInt8.ofInt w) }
        n (i + 1) (p + result.bytesConsumed) (total + (UInt8.ofInt w).toNat) b' e' total' →
      ParsesLoop b e (n + 1) i p total b' e' total'

theorem parseLoop_eq_ok {H : Type} {n : Nat} :
    ∀ {b b' : Bar} {e e' : BarElement H} {i p : Nat} {total total' : Int},
      b.parseLoop e n i p total = .ok (b', e', total') →
      ParsesLoop b e n i p total b' e' total' := by
  induction n with
  | zero =>
    intro b b' e e' i p total total' h
    obtain ⟨rfl, rfl, rfl⟩ : b = b' ∧ e = e' ∧ total = total' := by simpa [parseLoop] using h
    exact .full b e i p total
  | succ n ih =>
    intro b b' e e' i p total total' h
    obtain ⟨u, hu, h⟩ := bind_eq_ok_iff.mp h
    by_cases hstop : u = 0 ∨ u = 10
    · rw [if_pos hstop] at h
      obtain ⟨rfl, rfl, rfl⟩ := by simpa [pure, Except.pure] using h
      exact .stop hu hstop
    · rw [if_neg hstop] at h
      obtain ⟨result, hresult, h⟩ := bind_eq_ok_iff.mp h
      obtain ⟨j, hselect⟩ := b.selectDrawableFont_eq result.ucs
      rw [hselect] at h
      obtain ⟨⟨b₁, w⟩, hw, h⟩ := bind_eq_ok_iff.mp h
      exact .char hu hstop hresult hw (ih h)

/-! ## The table -/

/-- The table is sound, and holds the widths of Xft. -/
def Coherent (b : Bar) : Prop :=
  ProbeTable.Sound MAX_WIDTHS 0 (fun c => c.toNat % MAX_WIDTHS) b.Right b.xftChar b.xftWidth

/-- The number of free slots. -/
def free (b : Bar) : Nat := ProbeTable.free MAX_WIDTHS 0 b.xftChar

/-- The search for the width of a character ends. -/
def Ends (b : Bar) (c : UInt32) : Prop := ∃ slot, b.xftCharWidthSlot c = some slot

/-- The table holds the width of a character. -/
def Known (b : Bar) (c : UInt32) : Prop := ∃ slot < MAX_WIDTHS, b.xftChar slot = c

/-- What every operation does: it keeps the configuration, the separator, the coherence and
the widths that are known, and it fills at most `n` slots. -/
structure Later (n : Nat) (b b' : Bar) : Prop where
  config : b'.toBarConfig = b.toBarConfig
  separator : b'.separator = b.separator
  coherent : b.Coherent → b'.Coherent
  known : ∀ c, c ≠ 0 → b.Known c → b'.Known c
  free : b.free ≤ b'.free + n

namespace Later

variable {m n : Nat} {b b' b'' : Bar}

theorem refl (b : Bar) : Later 0 b b := ⟨rfl, rfl, id, fun _ _ => id, Nat.le_add_right _ _⟩

theorem trans (h : Later m b b') (h' : Later n b' b'') : Later (m + n) b b'' where
  config := h'.config.trans h.config
  separator := h'.separator.trans h.separator
  coherent hb := h'.coherent (h.coherent hb)
  known c hc hb := h'.known c hc (h.known c hc hb)
  free := by
    have hfree := h.free
    have hfree' := h'.free
    omega

theorem mono (h : Later m b b') (hmn : m ≤ n) : Later n b b' :=
  { h with free := h.free.trans (by omega) }

/-- Other fields do not matter. -/
theorem of_eq (hconfig : b'.toBarConfig = b.toBarConfig) (hsep : b'.separator = b.separator)
    (hchar : b'.xftChar = b.xftChar) (hwidth : b'.xftWidth = b.xftWidth) : Later 0 b b' where
  config := hconfig
  separator := hsep
  coherent h := by rwa [Coherent, hconfig, hchar, hwidth]
  known c _ h := by rwa [Known, hchar]
  free := by rw [Bar.free, Bar.free, hchar, Nat.add_zero]

end Later

theorem home_lt (c : UInt32) : c.toNat % MAX_WIDTHS < MAX_WIDTHS := Nat.mod_lt _ (by decide)

/-- While there is a free slot, every search ends. -/
theorem ends_of_free {b : Bar} (h : 0 < b.free) (c : UInt32) : b.Ends c :=
  ProbeTable.exists_probe_of_free h (home_lt c) c

/-- The search for a known width ends. -/
theorem Coherent.ends {b : Bar} (h : b.Coherent) {c : UInt32} (hc : c ≠ 0) (hknown : b.Known c) :
    b.Ends c := by
  obtain ⟨slot, hslot, rfl⟩ := hknown
  exact ⟨slot, (h slot hslot hc).1⟩

/-! ## Looking a width up -/

variable {b b' : Bar} {c : UInt32} {w : Int}

/-- A look that succeeds has found a free slot, where it enters what Xft says, or a slot that is
taken. -/
theorem xftCharWidth_cases {font : Option Font} (h : b.xftCharWidth c font = .ok (b', w)) :
    ∃ slot, b.xftCharWidthSlot c = some slot ∧
      ((b.xftChar slot = 0 ∧ ∃ f xft, font = some f ∧ f.xft_ft = some xft ∧
          w = (xft.measure c).toInt ∧ b' = { b with
            xftChar := Function.update b.xftChar slot c
            xftWidth := Function.update b.xftWidth slot (xft.measure c) }) ∨
        (b.xftChar slot ≠ 0 ∧ b' = b ∧
          w = if b.xftChar slot = c then (b.xftWidth slot).toInt else 0)) := by
  rw [xftCharWidth] at h
  cases hslot : b.xftCharWidthSlot c with
  | none => rw [hslot] at h; cases h
  | some slot =>
    refine ⟨slot, rfl, ?_⟩
    simp only [hslot] at h
    by_cases hempty : b.xftChar slot = 0
    · rw [if_pos hempty] at h
      -- a new entry: the font must be there, and be an Xft font
      cases font with
      | none => cases h
      | some f =>
        cases hxft : f.xft_ft with
        | none => simp only [hxft] at h; cases h
        | some xft =>
          simp only [hxft] at h
          obtain ⟨rfl, rfl⟩ := Prod.mk.inj (Except.ok.inj h)
          exact .inl ⟨hempty, f, xft, rfl, hxft, rfl, rfl⟩
    · rw [if_neg hempty] at h
      refine .inr ⟨hempty, ?_⟩
      split at h
      · next hkey =>
        obtain ⟨rfl, rfl⟩ := Prod.mk.inj (Except.ok.inj h)
        exact ⟨rfl, (if_pos hkey).symm⟩
      · next hkey =>
        obtain ⟨rfl, rfl⟩ := Prod.mk.inj (Except.ok.inj h)
        exact ⟨rfl, (if_neg hkey).symm⟩

/-- **One look at the table**, for the font that the character is drawn in: it gives the
width of Xft, which is known from now on. -/
theorem xftCharWidth_ok {font : Option Font} (hfont : ∀ f, font = some f → f = b.fontUsed c)
    (h : b.xftCharWidth c font = .ok (b', w)) :
    Later 1 b b' ∧ (b.Coherent → b.cellWidth c = some w) ∧ (c ≠ 0 → b'.Known c) := by
  obtain ⟨slot, hslot, ⟨hempty, f, xft, hsome, hxft, rfl, rfl⟩ | ⟨hempty, rfl, rfl⟩⟩ :=
    xftCharWidth_cases h
  · obtain ⟨hlt, -⟩ := ProbeTable.probe_eq_some (home_lt c) hslot
    obtain rfl := hfont f hsome
    refine ⟨⟨rfl, rfl, fun hb => ?_, ?_, ProbeTable.free_update b.xftChar slot c⟩, ?_, ?_⟩
    · exact ProbeTable.Sound.insert hb hslot hempty ⟨xft, hxft, rfl⟩
    · rintro c' hc' ⟨s, hs, rfl⟩
      exact ⟨s, hs, ProbeTable.update_eq_of_ne_empty hempty hc'⟩
    · intro _
      simp only [BarConfig.cellWidth, hxft]
    · exact fun _ => ⟨slot, hlt, Function.update_self _ _ _⟩
  · -- the slot that is taken is that of the character
    obtain ⟨hlt, hstop⟩ := ProbeTable.probe_eq_some (home_lt c) hslot
    have hkey : b'.xftChar slot = c := hstop.resolve_left hempty
    rw [if_pos hkey]
    refine ⟨(Later.refl b').mono (by omega), fun hb => ?_, fun _ => ⟨slot, hlt, hkey⟩⟩
    obtain ⟨-, xft, hxft, hvalue⟩ := hb slot hlt hempty
    rw [hkey] at hxft hvalue
    simp only [BarConfig.cellWidth, hxft, hvalue]

/-- What the look may fail with, where `S` is not free to have it. -/
theorem xftCharWidth_fails {S : Fault → Prop} {font : Option Font}
    (hends : S .probeLoop ∨ b.Ends c) (hnull : S .nullFont ∨ font.isSome)
    (hxft : S .notXft ∨ ∀ f, font = some f → f.xft_ft.isSome) :
    FailsOnly S (b.xftCharWidth c font) := by
  rw [xftCharWidth]
  cases hslot : b.xftCharWidthSlot c with
  | none =>
    refine .error (hends.resolve_right ?_)
    rintro ⟨slot, hslot'⟩
    rw [hslot] at hslot'
    cases hslot'
  | some slot =>
    simp only
    split
    · cases font with
      | none => exact .error (hnull.resolve_right nofun)
      | some f =>
        cases hf : f.xft_ft with
        | some xft => simp only [hf]; exact .ok _
        | none =>
          simp only [hf]
          refine .error (hxft.resolve_right fun h => ?_)
          have hsome := h f rfl
          rw [hf] at hsome
          cases hsome
    · split <;> exact .ok _

/-- The width that a character is drawn with. -/
theorem drawWidth_ok (h : b.drawWidth (b.fontUsed c) c = .ok (b', w)) :
    Later 1 b b' ∧ (b.Coherent → b.cellWidth c = some w) ∧
      ((b.fontUsed c).xft_ft.isSome → c ≠ 0 → b'.Known c) := by
  rw [drawWidth] at h
  cases hxft : (b.fontUsed c).xft_ft with
  | some xft =>
    simp only [hxft] at h
    obtain ⟨hlater, hw, hknown⟩ := xftCharWidth_ok (fun f hf => (Option.some.inj hf).symm) h
    exact ⟨hlater, hw, fun _ => hknown⟩
  | none =>
    simp only [hxft] at h
    have hlater := (Later.refl b).mono (Nat.zero_le 1)
    cases hlut : (b.fontUsed c).width_lut with
    | none =>
      simp only [hlut] at h
      obtain ⟨rfl, rfl⟩ := Prod.mk.inj (Except.ok.inj h)
      exact ⟨hlater, fun _ => by simp only [BarConfig.cellWidth, hxft, hlut], nofun⟩
    | some lut =>
      simp only [hlut] at h
      obtain ⟨w', hw', h⟩ := bind_eq_ok_iff.mp h
      obtain ⟨rfl, rfl⟩ := Prod.mk.inj (Except.ok.inj h)
      refine ⟨hlater, fun _ => ?_, nofun⟩
      simp only [BarConfig.cellWidth, hxft, hlut, hw', Except.toOption]

/-- A known width is found, and nothing changes. -/
theorem xftCharWidth_of_known {font : Option Font} (hb : b.Coherent) (hc : c ≠ 0)
    (hknown : b.Known c) : ∃ w, b.xftCharWidth c font = .ok (b, w) := by
  obtain ⟨slot, hlt, rfl⟩ := hknown
  have hslot : b.xftCharWidthSlot (b.xftChar slot) = some slot := (hb slot hlt hc).1
  simp only [xftCharWidth, hslot]
  rw [if_neg hc, if_pos trivial]
  exact ⟨_, rfl⟩

/-- Drawing `c` takes no slot: its font is a core font, or its width is known. -/
def Cheap (b : Bar) (c : UInt32) : Prop := (b.fontUsed c).xft_ft.isSome → c ≠ 0 ∧ b.Known c

theorem Cheap.later {n : Nat} (h : b.Cheap c) (hlater : Later n b b') : b'.Cheap c := by
  rw [Cheap, hlater.config]
  intro hxft
  obtain ⟨hc, hknown⟩ := h hxft
  exact ⟨hc, hlater.known c hc hknown⟩

/-- Drawing a cheap character changes nothing. -/
theorem drawWidth_of_cheap (hb : b.Coherent) (hcheap : b.Cheap c)
    (h : b.drawWidth (b.fontUsed c) c = .ok (b', w)) : b' = b := by
  rw [drawWidth] at h
  cases hxft : (b.fontUsed c).xft_ft with
  | some xft =>
    obtain ⟨hc, hknown⟩ := hcheap (by rw [hxft]; rfl)
    obtain ⟨w', hw'⟩ : ∃ w', b.xftCharWidth c (some (b.fontUsed c)) = .ok (b, w') :=
      xftCharWidth_of_known hb hc hknown
    simp only [hxft, hw'] at h
    exact (Prod.mk.inj (Except.ok.inj h)).1.symm
  | none =>
    cases hlut : (b.fontUsed c).width_lut with
    | none =>
      simp only [hxft, hlut] at h
      exact (Prod.mk.inj (Except.ok.inj h)).1.symm
    | some lut =>
      simp only [hxft, hlut] at h
      obtain ⟨w', -, h⟩ := bind_eq_ok_iff.mp h
      exact (Prod.mk.inj (Except.ok.inj h)).1.symm

theorem lutWidth_fails {S : Fault → Prop} {f : Font} {lut : Nat → Int}
    (hw : S .lutIndex ∨ (f.lutWidth lut c).toOption.isSome) : FailsOnly S (f.lutWidth lut c) := by
  rw [Font.lutWidth] at hw ⊢
  split
  · exact .ok _
  · next hrange =>
    rw [if_neg hrange] at hw
    exact .error (hw.resolve_right nofun)

/-- What drawing may fail with: the search for the width does not end, or the font's table does
not have the character. -/
theorem drawWidth_fails {S : Fault → Prop} (hends : S .probeLoop ∨ b.Ends c ∨ b.Coherent ∧ b.Cheap c)
    (hw : S .lutIndex ∨ (b.cellWidth c).isSome) :
    FailsOnly S (b.drawWidth (b.fontUsed c) c) := by
  rw [drawWidth]
  cases hxft : (b.fontUsed c).xft_ft with
  | some xft =>
    refine xftCharWidth_fails (hends.imp_right ?_) (.inr rfl) (.inr ?_)
    · rintro (hends | ⟨hb, hcheap⟩)
      · exact hends
      · obtain ⟨hc, hknown⟩ := hcheap (by rw [hxft]; rfl)
        exact hb.ends hc hknown
    · rintro f hf
      obtain rfl := Option.some.inj hf
      rw [hxft]
      rfl
  | none =>
    cases hlut : (b.fontUsed c).width_lut with
    | none => exact .ok _
    | some lut =>
      simp only [BarConfig.cellWidth, hxft, hlut] at hw
      exact .bind (lutWidth_fails hw) fun _ _ => .ok _

/-! ## Measuring -/

/-- **Measuring agrees with drawing** in a font that has the character. -/
theorem getUtf8CharWidth_eq_drawWidth (b : Bar) {f : Font} (h : f.hasGlyph c = true) :
    b.getUtf8CharWidth c (some f) = b.drawWidth f c := by
  simp only [getUtf8CharWidth, drawWidth]
  cases hxft : f.xft_ft with
  | some xft => rfl
  | none =>
    cases hlut : f.width_lut with
    | none => rfl
    | some lut =>
      have hrange := BarConfig.hasGlyph_range h hxft
      simp only [Font.lutWidth, if_pos hrange]
      rfl

/-- The width that is measured for a character. -/
theorem getUtf8CharWidth_ok
    (h : b.getUtf8CharWidth (b.shown c) (b.fontFor c) = .ok (b', w)) :
    Later 1 b b' ∧ (b.Coherent → w = b.measured c) ∧
      ((b.fontFor c).isSome → (b.fontUsed c).xft_ft.isSome → c ≠ 0 → b'.Known c) := by
  cases hfont : b.fontFor c with
  | none =>
    rw [hfont] at h
    obtain ⟨rfl, rfl⟩ := Prod.mk.inj (Except.ok.inj h)
    refine ⟨(Later.refl b).mono (Nat.zero_le 1), fun _ => ?_, nofun⟩
    rw [BarConfig.measured, hfont]
    rfl
  | some f =>
    have hf := BarConfig.fontUsed_of_fontFor hfont
    rw [BarConfig.shown, hfont, Option.isNone_some, if_neg (by decide),
      getUtf8CharWidth_eq_drawWidth b (BarConfig.hasGlyph_of_fontFor hfont), ← hf] at h
    obtain ⟨hlater, hw, hknown⟩ := drawWidth_ok h
    refine ⟨hlater, fun hb => ?_, fun _ => hknown⟩
    rw [BarConfig.measured, hfont, Option.isNone_some, if_neg (by decide), hw hb, Option.getD_some]

end Bar

end Photonbar
