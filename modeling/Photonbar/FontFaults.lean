import Photonbar.Layout

/-!
# What a frame may fail with (`bar.h`)

Each function of the renderer, with what rules out the faults that are not in `S`: room in the
table of widths, fonts for the separator, tables that have the characters. `S` is any set of
faults, so that one lemma for each function serves every question: which faults are left when
something is missing, and when there are none.

The room is counted in characters. `RoomFor S n b` is for `n` of them, and is used up as the loops
go on, since every operation takes a slot at most for each character (`RoomFor.later`).
`renderAllElements_fails` is the whole frame, with one hypothesis for each kind of fault: either it
may occur, or what causes it is excluded. With every fault ruled out a frame is completed
(`renderAllElements_total`).
-/

namespace Photonbar

variable {H : Type}

/-- All characters of the elements have a width in the fonts that they are drawn in. -/
def BarConfig.Draws (cfg : BarConfig) (es : List (BarElement H)) : Prop :=
  ∀ e ∈ es, ∀ p ∈ Bar.chars e, (cfg.cellWidth p.1).isSome

namespace Bar

/-! ## Room in the table -/

/-- The table has room for `n` characters; or it need not, since an endless search is in `S`. -/
def RoomFor (S : Fault → Prop) (n : Nat) (b : Bar) : Prop := S .probeLoop ∨ n ≤ b.free

variable {S : Fault → Prop} {m n : Nat} {b b' : Bar}

theorem RoomFor.mono (h : RoomFor S n b) (hmn : m ≤ n) : RoomFor S m b :=
  h.imp_right hmn.trans

theorem RoomFor.later (h : RoomFor S (m + n) b) (hlater : Later m b b') : RoomFor S n b' := by
  refine h.imp_right fun hfree => ?_
  have hleft := hlater.free
  omega

theorem RoomFor.ends (h : RoomFor S (n + 1) b) (c : UInt32) : S .probeLoop ∨ b.Ends c :=
  h.imp_right fun hfree => ends_of_free (by omega) c

theorem RoomFor.room {cs : List (UInt32 × UInt8)} (h : RoomFor S cs.length b) :
    Room S (fun _ => true) b cs :=
  h.imp_right fun hfree => ⟨List.countP_le_length.trans hfree, fun _ _ hT => nomatch hT⟩

/-! ## Separators -/

theorem separatorChars_fails (cs : List UInt32) :
    ∀ {b : Bar} {x : Int}, b.Coherent → RoomFor S cs.length b →
      (S .nullFont ∨ ∀ c ∈ cs, (b.fontFor c).isSome) →
      FailsOnly S (b.separatorChars x (cs.map b.sepChar)) := by
  induction cs with
  | nil => intro b x _ _ _; exact .ok _
  | cons c cs ih =>
    intro b x hb hroom hfonts
    rw [List.map_cons, separatorChars]
    cases hfont : b.fontFor c with
    | none =>
      simp only [BarConfig.sepChar, hfont]
      refine .error (hfonts.resolve_right fun h => ?_)
      have hsome := h c List.mem_cons_self
      rw [hfont] at hsome
      cases hsome
    | some f =>
      have hshown : b.shown c = c := by rw [BarConfig.shown, hfont]; rfl
      have hused := BarConfig.fontUsed_of_fontFor hfont
      simp only [BarConfig.sepChar, hfont, hshown]
      -- a font that has the character has its width
      have hdraw : FailsOnly S (b.drawWidth (b.fontUsed c) c) :=
        drawWidth_fails ((hroom.ends c).imp_right .inl)
          (.inr (BarConfig.cellWidth_isSome (by rw [hfont]; rfl)))
      rw [← hused]
      refine (drawChar_fails hdraw).bind ?_
      rintro ⟨b₁, cell⟩ hcell
      have hlater := (drawChar_ok hcell).1
      have hrest := ih (b := b₁) (x := x + b.measured c) (hlater.coherent hb)
        (RoomFor.later (by rwa [Nat.add_comm]) hlater) (by
          rw [hlater.config]
          exact hfonts.imp_right fun h c hc => h c (List.mem_cons_of_mem _ hc))
      rw [hlater.config] at hrest
      exact hrest.bind fun _ _ => .ok _

theorem renderSeparatorAt_fails (x : Int) (hb : b.Coherent) (hsep : b.separator = b.sepChars)
    (hroom : RoomFor S 2 b) (hfonts : S .nullFont ∨ b.DrawsSeparator) :
    FailsOnly S (b.renderSeparatorAt x) := by
  obtain ⟨b₁, hgc, heq⟩ := b.renderSeparatorAt_eq x
  rw [heq, hsep, ← hgc.config]
  refine separatorChars_fails _ (hgc.coherent hb) (RoomFor.later (m := 0) hroom hgc) ?_
  rw [hgc.config]
  exact hfonts

/-- A character of the separator is measured anew, if there is a font that has it. -/
theorem separatorWidth_succ_fails {p k : Nat} {c : UInt32} (hbyte : sep_string p ≠ 0)
    (hdecode : decodeUtf8Char (fun i => .ok (sep_string (p + i))) = .ok ⟨c, k⟩)
    (hends : S .probeLoop ∨ b.Ends c)
    (hrest : ∀ b₁, Later 1 b b₁ → FailsOnly S (b₁.separatorWidth n (p + k))) :
    FailsOnly S (b.separatorWidth (n + 1) p) := by
  obtain ⟨i, hselect⟩ := b.selectDrawableFont_eq c
  have hsel : Later 0 b { b with offsetYIndex := i } := .of_eq rfl rfl rfl rfl
  rw [separatorWidth_step hbyte hdecode hselect]
  cases hfont : b.fontFor c with
  | none =>
    refine .bind (.ok _) fun r hr => ?_
    obtain rfl := Except.ok.inj hr
    exact (hrest _ (hsel.mono (Nat.zero_le 1))).bind fun _ _ => .ok _
  | some f =>
    have hshown : b.shown c = c := by rw [BarConfig.shown, hfont]; rfl
    have hdraw : FailsOnly S (drawWidth { b with offsetYIndex := i } (b.fontUsed c) c) :=
      drawWidth_fails (b := { b with offsetYIndex := i }) (hends.imp_right .inl)
        (.inr (BarConfig.cellWidth_isSome (by rw [hfont]; rfl)))
    rw [hshown, getUtf8CharWidth_eq_drawWidth _ (BarConfig.hasGlyph_of_fontFor hfont),
      ← BarConfig.fontUsed_of_fontFor hfont]
    refine hdraw.bind ?_
    rintro ⟨b₁, w⟩ hw
    have hlater := hsel.trans (drawWidth_ok (b := { b with offsetYIndex := i }) hw).1
    exact (hrest _ hlater).bind fun _ _ => .ok _

theorem separatorWidth_fails (hroom : RoomFor S 2 b) : FailsOnly S (b.separatorWidth 4 0) := by
  refine separatorWidth_succ_fails (k := 1) (c := 0x20) (by decide) (by decide) (hroom.ends _)
    fun b₁ hlater => ?_
  exact separatorWidth_succ_fails (k := 3) (c := 0x258F) (by decide) (by decide)
    ((RoomFor.later (m := 1) (n := 1) hroom hlater).ends _) fun _ _ => .ok _

/-! ## Modules -/

theorem renderElements_fails (es : List (BarElement H)) :
    ∀ {b : Bar} {x : Int}, b.Coherent → RoomFor S (rowGlyphs es) b →
      (S .lutIndex ∨ b.Draws es) → FailsOnly S (b.renderElements x es) := by
  induction es with
  | nil => intro b x _ _ _; exact .ok _
  | cons e es ih =>
    intro b x hb hroom hwidths
    rw [rowGlyphs, List.map_cons, List.sum_cons] at hroom
    have hrender := renderElement_fails { e with beginX := UInt16.ofInt x } hb
      (hroom.mono (Nat.le_add_right _ _)).room (hwidths.imp_right fun h => h e List.mem_cons_self)
    refine hrender.bind ?_
    rintro ⟨b₁, painting⟩ hpainting
    have hlater := (renderElement_ok hb hpainting).1
    refine (ih (hlater.coherent hb) (hroom.later hlater) ?_).bind fun _ _ => .ok _
    rw [hlater.config]
    exact hwidths.imp_right fun h e he => h e (List.mem_cons_of_mem _ he)

theorem renderModules_fails (modules : List (List (BarElement H))) :
    ∀ {b : Bar} {x : Int}, b.Coherent → b.separator = b.sepChars →
      RoomFor S (sideGlyphs modules) b →
      (S .nullFont ∨ (2 ≤ modules.length → b.DrawsSeparator)) →
      (S .lutIndex ∨ ∀ es ∈ modules, b.Draws es) → FailsOnly S (b.renderModules x modules) := by
  induction modules with
  | nil => intro b x _ _ _ _ _; exact .ok _
  | cons es modules ih =>
    intro b x hb hsep hroom hfonts hwidths
    rw [sideGlyphs_cons] at hroom
    have hrow := renderElements_fails es (x := x) hb (hroom.mono (by omega))
      (hwidths.imp_right fun h => h es List.mem_cons_self)
    cases modules with
    | nil => exact hrow.bind fun _ _ => .ok _
    | cons es' modules =>
      refine hrow.bind fun ⟨b₁, start, rs⟩ hrs => ?_
      have hlater₁ := (renderElements_ok hb hrs).1
      have hsep₁ : b₁.separator = b₁.sepChars := by rw [hlater₁.separator, hsep, hlater₁.config]
      have hroom₁ : RoomFor S (2 + sideGlyphs (es' :: modules)) b₁ :=
        RoomFor.later (by rwa [← Nat.add_assoc]) hlater₁
      have hsepAt := renderSeparatorAt_fails start (hlater₁.coherent hb) hsep₁
        (hroom₁.mono (Nat.le_add_right _ _)) (by
          rw [hlater₁.config]
          exact hfonts.imp_right fun h => h (by simp))
      refine hsepAt.bind fun ⟨b₂, stop, cells⟩ hcells => ?_
      have hlater₂ := (renderSeparatorAt_ok (hlater₁.coherent hb) hsep₁ hcells).1
      have hlater := hlater₁.trans hlater₂
      refine (ih (hlater.coherent hb) ?_ (hroom₁.later hlater₂) ?_ ?_).bind fun _ _ => .ok _
      · rw [hlater.separator, hsep, hlater.config]
      · rw [hlater.config]
        exact hfonts.imp_right fun h _ => h (by simp)
      · rw [hlater.config]
        exact hwidths.imp_right fun h es hes => h es (List.mem_cons_of_mem _ hes)

/-! ## A whole frame -/

/-- **What a frame may fail with.** For each kind of fault, either it is one of `S`, or its cause
is excluded: a table that is full, no font for a space or a first one that Xft does not know, no
font for the separator where one is drawn, and a core font whose table lacks a character. -/
theorem renderAllElements_fails (leftModules rightModules : List (List (BarElement H)))
    (hb : b.Coherent) (hsep : b.separator = b.sepChars)
    (hroom : RoomFor S (frameGlyphs leftModules rightModules) b)
    (hnull : S .nullFont ∨ (b.fontFor 32).isSome)
    (hxft : S .notXft ∨ ∀ f, b.fontFor 32 = some f → f.xft_ft.isSome)
    (hfonts : S .nullFont ∨
      (2 ≤ leftModules.length ∨ 2 ≤ rightModules.length → b.DrawsSeparator))
    (hwidths : S .lutIndex ∨ ∀ es ∈ leftModules ++ rightModules, b.Draws es) :
    FailsOnly S (b.renderAllElements leftModules rightModules) := by
  obtain ⟨i, hselect⟩ := b.selectDrawableFont_eq 32
  have hsel : Later 0 b { b with offsetYIndex := i } := .of_eq rfl rfl rfl rfl
  rw [renderAllElements, hselect]
  -- the margin
  have hends : S .probeLoop ∨ Ends { b with offsetYIndex := i } 32 :=
    RoomFor.ends (n := 0) (hroom.mono (by rw [frameGlyphs]; omega)) 32
  refine (xftCharWidth_fails hends hnull hxft).bind ?_
  rintro ⟨b₁, margin⟩ hmargin
  have hlater₁ := hsel.trans (xftCharWidth_ok (b := { b with offsetYIndex := i })
    (fun f hf => (BarConfig.fontUsed_of_fontFor hf).symm) hmargin).1
  have hroom₁ : RoomFor S (sideGlyphs leftModules + (2 + sideGlyphs rightModules)) b₁ :=
    RoomFor.later (hroom.mono (by rw [frameGlyphs]; omega)) hlater₁
  have hsep₁ : b₁.separator = b₁.sepChars := by rw [hlater₁.separator, hsep, hlater₁.config]
  -- the left side
  have hleft := renderModules_fails leftModules (x := 0) (hlater₁.coherent hb) hsep₁
    (hroom₁.mono (Nat.le_add_right _ _)) (by
      rw [hlater₁.config]
      exact hfonts.imp_right fun h hlen => h (.inl hlen)) (by
      rw [hlater₁.config]
      exact hwidths.imp_right fun h es hes => h es (List.mem_append_left _ hes))
  refine hleft.bind ?_
  rintro ⟨b₂, x₂, left⟩ hleft
  have hlater₂' := (renderModules_ok (hlater₁.coherent hb) hsep₁ hleft).1
  have hlater₂ := hlater₁.trans hlater₂'
  have hroom₂ := hroom₁.later hlater₂'
  -- the separator, measured anew
  refine (separatorWidth_fails (hroom₂.mono (Nat.le_add_right _ _))).bind ?_
  rintro ⟨b₃, w⟩ hw
  have hlater₃' := (separatorWidth_ok (hlater₂.coherent hb) hw).1
  have hlater₃ := hlater₂.trans hlater₃'
  -- the right side
  have hright := renderModules_fails rightModules (hlater₃.coherent hb)
    (x := b₁.width - margin -
      (totalWidth rightModules + (rightModules.length - 1 : Nat) * w))
    (by rw [hlater₃.separator, hsep, hlater₃.config]) (hroom₂.later hlater₃') (by
      rw [hlater₃.config]
      exact hfonts.imp_right fun h hlen => h (.inr hlen)) (by
      rw [hlater₃.config]
      exact hwidths.imp_right fun h es hes => h es (List.mem_append_right _ hes))
  exact hright.bind fun _ _ => .ok _

/-- **A frame is completed** when there are fonts for everything and room in the table. -/
theorem renderAllElements_total (leftModules rightModules : List (List (BarElement H)))
    (hb : b.Coherent) (hxft : b.AllXft) (hfonts : b.DrawsSeparator)
    (hsep : b.separator = b.sepChars) (hfree : frameGlyphs leftModules rightModules ≤ b.free) :
    ∃ f, b.renderAllElements leftModules rightModules = .ok f :=
  (renderAllElements_fails leftModules rightModules hb hsep (.inr hfree)
    (.inr (hfonts 32 List.mem_cons_self))
    (.inr fun _ hf => hxft _ (List.mem_of_find?_eq_some hf)) (.inr fun _ => hfonts)
    (.inr fun _ _ _ _ p _ => hxft.cellWidth p.1)).exists_ok

end Bar

end Photonbar
