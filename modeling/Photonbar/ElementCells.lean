import Photonbar.BarRuns

/-!
# The cells of an element (`bar.h`)

An element is measured when it is parsed and drawn later, by other code and with other characters in
between. `PaintsAsMeasured` says that the two agree: every character is drawn as wide as it was
recorded, and what X fills for the cells is exactly the place of the element, `[beginX, beginX + width)`.

There are three ways for that to fail, and `paintsAsMeasured_iff` says that there is no other. A
character that no font has is measured without a font and drawn as a `?`. A width has to survive the
signed byte of `xftWidth` and the unsigned one of `ucsContentCharWidths`. And `fillRect` hands X the
start of a cell as an `int16_t`, so that a cell that would start at 32768 or beyond is filled somewhere
else. The first two are said of one character (`BarConfig.Fits`), the third of the characters in their
order (`BarConfig.InReach`); `Tile.covers` says what a tiling means for the single pixels.
-/

namespace Photonbar

variable {H : Type}

/-- What X fills for the cells, one after another, are rectangles side by side, from one position to
another. A cell without a width fills nothing, wherever it stands. -/
def Tile : Int → List Cell → Int → Prop
  | x, [], y => x = y
  | x, cell :: cells, y =>
    (cell.chWidth % 65536 = 0 ∨ cell.x.bmod 65536 = x) ∧ Tile (x + cell.chWidth % 65536) cells y

/-- On `b`, the element is painted with the widths that were recorded for it, and X fills
`[beginX, beginX + width)` with its cells. -/
def PaintsAsMeasured (b : Bar) (e : BarElement H) : Prop :=
  ∃ b' painting, b.renderElement e = .ok (b', painting) ∧
    painting.cells.map (·.chWidth) = (Bar.chars e).map (fun p => (p.2.toNat : Int)) ∧
    Tile e.beginX.toNat painting.cells (e.beginX.toNat + e.width.toNat)

namespace BarConfig

/-- A font has the character, and its width is kept as it is; or no font has it, and the `?`
in its place takes no room. -/
def Fits (cfg : BarConfig) (c : UInt32) : Prop :=
  if (cfg.fontFor c).isSome then ∃ w, cfg.cellWidth c = some w ∧ 0 ≤ w ∧ w ≤ 255
  else cfg.cellWidth questionMark = some 0

/-- X can be told where the characters start that take room, if they stand side by side from `x` on. -/
def InReach (cfg : BarConfig) : Int → List UInt32 → Prop
  | _, [] => True
  | x, c :: cs => (cfg.recorded c = 0 ∨ x < 2 ^ 15) ∧ cfg.InReach (x + (cfg.recorded c).toNat) cs

/-- The width that is recorded for a character is the one that it is drawn with. -/
theorem fits_iff (cfg : BarConfig) (c : UInt32) :
    cfg.Fits c ↔ cfg.cellWidth (cfg.shown c) = some ((cfg.recorded c).toNat : Int) := by
  rw [Fits, shown, recorded, measured]
  cases hfont : cfg.fontFor c with
  | none => rfl
  | some f =>
    obtain ⟨w, hw⟩ := Option.isSome_iff_exists.mp (cellWidth_isSome (by rw [hfont]; rfl))
    rw [Option.isSome_some, if_pos rfl, Option.isNone_some, if_neg (by decide),
      if_neg (by decide), hw, Option.getD_some]
    refine ⟨?_, ?_⟩
    · rintro ⟨v, hv, h₀, h⟩
      obtain rfl := Option.some.inj hv
      rw [toNat_uint8_ofInt h₀ (by omega)]
    · intro h
      have heq := Option.some.inj h
      have hlt := (UInt8.ofInt w).toNat_lt
      exact ⟨w, rfl, by omega, by omega⟩

end BarConfig

/-! ## Tilings -/

theorem Tile.le {cells : List Cell} : ∀ {x y : Int}, Tile x cells y → x ≤ y := by
  induction cells with
  | nil => exact fun h => Int.le_of_eq h
  | cons cell cells ih =>
    rintro x y ⟨-, hrest⟩
    have hnonneg := Int.emod_nonneg cell.chWidth (b := 65536) (by decide)
    have hle := ih hrest
    omega

/-- **What a tiling covers**: the pixels from its start up to its end, and each of them once. -/
theorem Tile.covers {cells : List Cell} : ∀ {x y : Int}, Tile x cells y →
    (∀ px, (∃ cell ∈ cells, Covers (cell.x, cell.chWidth) px) ↔ x ≤ px ∧ px < y) ∧
      cells.Pairwise fun cell cell' => ∀ px, Covers (cell.x, cell.chWidth) px →
        ¬ Covers (cell'.x, cell'.chWidth) px := by
  induction cells with
  | nil =>
    rintro x y rfl
    refine ⟨fun px => ?_, .nil⟩
    simp only [List.not_mem_nil, false_and, exists_false, false_iff]
    omega
  | cons cell cells ih =>
    rintro x y ⟨hcell, hrest⟩
    obtain ⟨hcovers, hdisjoint⟩ := ih hrest
    have hle := hrest.le
    have hnonneg := Int.emod_nonneg cell.chWidth (b := 65536) (by decide)
    -- the first cell covers what lies in front of the others
    have hfirst (px : Int) : Covers (cell.x, cell.chWidth) px ↔
        x ≤ px ∧ px < x + cell.chWidth % 65536 := by
      rw [Covers]
      rcases hcell with hzero | hstart
      · omega
      · rw [hstart]
    refine ⟨fun px => ?_, List.pairwise_cons.mpr ⟨fun cell' hmem px h h' => ?_, hdisjoint⟩⟩
    · simp only [List.mem_cons, exists_eq_or_imp, hfirst, hcovers]
      omega
    · have hbehind := (hcovers px).mp ⟨cell', hmem, h'⟩
      have hinside := (hfirst px).mp h
      omega

/-! ## Characters that are laid -/

section Laid

variable {cfg : BarConfig} {x : Int} {cs : List (UInt32 × Int)} {cells : List Cell}

/-- The cells are as wide as their distances say when the fonts have them so wide. -/
theorem Laid.widths_iff (h : Laid cfg x cs cells) :
    cells.map (·.chWidth) = cs.map Prod.snd ↔ ∀ p ∈ cs, cfg.cellWidth p.1 = some p.2 := by
  induction h with
  | nil => simp
  | cons _ _ hwidth _ ih =>
    rw [List.map_cons, List.map_cons, List.cons.injEq, ih, List.forall_mem_cons, hwidth,
      Option.some.injEq]

end Laid

/-- X keeps a place that is shifted by this much only if the shift does not matter and the place is one
of the lower half. -/
theorem bmod_shift_iff {a shift : Int} (ha : 0 ≤ a) :
    (a + shift).bmod 65536 = a ↔ 65536 ∣ shift ∧ a < 2 ^ 15 := by
  rw [Int.bmod_def]
  split <;> omega

/-! ## Elements that were parsed -/

theorem recordedSum_cons (cfg : BarConfig) (c : UInt32) (cs : List UInt32) :
    cfg.recordedSum (c :: cs) = (cfg.recorded c).toNat + cfg.recordedSum cs := by
  rw [BarConfig.recordedSum, List.map_cons, List.sum_cons]
  rfl

theorem recordedSum_append (cfg : BarConfig) (cs ds : List UInt32) :
    cfg.recordedSum (cs ++ ds) = cfg.recordedSum cs + cfg.recordedSum ds := by
  rw [BarConfig.recordedSum, List.map_append, List.sum_append]
  rfl

theorem recordedSum_eq_zero_iff (cfg : BarConfig) (cs : List UInt32) :
    cfg.recordedSum cs = 0 ↔ ∀ c ∈ cs, cfg.recorded c = 0 := by
  induction cs with
  | nil => exact ⟨nofun, fun _ => rfl⟩
  | cons c cs ih =>
    rw [recordedSum_cons, Nat.add_eq_zero_iff, ih, List.forall_mem_cons, ← UInt8.toNat_inj,
      UInt8.toNat_zero]

/-- What is drawn of an element into which `cs` was parsed. -/
theorem glyphs_eq {cfg : BarConfig} {e : BarElement H} {cs : List UInt32}
    (h : Bar.chars e = cfg.records cs) :
    e.glyphs = cs.map fun c => (cfg.shown c, ((cfg.recorded c).toNat : Int)) := by
  rw [BarElement.glyphs, h, BarConfig.records, List.map_map]
  rfl

/-- What X fills for the cells of characters that fit and that are laid `shift` further on than they
should be: they tile their place if the shift does not matter to X, or there is nothing to be seen, and
if all of them are in reach. -/
theorem Laid.tile_iff {cfg : BarConfig} {shift : Int} {cs : List UInt32} :
    ∀ {a y : Int} {cells : List Cell}, 0 ≤ a →
      Laid cfg (a + shift) (cs.map fun c => (cfg.shown c, ((cfg.recorded c).toNat : Int))) cells →
      (∀ c ∈ cs, cfg.Fits c) →
      (Tile a cells y ↔ ((∀ c ∈ cs, cfg.recorded c = 0) ∨ 65536 ∣ shift) ∧ cfg.InReach a cs ∧
        y = a + cfg.recordedSum cs) := by
  induction cs with
  | nil =>
    intro a y cells _ h _
    cases h
    rw [Tile, BarConfig.InReach, BarConfig.recordedSum, List.map_nil, List.sum_nil]
    refine ⟨?_, ?_⟩
    · rintro rfl
      exact ⟨.inl (by simp), trivial, (Int.add_zero a).symm⟩
    · rintro ⟨-, -, rfl⟩
      exact (Int.add_zero a).symm
  | cons c cs ih =>
    intro a y cells ha h hfits
    obtain ⟨hfit, hrest⟩ := List.forall_mem_cons.mp hfits
    cases h with
    | cons hx _ hwidth hlaid =>
      have hcell := Option.some.inj (hwidth.symm.trans ((cfg.fits_iff c).mp hfit))
      have hlt := (cfg.recorded c).toNat_lt
      have hwide : (((cfg.recorded c).toNat : Nat) : Int) % 65536 = (cfg.recorded c).toNat := by omega
      have hzero : ((cfg.recorded c).toNat : Int) = 0 ↔ cfg.recorded c = 0 := by
        rw [Int.natCast_eq_zero, ← UInt8.toNat_inj]
        rfl
      rw [Int.add_right_comm] at hlaid
      rw [Tile, hcell, hwide, hx, bmod_shift_iff ha, hzero, ih (by omega) hlaid hrest,
        BarConfig.InReach, List.forall_mem_cons, recordedSum_cons, Int.natCast_add, Int.add_assoc]
      -- a character of no width is in nobody's way
      tauto

/-- A character that is shown as itself, and is not NUL, is cheap to draw once it was
measured. -/
theorem cheap_of_known {b b' : Bar} {n : Nat} (hlater : Bar.Later n b b') {c : UInt32}
    (hknown : (b.fontFor c).isSome → (b.fontUsed c).xft_ft.isSome → c ≠ 0 → b'.Known c)
    (hquestion : b.shown c ≠ questionMark) (hzero : b.shown c ≠ 0) : b'.Cheap (b.shown c) := by
  rw [BarConfig.shown] at hquestion hzero ⊢
  cases hfont : b.fontFor c with
  | none =>
    rw [hfont] at hquestion
    exact absurd rfl hquestion
  | some f =>
    rw [hfont] at hzero
    have hne : c ≠ 0 := hzero
    rw [Bar.Cheap, hlater.config]
    exact fun hxft => ⟨hne, hknown (by rw [hfont]; rfl) hxft hne⟩

/-- A rendering ends where all widths are there, and the table has room. -/
theorem exists_rendered {b : Bar} {e : BarElement H} {cs : List UInt32} (hb : b.Coherent)
    (hchars : Bar.chars e = b.records cs) (hfits : ∀ c ∈ cs, b.Fits c)
    (hcheap : ∀ c ∈ cs, b.shown c ≠ questionMark → b.shown c ≠ 0 → b.Cheap (b.shown c))
    (hroom : ((Bar.chars e).countP fun p => p.1 = questionMark ∨ p.1 = 0) ≤ b.free) :
    ∃ r, b.renderElement e = .ok r := by
  have hcells : ∀ p ∈ Bar.chars e, ∃ c ∈ cs, p.1 = b.shown c := by
    intro p hp
    rw [hchars] at hp
    obtain ⟨c, hc, rfl⟩ := List.mem_map.mp hp
    exact ⟨c, hc, rfl⟩
  have hroom : Bar.Room (fun _ => False) (fun u => decide (u = questionMark ∨ u = 0)) b
      (Bar.chars e) := by
    refine .inr ⟨hroom, fun p hp hS => ?_⟩
    obtain ⟨c, hc, hpc⟩ := hcells p hp
    have hS := of_decide_eq_false hS
    rw [hpc, not_or] at hS
    rw [hpc]
    exact hcheap c hc hS.1 hS.2
  have hwidths : ∀ p ∈ Bar.chars e, (b.cellWidth p.1).isSome := by
    intro p hp
    obtain ⟨c, hc, hpc⟩ := hcells p hp
    rw [hpc, (b.fits_iff c).mp (hfits c hc)]
    rfl
  exact (Bar.renderElement_fails e hb hroom (.inr hwidths)).exists_ok

/-- An element whose characters are recorded is painted as it was measured exactly when they fit, take
as much room together as the element has, and X can be told where they start. -/
theorem paintsAsMeasured_iff_of_records {b : Bar} {e : BarElement H} {cs : List UInt32}
    (hb : b.Coherent) (hchars : Bar.chars e = b.records cs)
    (hcheap : ∀ c ∈ cs, b.shown c ≠ questionMark → b.shown c ≠ 0 → b.Cheap (b.shown c))
    (hroom : ((Bar.chars e).countP fun p => p.1 = questionMark ∨ p.1 = 0) ≤ b.free) :
    PaintsAsMeasured b e ↔
      (∀ c ∈ cs, b.Fits c) ∧ e.width.toNat = b.recordedSum cs ∧
      ((∀ c ∈ cs, b.recorded c = 0) ∨ 65536 ∣ max e.offsetPixels 0) ∧
      b.InReach e.beginX.toNat cs := by
  have hglyphs := glyphs_eq hchars
  have hrecorded : (Bar.chars e).map (fun p => (p.2.toNat : Int)) = e.glyphs.map Prod.snd := by
    rw [BarElement.glyphs, List.map_map]
    rfl
  have hfits : (∀ p ∈ e.glyphs, b.cellWidth p.1 = some p.2) ↔ ∀ c ∈ cs, b.Fits c := by
    rw [hglyphs, List.forall_mem_map]
    exact forall₂_congr fun c _ => (b.fits_iff c).symm
  -- what a rendering that ends has to satisfy
  have hpaint : ∀ {b' painting}, b.renderElement e = .ok (b', painting) → (∀ c ∈ cs, b.Fits c) →
      (Tile e.beginX.toNat painting.cells (e.beginX.toNat + e.width.toNat) ↔
        e.width.toNat = b.recordedSum cs ∧
          ((∀ c ∈ cs, b.recorded c = 0) ∨ 65536 ∣ max e.offsetPixels 0) ∧
          b.InReach e.beginX.toNat cs) := by
    intro b' painting h hcs
    obtain ⟨-, hlaid⟩ := Bar.renderElement_ok hb h
    rw [hglyphs] at hlaid
    have hstop : (e.beginX.toNat : Int) + e.width.toNat = e.beginX.toNat + b.recordedSum cs ↔
        e.width.toNat = b.recordedSum cs := by
      omega
    rw [Laid.tile_iff (Int.natCast_nonneg _) hlaid hcs, hstop, ← and_assoc, and_comm]
  refine ⟨?_, ?_⟩
  · rintro ⟨b', painting, h, hwidths, htile⟩
    obtain ⟨-, hlaid⟩ := Bar.renderElement_ok hb h
    have hcs := hfits.mp (hlaid.widths_iff.mp (hwidths.trans hrecorded))
    exact ⟨hcs, (hpaint h hcs).mp htile⟩
  · rintro ⟨hcs, hrest⟩
    -- the rendering ends, since what was measured is known
    obtain ⟨⟨b', painting⟩, h⟩ := exists_rendered hb hchars hcs hcheap hroom
    obtain ⟨-, hlaid⟩ := Bar.renderElement_ok hb h
    exact ⟨b', painting, h, (hlaid.widths_iff.mpr (hfits.mpr hcs)).trans hrecorded.symm,
      (hpaint h hcs).mpr hrest⟩

/-- **An element is painted as it was measured**, at whatever place and after whatever else the bar has
done, exactly when its characters fit and X can be told where they start. The width that was recorded is
the sum over all code points; those that do not count any more, since the text does not stop, must have
taken no room. The table of widths is asked again when the element is drawn, and it only has to have room
for what was not measured: a `?` in the place of another character, and a NUL. -/
theorem paintsAsMeasured_iff {b b₁ b₂ : Bar} {e e₁ : BarElement H} {cs : List UInt32}
    {stopped : Bool} (hb : Bar.Reachable H b) (hdirty : e.dirtyContent = true)
    (hcs : codePoints e.content CONTENT_MAX_LEN 0 = .ok (cs, stopped))
    (hparse : b.parseElementContent e = .ok (b₁, e₁)) (hreaches : Bar.Reaches H b₁ b₂) (x : UInt16)
    (hroom : ((Bar.chars e₁).countP fun p => p.1 = questionMark ∨ p.1 = 0) ≤ b₂.free) :
    PaintsAsMeasured b₂ { e₁ with beginX := x } ↔
      (∀ c ∈ cs.take (Bar.parsedLen e cs stopped), b.Fits c) ∧
      (∀ c ∈ cs.drop (Bar.parsedLen e cs stopped), b.recorded c = 0) ∧
      ((∀ c ∈ cs.take (Bar.parsedLen e cs stopped), b.recorded c = 0) ∨
        65536 ∣ max e.offsetPixels 0) ∧
      b.InReach x.toNat (cs.take (Bar.parsedLen e cs stopped)) := by
  have hkept := hb.kept
  obtain ⟨cs', stopped', hcs', hlater, hchars, hwidth, hoffset, hknown⟩ :=
    Bar.parseElementContent_ok hkept.coherent hdirty hparse
  obtain ⟨rfl, rfl⟩ := Prod.mk.inj (Except.ok.inj (hcs.symm.trans hcs'))
  obtain ⟨n, hlater₂⟩ := hreaches.later (hlater.kept hkept)
  have hall := hlater.trans hlater₂
  -- the characters that count, and the others
  rw [BarConfig.records, ← List.map_take] at hchars
  rw [← List.take_append_drop (Bar.parsedLen e cs stopped) cs, recordedSum_append] at hwidth
  have hcheap : ∀ c ∈ cs, b₂.shown c ≠ questionMark → b₂.shown c ≠ 0 → b₂.Cheap (b₂.shown c) := by
    rw [hall.config]
    intro c hc hquestion hzero
    exact (cheap_of_known hlater (hknown c hc) hquestion hzero).later hlater₂
  have hchars₂ : Bar.chars { e₁ with beginX := x } =
      b₂.records (cs.take (Bar.parsedLen e cs stopped)) := by
    rw [hall.config]
    exact hchars
  have hsum : e₁.width.toNat = b.recordedSum (cs.take (Bar.parsedLen e cs stopped)) ↔
      ∀ c ∈ cs.drop (Bar.parsedLen e cs stopped), b.recorded c = 0 := by
    rw [← recordedSum_eq_zero_iff]
    omega
  rw [paintsAsMeasured_iff_of_records (hall.kept hkept).coherent hchars₂
    (fun c hc => hcheap c (List.mem_of_mem_take hc)) hroom, hall.config, hoffset, hsum]

/-- The letter `A` fits. -/
theorem paintsAsMeasured_letter :
    ∃ b₁ e₁, (asciiBar 10 100).parseElementContent (textElement [65] : BarElement Unit) =
      .ok (b₁, e₁) ∧ PaintsAsMeasured b₁ { e₁ with beginX := 7 } := by
  have hchars : ((asciiBar 10 100).parseElementContent (textElement [65] : BarElement Unit)).map
      (fun r => Bar.chars r.2) = .ok [(65, 10)] := by decide +kernel
  have hcs : codePoints (textElement [65] : BarElement Unit).content CONTENT_MAX_LEN 0 =
      .ok ([65], true) := by decide +kernel
  cases hparse : (asciiBar 10 100).parseElementContent (textElement [65] : BarElement Unit) with
  | error fault => rw [hparse] at hchars; cases hchars
  | ok r =>
    obtain ⟨b₁, e₁⟩ := r
    rw [hparse] at hchars
    have hchars : Bar.chars e₁ = [(65, 10)] := Except.ok.inj hchars
    refine ⟨b₁, e₁, rfl, ?_⟩
    refine (paintsAsMeasured_iff (asciiBar_reachable 10 100) rfl hcs hparse .refl 7
      (by rw [hchars]; exact Nat.zero_le _)).mpr ⟨?_, nofun, ?_, ?_⟩
    · rintro c hc
      obtain rfl := List.mem_singleton.mp hc
      exact ⟨10, rfl, by decide, by decide⟩
    · exact .inr (by decide)
    · exact ⟨.inr (by decide), trivial⟩

/-- The widths that are painted and those that were recorded, right after parsing. -/
def paintedAndRecorded (b : Bar) (e : BarElement H) : Except Fault (List Int × List Int) := do
  let (b, e) ← b.parseElementContent e
  let (_, painting) ← b.renderElement e
  return (painting.cells.map (·.chWidth), (Bar.chars e).map fun p => (p.2.toNat : Int))

theorem not_paintsAsMeasured {b : Bar} {e : BarElement H} (ws ws' : List Int)
    (h : paintedAndRecorded b e = .ok (ws, ws')) (hne : ws ≠ ws') :
    ∃ b₁ e₁, b.parseElementContent e = .ok (b₁, e₁) ∧ ¬ PaintsAsMeasured b₁ e₁ := by
  obtain ⟨⟨b₁, e₁⟩, hparse, h⟩ := bind_eq_ok_iff.mp h
  obtain ⟨⟨b₂, painting⟩, hrender, h⟩ := bind_eq_ok_iff.mp h
  obtain ⟨rfl, rfl⟩ := Prod.mk.inj (Except.ok.inj h)
  refine ⟨b₁, e₁, hparse, ?_⟩
  rintro ⟨b', painting', hrender', hwidths, -⟩
  obtain ⟨-, rfl⟩ := Prod.mk.inj (Except.ok.inj (hrender.symm.trans hrender'))
  exact hne hwidths

/-- What X is given for the cells of an element that is drawn from `beginX` on, right after parsing. -/
def paintedFrom (b : Bar) (e : BarElement H) (beginX : UInt16) :
    Except Fault (List (Int × Int)) := do
  let (b, e) ← b.parseElementContent e
  let (_, painting) ← b.renderElement { e with beginX }
  return painting.cells.map fun cell => (cell.x, cell.chWidth)

theorem not_paintsAsMeasured_of_far {b : Bar} {e : BarElement H} (beginX : UInt16)
    (cell : Int × Int) (cells : List (Int × Int)) (h : paintedFrom b e beginX = .ok (cell :: cells))
    (hwidth : cell.2 % 65536 ≠ 0) (hfar : cell.1.bmod 65536 ≠ beginX.toNat) :
    ∃ b₁ e₁, b.parseElementContent e = .ok (b₁, e₁) ∧
      ¬ PaintsAsMeasured b₁ { e₁ with beginX } := by
  obtain ⟨⟨b₁, e₁⟩, hparse, h⟩ := bind_eq_ok_iff.mp h
  obtain ⟨⟨b₂, painting⟩, hrender, h⟩ := bind_eq_ok_iff.mp h
  refine ⟨b₁, e₁, hparse, ?_⟩
  rintro ⟨b', painting', hrender', -, htile⟩
  obtain ⟨-, rfl⟩ := Prod.mk.inj (Except.ok.inj (hrender.symm.trans hrender'))
  obtain ⟨cell', cells', hcells, rfl, -⟩ := List.map_eq_cons_iff.mp (Except.ok.inj h)
  rw [hcells] at htile
  exact htile.1.elim hwidth hfar

/-- `é`, which the font does not have, is recorded with width 0 and painted as a `?` of width
10; an `A` of width 200 is recorded with 200 and painted with -56; and an `A` that would start at
40000 is painted at -25536. -/
theorem missing_wide_and_far_glyphs_differ :
    (∃ b₁ e₁, (asciiBar 10 100).parseElementContent (textElement [0xC3, 0xA9] : BarElement Unit) =
      .ok (b₁, e₁) ∧ ¬ PaintsAsMeasured b₁ e₁) ∧
    (∃ b₁ e₁, (asciiBar 200 100).parseElementContent (textElement [65] : BarElement Unit) =
      .ok (b₁, e₁) ∧ ¬ PaintsAsMeasured b₁ e₁) ∧
    (∃ b₁ e₁, (asciiBar 10 100).parseElementContent (textElement [65] : BarElement Unit) =
      .ok (b₁, e₁) ∧ ¬ PaintsAsMeasured b₁ { e₁ with beginX := 40000 }) ∧
    Bar.Reachable Unit (asciiBar 10 100) ∧ Bar.Reachable Unit (asciiBar 200 100) :=
  ⟨not_paintsAsMeasured [10] [0] (by decide +kernel) (by decide),
    not_paintsAsMeasured [-56] [200] (by decide +kernel) (by decide),
    not_paintsAsMeasured_of_far 40000 (40000, 10) [] (by decide +kernel) (by decide) (by decide),
    asciiBar_reachable 10 100, asciiBar_reachable 200 100⟩

end Photonbar
