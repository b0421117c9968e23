import Photonbar.Widths

/-!
# What painting leaves (`bar.h`)

For every operation of the renderer that paints characters or an element: what it paints, and
where, said by the fonts alone. `Laid` is about characters that are painted one after another, each
in its place and as wide as `cellWidth` says; the place of the next one is another matter, as the
distance may come from somewhere else (an element has the widths that were recorded when it was
parsed).

The lemmas come in pairs. `drawChar_ok`, `renderChars_ok` and `renderElement_ok` say what a success
leaves, and `drawChar_fails`, `renderChars_fails` and `renderElement_fails` what a failure may be:
the table of a core font that lacks the character, or an endless search, unless the table has
`Room` for the characters whose width may not be known yet. `Covers` is what X makes of a
rectangle, with positions in 16 bits.
-/

namespace Photonbar

variable {H : Type}

/-- The pixels that X fills for a rectangle with this start and width: it takes them as
`int16_t` and `uint16_t`. -/
def Covers (rect : Int × Int) (px : Int) : Prop :=
  rect.1.bmod 65536 ≤ px ∧ px < rect.1.bmod 65536 + rect.2 % 65536

/-! ## Characters -/

/-- The characters `cs`, each with the distance to the next, are painted as `cells`, from `x`
on and as wide as the fonts have them. -/
inductive Laid (cfg : BarConfig) : Int → List (UInt32 × Int) → List Cell → Prop
  | nil (x : Int) : Laid cfg x [] []
  | cons {x w : Int} {c : UInt32} {cs : List (UInt32 × Int)} {cell : Cell} {cells : List Cell} :
      cell.x = x → cell.ch = c → cfg.cellWidth c = some cell.chWidth →
      Laid cfg (x + w) cs cells → Laid cfg x ((c, w) :: cs) (cell :: cells)

/-- The characters of an element, each with the distance to the next. -/
def BarElement.glyphs (e : BarElement H) : List (UInt32 × Int) :=
  (Bar.chars e).map fun p => (p.1, (p.2.toNat : Int))

namespace Bar

variable {b b' : Bar} {x y : Int}

theorem updateGc_later (b : Bar) : Later 0 b b.updateGc := by
  rw [updateGc]
  split
  · exact .refl b
  · exact .of_eq rfl rfl rfl rfl

/-- Colours, written to the graphics contexts or not. -/
theorem later_ite {p : Prop} [Decidable p] (h : Later 0 b b') :
    Later 0 b (if p then b'.markColorsDirty.updateGc else b') := by
  split
  · have hdirty : Later 0 b' b'.markColorsDirty := .of_eq rfl rfl rfl rfl
    exact h.trans (hdirty.trans (updateGc_later _))
  · exact h

theorem elementColors_later (b : Bar) (e : BarElement H) : Later 0 b (b.elementColors e) := by
  rw [elementColors]
  exact later_ite (.of_eq rfl rfl rfl rfl)

theorem applyColors_later (b : Bar) (e : BarElement H) : Later 0 b (b.applyColors e) := by
  rw [applyColors]
  exact later_ite (.of_eq rfl rfl rfl rfl)

/-- One character. -/
theorem drawChar_ok {c : UInt32} {cell : Cell}
    (h : b.drawChar (b.fontUsed c) x c = .ok (b', cell)) :
    Later 1 b b' ∧ cell.x = x ∧ cell.ch = c ∧
      (b.Coherent → b.cellWidth c = some cell.chWidth) := by
  obtain ⟨⟨b₁, w⟩, hw, h⟩ := bind_eq_ok_iff.mp h
  obtain ⟨rfl, rfl⟩ := Prod.mk.inj (Except.ok.inj h)
  obtain ⟨hlater, hwidth, -⟩ := drawWidth_ok hw
  exact ⟨hlater, rfl, rfl, hwidth⟩

theorem drawChar_fails {S : Fault → Prop} {f : Font} {c : UInt32}
    (h : FailsOnly S (b.drawWidth f c)) : FailsOnly S (b.drawChar f x c) :=
  h.bind fun _ _ => .ok _

/-- The characters of an element. -/
theorem renderChars_ok (cs : List (UInt32 × UInt8)) :
    ∀ {b b' : Bar} {x : Int} {cells : List Cell}, b.Coherent →
      b.renderChars x cs = .ok (b', cells) →
      Later cs.length b b' ∧
        Laid b.toBarConfig x (cs.map fun p => (p.1, (p.2.toNat : Int))) cells := by
  induction cs with
  | nil =>
    intro b b' x cells _ h
    obtain ⟨rfl, rfl⟩ := Prod.mk.inj (Except.ok.inj h)
    exact ⟨.refl b, .nil x⟩
  | cons p cs ih =>
    obtain ⟨c, w⟩ := p
    intro b b' x cells hb h
    obtain ⟨i, hselect⟩ := b.selectDrawableFont_eq c
    rw [renderChars, hselect] at h
    obtain ⟨⟨b₁, cell⟩, hcell, h⟩ := bind_eq_ok_iff.mp h
    obtain ⟨⟨b₂, cells'⟩, hcells, h⟩ := bind_eq_ok_iff.mp h
    obtain ⟨rfl, rfl⟩ := Prod.mk.inj (Except.ok.inj h)
    -- the font that is noted is the one that is used
    have hsel : Later 0 b { b with offsetYIndex := i } := .of_eq rfl rfl rfl rfl
    obtain ⟨hlater, hx, hch, hwidth⟩ :=
      drawChar_ok (b := { b with offsetYIndex := i }) (c := c) hcell
    have hlater := hsel.trans hlater
    obtain ⟨hrest, hlaid⟩ := ih (hlater.coherent hb) hcells
    rw [hlater.config] at hlaid
    exact ⟨(hlater.trans hrest).mono (by simp; omega),
      .cons hx hch (hwidth (hsel.coherent hb)) hlaid⟩

/-- The table has room for those of the characters that may need it: all of `T`, while the others
are cheap. Or it need not, since an endless search is in `S`. -/
def Room (S : Fault → Prop) (T : UInt32 → Bool) (b : Bar) (cs : List (UInt32 × UInt8)) : Prop :=
  S .probeLoop ∨
    (cs.countP fun p => T p.1) ≤ b.free ∧ ∀ p ∈ cs, T p.1 = false → b.Cheap p.1

section

variable {S : Fault → Prop} {T : UInt32 → Bool} {cs : List (UInt32 × UInt8)} {p : UInt32 × UInt8}

theorem Room.later (h : Room S T b cs) (hlater : Later 0 b b') : Room S T b' cs := by
  refine h.imp_right fun ⟨hfree, hcheap⟩ => ⟨?_, fun p hp hT => (hcheap p hp hT).later hlater⟩
  have hleft := hlater.free
  omega

/-- The first character can be looked up. -/
theorem Room.head (h : Room S T b (p :: cs)) (hb : b.Coherent) :
    S .probeLoop ∨ b.Ends p.1 ∨ b.Coherent ∧ b.Cheap p.1 := by
  refine h.imp_right fun ⟨hfree, hcheap⟩ => ?_
  cases hT : T p.1 with
  | true =>
    rw [List.countP_cons_of_pos (p := fun p : UInt32 × UInt8 => T p.1) hT] at hfree
    exact .inl (ends_of_free (by omega) p.1)
  | false => exact .inr ⟨hb, hcheap p List.mem_cons_self hT⟩

/-- It leaves room for the others. -/
theorem Room.tail {w : Int} (h : Room S T b (p :: cs)) (hb : b.Coherent)
    (hdraw : b.drawWidth (b.fontUsed p.1) p.1 = .ok (b', w)) : Room S T b' cs := by
  refine h.imp_right fun ⟨hfree, hcheap⟩ => ?_
  have hlater := (drawWidth_ok hdraw).1
  refine ⟨?_, fun q hq hT => (hcheap q (List.mem_cons_of_mem _ hq) hT).later hlater⟩
  cases hT : T p.1 with
  | true =>
    have hleft := hlater.free
    rw [List.countP_cons_of_pos (p := fun p : UInt32 × UInt8 => T p.1) hT] at hfree
    omega
  | false =>
    obtain rfl := drawWidth_of_cheap hb (hcheap p List.mem_cons_self hT) hdraw
    rwa [List.countP_cons_of_neg (p := fun p : UInt32 × UInt8 => T p.1) (by simp [hT])] at hfree

/-- What painting the characters of an element may fail with. -/
theorem renderChars_fails (cs : List (UInt32 × UInt8)) :
    ∀ {b : Bar} {x : Int}, b.Coherent → Room S T b cs →
      (S .lutIndex ∨ ∀ p ∈ cs, (b.cellWidth p.1).isSome) → FailsOnly S (b.renderChars x cs) := by
  induction cs with
  | nil => intro b x _ _ _; exact .ok _
  | cons p cs ih =>
    obtain ⟨c, w⟩ := p
    intro b x hb hroom hwidths
    obtain ⟨i, hselect⟩ := b.selectDrawableFont_eq c
    have hsel : Later 0 b { b with offsetYIndex := i } := .of_eq rfl rfl rfl rfl
    have hb' := hsel.coherent hb
    have hroom := hroom.later hsel
    have hdraw : FailsOnly S (drawWidth { b with offsetYIndex := i } (b.fontUsed c) c) :=
      drawWidth_fails (b := { b with offsetYIndex := i }) (hroom.head hb')
        (hwidths.imp_right fun h => h _ List.mem_cons_self)
    rw [renderChars, hselect]
    refine (drawChar_fails hdraw).bind fun r hr => ?_
    obtain ⟨⟨b₁, v⟩, hv, hr⟩ := bind_eq_ok_iff.mp hr
    obtain rfl := Except.ok.inj hr
    have hlater := hsel.trans (drawWidth_ok (b := { b with offsetYIndex := i }) hv).1
    refine (ih (hlater.coherent hb) (hroom.tail hb' hv) ?_).bind fun _ _ => .ok _
    rw [hlater.config]
    exact hwidths.imp_right fun h q hq => h q (List.mem_cons_of_mem _ hq)

end

/-! ## Elements -/

/-- Where the characters of an element are painted from. -/
def textStart (e : BarElement H) : Int := (e.beginX.toNat : Int) + max e.offsetPixels 0

/-- `renderElement`. -/
theorem renderElement_ok {e : BarElement H} {painting : Painting} (hb : b.Coherent)
    (h : b.renderElement e = .ok (b', painting)) :
    Later (chars e).length b b' ∧
      Laid b.toBarConfig (textStart e) e.glyphs painting.cells := by
  have hcolors := b.elementColors_later e
  rw [renderElement] at h
  split at h
  · next hoffset =>
    obtain ⟨⟨b₁, cells⟩, hcells, h⟩ := bind_eq_ok_iff.mp h
    obtain ⟨rfl, rfl⟩ := Prod.mk.inj (Except.ok.inj h)
    obtain ⟨hlater, hlaid⟩ := renderChars_ok _ (hcolors.coherent hb) hcells
    rw [hcolors.config] at hlaid
    rw [textStart, max_eq_left hoffset.le]
    exact ⟨(hcolors.trans hlater).mono (by omega), hlaid⟩
  · next hoffset =>
    obtain ⟨⟨b₁, cells⟩, hcells, h⟩ := bind_eq_ok_iff.mp h
    obtain ⟨rfl, rfl⟩ := Prod.mk.inj (Except.ok.inj h)
    obtain ⟨hlater, hlaid⟩ := renderChars_ok _ (hcolors.coherent hb) hcells
    rw [hcolors.config] at hlaid
    rw [textStart, max_eq_right (by omega), Int.add_zero]
    exact ⟨(hcolors.trans hlater).mono (by omega), hlaid⟩

/-- What `renderElement` may fail with. -/
theorem renderElement_fails {S : Fault → Prop} {T : UInt32 → Bool} (e : BarElement H)
    (hb : b.Coherent) (hroom : Room S T b (chars e))
    (hwidths : S .lutIndex ∨ ∀ p ∈ chars e, (b.cellWidth p.1).isSome) :
    FailsOnly S (b.renderElement e) := by
  have hcolors := b.elementColors_later e
  have hchars : ∀ x : Int, FailsOnly S ((b.elementColors e).renderChars x (chars e)) := by
    intro x
    refine renderChars_fails _ (hcolors.coherent hb) (hroom.later hcolors) ?_
    rwa [hcolors.config]
  rw [renderElement]
  split
  · exact (hchars _).bind fun _ _ => .ok _
  · exact (hchars _).bind fun _ _ => .ok _

end Bar

end Photonbar
