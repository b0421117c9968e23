import Photonbar.Bar
import Photonbar.Loops

/-!
# The bar: painting (`bar.h`)

Painting is recorded: every `drawChar` leaves a `Cell`, with the colours and attributes that it is
painted with, and `drawShift` leaves a `Shift`. All callers align to the left, so that `shift` only
paints the background of the cell. Positions are those that are computed; X takes them modulo 2^16.

The functions stand in the order of the source: what paints one character, the elements with their
colours, the separators, a whole frame, and a whole pass of the program, which parses the elements
of both sides and then renders them. A `Frame` is what `renderAllElements` leaves: the bar, with
its colours and its table of widths, and the modules of each side as they have been painted. The
last section says of each loop when it succeeds, as an inductive predicate along the list it walks
(`RendersElements`, `RendersModules`), so that a statement about frames is an induction over these
and not over the loops.
-/

namespace Photonbar

/-- One `drawChar`. -/
structure Cell where
  x : Int
  y : Int
  chWidth : Int
  ch : UInt32
  font : Font
  gcDraw : Color
  gcClear : Color
  gcAttr : Color
  selFg : UInt32
  attrs : Attrs

/-- One `drawShift`. -/
structure Shift where
  x : Int
  w : Int
  gcClear : Color
  gcAttr : Color
  attrs : Attrs

/-- What `renderElement` paints. -/
structure Painting where
  shift : Option Shift
  cells : List Cell

namespace Bar

/-- `updateGc`; the colour requests are taken to succeed. -/
def updateGc (b : Bar) : Bar :=
  if !b.colorsDirty then b
  else
    { b with
      gcDraw := b.foregroundColor
      gcClear := b.backgroundColor
      gcAttr := b.underlineColor
      selFg := b.foregroundColor.v &&& 0x00ffffff
      colorsDirty := false }

/-- `markColorsDirty`. -/
def markColorsDirty (b : Bar) : Bar := { b with colorsDirty := true }

/-- `drawShift`, aligned to the left. -/
def drawShift (b : Bar) (x w : Int) : Shift := ⟨x, w, b.gcClear, b.gcAttr, b.attrs⟩

/-- The width that `drawChar` uses. -/
def drawWidth (b : Bar) (curFont : Font) (ch : UInt32) : Except Fault (Bar × Int) :=
  match curFont.xft_ft with
  | some _ => b.xftCharWidth ch (some curFont)
  | none =>
    match curFont.width_lut with
    | some lut => do return (b, ← curFont.lutWidth lut ch)
    | none => .ok (b, curFont.width)

/-- `drawChar`, aligned to the left. -/
def drawChar (b : Bar) (curFont : Font) (x : Int) (ch : UInt32) : Except Fault (Bar × Cell) := do
  let (b, chWidth) ← b.drawWidth curFont ch
  let y := b.bh.tdiv 2 + curFont.height.tdiv 2 - curFont.descent + b.offsetsY b.offsetYIndex
  return (b, {
    x, y, chWidth, ch
    font := curFont
    gcDraw := b.gcDraw
    gcClear := b.gcClear
    gcAttr := b.gcAttr
    selFg := b.selFg
    attrs := b.attrs })

/-! ## Elements -/

variable {H : Type}

/-- The colours and attributes that `renderElement` sets. -/
def elementColors (b : Bar) (e : BarElement H) : Bar :=
  let b' : Bar := { b with
    attrs := { overl := false, underl := e.underline }
    backgroundColor := if e.backgroundColor ≠ .unset then e.backgroundColor
      else b.defaultBackgroundColor
    foregroundColor := if e.foregroundColor ≠ .unset then e.foregroundColor
      else b.defaultForegroundColor
    underlineColor := if e.underline ∧ e.underlineColor ≠ .unset then e.underlineColor
      else b.defaultUnderlineColor }
  if b.backgroundColor.v ≠ b'.backgroundColor.v ∨ b.foregroundColor.v ≠ b'.foregroundColor.v ∨
      b.underlineColor.v ≠ b'.underlineColor.v then
    b'.markColorsDirty.updateGc
  else b'

/-- The characters of an element, each with its recorded width. -/
def chars (e : BarElement H) : List (UInt32 × UInt8) :=
  (e.ucsContent.toList.zip e.ucsContentCharWidths.toList).take e.ucsContentLen

/-- The loop of `renderElement` over the characters, from `pos_x` on. -/
def renderChars (b : Bar) : Int → List (UInt32 × UInt8) → Except Fault (Bar × List Cell)
  | _, [] => .ok (b, [])
  | pos_x, (ucs, width) :: rest => do
    let (b, curFont) := b.selectDrawableFont ucs
    -- without a font that has it, the character is drawn in the first one
    let curFont := curFont.getD (b.fontList.head b.fontList_ne_nil)
    let (b, cell) ← b.drawChar curFont pos_x ucs
    let (b, cells) ← renderChars b (pos_x + width.toNat) rest
    return (b, cell :: cells)

/-- `renderElement`. -/
def renderElement (b : Bar) (e : BarElement H) : Except Fault (Bar × Painting) := do
  let b := b.elementColors e
  let pos_x : Int := e.beginX.toNat
  if e.offsetPixels > 0 then
    let (b', cells) ← b.renderChars (pos_x + e.offsetPixels) (chars e)
    return (b', ⟨some (b.drawShift pos_x e.offsetPixels), cells⟩)
  else
    let (b, cells) ← b.renderChars pos_x (chars e)
    return (b, ⟨none, cells⟩)

/-! ## Separators -/

/-- The loop of `renderSeparatorAt`. -/
def separatorChars (b : Bar) : Int → List SeparatorChar → Except Fault (Bar × Int × List Cell)
  | pos_x, [] => .ok (b, pos_x, [])
  | pos_x, sep :: seps =>
    match sep.font with
    | none => .error .nullFont
    | some chFont => do
      let (b, cell) ← b.drawChar chFont pos_x sep.ucs
      let (b, pos_x, cells) ← separatorChars b (pos_x + sep.width) seps
      return (b, pos_x, cell :: cells)

/-- `renderSeparatorAt`: the position behind the separator, and its cells. -/
def renderSeparatorAt (b : Bar) (current_x : Int) : Except Fault (Bar × Int × List Cell) :=
  let b := { b with
    backgroundColor := b.defaultBackgroundColor
    foregroundColor := b.defaultForegroundColor }
  b.markColorsDirty.updateGc.separatorChars current_x b.separator

end Bar

/-! ## A whole frame -/

/-- An element after its rendering. -/
structure Rendered (H : Type) where
  element : BarElement H
  painting : Painting

/-- A separator, from where to where. -/
structure Separator where
  start : Int
  stop : Int
  cells : List Cell

/-- A module after its rendering, with the separator behind it if there is one. -/
structure RenderedModule (H : Type) where
  elements : List (Rendered H)
  separator : Option Separator

namespace Bar

variable {H : Type}

/-- The loop over the elements of a module, from `current_x` on. -/
def renderElements (b : Bar) :
    Int → List (BarElement H) → Except Fault (Bar × Int × List (Rendered H))
  | current_x, [] => .ok (b, current_x, [])
  | current_x, e :: es => do
    let e := { e with beginX := UInt16.ofInt current_x }
    let (b, painting) ← b.renderElement e
    let (b, current_x, rest) ← renderElements b (current_x + e.width.toNat) es
    return (b, current_x, ⟨e, painting⟩ :: rest)

/-- The loop over the modules of a side: a separator follows each but the last. -/
def renderModules (b : Bar) :
    Int → List (List (BarElement H)) → Except Fault (Bar × Int × List (RenderedModule H))
  | current_x, [] => .ok (b, current_x, [])
  | current_x, [module] => do
    let (b, current_x, elements) ← b.renderElements current_x module
    return (b, current_x, [⟨elements, none⟩])
  | current_x, module :: next :: modules => do
    let (b, start, elements) ← b.renderElements current_x module
    let (b, stop, cells) ← b.renderSeparatorAt start
    let (b, current_x, rest) ← renderModules b stop (next :: modules)
    return (b, current_x, ⟨elements, some ⟨start, stop, cells⟩⟩ :: rest)

/-- The width of the separator as `renderAllElements` computes it anew: the loop over
`" ▏"` from byte `p` on, which is `n` bytes long at most. -/
def separatorWidth (b : Bar) : Nat → Nat → Except Fault (Bar × Int)
  | 0, _ => .ok (b, 0)
  | n + 1, p =>
    if sep_string p = 0 then .ok (b, 0)
    else do
      let result ← decodeUtf8Char fun i => .ok (sep_string (p + i))
      let (b, curFont) := b.selectDrawableFont result.ucs
      let (b, w) ← match curFont with
        | some f => b.getUtf8CharWidth result.ucs (some f)
        | none => .ok (b, 0)
      let (b, rest) ← separatorWidth b n (p + result.bytesConsumed)
      return (b, w + rest)

/-- The widths of all elements together. -/
def totalWidth (modules : List (List (BarElement H))) : Int :=
  (modules.map fun es => (es.map fun e => (e.width.toNat : Int)).sum).sum

end Bar

/-- What `renderAllElements` leaves. -/
structure Frame (H : Type) where
  bar : Bar
  left : List (RenderedModule H)
  right : List (RenderedModule H)

namespace Bar

variable {H : Type}

/-- `renderAllElements`. -/
def renderAllElements (b : Bar) (leftModules rightModules : List (List (BarElement H))) :
    Except Fault (Frame H) := do
  let (b, font) := b.selectDrawableFont 32
  let (b, RIGHT_MARGIN) ← b.xftCharWidth 32 font
  let available_width := b.width - RIGHT_MARGIN
  let (b, _, left) ← b.renderModules 0 leftModules
  let total_right_width := totalWidth rightModules
  let right_separator_count : Int := (rightModules.length - 1 : Nat)
  let (b, separator_width) ← b.separatorWidth 4 0
  let total_right_with_separators := total_right_width + right_separator_count * separator_width
  let (b, _, right) ← b.renderModules (available_width - total_right_with_separators) rightModules
  return ⟨b, left, right⟩

/-! ## A whole pass -/

/-- The colours that `parseLeftModules` and `parseRightModules` apply. -/
def applyColors (b : Bar) (e : BarElement H) : Bar :=
  let b' : Bar := { b with
    backgroundColor := if e.backgroundColor ≠ .unset then e.backgroundColor
      else b.backgroundColor
    foregroundColor := if e.foregroundColor ≠ .unset then e.foregroundColor
      else b.foregroundColor
    underlineColor := if e.underlineColor ≠ .unset then e.underlineColor
      else b.underlineColor }
  if e.backgroundColor ≠ .unset ∨ e.foregroundColor ≠ .unset ∨ e.underlineColor ≠ .unset then
    b'.markColorsDirty.updateGc
  else b'

/-- The elements of one module in `parseLeftModules`, from `current_x` on. -/
def parseLeftElements (b : Bar) :
    Int → List (BarElement H) → Except Fault (Bar × Int × List (BarElement H))
  | current_x, [] => .ok (b, current_x, [])
  | current_x, e :: es => do
    let (b, e) ← (b.applyColors e).parseElementContent e
    let e := { e with beginX := UInt16.ofInt current_x }
    let (b, current_x, es) ← parseLeftElements b (current_x + e.width.toNat) es
    return (b, current_x, e :: es)

/-- `parseLeftModules`, from `current_x` on. -/
def parseLeftModules (b : Bar) :
    Int → List (List (BarElement H)) → Except Fault (Bar × List (List (BarElement H)))
  | _, [] => .ok (b, [])
  | current_x, es :: modules => do
    let (b, current_x, es) ← b.parseLeftElements current_x es
    let (b, modules) ← parseLeftModules b current_x modules
    return (b, es :: modules)

/-- The elements of one module in the first loop of `parseRightModules`. -/
def parseRightElements (b : Bar) :
    List (BarElement H) → Except Fault (Bar × List (BarElement H))
  | [] => .ok (b, [])
  | e :: es => do
    let (b, e) ← (b.applyColors e).parseElementContent e
    let (b, es) ← parseRightElements b es
    return (b, e :: es)

/-- The first loop of `parseRightModules`. -/
def parseRightModules (b : Bar) :
    List (List (BarElement H)) → Except Fault (Bar × List (List (BarElement H)))
  | [] => .ok (b, [])
  | es :: modules => do
    let (b, es) ← b.parseRightElements es
    let (b, modules) ← parseRightModules b modules
    return (b, es :: modules)

/-- The second loop of `parseRightModules` over one module: from the right to the left. -/
def placeRightElements : Int → List (BarElement H) → Int × List (BarElement H)
  | current_x, [] => (current_x, [])
  | current_x, e :: es =>
    let current_x := current_x - e.width.toNat
    let (stop, es) := placeRightElements current_x es
    (stop, { e with beginX := UInt16.ofInt current_x } :: es)

/-- The second loop of `parseRightModules`. -/
def placeRightModules : Int → List (List (BarElement H)) → List (List (BarElement H))
  | _, [] => []
  | current_x, es :: modules =>
    let (current_x, es) := placeRightElements current_x es
    es :: placeRightModules current_x modules

/-- `parseModules`; the Xft drawable is taken to be created. -/
def parseModules (b : Bar) (leftModules rightModules : List (List (BarElement H))) :
    Except Fault (Frame H) := do
  let (b, leftModules) ← b.parseLeftModules 0 leftModules
  let (b, rightModules) ← b.parseRightModules rightModules
  b.renderAllElements leftModules (placeRightModules b.width rightModules)

/-! ## Loops that succeed -/

/-- `renderElements` succeeds. -/
inductive RendersElements :
    Bar → Int → List (BarElement H) → Bar → Int → List (Rendered H) → Prop
  | nil (b : Bar) (x : Int) : RendersElements b x [] b x []
  | cons {b b₁ b' : Bar} {x y : Int} {e : BarElement H} {es : List (BarElement H)}
      {painting : Painting} {rs : List (Rendered H)} :
      b.renderElement { e with beginX := UInt16.ofInt x } = .ok (b₁, painting) →
      RendersElements b₁ (x + e.width.toNat) es b' y rs →
      RendersElements b x (e :: es) b' y (⟨{ e with beginX := UInt16.ofInt x }, painting⟩ :: rs)

theorem renderElements_eq_ok_iff {es : List (BarElement H)} :
    ∀ {b b' : Bar} {x y : Int} {rs : List (Rendered H)},
      b.renderElements x es = .ok (b', y, rs) ↔ RendersElements b x es b' y rs := by
  induction es with
  | nil =>
    refine fun {b b' x y rs} => ⟨fun h => ?_, ?_⟩
    · obtain ⟨rfl, rfl, rfl⟩ : b = b' ∧ x = y ∧ [] = rs := by simpa [renderElements] using h
      exact .nil b x
    · rintro ⟨⟩
      rfl
  | cons e es ih =>
    refine fun {b b' x y rs} => ⟨fun h => ?_, ?_⟩
    · obtain ⟨⟨b₁, painting⟩, hrender, h⟩ := bind_eq_ok_iff.mp h
      obtain ⟨⟨b₂, y', rs'⟩, hrest, h⟩ := bind_eq_ok_iff.mp h
      obtain ⟨rfl, rfl, rfl⟩ : b₂ = b' ∧ y' = y ∧ _ :: rs' = rs := by
        simpa [pure, Except.pure] using h
      exact .cons hrender (ih.mp hrest)
    · rintro (_ | ⟨hrender, hrest⟩)
      exact bind_eq_ok_iff.mpr ⟨_, hrender, bind_eq_ok_iff.mpr ⟨_, ih.mpr hrest, rfl⟩⟩

/-- `renderModules` succeeds. -/
inductive RendersModules :
    Bar → Int → List (List (BarElement H)) → Bar → Int → List (RenderedModule H) → Prop
  | nil (b : Bar) (x : Int) : RendersModules b x [] b x []
  | last {b b' : Bar} {x y : Int} {es : List (BarElement H)} {rs : List (Rendered H)} :
      b.renderElements x es = .ok (b', y, rs) → RendersModules b x [es] b' y [⟨rs, none⟩]
  | cons {b b₁ b₂ b' : Bar} {x start stop y : Int} {es es' : List (BarElement H)}
      {modules : List (List (BarElement H))} {rs : List (Rendered H)} {cells : List Cell}
      {ms : List (RenderedModule H)} :
      b.renderElements x es = .ok (b₁, start, rs) →
      b₁.renderSeparatorAt start = .ok (b₂, stop, cells) →
      RendersModules b₂ stop (es' :: modules) b' y ms →
      RendersModules b x (es :: es' :: modules) b' y (⟨rs, some ⟨start, stop, cells⟩⟩ :: ms)

theorem renderModules_eq_ok_iff {modules : List (List (BarElement H))} :
    ∀ {b b' : Bar} {x y : Int} {ms : List (RenderedModule H)},
      b.renderModules x modules = .ok (b', y, ms) ↔ RendersModules b x modules b' y ms := by
  induction modules with
  | nil =>
    refine fun {b b' x y ms} => ⟨fun h => ?_, ?_⟩
    · obtain ⟨rfl, rfl, rfl⟩ : b = b' ∧ x = y ∧ [] = ms := by simpa [renderModules] using h
      exact .nil b x
    · rintro ⟨⟩
      rfl
  | cons es modules ih =>
    refine fun {b b' x y ms} => ⟨fun h => ?_, ?_⟩
    · cases modules with
      | nil =>
        obtain ⟨⟨b₁, y', rs⟩, hrow, h⟩ := bind_eq_ok_iff.mp h
        obtain ⟨rfl, rfl, rfl⟩ : b₁ = b' ∧ y' = y ∧ [⟨rs, none⟩] = ms := by
          simpa [pure, Except.pure] using h
        exact .last hrow
      | cons es' modules =>
        obtain ⟨⟨b₁, start, rs⟩, hrow, h⟩ := bind_eq_ok_iff.mp h
        obtain ⟨⟨b₂, stop, cells⟩, hsep, h⟩ := bind_eq_ok_iff.mp h
        obtain ⟨⟨b₃, y', ms'⟩, hrest, h⟩ := bind_eq_ok_iff.mp h
        obtain ⟨rfl, rfl, rfl⟩ : b₃ = b' ∧ y' = y ∧ _ :: ms' = ms := by
          simpa [pure, Except.pure] using h
        exact .cons hrow hsep (ih.mp hrest)
    · rintro (_ | hrow | ⟨hrow, hsep, hrest⟩)
      · exact bind_eq_ok_iff.mpr ⟨_, hrow, rfl⟩
      · refine bind_eq_ok_iff.mpr ⟨_, hrow, bind_eq_ok_iff.mpr ⟨_, hsep, ?_⟩⟩
        exact bind_eq_ok_iff.mpr ⟨_, ih.mpr hrest, rfl⟩

/-- What `renderAllElements` has done. -/
theorem renderAllElements_eq_ok {b : Bar} {L R : List (List (BarElement H))} {f : Frame H}
    (h : b.renderAllElements L R = .ok f) : ∃ b₁ margin b₂ x b₃ w y,
      (b.selectDrawableFont 32).1.xftCharWidth 32 (b.selectDrawableFont 32).2 = .ok (b₁, margin) ∧
      b₁.renderModules 0 L = .ok (b₂, x, f.left) ∧
      b₂.separatorWidth 4 0 = .ok (b₃, w) ∧
      b₃.renderModules (b₁.width - margin - (totalWidth R + (R.length - 1 : Nat) * w)) R =
        .ok (f.bar, y, f.right) := by
  obtain ⟨⟨b₁, margin⟩, hmargin, h⟩ := bind_eq_ok_iff.mp h
  obtain ⟨⟨b₂, x, left⟩, hleft, h⟩ := bind_eq_ok_iff.mp h
  obtain ⟨⟨b₃, w⟩, hw, h⟩ := bind_eq_ok_iff.mp h
  obtain ⟨⟨b₄, y, right⟩, hright, h⟩ := bind_eq_ok_iff.mp h
  obtain rfl := Except.ok.inj h
  exact ⟨b₁, margin, b₂, x, b₃, w, y, hmargin, hleft, hw, hright⟩

end Bar

end Photonbar
