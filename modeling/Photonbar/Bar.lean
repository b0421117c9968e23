import Photonbar.BarElement
import Photonbar.ProbeTable

/-!
# The bar: fonts, characters and their widths (`bar.h`)

`Bar` is the class, less its connection to the X server. What does not change once the bar is set
up (`BarConfig`) is apart from what does. A font pointer is the font itself; what X and Xft say
about a font are functions of the character.

A look at an unset pointer, at a table outside its range or at a byte outside an element's content,
and a search in the table of widths that never ends, are a `Fault`. `fontIndex` is -1 for ever, so
that the branches for it are left out.

The loops of the source that walk over a string have fuel here, as many passes as the arrays have
room for; the source bounds them in the same way. What the table of widths holds is not a function
of the fonts but of what has been asked before, and so the functions that measure give back the bar
that they leave.
-/

namespace Photonbar

/-- `MAX_WIDTHS`. -/
abbrev MAX_WIDTHS : Nat := 65536

/-- `XftFont`: what Xft is asked about it. -/
structure XftFont where
  /-- `XftCharExists` -/
  charExists : UInt32 → Bool
  /-- `xOff` of `XftGlyphExtents` -/
  xOff : UInt32 → Int
  /-- `width` of `XftGlyphExtents` -/
  width : UInt32 → Int

/-- What is stored as the width of a character: the greater of `xOff` and `width`, as a
`char`. -/
def XftFont.measure (x : XftFont) (ch : UInt32) : Int8 :=
  if x.xOff ch ≥ x.width ch then Int8.ofInt (x.xOff ch) else Int8.ofInt (x.width ch)

/-- `font_t`. -/
structure Font where
  /-- the `character_width`s, counted from `charMin` on -/
  width_lut : Option (Nat → Int)
  xft_ft : Option XftFont
  descent : Int
  height : Int
  width : Int
  charMax : UInt32
  charMin : UInt32

namespace Font

/-- `width_lut[ch - charMin].character_width`, for the table `lut` of the font. -/
def lutWidth (f : Font) (lut : Nat → Int) (ch : UInt32) : Except Fault Int :=
  if f.charMin ≤ ch ∧ ch ≤ f.charMax then .ok (lut (ch - f.charMin).toNat)
  else .error .lutIndex

/-- `fontHasGlyph`. -/
def hasGlyph (f : Font) (c : UInt32) : Bool :=
  match f.xft_ft with
  | some xft => xft.charExists c
  | none =>
    if c < f.charMin ∨ c > f.charMax then false
    else
      match f.width_lut with
      | some lut => lut (c - f.charMin).toNat ≠ 0
      | none => true

end Font

/-- One character of the separator, as `initSeparator` keeps it. -/
structure SeparatorChar where
  ucs : UInt32
  font : Option Font
  width : Int

/-- What is set up once. -/
structure BarConfig where
  fontList : List Font
  /-- `init` gives up without a font -/
  fontList_ne_nil : fontList ≠ []
  offsetsY : Nat → Int
  bh : Int
  bu : Int
  /-- `monhead->width` -/
  width : Int
  /-- `monhead->window` -/
  window : Nat
  defaultForegroundColor : Color
  defaultBackgroundColor : Color
  defaultUnderlineColor : Color

/-- `attrs`, bit by bit. -/
structure Attrs where
  overl : Bool := false
  underl : Bool := false
  deriving DecidableEq

/-- `Bar`. -/
structure Bar extends BarConfig where
  separator : List SeparatorChar := []
  xftChar : Nat → UInt32 := fun _ => 0
  xftWidth : Nat → Int8 := fun _ => 0
  offsetYIndex : Nat := 0
  attrs : Attrs := {}
  foregroundColor : Color
  backgroundColor : Color
  underlineColor : Color
  colorsDirty : Bool := true
  /-- the foreground of `gc[GC_DRAW]` -/
  gcDraw : Color
  /-- the foreground of `gc[GC_CLEAR]` -/
  gcClear : Color
  /-- the foreground of `gc[GC_ATTR]` -/
  gcAttr : Color
  /-- `selFg`, as `rrggbb` -/
  selFg : UInt32

namespace Bar

/-! ## Fonts -/

/-- The first font that has `c`, and its index. -/
def firstFont (c : UInt32) : Nat → List Font → Option (Nat × Font)
  | _, [] => none
  | i, f :: fs => if f.hasGlyph c then some (i, f) else firstFont c (i + 1) fs

/-- `selectDrawableFont`. -/
def selectDrawableFont (b : Bar) (c : UInt32) : Bar × Option Font :=
  match firstFont c 0 b.fontList with
  | some (i, f) => ({ b with offsetYIndex := i }, some f)
  | none => (b, none)

/-! ## The table of widths -/

/-- `xftCharWidthSlot`: `none` where the loop never ends. -/
def xftCharWidthSlot (b : Bar) (ch : UInt32) : Option Nat :=
  ProbeTable.probe MAX_WIDTHS 0 b.xftChar ch MAX_WIDTHS (ch.toNat % MAX_WIDTHS)

/-- `xftCharWidth`. -/
def xftCharWidth (b : Bar) (ch : UInt32) (curFont : Option Font) : Except Fault (Bar × Int) :=
  match b.xftCharWidthSlot ch with
  | none => .error .probeLoop
  | some slot =>
    if b.xftChar slot = 0 then
      match curFont with
      | none => .error .nullFont
      | some f =>
        match f.xft_ft with
        | none => .error .notXft
        | some xft =>
          let w := xft.measure ch
          .ok ({ b with
            xftChar := Function.update b.xftChar slot ch
            xftWidth := Function.update b.xftWidth slot w }, w.toInt)
    else if b.xftChar slot = ch then .ok (b, (b.xftWidth slot).toInt)
    else .ok (b, 0)

/-- `getUtf8CharWidth`. -/
def getUtf8CharWidth (b : Bar) (ucs : UInt32) (font : Option Font) : Except Fault (Bar × Int) :=
  match font with
  | none => .ok (b, 0)
  | some f =>
    match f.xft_ft with
    | some _ => b.xftCharWidth ucs font
    | none =>
      match f.width_lut with
      | some lut =>
        if f.charMin ≤ ucs ∧ ucs ≤ f.charMax then .ok (b, lut (ucs - f.charMin).toNat)
        else .ok (b, f.width)
      | none => .ok (b, f.width)

end Bar

/-! ## UTF-8 -/

/-- `UTF8Result`. -/
structure UTF8Result where
  ucs : UInt32
  bytesConsumed : Nat
  deriving DecidableEq

/-- `decodeUtf8Char`, where `utf i` is the byte `i` of the input. -/
def decodeUtf8Char (utf : Nat → Except Fault UInt8) : Except Fault UTF8Result := do
  let u₀ ← utf 0
  let tail (u : UInt8) : UInt32 := (u &&& 0x3f).toUInt32
  if u₀ < 0x80 then return ⟨u₀.toUInt32, 1⟩
  else if u₀ &&& 0xe0 = 0xc0 then
    let u₁ ← utf 1
    return ⟨(u₀ &&& 0x1f).toUInt32 <<< 6 ||| tail u₁, 2⟩
  else if u₀ &&& 0xf0 = 0xe0 then
    let u₁ ← utf 1
    let u₂ ← utf 2
    return ⟨(u₀ &&& 0xf).toUInt32 <<< 12 ||| tail u₁ <<< 6 ||| tail u₂, 3⟩
  else if u₀ &&& 0xf8 = 0xf0 then
    let u₁ ← utf 1
    let u₂ ← utf 2
    let u₃ ← utf 3
    return ⟨(u₀ &&& 0x07).toUInt32 <<< 18 ||| tail u₁ <<< 12 ||| tail u₂ <<< 6 ||| tail u₃, 4⟩
  else return ⟨u₀.toUInt32, 1⟩

/-- The character `?`. -/
def questionMark : UInt32 := 63

namespace Bar

/-- The bytes of the separator `" ▏"`, with its NUL. -/
def sep_string (i : Nat) : UInt8 := [0x20, 0xE2, 0x96, 0x8F].getD i 0

/-- The loop of `initSeparator`, for at most `n` more characters from `p` on. -/
def separatorLoop (b : Bar) : Nat → Nat → Except Fault (Bar × List SeparatorChar)
  | 0, _ => .ok (b, [])
  | n + 1, p =>
    if sep_string p = 0 then .ok (b, [])
    else do
      let result ← decodeUtf8Char fun i => .ok (sep_string (p + i))
      let (b, f) := b.selectDrawableFont result.ucs
      let ucs := if f.isNone then questionMark else result.ucs
      let (b, w) ← b.getUtf8CharWidth ucs f
      let (b, rest) ← separatorLoop b n (p + result.bytesConsumed)
      return (b, ⟨ucs, f, w⟩ :: rest)

/-- `initSeparator`. -/
def initSeparator (b : Bar) : Except Fault Bar := do
  let (b, chars) ← b.separatorLoop 2 0
  return { b with separator := chars }

/-! ## Parsing an element -/

variable {H : Type}

/-- Byte `p` of a content. -/
def contentByte (content : Buffer CONTENT_MAX_LEN) (p : Nat) : Except Fault UInt8 :=
  if h : p < CONTENT_MAX_LEN then .ok (content.get ⟨p, h⟩) else .error (.contentIndex p)

/-- The loop of `parseElementContent`, for at most `n` more characters: `i` characters
are parsed, up to byte `p`, and are `total` wide. -/
def parseLoop (b : Bar) (e : BarElement H) :
    Nat → Nat → Nat → Int → Except Fault (Bar × BarElement H × Int)
  | 0, _, _, total => .ok (b, e, total)
  | n + 1, i, p, total => do
    let u ← contentByte e.content p
    if u = 0 ∨ u = 10 then
      return (b, { e with ucsContent := e.ucsContent.setIfInBounds i 0, ucsContentLen := i }, total)
    else
      let result ← decodeUtf8Char fun j => contentByte e.content (p + j)
      let (b, curFont) := b.selectDrawableFont result.ucs
      let ucs := if curFont.isNone then questionMark else result.ucs
      let (b, w) ← b.getUtf8CharWidth ucs curFont
      let char_width := UInt8.ofInt w
      parseLoop b
        { e with
          ucsContent := e.ucsContent.setIfInBounds i ucs
          ucsContentCharWidths := e.ucsContentCharWidths.setIfInBounds i char_width }
        n (i + 1) (p + result.bytesConsumed) (total + char_width.toNat)

/-- `parseElementContent`. -/
def parseElementContent (b : Bar) (e : BarElement H) : Except Fault (Bar × BarElement H) := do
  if !e.dirtyContent then
    return (b, e)
  let (b, e, total_width) ← b.parseLoop e CONTENT_MAX_LEN 0 0 0
  return (b, { e with width := UInt16.ofInt total_width, dirtyContent := false })

end Bar

end Photonbar
