import Photonbar.Color

/-!
# Elements of the bar (`barElement.h`)

A `BarElement` is one piece of text with its place, its colours and its handlers, and the table of
glyphs that parsing leaves. Handlers are kept as data of a type `H` that each module chooses;
running one is the module's business. So one definition serves all modules, and `H` is `Empty`
where there are no handlers.

`Fault` lists what goes wrong in C when the bar works on its elements: an access outside an array,
a null pointer, a font of the wrong type, a search that does not end. The operations that may do so
give `Except Fault`, and a statement about a result is then also one about the absence of faults.

Fields that no function reads (`moduleName`, `overline`, `reverseColors`, `isActive`,
`eventCharged`) are left out.
-/

namespace Photonbar

/-- `CONTENT_MAX_LEN`. -/
abbrev CONTENT_MAX_LEN : Nat := 255

/-- `BarElement::EventType`. -/
inductive EventType where
  | CLICK_LEFT
  | CLICK_MIDDLE
  | CLICK_RIGHT
  | SCROLL_UP
  | SCROLL_DOWN
  deriving DecidableEq

namespace EventType

/-- The number of the X button. -/
def code : EventType → Nat
  | CLICK_LEFT => 1
  | CLICK_MIDDLE => 2
  | CLICK_RIGHT => 3
  | SCROLL_UP => 4
  | SCROLL_DOWN => 5

/-- All types, in the order of a `std::map` over them. -/
def all : List EventType := [CLICK_LEFT, CLICK_MIDDLE, CLICK_RIGHT, SCROLL_UP, SCROLL_DOWN]

end EventType

/-- What goes wrong in C: an access outside an array, a null pointer, a pointer
to a font of the wrong kind, or a loop that never ends. -/
inductive Fault where
  /-- an access to `content` at this index -/
  | contentIndex (i : Int)
  /-- a null `font_t *` is used -/
  | nullFont
  /-- an Xft call on a font without `xft_ft` -/
  | notXft
  /-- `width_lut` of a core font is indexed for a character outside its range -/
  | lutIndex
  /-- the probe loop of the width table does not end -/
  | probeLoop
  deriving DecidableEq

/-- `struct BarElement`. -/
structure BarElement (H : Type) where
  content : Buffer CONTENT_MAX_LEN
  ucsContent : Vector UInt32 CONTENT_MAX_LEN
  ucsContentCharWidths : Vector UInt8 CONTENT_MAX_LEN
  dirtyContent : Bool
  contentLen : Int
  ucsContentLen : Nat
  beginX : UInt16
  width : UInt16
  foregroundColor : Color
  backgroundColor : Color
  underlineColor : Color
  events : EventType → Option H
  offsetPixels : Int
  underline : Bool

namespace BarElement

variable {H : Type}

/-- The constructor. -/
def new : BarElement H where
  content := Vector.replicate _ 0
  ucsContent := Vector.replicate _ 0
  ucsContentCharWidths := Vector.replicate _ 0
  dirtyContent := false
  contentLen := 0
  ucsContentLen := 0
  beginX := 0
  width := 0
  foregroundColor := .unset
  backgroundColor := .unset
  underlineColor := .unset
  events := fun _ => none
  offsetPixels := 0
  underline := false

/-- `setEvent`. -/
def setEvent (e : BarElement H) (type : EventType) (handler : H) : BarElement H :=
  { e with events := fun t => if t = type then some handler else e.events t }

/-- `element->content[i] = b`. -/
def setContent (e : BarElement H) (i : Int) (b : UInt8) : Except Fault (BarElement H) :=
  match e.content.write i b with
  | some content => .ok { e with content }
  | none => .error (.contentIndex i)

/-- `element->contentLen = snprintf(element->content, size, "%s", s)`. The sizes that
are passed are at most `CONTENT_MAX_LEN`; a larger one would write past the array. -/
def snprintf (e : BarElement H) (size : Nat) (s : Bytes) : Except Fault (BarElement H) :=
  match e.content.snprintf size s with
  | some content => .ok { e with content, contentLen := snprintfResult s }
  | none => .error (.contentIndex size)

/-- What `snprintf` leaves in an element, for a size that fits. -/
theorem snprintf_eq_ok (e : BarElement H) {size : Nat} (h₀ : 0 < size)
    (h : size ≤ CONTENT_MAX_LEN) (s : Bytes) :
    ∃ content, e.snprintf size s = .ok { e with content, contentLen := snprintfResult s } ∧
      content.toList =
        s.take (size - 1) ++ 0 :: e.content.toList.drop (min s.length (size - 1) + 1) := by
  obtain ⟨content, hw, hlist⟩ := e.content.snprintf_eq_some h₀ h s
  exact ⟨content, by rw [snprintf, hw], hlist⟩

/-- `snprintf` with the whole size of `content`, which never writes past it. -/
def print (e : BarElement H) (s : Bytes) : BarElement H :=
  { e with
    content := (e.content.snprintf CONTENT_MAX_LEN s).getD e.content
    contentLen := snprintfResult s }

theorem snprintf_eq_print (e : BarElement H) (s : Bytes) :
    e.snprintf CONTENT_MAX_LEN s = .ok (e.print s) := by
  obtain ⟨content, hw, -⟩ := e.content.snprintf_eq_some (by decide) (le_refl CONTENT_MAX_LEN) s
  rw [snprintf, print, hw]
  rfl

/-- The same where the source drops the result of `snprintf`, so that `contentLen` stays as it was. -/
def printOver (e : BarElement H) (s : Bytes) : BarElement H :=
  { e with content := (e.content.snprintf CONTENT_MAX_LEN s).getD e.content }

/-- The text that is printed is that of the element, if it fits. -/
theorem printOver_cstring (e : BarElement H) {s : Bytes} (hlen : s.length < CONTENT_MAX_LEN)
    (hs : (0 : UInt8) ∉ s) : (e.printOver s).content.cstring = s := by
  obtain ⟨content, hw, hlist⟩ := e.content.snprintf_eq_some (by decide) (le_refl CONTENT_MAX_LEN) s
  rw [List.take_of_length_le (by omega)] at hlist
  rw [printOver, hw]
  exact Buffer.cstring_eq hlist hs

end BarElement

end Photonbar
