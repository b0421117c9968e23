import Mathlib.Algebra.Order.Ring.Int
import Mathlib.Data.List.FinRange
import Mathlib.Data.Fintype.Basic
import Mathlib.Logic.Function.Basic

/-!
# The monitors (`bar.h`)

`getRandrMonitors` with its elimination of clones, `rectSortCb`, and `monitorCreateChain` with what
it calls. `qsort` is a parameter, since the C standard leaves open what it does with a comparator
that is not consistent.

The memory that `monitorNew` allocates is a list of monitors, and a pointer to one of them is an
index; ids of windows and pixmaps are left out, as number `k` of the requests to the server is
about monitor `k`. Arithmetic in `int` is exact; a request narrows what it is given. What the
server says is given for every output, and `rects` is what is in the array before anything is
written to it. Where the program exits, because the bar does not fit, there is no result.
-/

namespace Photonbar

/-- `xcb_rectangle_t`. -/
structure Rect where
  x : Int16
  y : Int16
  width : UInt16
  height : UInt16
  deriving DecidableEq

namespace Rect

/-- `r.x`, as an `int`. -/
def left (r : Rect) : Int := r.x.toInt

/-- `r.x + r.width`. -/
def right (r : Rect) : Int := r.x.toInt + r.width.toNat

/-- `r.y`, as an `int`. -/
def top (r : Rect) : Int := r.y.toInt

/-- `r.y + r.height`. -/
def bottom (r : Rect) : Int := r.y.toInt + r.height.toNat

/-- "Does I contain J ?" -/
def Contains (i j : Rect) : Prop :=
  j.left ≥ i.left ∧ j.right ≤ i.right ∧ j.top ≥ i.top ∧ j.bottom ≤ i.bottom

instance (i j : Rect) : Decidable (i.Contains j) :=
  inferInstanceAs (Decidable (_ ∧ _ ∧ _ ∧ _))

end Rect

/-! ## RandR -/

/-- What the server says of an output. -/
inductive Output where
  /-- no reply, or disconnected, or not attached to a CRTC -/
  | off
  /-- attached to a CRTC, of which there is no reply -/
  | noCrtc
  | on (crtc : Rect)
  deriving DecidableEq

section

variable {num : Nat}

/-- The variables of `getRandrMonitors`. -/
structure Outputs (num : Nat) where
  rects : Fin num → Rect
  valid : Int

/-- One pass of the first loop: `none` where the function returns. -/
def getOutput (outputs : Fin num → Output) (s : Outputs num) (i : Fin num) : Option (Outputs num) :=
  match outputs i with
  | .off => some { s with rects := Function.update s.rects i { s.rects i with width := 0 } }
  | .noCrtc => none
  | .on crtc => some ⟨Function.update s.rects i crtc, s.valid + 1⟩

/-- One pass of the inner loop over the clones. -/
def checkClone (i : Fin num) (s : Outputs num) (j : Fin num) : Outputs num :=
  if i ≠ j ∧ (s.rects j).width ≠ 0 then
    if (s.rects i).Contains (s.rects j) then
      ⟨Function.update s.rects j { s.rects j with width := 0 }, s.valid - 1⟩
    else s
  else s

/-- One pass of the outer loop over the clones. -/
def checkClones (s : Outputs num) (i : Fin num) : Outputs num :=
  if (s.rects i).width = 0 then s else (List.finRange num).foldl (checkClone i) s

/-- The variables of `getRandrMonitors` after the clones are eliminated, for what is in `rects`
before. -/
def remainingOutputs (rects : Fin num → Rect) (outputs : Fin num → Output) :
    Option (Outputs num) :=
  ((List.finRange num).foldlM (getOutput outputs) ⟨rects, 0⟩).map
    ((List.finRange num).foldl checkClones)

/-- The last loop: at most `n` rectangles are copied to `r`. -/
def copyRects (rects : Fin num → Rect) : Nat → List (Fin num) → List Rect
  | 0, _ => []
  | _ + 1, [] => []
  | n + 1, i :: is =>
    if (rects i).width ≠ 0 then rects i :: copyRects rects n is else copyRects rects (n + 1) is

/-- What `getRandrMonitors` calls `monitorCreateChain` with, if it does: what is copied to `r`, and
how many elements `r` has. The reply has `num` outputs; `none` stands for no reply. -/
def passedRects (rects : Fin num → Rect) (reply : Option (Fin num → Output)) :
    Option (List Rect × Int) :=
  match reply with
  | none => none
  | some outputs =>
    if num < 1 then none
    else
      match remainingOutputs rects outputs with
      | none => none
      | some s =>
        if s.valid < 1 then none
        else some (copyRects s.rects s.valid.toNat (List.finRange num), s.valid)

end

/-! ## The chain -/

/-- The part of a monitor that is on the screen. -/
structure Box where
  x : Int
  y : Int
  width : Int
  deriving DecidableEq

/-- `monitor_t`. -/
structure Monitor extends Box where
  prev : Option Nat
  next : Option Nat
  deriving DecidableEq

/-- What `xcb_create_window` is given. -/
structure CreateWindow where
  x : Int16
  y : Int16
  width : UInt16
  height : UInt16
  deriving DecidableEq

/-- The fields of `Bar` that the monitors are set up with. -/
structure BarSetup where
  topbar : Bool := true
  bw : Int := -1
  bh : Int := -1
  bx : Int := 0
  «by» : Int := 0
  bu : Int := 1
  /-- `fontList[0]->height` -/
  fontHeight : Int
  monhead : Option Nat := none
  montail : Option Nat := none
  /-- what is allocated -/
  heap : List Monitor := []
  /-- the requests for windows -/
  windows : List CreateWindow := []

namespace BarSetup

/-- `monitorNew`, and the pointer that it returns. -/
def monitorNew (s : BarSetup) (x y width height : Int) : BarSetup × Nat :=
  let ret : Monitor :=
    { x, y := (if s.topbar then s.«by» else height - s.bh - s.«by») + y, width
      prev := none, next := none }
  let window : CreateWindow :=
    ⟨Int16.ofInt ret.x, Int16.ofInt ret.y, UInt16.ofInt width, UInt16.ofInt s.bh⟩
  ({ s with heap := s.heap ++ [ret], windows := s.windows ++ [window] }, s.heap.length)

/-- `p->next = q`. -/
def setNext (s : BarSetup) (p q : Nat) : BarSetup :=
  { s with heap := s.heap.modify p fun m => { m with next := some q } }

/-- `p->prev = q`. -/
def setPrev (s : BarSetup) (p q : Nat) : BarSetup :=
  { s with heap := s.heap.modify p fun m => { m with prev := some q } }

/-- `monitorAdd`. -/
def monitorAdd (s : BarSetup) (mon : Nat) : BarSetup :=
  match s.monhead with
  | none => { s with monhead := some mon }
  | some head =>
    match s.montail with
    | none => ({ s with montail := some mon }.setNext head mon).setPrev mon head
    | some tail => { (s.setPrev mon tail).setNext tail mon with montail := some mon }

/-- The last loop of `monitorCreateChain`. -/
def createLoop (s : BarSetup) : List Rect → Int → Int → BarSetup
  | [], _, _ => s
  | r :: rects, left, width =>
    let left' := if left - r.width.toNat < 0 then 0 else left - r.width.toNat
    if r.bottom < s.«by» then createLoop s rects left width
    else if r.width.toNat > left then
      let (s, mon) := s.monitorNew (r.x.toInt + left) r.top
        (if width < r.width.toNat - left then width else r.width.toNat - left) r.height.toNat
      let s := s.monitorAdd mon
      let width := width - (r.width.toNat - left)
      -- no need to check for other monitors
      if width ≤ 0 then s else createLoop s rects left' width
    else createLoop s rects left' width

/-- The widths of the rectangles together, and the height of the screen. -/
def screenSize (rects : List Rect) : Int × Int :=
  rects.foldl (fun (width, height) r =>
    (width + r.width.toNat, if r.bottom ≥ height then r.bottom else height)) (0, 0)

end BarSetup

/-- `rectSortCb`. -/
def rectSortCb (r₁ r₂ : Rect) : Int :=
  if r₁.left < r₂.left ∨ r₁.bottom ≤ r₂.top then -1
  else if r₁.left > r₂.left ∨ r₁.bottom > r₂.top then 1
  else 0

/-- `qsort`, for a comparator. -/
abbrev QSort : Type := (Rect → Rect → Int) → List Rect → List Rect

namespace BarSetup

/-- `monitorCreateChain`: `none` where the program exits. -/
def monitorCreateChain (qsort : QSort) (s : BarSetup) (rects : List Rect) : Option BarSetup :=
  let rects := qsort rectSortCb rects
  let (width, height) := screenSize rects
  let bw := if s.bw < 0 then width - s.bx else s.bw
  let bh := if s.bh < 0 ∨ s.bh > height then s.fontHeight + s.bu + 2 else s.bh
  if s.bx + bw > width ∨ s.«by» + bh > height then none
  else some (createLoop { s with bw, bh } rects s.bx bw)

/-- `getRandrMonitors`. -/
def getRandrMonitors (qsort : QSort) (s : BarSetup) {num : Nat} (rects : Fin num → Rect)
    (reply : Option (Fin num → Output)) : Option BarSetup :=
  match passedRects rects reply with
  | none => some s
  | some (r, _) => s.monitorCreateChain qsort r

end BarSetup

end Photonbar
