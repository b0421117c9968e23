import Photonbar.Battery

/-!
# Notifications and disk space (`notifications.h`, `space.h`)

An operation is given what the programs that it runs print, or what `statvfs` returns. Sizes in
gigabytes are exact.

The notifications are asked of `dunstctl`, twice in an update: whether they are paused, and how
many wait. Its answers are read by `fgets` into a small buffer, and so only the front of a long
line counts. The click sends a command first and then updates. The disk space is shown in one of
several modes, which a click goes through in turn. A disk of size 0, or of sizes whose product
wraps to 0, makes a quotient of two zeros, and so a `Ratio` is not always a number; the texts that
`printf` makes of it are those of x86.
-/

namespace Photonbar

/-! ## Notifications -/

/-- What the handler of the element does. -/
inductive NotificationsHandler where
  | toggleNotifications
  deriving DecidableEq

/-- What `dunstctl` prints; `none` where it cannot be run. -/
structure DunstReading where
  isPaused : Option Text
  waiting : Option Text

/-- `NotificationsModule`. -/
structure NotificationsModule where
  element : BarElement NotificationsHandler
  isPaused : Bool := false
  waitingCount : Int := 0

/-- `fgets` with a buffer of 16: the first line, with its newline, as far as it fits. -/
def fgets (t : Text) : Text :=
  (t.takeWhile (· ≠ '\n') ++ (t.dropWhile (· ≠ '\n')).take 1).take 15

namespace NotificationsModule

/-- The constructor. -/
def new : NotificationsModule where
  element := BarElement.new.setEvent .CLICK_LEFT .toggleNotifications

/-- `getElements`. -/
def getElements (m : NotificationsModule) : List (BarElement NotificationsHandler) := [m.element]

/-- `updateState`. -/
def updateState (m : NotificationsModule) (r : DunstReading) : NotificationsModule :=
  let m :=
    match r.isPaused with
    | none => m
    | some t =>
      { m with isPaused := fgets t = "true\n".toList ∨ fgets t = "true".toList }
  match r.waiting with
  | none => m
  | some t => { m with waitingCount := toInt ((scanLong (fgets t)).getD 0) }

/-- `updateVisuals`. -/
def updateVisuals (m : NotificationsModule) : NotificationsModule :=
  let parse (str : String) (deflt : Color) : Color := (Color.parseColor (some str.toList) deflt).1
  let icon (code : Nat) : Bytes := utf8 (Char.ofNat code).toString
  let text :=
    if m.isPaused then
      if m.waitingCount > 0 then icon 0xf009b ++ ascii (' ' :: decimal m.waitingCount)
      else icon 0xf009b
    else icon 0xf009c
  { m with
    element :=
      { m.element.printOver text with
        foregroundColor :=
          if m.isPaused then parse "#FF6B6B" (.ofBytes 255 107 107 255)
          else parse "#E0AAFF" (.ofBytes 224 170 255 255)
        dirtyContent := true } }

/-- `update`, and `initialize`. -/
def update (m : NotificationsModule) (r : DunstReading) : NotificationsModule :=
  (m.updateState r).updateVisuals

/-- `toggleNotifications`, after `dunstctl set-paused toggle`, up to the rendering. -/
def toggleNotifications (m : NotificationsModule) (r : DunstReading) : NotificationsModule :=
  (m.updateState r).updateVisuals

end NotificationsModule

/-- What happens to the notifications. -/
inductive NotificationsOp where
  | handle (h : NotificationsHandler)
  | update
  deriving DecidableEq

/-- One operation. -/
def NotificationsModule.step (m : NotificationsModule) (r : DunstReading) :
    NotificationsOp → NotificationsModule
  | .handle .toggleNotifications => m.toggleNotifications r
  | .update => m.update r

/-! ## Disk space -/

/-- What the handlers of the element do. -/
inductive SpaceHandler where
  | cycleMode
  deriving DecidableEq

/-- `struct statvfs`, as far as it is read. -/
structure Statvfs where
  f_bsize : UInt64
  f_bavail : UInt64
  f_blocks : UInt64

/-- A quotient of two `double`s that are not negative. -/
inductive Ratio where
  | finite (x : ℚ)
  | inf
  | nan

namespace Ratio

/-- The quotient. -/
def div (x y : ℚ) : Ratio := if y ≠ 0 then .finite (x / y) else if x = 0 then .nan else .inf

/-- A hundred times as much. -/
def percent : Ratio → Ratio
  | finite x => finite (x * 100)
  | r => r

/-- What `printf("%.0f")` prints; what 0 / 0 gives on x86 has a sign. -/
def fixed0 : Ratio → Text
  | finite x => fixed 0 x
  | inf => "inf".toList
  | nan => "-nan".toList

end Ratio

/-- `SpaceModule`. -/
structure SpaceModule where
  baseElement : BarElement SpaceHandler
  displayMode : Nat := 0
  freeGb : ℚ := 0
  usedPercentage : Ratio := .finite 0
  lastUpdate : Int := 0

namespace SpaceModule

/-- `DISPLAY_FREE`. -/
def DISPLAY_FREE : Nat := 1

/-- `DISPLAY_USED_PERCENTAGE`. -/
def DISPLAY_USED_PERCENTAGE : Nat := 2

/-- `NUM_DISPLAY_MODES`. -/
def NUM_DISPLAY_MODES : Nat := 3

/-- `name`. -/
def name : Bytes := utf8 "\uf0c7"

/-- The colour of the text. -/
def color : Color := (Color.parseColor (some "#E0AAFF".toList) (.ofBytes 224 170 255 255)).1

/-- The constructor. -/
def new : SpaceModule where
  baseElement :=
    { (BarElement.new.setEvent .CLICK_LEFT .cycleMode).setEvent .CLICK_RIGHT .cycleMode with
      foregroundColor := color }

/-- `getElements`. -/
def getElements (m : SpaceModule) : List (BarElement SpaceHandler) := [m.baseElement]

/-- `getSpaceUsage`; the products are unsigned, and `none` is a call that fails. -/
def getSpaceUsage (m : SpaceModule) (vfs : Option Statvfs) : SpaceModule :=
  match vfs with
  | none => { m with freeGb := 0, usedPercentage := .finite 0 }
  | some vfs =>
    let gb (bytes : UInt64) : ℚ := bytes.toNat / (1024 * 1024 * 1024)
    let used_gb := gb ((vfs.f_blocks - vfs.f_bavail) * vfs.f_bsize)
    let total_gb := gb (vfs.f_blocks * vfs.f_bsize)
    { m with
      freeGb := gb (vfs.f_bavail * vfs.f_bsize)
      usedPercentage := (Ratio.div used_gb total_gb).percent }

/-- The text of the element. -/
def text (m : SpaceModule) : Bytes :=
  let mode_idx := m.displayMode % NUM_DISPLAY_MODES
  if mode_idx = DISPLAY_FREE then name ++ ascii (' ' :: fixed 2 m.freeGb ++ ['G', 'B'])
  else if mode_idx = DISPLAY_USED_PERCENTAGE then
    name ++ ascii (' ' :: m.usedPercentage.fixed0 ++ ['%'])
  else name ++ ascii (' ' :: fixed 2 m.freeGb ++ ['G', 'B'])

/-- `update`, at `now`. -/
def update (m : SpaceModule) (vfs : Option Statvfs) (now : Int) : SpaceModule :=
  let m := m.getSpaceUsage vfs
  { m with
    baseElement := { m.baseElement.print m.text with dirtyContent := true, foregroundColor := color }
    lastUpdate := now }

/-- The handler of both clicks, up to the rendering. -/
def cycleMode (m : SpaceModule) (vfs : Option Statvfs) (now : Int) : SpaceModule :=
  update { m with displayMode := (m.displayMode + 1) % NUM_DISPLAY_MODES } vfs now

end SpaceModule

/-- What happens to the module. -/
inductive SpaceOp where
  | handle (h : SpaceHandler)
  | update
  deriving DecidableEq

/-- One operation. -/
def SpaceModule.step (m : SpaceModule) (vfs : Option Statvfs) (now : Int) : SpaceOp → SpaceModule
  | .handle .cycleMode => m.cycleMode vfs now
  | .update => m.update vfs now

end Photonbar
