import Photonbar.BarElement

/-!
# The network module (`ping.h`)

What `getNetworkIo` finds in `/proc/net/dev` is given to an operation as a `NetIo`, and what comes
of the attempt to connect as a `Connection`. Rates are exact, as numbers and as differences of
counters, which are unsigned.

`getNetworkIo` writes its two results only if it has read something. The variables of `update` that
it is given are not initialised, so that what they hold is an argument as well (`stack`). Where
nothing was read, this is what counts. The counters of the sample before, and the smoothed rates,
are in the module; an update keeps whatever it has computed from, and the next one compares with
that. A click toggles the details and updates at once.
-/

namespace Photonbar

/-- What the handlers of the element do. -/
inductive PingHandler where
  | toggleDetails
  deriving DecidableEq

/-- What comes of reading `/proc/net/dev`. -/
inductive NetIo where
  /-- there is no descriptor, or `lseek` or `read` fails -/
  | unread
  /-- the sums over the interfaces -/
  | counters (sent recv : UInt64)
  deriving DecidableEq

/-- `getNetworkIo`, for what its parameters hold before: they stay as they are when nothing is
read. -/
def getNetworkIo (io : NetIo) (sent recv : UInt64) : UInt64 × UInt64 :=
  match io with
  | .unread => (sent, recv)
  | .counters sent recv => (sent, recv)

/-- `timespec`. -/
structure Timespec where
  tv_sec : Int
  tv_nsec : Int
  deriving DecidableEq

/-- What comes of the calls of `getLatencyMs`. -/
inductive Connection where
  /-- `socket` fails -/
  | noSocket
  /-- `connect` fails at once -/
  | refused
  /-- `poll` fails or finds nothing in a second -/
  | noAnswer
  /-- `SO_ERROR` is set -/
  | failed
  | reached (start «end» : Timespec)
  deriving DecidableEq

/-- `getLatencyMs`. -/
def getLatencyMs : Connection → ℚ
  | .noSocket => -1
  | .refused => -1
  | .noAnswer => -1
  | .failed => -1
  | .reached start «end» =>
    («end».tv_sec - start.tv_sec) * 1000 + («end».tv_nsec - start.tv_nsec) / 1000000

/-- What an `update` meets. -/
structure PingReading where
  io : NetIo
  /-- what `curSent` and `curRecv` hold before anything is written to them -/
  stack : UInt64 × UInt64
  now : Int
  connection : Connection

/-- `PingModule`. -/
structure PingModule where
  showDetails : Bool := true
  lastSent : UInt64 := 0
  lastRecv : UInt64 := 0
  lastUp : ℚ := 0
  lastDown : ℚ := 0
  cachedLatency : ℚ := -1
  lastLatencyCheck : Int := 0
  baseElement : BarElement PingHandler
  lastUpdate : Int := 0

namespace PingModule

/-- `ICON_NET`. -/
def ICON_NET : Bytes := utf8 "\uef09"

/-- `ICON_UP`. -/
def ICON_UP : Bytes := utf8 "\ueaa0"

/-- `ICON_DOWN`. -/
def ICON_DOWN : Bytes := utf8 "\uea9d"

/-- The constructor. -/
def new (io : NetIo) : PingModule :=
  let (lastSent, lastRecv) := getNetworkIo io 0 0
  { lastSent, lastRecv, baseElement := BarElement.new.setEvent .CLICK_LEFT .toggleDetails }

/-- A rate in kilobytes: the difference of two counters, which are unsigned. -/
def rate (cur last : UInt64) : ℚ :=
  let r := ((cur - last).toNat : ℚ) * 0.0009765625
  if r < 0 then 0 else r

/-- The smoothing. -/
def smooth (r last : ℚ) : ℚ := r * 0.7 + last * 0.3

/-- The text of the element. -/
def text (m : PingModule) (up down : ℚ) : Bytes :=
  let rates := utf8 " " ++ ICON_UP ++ ascii (fixed 1 up ++ ['K', ' ']) ++ ICON_DOWN ++
    ascii (fixed 1 down ++ ['K'])
  if !m.showDetails then ICON_NET
  else if m.cachedLatency ≥ 0 then
    ICON_NET ++ ascii (' ' :: fixed 1 m.cachedLatency ++ ['m', 's']) ++ rates
  else ICON_NET ++ utf8 " Off" ++ rates

/-- `update`. -/
def update (m : PingModule) (r : PingReading) : PingModule :=
  let (curSent, curRecv) := getNetworkIo r.io r.stack.1 r.stack.2
  let up := smooth (rate curSent m.lastSent) m.lastUp
  let down := smooth (rate curRecv m.lastRecv) m.lastDown
  let m := { m with lastUp := up, lastDown := down, lastSent := curSent, lastRecv := curRecv }
  let m :=
    if r.now ≠ m.lastLatencyCheck then
      { m with cachedLatency := getLatencyMs r.connection, lastLatencyCheck := r.now }
    else m
  { m with
    baseElement := { m.baseElement.print (m.text up down) with dirtyContent := true }
    lastUpdate := r.now }

/-- The handler of the element, up to the rendering. -/
def toggleDetails (m : PingModule) (r : PingReading) : PingModule :=
  update { m with showDetails := !m.showDetails } r

end PingModule

/-- What happens to the module. -/
inductive PingOp where
  | handle (h : PingHandler)
  | update
  deriving DecidableEq

namespace PingModule

/-- One operation. -/
def step (m : PingModule) (r : PingReading) : PingOp → PingModule
  | .handle .toggleDetails => m.toggleDetails r
  | .update => m.update r

end PingModule

end Photonbar
