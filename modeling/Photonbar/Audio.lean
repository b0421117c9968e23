import Mathlib.Data.List.Infix
import Photonbar.BarElement

/-!
# The audio module (`audio.h`)

The server answers: a `refreshCache` receives a `Report`, with the name of the default sink and the
list of sinks, for which `sink_info_callback` is called one by one. Between two reports anything
may happen to the sinks. The times that the module reads are milliseconds of the steady clock.

Two copies are kept of what was reported. `allSinks` is cleared before each report and filled anew.
`currentSink` is overwritten only by a sink that has the default name, and so it outlives the sink
it is a copy of, if the default is gone or is not in the list. An operation leaves an `Outcome`:
the module, what it asks of the server, and the report that it has received; asking comes first,
from what was known before. The products in the volumes are taken not to overflow.
-/

namespace Photonbar

/-- `Helper::getBatteryIcon`. -/
def getBatteryIcon (percentage : UInt8) (charging : Bool) : Bytes :=
  let icon (code : Nat) : Bytes := utf8 (Char.ofNat code).toString
  if charging then
    if percentage ≥ 95 then icon 0xf0085
    else if percentage ≥ 90 then icon 0xf008b
    else if percentage ≥ 80 then icon 0xf008a
    else if percentage ≥ 70 then icon 0xf089e
    else if percentage ≥ 60 then icon 0xf0089
    else if percentage ≥ 50 then icon 0xf089d
    else if percentage ≥ 40 then icon 0xf0088
    else if percentage ≥ 30 then icon 0xf0087
    else if percentage ≥ 20 then icon 0xf0086
    else if percentage ≥ 10 then icon 0xf089c
    else icon 0xf089f
  else
    if percentage ≥ 95 then icon 0xf0079
    else if percentage ≥ 90 then icon 0xf0082
    else if percentage ≥ 80 then icon 0xf0081
    else if percentage ≥ 70 then icon 0xf0080
    else if percentage ≥ 60 then icon 0xf007f
    else if percentage ≥ 50 then icon 0xf007e
    else if percentage ≥ 40 then icon 0xf007d
    else if percentage ≥ 30 then icon 0xf007c
    else if percentage ≥ 20 then icon 0xf007b
    else if percentage ≥ 10 then icon 0xf007a
    else icon 0xf008e

/-- `PA_VOLUME_NORM`. -/
def PA_VOLUME_NORM : Int := 0x10000

/-- What a sink goes by. -/
structure Sink where
  name : Bytes
  index : UInt32
  deriving DecidableEq

/-- `SinkInfo`. -/
structure SinkInfo extends Sink where
  volume : Int
  isMuted : Bool
  isBluetooth : Bool
  batteryLevel : Int
  deriving DecidableEq

/-- What comes of `upower`. -/
inductive Upower where
  /-- `popen` fails -/
  | noPipe
  | noLine
  /-- a line, with what `atoi` reads of it -/
  | line (level : Int)

/-- `pa_sink_info`, as far as it is read; with the time, and what comes of `upower`, should
`getBluetoothBatteryLevel` ask. -/
structure SinkReport extends Sink where
  mute : Bool
  /-- `pa_cvolume_avg` of the volume -/
  avg : UInt32
  now : Int
  upower : Upower

/-- What the server answers to a `refreshCache`. -/
structure Report where
  /-- `default_sink_name`, if the callback is given a `pa_server_info` -/
  server : Option Bytes
  sinks : List SinkReport

/-- What the handlers of the element do. -/
inductive AudioHandler where
  | toggleMute
  | cycleSinks
  | adjustVolume (delta : Int)
  deriving DecidableEq

/-- What is asked of the server. -/
inductive SinkCommand where
  /-- `pa_context_set_sink_mute_by_index` -/
  | setMute (index : UInt32) (mute : Bool)
  /-- `pa_context_set_sink_volume_by_index` -/
  | setVolume (index : UInt32) (volume : UInt32)
  /-- `pa_context_set_default_sink` -/
  | setDefault (name : Bytes)
  deriving DecidableEq

/-- The index that a command is for. -/
def SinkCommand.index? : SinkCommand → Option UInt32
  | .setMute index _ => some index
  | .setVolume index _ => some index
  | .setDefault _ => none

/-- `AudioModule`. -/
structure AudioModule where
  currentSink : SinkInfo
  allSinks : List SinkInfo := []
  defaultSinkName : Bytes := []
  baseElement : BarElement AudioHandler
  /-- its own, not that of `Module` -/
  lastUpdate : Int := 0
  lastBatteryCheck : Int := 0
  cachedBattery : Int := -1

/-- The member behind the first that satisfies `p`; behind the last comes the first. -/
def cyclicNext {α : Type} (p : α → Bool) (xs : List α) : Option α := do
  let i ← xs.findIdx? p
  xs[(i + 1) % xs.length]?

namespace AudioModule

/-- The constructor. All fields of `currentSink` but the name are left as they are in memory. -/
def new (currentSink : SinkInfo) : AudioModule where
  currentSink := { currentSink with name := [] }
  baseElement :=
    (((BarElement.new.setEvent .CLICK_LEFT .toggleMute).setEvent .CLICK_RIGHT .cycleSinks).setEvent
      .SCROLL_UP (.adjustVolume 2)).setEvent .SCROLL_DOWN (.adjustVolume (-2))

/-- `getBluetoothBatteryLevel`. -/
def getBluetoothBatteryLevel (m : AudioModule) (now : Int) (upower : Upower) : AudioModule × Int :=
  if m.cachedBattery ≠ -1 ∧ (now - m.lastBatteryCheck).tdiv 1000 < 30 then (m, m.cachedBattery)
  else
    match upower with
    | .noPipe => (m, -1)
    | .noLine => ({ m with lastBatteryCheck := now }, m.cachedBattery)
    | .line level => ({ m with cachedBattery := level, lastBatteryCheck := now }, level)

/-- The last lines of `sink_info_callback`, for the sink `s` that it has made. -/
def addSink (m : AudioModule) (s : SinkInfo) : AudioModule :=
  let m := { m with allSinks := m.allSinks ++ [s] }
  if m.defaultSinkName = s.name then { m with currentSink := s } else m

/-- `sink_info_callback`; the product of the volume is taken not to overflow. -/
def sink_info_callback (m : AudioModule) (i : SinkReport) : AudioModule :=
  let volume := (i.avg.toBitVec.toInt * 100).tdiv PA_VOLUME_NORM
  let isBluetooth : Bool := ascii "bluez".toList <:+: i.name
  let (m, batteryLevel) :=
    if isBluetooth then m.getBluetoothBatteryLevel i.now i.upower else (m, -1)
  m.addSink { toSink := i.toSink, isMuted := i.mute, volume, isBluetooth, batteryLevel }

/-- `server_info_callback`. -/
def server_info_callback (m : AudioModule) (i : Option Bytes) : AudioModule :=
  match i with
  | none => m
  | some default_sink_name => { m with defaultSinkName := default_sink_name }

/-- `refreshCache`. -/
def refreshCache (m : AudioModule) (r : Report) : AudioModule :=
  let m := { m with allSinks := [] }
  r.sinks.foldl sink_info_callback (m.server_info_callback r.server)

/-- `getIcon`. -/
def getIcon (name : Bytes) : Bytes :=
  if ascii "bluez".toList <:+: name then utf8 (Char.ofNat 0xf02cb).toString
  else if ascii "alsa".toList <:+: name then utf8 "\ue638"
  else [0xef, 0x90, 0x9c]

/-- The text of the element. -/
def text (s : SinkInfo) : Bytes :=
  let icon := getIcon s.name
  let volume := ascii (decimal s.volume ++ ['%'])
  if s.isBluetooth ∧ s.batteryLevel ≥ 0 then
    getBatteryIcon (UInt8.ofInt s.batteryLevel) false ++ utf8 " " ++ icon ++ utf8 " " ++ volume
  else icon ++ utf8 " " ++ volume

/-- `updateElement`; the text is short, so that the NUL that is written behind it is there
already. -/
def updateElement (m : AudioModule) : AudioModule :=
  let color (str : String) (deflt : Color) : Color := (Color.parseColor (some str.toList) deflt).1
  { m with
    baseElement :=
      { m.baseElement.print (text m.currentSink) with
        dirtyContent := true
        foregroundColor :=
          if m.currentSink.isMuted then color "#FF6B6B" (.ofBytes 255 107 107 255)
          else color "#E0AAFF" (.ofBytes 224 170 255 255) } }

/-- What an operation leaves: the module, what it asks of the server, and the report that it has
received. -/
structure Outcome where
  module : AudioModule
  command : Option SinkCommand
  report : Option Report

/-- `update`. -/
def update (m : AudioModule) (now : Int) (r : Report) : Outcome :=
  if now - m.lastUpdate < 250 then ⟨m, none, none⟩
  else ⟨{ (m.refreshCache r).updateElement with lastUpdate := now }, none, some r⟩

/-- `toggleMute`, up to the rendering. -/
def toggleMute (m : AudioModule) (r : Report) : Outcome :=
  ⟨(m.refreshCache r).updateElement,
    some (.setMute m.currentSink.index (!m.currentSink.isMuted)), some r⟩

/-- The sink that the loop of `cycleSinks` asks for. -/
def nextSink (m : AudioModule) : Option SinkInfo :=
  cyclicNext (·.name = m.currentSink.name) m.allSinks

/-- `cycleSinks`, up to the rendering. -/
def cycleSinks (m : AudioModule) (r : Report) : Outcome :=
  if m.allSinks.length ≤ 1 then ⟨m, none, none⟩
  else
    ⟨(m.refreshCache r).updateElement, m.nextSink.map fun s => .setDefault s.name, some r⟩

/-- `adjustVolume`, up to the rendering; the quotient of doubles is cut off. -/
def adjustVolume (m : AudioModule) (delta : Int) (r : Report) : Outcome :=
  let new_volume := max 0 (m.currentSink.volume + delta)
  let cv := UInt32.ofInt (PA_VOLUME_NORM * new_volume / 100)
  ⟨(m.refreshCache r).updateElement, some (.setVolume m.currentSink.index cv), some r⟩

end AudioModule

/-- What happens to the module; with the report, should it ask for one. -/
inductive AudioEvent where
  /-- the scheduler calls `update` -/
  | update (now : Int) (r : Report)
  /-- a click or a scroll -/
  | handler (h : AudioHandler) (r : Report)

namespace AudioModule

/-- One event. -/
def step (m : AudioModule) : AudioEvent → Outcome
  | .update now r => m.update now r
  | .handler .toggleMute r => m.toggleMute r
  | .handler .cycleSinks r => m.cycleSinks r
  | .handler (.adjustVolume delta) r => m.adjustVolume delta r

end AudioModule

end Photonbar
