import Mathlib.Data.Rat.Floor
import Photonbar.Audio
import Photonbar.Resources
import Photonbar.Timer

/-!
# The battery (`battery.h`)

An update is given the files of `/sys/class/power_supply/BAT0` that open, by their names. The
arithmetic of `float` is exact, up to the conversions to integers, which cut off what is behind the
point and give the smallest `int` where the value does not fit.

The names of the files depend on the battery: some count energy and others charge, and `readLong`
takes the first of two names that opens. A number is read as `fscanf` reads it, and 0 where there
is none. From the numbers of an update come the percentage, the time that is left and the colours;
`checkBatteryAlert` sends its notification once while the battery is low. The elements have no
handlers.
-/

namespace Photonbar

/-- `fscanf` with `%ld`: `none` where there is no number. -/
def scanLong (t : Text) : Option Int :=
  let (negative, s) := readSign (t.dropWhile isspace)
  let digits := s.takeWhile Char.isDigit
  if digits = [] then none
  else
    let n : Int := Nat.ofDigitChars 10 digits 0
    some (max (-2 ^ 63) (min (2 ^ 63 - 1) (if negative then -n else n)))

/-- `fscanf` with `%15s`: `none` where there is no word. -/
def scanWord (t : Text) : Option Text :=
  let word := ((t.dropWhile isspace).takeWhile fun c => !isspace c).take 15
  if word = [] then none else some word

/-- A fraction without what is behind the point. -/
def truncate (x : ℚ) : Int := if x < 0 then -⌊-x⌋ else ⌊x⌋

/-- `(int) x`, as x86 converts it: what does not fit becomes the smallest `int`. -/
def floatToInt (x : ℚ) : Int :=
  let n := truncate x
  if -2 ^ 31 ≤ n ∧ n < 2 ^ 31 then n else -2 ^ 31

/-- What an update reads. -/
structure BatteryReading where
  /-- the contents of the files in the directory -/
  files : String → Option Text
  now : Int

/-- `readLong`. -/
def BatteryReading.readLong (r : BatteryReading) (f1 f2 : String) : Int :=
  match (r.files f1).or (r.files f2) with
  | none => 0
  | some t => (scanLong t).getD 0

/-- `BatteryModule`. Its elements have no handlers. -/
structure BatteryModule where
  iconElement : BarElement Empty := .new
  textElement : BarElement Empty := .new
  energyNow : Int := 0
  energyFull : Int := 0
  powerNow : Int := 0
  status : Text := "Unknown".toList
  percentage : ℚ := 0
  notificationSent : Bool := false
  lastUpdate : Int := 0

namespace BatteryModule

/-- The constructor. -/
def new : BatteryModule := {}

/-- `getElements`. -/
def getElements (m : BatteryModule) : List (BarElement Empty) := [m.iconElement, m.textElement]

/-- `isCharging`. -/
def isCharging (m : BatteryModule) : Bool := m.status.head? = some 'C'

/-- `readStatus`. -/
def readStatus (m : BatteryModule) (r : BatteryReading) : BatteryModule :=
  match r.files "status" with
  | none => m
  | some t => { m with status := (scanWord t).getD "Unknown".toList }

/-- `totalMins` of `updateVisuals`, before it is made an `int`. -/
def minutes (m : BatteryModule) : ℚ :=
  let timeFloat : ℚ :=
    if m.isCharging then (m.energyFull - m.energyNow : Int) / m.powerNow
    else m.energyNow / m.powerNow
  timeFloat * 60

/-- The text of `textElement`. -/
def text (m : BatteryModule) : Text :=
  if m.powerNow > 0 ∧ (m.isCharging ∨ m.status.head? = some 'D') then
    let totalMins := floatToInt m.minutes
    fixed 1 m.percentage ++ ['%', ' '] ++ decimal2 (totalMins.tdiv 60) ++
      ':' :: decimal2 (totalMins.tmod 60)
  else fixed 1 m.percentage ++ ['%']

/-- `updateVisuals`. -/
def updateVisuals (m : BatteryModule) : BatteryModule :=
  let parse (str : String) (deflt : Color) : Color := (Color.parseColor (some str.toList) deflt).1
  let icon := getBatteryIcon (UInt8.ofInt (floatToInt m.percentage)) m.isCharging
  { m with
    iconElement :=
      { m.iconElement.printOver (icon ++ utf8 " ") with
        foregroundColor :=
          if m.isCharging then
            if m.percentage ≥ 90 then parse "#00FF00" (.ofBytes 0 255 0 255)
            else if m.percentage ≥ 20 then parse "#FFA500" (.ofBytes 255 165 0 255)
            else parse "#FF0000" (.ofBytes 255 0 0 255)
          else parse "#E0AAFF" (.ofBytes 224 170 255 255)
        dirtyContent := true }
    textElement :=
      { m.textElement.printOver (ascii m.text) with
        foregroundColor :=
          if m.percentage < 20 ∧ ¬ m.isCharging then parse "#FF0000" (.ofBytes 255 0 0 255)
          else parse "#E0AAFF" (.ofBytes 224 170 255 255)
        dirtyContent := true } }

/-- What `checkBatteryAlert` sends. -/
def critical (m : BatteryModule) : Notification where
  title := "󰂃 Batería Crítica"
  body := "Nivel actual: <b>" ++ String.ofList (decimal (floatToInt m.percentage)) ++
    "%</b>\n<b>Conecta el cargador de inmediato.</b>"
  critical := true

/-- `checkBatteryAlert`. -/
def checkBatteryAlert (m : BatteryModule) : BatteryModule × Option Notification :=
  if m.percentage < 20 ∧ ¬ m.isCharging ∧ ¬ m.notificationSent then
    ({ m with notificationSent := true }, some m.critical)
  else if m.percentage > 25 ∨ m.isCharging then ({ m with notificationSent := false }, none)
  else (m, none)

/-- `update`, with the notification that it sends. -/
def update (m : BatteryModule) (r : BatteryReading) : BatteryModule × Option Notification :=
  let m := { m with
    energyNow := r.readLong "energy_now" "charge_now"
    energyFull := r.readLong "energy_full" "charge_full"
    powerNow := r.readLong "power_now" "current_now" }
  let m := m.readStatus r
  let (m, sent) :=
    if m.energyFull > 0 then
      let m := { m with percentage := m.energyNow / m.energyFull * 100 }
      m.updateVisuals.checkBatteryAlert
    else (m, none)
  ({ m with lastUpdate := r.now }, sent)

end BatteryModule

end Photonbar
