import Mathlib.Data.UInt
import Mathlib.Logic.Function.Iterate
import Photonbar.BarElement

/-!
# The resources module (`resources.h`)

An update is given what it reads: the lines of `/proc/meminfo`, the start of `/proc/stat`, and the
files of the temperature sensors. Usages are exact, and counters have 64 bits.

Numbers are read by `strtoull`, which skips blanks, takes a sign, and stops at the first character
that is no digit; without a digit it gives 0 and stays where it is. `cpuCounters` calls it eight
times in a row, and `scanMeminfo` on the two lines it is looking for. `idle` and `total` are sums
that may wrap; they do not as long as the numbers in the file add up to less than 2^64
(`toNat_total`). The usage of the CPU is that of the time between two updates, so the module keeps
what the last one has read.
-/

namespace Photonbar

/-! ## Numbers in the files of `/proc` -/

/-- The sign in front of a number: whether it is a minus, and what follows. -/
def readSign : Text → Bool × Text
  | '-' :: t => (true, t)
  | '+' :: t => (false, t)
  | t => (false, t)

/-- `strtoull` in base 10: the number, and where it ends. -/
def strtoull (t : Text) : UInt64 × Text :=
  let (negative, s) := readSign (t.dropWhile isspace)
  let digits := s.takeWhile Char.isDigit
  if digits = [] then (0, t)
  else
    let n := Nat.ofDigitChars 10 digits 0
    let value : UInt64 :=
      if 2 ^ 64 ≤ n then UInt64.ofNat (2 ^ 64 - 1)
      else if negative then -UInt64.ofNat n
      else UInt64.ofNat n
    (value, s.dropWhile Char.isDigit)

/-- The loop of `getRamUsage` over the lines, for the values of `total` and `avail`. -/
def scanMeminfo : List Text → UInt64 × UInt64 → UInt64 × UInt64
  | [], acc => acc
  | line :: lines, (total, avail) =>
    let (total, avail) :=
      if total = 0 ∧ "MemTotal:".toList <+: line then ((strtoull (line.drop 9)).1, avail)
      else if avail = 0 ∧ "MemAvailable:".toList <+: line then (total, (strtoull (line.drop 13)).1)
      else (total, avail)
    if total ≠ 0 ∧ avail ≠ 0 then (total, avail) else scanMeminfo lines (total, avail)

/-- `getRamUsage`, for the lines of the file, should it open. -/
def getRamUsage (meminfo : Option (List Text)) : ℚ :=
  match meminfo with
  | none => 0
  | some lines =>
    let (total, avail) := scanMeminfo lines (0, 0)
    if total = 0 then 0 else 100 - avail.toNat * 100 / total.toNat

/-- `v` of `getCpuUsage`, for what is read of `/proc/stat`: eight numbers in a row behind the name
of the line. -/
def cpuCounters (stat : Text) : Vector UInt64 8 :=
  Vector.ofFn fun i => (strtoull ((fun p => (strtoull p).2)^[i] (stat.drop 4))).1

/-- The loop of `getCpuTemp` over one file: anything from `'0'` on counts as a digit. -/
def readMilli (buf : Text) : Int :=
  (buf.takeWhile ('0' ≤ ·)).foldl (fun v c => v * 10 + (c.toNat - 48)) 0

/-- `getCpuTemp`, for what is read of each sensor. -/
def getCpuTemp (temps : List (Option Text)) : ℚ :=
  let maxMilli := temps.foldl (fun maxMilli buf =>
    match buf with
    | none => maxMilli
    | some buf => max maxMilli (readMilli buf)) 0
  maxMilli * 0.001

/-! ## The module -/

/-- What an update reads: of `/proc/stat` at most 255 characters, and `none` where a file does not
open or nothing is read. -/
structure ResourcesReading where
  meminfo : Option (List Text)
  stat : Option Text
  temps : List (Option Text)
  now : Int

/-- `ResourcesModule`. Its elements have no handlers. -/
structure ResourcesModule where
  lastCpuTotal : UInt64 := 0
  lastCpuIdle : UInt64 := 0
  ramElement : BarElement Empty
  cpuElement : BarElement Empty
  tempElement : BarElement Empty
  lastUpdate : Int := 0

namespace ResourcesModule

/-- `ICON_RAM`. -/
def ICON_RAM : Bytes := utf8 "\uefc5"

/-- `ICON_CPU`. -/
def ICON_CPU : Bytes := utf8 "\uf4bc"

/-- `ICON_TEMP`. -/
def ICON_TEMP : Bytes := utf8 "\uf2c9"

/-- `colorNormal`. -/
def colorNormal : Color := (Color.parseColor (some "#E0AAFF".toList) (.ofBytes 224 170 255 255)).1

/-- `colorAlert`. -/
def colorAlert : Color := (Color.parseColor (some "#FF6B6B".toList) (.ofBytes 255 107 107 255)).1

/-- `RAM_WARN`. -/
def RAM_WARN : ℚ := 80

/-- `CPU_WARN`. -/
def CPU_WARN : ℚ := 80

/-- `TEMP_WARN`. -/
def TEMP_WARN : ℚ := 70

/-- The constructor. -/
def new : ResourcesModule where
  ramElement := { BarElement.new with foregroundColor := colorNormal }
  cpuElement := { BarElement.new with foregroundColor := colorNormal }
  tempElement := { BarElement.new with foregroundColor := colorNormal }

/-- `getElements`. -/
def getElements (m : ResourcesModule) : List (BarElement Empty) :=
  [m.ramElement, m.cpuElement, m.tempElement]

/-- `idle` of `getCpuUsage`. -/
def idle (v : Vector UInt64 8) : UInt64 := v[3] + v[4]

/-- `total` of `getCpuUsage`. -/
def total (v : Vector UInt64 8) : UInt64 :=
  v[0] + v[1] + v[2] + idle v + v[5] + v[6] + v[7]

/-- The sum of the counters. -/
def sum (v : Vector UInt64 8) : Nat :=
  v[0].toNat + v[1].toNat + v[2].toNat + v[3].toNat + v[4].toNat + v[5].toNat + v[6].toNat +
    v[7].toNat

/-- The part of it that is idle. -/
def idleSum (v : Vector UInt64 8) : Nat := v[3].toNat + v[4].toNat

/-- Without a wrap the function computes with these. -/
theorem toNat_total {v : Vector UInt64 8} (h : sum v < 2 ^ 64) :
    (total v).toNat = sum v ∧ (idle v).toNat = idleSum v ∧ idleSum v ≤ sum v := by
  rw [total, idle, sum, idleSum] at *
  simp only [UInt64.toNat_add]
  omega

/-- `getCpuUsage`. -/
def getCpuUsage (m : ResourcesModule) (stat : Option Text) : ℚ × ResourcesModule :=
  match stat with
  | none => (0, m)
  | some stat =>
    let v := cpuCounters stat
    let m' := { m with lastCpuTotal := total v, lastCpuIdle := idle v }
    if m.lastCpuTotal = 0 then (0, m')
    else
      let diffTotal := total v - m.lastCpuTotal
      let diffIdle := idle v - m.lastCpuIdle
      if diffTotal = 0 then (0, m')
      else (100 * (1 - (diffIdle.toNat : ℚ) / diffTotal.toNat), m')

/-- `update`. -/
def update (m : ResourcesModule) (r : ResourcesReading) : ResourcesModule :=
  let ram := getRamUsage r.meminfo
  let (cpu, m) := m.getCpuUsage r.stat
  let temp := getCpuTemp r.temps
  { m with
    ramElement :=
      { m.ramElement.print (ICON_RAM ++ ascii (' ' :: fixed 1 ram) ++ utf8 "% ▏") with
        foregroundColor := if ram > RAM_WARN then colorAlert else colorNormal
        dirtyContent := true }
    cpuElement :=
      { m.cpuElement.print (ICON_CPU ++ ascii (' ' :: fixed 1 cpu) ++ utf8 "% ") with
        foregroundColor := if cpu > CPU_WARN then colorAlert else colorNormal
        dirtyContent := true }
    tempElement :=
      { m.tempElement.print (utf8 " " ++ ICON_TEMP ++ ascii (' ' :: fixed 0 temp) ++ utf8 "°C") with
        foregroundColor := if temp > TEMP_WARN then colorAlert else colorNormal
        dirtyContent := true }
    lastUpdate := r.now }

end ResourcesModule

end Photonbar
