import Photonbar.CString
import Photonbar.PauseClock

/-!
# Clocks

What the modules read of the C++ clocks. A `steady_clock` time point counts nanoseconds since the
machine was booted in a signed 64-bit number, so that two of them can be subtracted without
overflow; a `Now` is one moment, with all the clocks that are read at it.

`Pausable` is what the timer and the stopwatch have in common: the fields that keep the time, and
what `playPause` does with them. The same code stands in both of them, once for each, and is
translated once. `clock` is the abstract clock behind the fields, and `clock_start`,
`clock_pauseOrResume` and `actualElapsed_eq` say that the operations are its operations.
-/

namespace Photonbar

/-- `std::chrono::steady_clock::time_point`. -/
structure TimePoint where
  /-- nanoseconds since boot -/
  ns : Int
  nonneg : 0 ≤ ns
  lt : ns < 2 ^ 63

namespace TimePoint

/-- The constructor: the epoch. -/
def epoch : TimePoint := ⟨0, by decide, by decide⟩

/-- `duration_cast<milliseconds>(b - a).count()`, which rounds towards zero. -/
def msSince (b a : TimePoint) : Int := (b.ns - a.ns).tdiv 1000000

end TimePoint

/-- The clocks at one moment. -/
structure Now where
  /-- `steady_clock::now()` -/
  steady : TimePoint
  /-- `time(nullptr)` -/
  time : Int

/-- `(int) n`: the low 32 bits, signed. -/
def toInt (n : Int) : Int := n.bmod (2 ^ 32)

theorem toInt_eq {n : Int} (h₀ : -2 ^ 31 ≤ n) (h : n < 2 ^ 31) : toInt n = n :=
  Int.bmod_eq_of_le_mul_two (by omega) (by omega)

/-! ## What the timer and the stopwatch share -/

/-- The fields of `TimerModule` and `StopwatchModule` that keep the time. -/
structure Pausable where
  startTime : TimePoint := .epoch
  pauseTime : TimePoint := .epoch
  isRunning : Bool := false
  isPaused : Bool := false
  accumulatedPauseTime : Int := 0

namespace Pausable

/-- The start in `playPause`. -/
def start (s : Pausable) (now : TimePoint) : Pausable :=
  { s with startTime := now, isRunning := true, isPaused := false, accumulatedPauseTime := 0 }

/-- `playPause` of a clock that runs: resume, or pause. -/
def pauseOrResume (s : Pausable) (now : TimePoint) : Pausable :=
  if s.isPaused then
    { s with
      accumulatedPauseTime := s.accumulatedPauseTime + now.msSince s.pauseTime
      isPaused := false }
  else { s with pauseTime := now, isPaused := true }

/-- The milliseconds that a running clock has run: up to the pause while it is paused. -/
def actualElapsed (s : Pausable) (now : TimePoint) : Int :=
  if s.isPaused then s.pauseTime.msSince s.startTime - s.accumulatedPauseTime
  else now.msSince s.startTime - s.accumulatedPauseTime

/-- The abstract clock. -/
def clock (s : Pausable) : PauseClock :=
  ⟨s.startTime.ns, s.pauseTime.ns, s.isPaused, s.accumulatedPauseTime⟩

theorem clock_start (s : Pausable) (now : TimePoint) : (s.start now).clock = s.clock.start now.ns :=
  rfl

theorem clock_pauseOrResume (s : Pausable) (now : TimePoint) :
    (s.pauseOrResume now).clock = s.clock.toggle 1000000 now.ns := by
  cases hp : s.isPaused <;> simp [pauseOrResume, clock, PauseClock.toggle, TimePoint.msSince, hp]

theorem actualElapsed_eq (s : Pausable) (now : TimePoint) :
    s.actualElapsed now = s.clock.elapsed 1000000 now.ns :=
  rfl

@[simp] theorem pauseOrResume_isRunning (s : Pausable) (now : TimePoint) :
    (s.pauseOrResume now).isRunning = s.isRunning := by
  cases hp : s.isPaused <;> simp [pauseOrResume, hp]

end Pausable

/-- The operations of a run come at steady times that do not go back, the first
not before `s`. -/
def NowsFrom {α : Type} : TimePoint → List (Now × α) → Prop
  | _, [] => True
  | s, (now, _) :: ops => s.ns ≤ now.steady.ns ∧ NowsFrom now.steady ops

end Photonbar
