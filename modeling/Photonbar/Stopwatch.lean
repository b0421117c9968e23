import Photonbar.BarElement
import Photonbar.Clock

/-!
# The stopwatch (`stopwatch.h`)

As in the timer, an operation is given the clocks as it reads them, so that a run is a list of
operations with their moments. Every operation of the stopwatch updates, whether it is a click or
the scheduler, and is followed by a rendering that leaves the module as it is.

What the module computes is in the fields of `Pausable`, and `update` only prints:
`update_toPausable` and `playPause_toPausable` say so, and are all that the theorems about elapsed
times need to know of the operations. The last section is about the text: `formatTime` shows a time
that is not negative without a minus sign.
-/

namespace Photonbar

/-- What the handlers of the stopwatch's elements do. -/
inductive StopwatchHandler where
  | playPause
  | reset
  | toggleDetails
  deriving DecidableEq

/-- `StopwatchModule`. -/
structure StopwatchModule extends Pausable where
  showDetails : Bool := false
  baseElement : BarElement StopwatchHandler
  timeElement : BarElement StopwatchHandler
  lastUpdate : Int := 0

namespace StopwatchModule

/-- `ICON_PLAY`. -/
def ICON_PLAY : Bytes := utf8 " \uf04b"

/-- `ICON_PAUSE`. -/
def ICON_PAUSE : Bytes := utf8 " \uf04c"

/-- `ICON_LOGO`. -/
def ICON_LOGO : Bytes := utf8 "\uf2f2"

/-- The clicks that `configureAllEvents` sets on every element. -/
def withClicks (e : BarElement StopwatchHandler) : BarElement StopwatchHandler :=
  ((e.setEvent .CLICK_LEFT .playPause).setEvent .CLICK_MIDDLE .reset).setEvent
    .CLICK_RIGHT .toggleDetails

/-- The constructor. -/
def new : StopwatchModule where
  baseElement := withClicks .new
  timeElement := withClicks .new

/-- `getElements`. -/
def getElements (m : StopwatchModule) : List (BarElement StopwatchHandler) :=
  [m.baseElement, m.timeElement]

/-- `get_elapsed_ms`. -/
def get_elapsed_ms (m : StopwatchModule) (now : TimePoint) : Int :=
  if !m.isRunning then 0 else m.actualElapsed now

/-- `formatTime`: the text in a buffer of `bufferSize` bytes. -/
def formatTime (bufferSize : Nat) (elapsedMs : Int) : Text :=
  let hours := toInt (elapsedMs.tdiv 3600000)
  let minutes := toInt ((elapsedMs.tmod 3600000).tdiv 60000)
  let seconds := toInt ((elapsedMs.tmod 60000).tdiv 1000)
  (decimal2 hours ++ ':' :: decimal2 minutes ++ ':' :: decimal2 seconds).take (bufferSize - 1)

/-- `applyColors`. -/
def applyColors (m : StopwatchModule) : StopwatchModule :=
  let parse (str : String) (deflt : Color) : Color := (Color.parseColor (some str.toList) deflt).1
  let defaultColor := parse "#E0AAFF" (.ofBytes 224 170 255 255)
  let orangeColor := parse "#FFA500" (.ofBytes 255 165 0 255)
  let greenColor := parse "#90EE90" (.ofBytes 144 238 144 255)
  let color :=
    if !m.isRunning then defaultColor else if m.isPaused then orangeColor else greenColor
  { m with
    baseElement := { m.baseElement with foregroundColor := color }
    timeElement := { m.timeElement with foregroundColor := color } }

/-- `time_buffer` of `update`. -/
def time_buffer (m : StopwatchModule) (now : TimePoint) : Text :=
  formatTime 64 (m.get_elapsed_ms now)

/-- `update`. -/
def update (m : StopwatchModule) (now : Now) : StopwatchModule :=
  let m := m.applyColors
  let time_buffer := m.time_buffer now.steady
  let baseElement := { m.baseElement.print ICON_LOGO with dirtyContent := true }
  let text :=
    if m.showDetails then
      let action_icon :=
        if m.isRunning then (if m.isPaused then ICON_PLAY else ICON_PAUSE) else []
      action_icon ++ ascii (' ' :: time_buffer)
    else []
  { m with
    baseElement
    timeElement := { m.timeElement.print text with dirtyContent := true }
    lastUpdate := now.time }

/-- `playPause`. -/
def playPause (m : StopwatchModule) (now : Now) : StopwatchModule :=
  let m :=
    if !m.isRunning then { m with toPausable := m.start now.steady }
    else { m with toPausable := m.pauseOrResume now.steady }
  m.update now

/-- `reset`. -/
def reset (m : StopwatchModule) (now : Now) : StopwatchModule :=
  update { m with isRunning := false, isPaused := false, accumulatedPauseTime := 0 } now

/-- `toggleDetails`. -/
def toggleDetails (m : StopwatchModule) (now : Now) : StopwatchModule :=
  update { m with showDetails := !m.showDetails } now

end StopwatchModule

/-- What happens to a stopwatch. -/
inductive StopwatchOp where
  | handle (h : StopwatchHandler)
  | update
  deriving DecidableEq

namespace StopwatchModule

/-- One operation. -/
def step (m : StopwatchModule) (now : Now) : StopwatchOp → StopwatchModule
  | .handle .playPause => m.playPause now
  | .handle .reset => m.reset now
  | .handle .toggleDetails => m.toggleDetails now
  | .update => m.update now

@[simp] theorem update_toPausable (m : StopwatchModule) (now : Now) :
    (m.update now).toPausable = m.toPausable :=
  rfl

theorem playPause_toPausable (m : StopwatchModule) (now : Now) :
    (m.playPause now).toPausable =
      if m.isRunning then m.pauseOrResume now.steady else m.start now.steady := by
  cases hrun : m.isRunning <;> simp [playPause, hrun]

/-! ## The text -/

theorem decimal_ne_minus {n : Int} (h : 0 ≤ n) : ∀ c ∈ decimal n, c ≠ '-' := by
  obtain ⟨k, rfl⟩ := Int.eq_ofNat_of_zero_le h
  intro c hc
  have hdigit : c.isDigit = true := Nat.isDigit_of_mem_toDigits (by decide) (by decide) hc
  rintro rfl
  exact absurd hdigit (by decide)

theorem decimal2_ne_minus {n : Int} (h : 0 ≤ n) : ∀ c ∈ decimal2 n, c ≠ '-' := by
  intro c hc
  rw [decimal2] at hc
  split at hc
  · rcases List.mem_cons.mp hc with rfl | hc
    · decide
    · exact decimal_ne_minus h c hc
  · exact decimal_ne_minus h c hc

/-- A time that is not negative is shown without a minus sign. -/
theorem formatTime_ne_minus {elapsedMs : Int} (h₀ : 0 ≤ elapsedMs) (h : elapsedMs < 2 ^ 44)
    (bufferSize : Nat) : ∀ c ∈ formatTime bufferSize elapsedMs, c ≠ '-' := by
  intro c hc
  have hpart {x k : Int} (hx : 0 ≤ x) (hk : 0 ≤ k) (hlt : x / k < 2 ^ 31)
      (hmem : c ∈ decimal2 (toInt (x.tdiv k))) : c ≠ '-' := by
    have hdiv : 0 ≤ x / k := Int.ediv_nonneg hx hk
    rw [Int.tdiv_eq_ediv_of_nonneg hx, toInt_eq (by omega) hlt] at hmem
    exact decimal2_ne_minus hdiv c hmem
  have hparts := List.mem_of_mem_take hc
  simp only [List.mem_append, List.mem_cons, Int.tmod_eq_emod_of_nonneg h₀] at hparts
  rcases hparts with (hhours | rfl | hminutes) | rfl | hseconds
  · exact hpart h₀ (by decide) (by omega) hhours
  · decide
  · exact hpart (Int.emod_nonneg _ (by decide)) (by decide) (by omega) hminutes
  · decide
  · exact hpart (Int.emod_nonneg _ (by decide)) (by decide) (by omega) hseconds

end StopwatchModule

end Photonbar
