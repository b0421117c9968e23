import Photonbar.BarElement
import Photonbar.Clock

/-!
# The timer (`timer.h`)

Each operation is given the clocks as it reads them, once. It gives back the module and what
`update` did; `none` where the operation returned before it. Rendering, which follows an update,
leaves the module as it is. `targetDurationMs` and `accumulatedPauseTime` are integers: a `long
long` overflows after more than 10^12 scrolls.

The notification is sent once for each time that the timer runs out. What decides is
`notificationSent`, which `checkTimerAlert` writes in every update (`update_sent`,
`update_notificationSent`); the rest of an update only prints, and no other operation writes the
field. Hence an update finds in it what the update before has found (`SentAtStarts`), and that is
`alert_iff_first_expired`. `TimerState.Ok` is the invariant of the other fields, kept by every
operation: a timer that runs has a target, and only a timer that runs is paused.
-/

namespace Photonbar

/-- What the handlers of the timer's elements do. -/
inductive TimerHandler where
  | playPause
  | reset
  | toggleDetails
  | adjustTime (ms : Int)
  deriving DecidableEq

/-- A desktop notification: what `NotifyManager::send` is given. -/
structure Notification where
  title : String
  body : String
  /-- `NOTIFY_URGENCY_CRITICAL` -/
  critical : Bool
  deriving DecidableEq

/-- What one `update` did. -/
structure Updated where
  /-- the notification it sent -/
  sent : Option Notification
  deriving DecidableEq

/-- The state of the timer, without what `update` keeps for itself. -/
structure TimerState extends Pausable where
  showDetails : Bool := false
  targetDurationMs : Int := 0

/-- `TimerModule`. -/
structure TimerModule extends TimerState where
  baseElement : BarElement TimerHandler
  playIconElement : BarElement TimerHandler
  hourElement : BarElement TimerHandler
  minuteElement : BarElement TimerHandler
  secondElement : BarElement TimerHandler
  notificationSent : Bool := false
  lastUpdate : Int := 0

namespace TimerState

/-- `getRemainingMs`. -/
def getRemainingMs (s : TimerState) (now : TimePoint) : Int :=
  if !s.isRunning then s.targetDurationMs
  else
    let remaining := s.targetDurationMs - s.actualElapsed now
    if remaining > 0 then remaining else 0

/-- `adjustTime`, before the update. -/
def adjustTime (s : TimerState) (ms : Int) : TimerState :=
  let s := { s with targetDurationMs := s.targetDurationMs + ms }
  if s.targetDurationMs < 0 then { s with targetDurationMs := 0 } else s

/-- `playPause`, before the update. -/
def playPause (s : TimerState) (now : TimePoint) : TimerState :=
  if !s.isRunning then
    if s.targetDurationMs > 0 then { s with toPausable := s.start now } else s
  else { s with toPausable := s.pauseOrResume now }

/-- `reset`, before the update. -/
def reset (s : TimerState) : TimerState :=
  { s with
    accumulatedPauseTime := 0
    targetDurationMs := 0
    isRunning := false
    isPaused := false }

/-- The timer runs, is not paused and has 0 ms left. -/
def expired (s : TimerState) (now : TimePoint) : Bool :=
  s.isRunning && !s.isPaused && s.getRemainingMs now == 0

end TimerState

namespace TimerModule

/-- `ICON_PLAY`. -/
def ICON_PLAY : Bytes := utf8 " \uf04b"

/-- `ICON_PAUSE`. -/
def ICON_PAUSE : Bytes := utf8 " \uf04c"

/-- `ICON_LOGO`: U+F06AD. -/
def ICON_LOGO : Bytes := [0xF3, 0xB0, 0x9A, 0xAD]

/-- The clicks that `configureAllEvents` sets on every element. -/
def withClicks (e : BarElement TimerHandler) : BarElement TimerHandler :=
  ((e.setEvent .CLICK_LEFT .playPause).setEvent .CLICK_MIDDLE .reset).setEvent
    .CLICK_RIGHT .toggleDetails

/-- The scrolls that `configureAllEvents` sets on the elements of the time. -/
def withScrolls (ms : Int) (e : BarElement TimerHandler) : BarElement TimerHandler :=
  (e.setEvent .SCROLL_UP (.adjustTime ms)).setEvent .SCROLL_DOWN (.adjustTime (-ms))

/-- The constructor. -/
def new : TimerModule where
  baseElement := withClicks .new
  playIconElement := withClicks .new
  hourElement := withScrolls 3600000 (withClicks .new)
  minuteElement := withScrolls 60000 (withClicks .new)
  secondElement := withScrolls 1000 (withClicks .new)

/-- `getElements`. -/
def getElements (m : TimerModule) : List (BarElement TimerHandler) :=
  [m.baseElement, m.playIconElement, m.hourElement, m.minuteElement, m.secondElement]

/-- `applyColors`. -/
def applyColors (m : TimerModule) (now : TimePoint) : TimerModule :=
  let parse (str : String) (deflt : Color) : Color := (Color.parseColor (some str.toList) deflt).1
  let defaultColor := parse "#E0AAFF" (.ofBytes 224 170 255 255)
  let redColor := parse "#FF0000" (.ofBytes 255 0 0 255)
  let orangeColor := parse "#FFA500" (.ofBytes 255 165 0 255)
  let greenColor := parse "#90EE90" (.ofBytes 144 238 144 255)
  let color :=
    if !m.isRunning then defaultColor
    else if m.isPaused then orangeColor
    else if m.getRemainingMs now = 0 then redColor
    else greenColor
  { m with
    baseElement := { m.baseElement with foregroundColor := color }
    playIconElement := { m.playIconElement with foregroundColor := color }
    hourElement := { m.hourElement with foregroundColor := color }
    minuteElement := { m.minuteElement with foregroundColor := color }
    secondElement := { m.secondElement with foregroundColor := color } }

/-- What `checkTimerAlert` sends. -/
def completed : Notification where
  title := "⏰ Timer Completado"
  body := "¡El tiempo ha terminado!\n<b>Click en el timer para reiniciar.</b>"
  critical := true

/-- `checkTimerAlert`. -/
def checkTimerAlert (m : TimerModule) (now : TimePoint) : TimerModule × Updated :=
  let (m, sent) :=
    if m.getRemainingMs now = 0 && m.isRunning && !m.isPaused && !m.notificationSent then
      ({ m with notificationSent := true }, some completed)
    else (m, none)
  -- armed again when the timer is started anew or paused
  if m.getRemainingMs now > 0 || !m.isRunning || m.isPaused then
    ({ m with notificationSent := false }, ⟨sent⟩)
  else (m, ⟨sent⟩)

/-- Print into an element that has to be parsed again. -/
def printDirty (e : BarElement TimerHandler) (s : Bytes) : BarElement TimerHandler :=
  { e.print s with dirtyContent := true }

/-- The part of `update` that prints. -/
def printElements (m : TimerModule) (now : TimePoint) : TimerModule :=
  let remaining := m.getRemainingMs now
  let hours := toInt (remaining.tdiv 3600000)
  let minutes := toInt ((remaining.tmod 3600000).tdiv 60000)
  let seconds := toInt ((remaining.tmod 60000).tdiv 1000)
  let m := { m with baseElement := printDirty m.baseElement ICON_LOGO }
  let m :=
    if m.showDetails then
      let icon :=
        if !m.isRunning then ICON_PLAY else if m.isPaused then ICON_PLAY else ICON_PAUSE
      { m with playIconElement := printDirty m.playIconElement (icon ++ ascii [' ']) }
    else { m with playIconElement := printDirty m.playIconElement [] }
  if m.showDetails then
    { m with
      hourElement := printDirty m.hourElement (ascii ('-' :: decimal2 hours ++ [':']))
      minuteElement := printDirty m.minuteElement (ascii (decimal2 minutes ++ [':']))
      secondElement := printDirty m.secondElement (ascii (decimal2 seconds)) }
  else
    { m with
      hourElement := printDirty m.hourElement []
      minuteElement := printDirty m.minuteElement []
      secondElement := printDirty m.secondElement [] }

/-- `update`. -/
def update (m : TimerModule) (now : Now) : TimerModule × Updated :=
  let (m, updated) := (m.applyColors now.steady).checkTimerAlert now.steady
  ({ m.printElements now.steady with lastUpdate := now.time }, updated)

/-- An operation goes on to update. -/
def updated (r : TimerModule × Updated) : TimerModule × Option Updated := (r.1, some r.2)

/-- `adjustTime`. -/
def adjustTime (m : TimerModule) (ms : Int) (now : Now) : TimerModule × Option Updated :=
  if m.isRunning then (m, none)
  else updated (update { m with toTimerState := m.toTimerState.adjustTime ms } now)

/-- `playPause`. -/
def playPause (m : TimerModule) (now : Now) : TimerModule × Option Updated :=
  updated (update { m with toTimerState := m.toTimerState.playPause now.steady } now)

/-- `reset`. -/
def reset (m : TimerModule) (now : Now) : TimerModule × Option Updated :=
  if m.isRunning && !m.isPaused && m.getRemainingMs now.steady > 0 then (m, none)
  else updated (update { m with toTimerState := m.toTimerState.reset } now)

/-- `toggleDetails`. -/
def toggleDetails (m : TimerModule) (now : Now) : TimerModule × Option Updated :=
  updated (update { m with
    toTimerState := { m.toTimerState with showDetails := !m.showDetails } } now)

end TimerModule

/-- What happens to a timer: a handler runs, or the scheduler updates it. -/
inductive TimerOp where
  | handle (h : TimerHandler)
  | update
  deriving DecidableEq

namespace TimerModule

/-- One operation. -/
def step (m : TimerModule) (now : Now) : TimerOp → TimerModule × Option Updated
  | .handle .playPause => m.playPause now
  | .handle .reset => m.reset now
  | .handle .toggleDetails => m.toggleDetails now
  | .handle (.adjustTime ms) => m.adjustTime ms now
  | .update => updated (m.update now)

/-! ## What an update keeps, and what it sends -/

@[simp] theorem applyColors_state (m : TimerModule) (now : TimePoint) :
    (m.applyColors now).toTimerState = m.toTimerState :=
  rfl

@[simp] theorem applyColors_notificationSent (m : TimerModule) (now : TimePoint) :
    (m.applyColors now).notificationSent = m.notificationSent :=
  rfl

@[simp] theorem printElements_state (m : TimerModule) (now : TimePoint) :
    (m.printElements now).toTimerState = m.toTimerState := by
  by_cases hd : m.showDetails = true <;> simp [printElements, hd]

@[simp] theorem printElements_notificationSent (m : TimerModule) (now : TimePoint) :
    (m.printElements now).notificationSent = m.notificationSent := by
  by_cases hd : m.showDetails = true <;> simp [printElements, hd]

/-- The alert is sent when the timer is found expired for the first time, and the
flag records what was found. -/
theorem checkTimerAlert_eq (m : TimerModule) (now : TimePoint) :
    m.checkTimerAlert now =
      ({ m with notificationSent := m.expired now },
        ⟨if m.expired now && !m.notificationSent then some completed else none⟩) := by
  by_cases hrun : m.isRunning = true
  · have hremaining : 0 ≤ m.getRemainingMs now := by
      simp only [TimerState.getRemainingMs, hrun, Bool.not_true, Bool.false_eq_true, if_false]
      split <;> omega
    rcases hremaining.eq_or_lt with hzero | hpos
    · cases hpause : m.isPaused with
      | true => simp [checkTimerAlert, TimerState.expired, hrun, hpause]
      | false =>
        cases hsent : m.notificationSent with
        | true =>
          have hkeep : { m with notificationSent := true } = m := by rw [← hsent]
          simp [checkTimerAlert, TimerState.expired, hrun, hpause, hsent, ← hzero, hkeep]
        | false => simp [checkTimerAlert, TimerState.expired, hrun, hpause, hsent, ← hzero]
    · have hne : m.getRemainingMs now ≠ 0 := hpos.ne'
      simp [checkTimerAlert, TimerState.expired, hpos, hne]
  · simp [checkTimerAlert, TimerState.expired, hrun]

@[simp] theorem update_state (m : TimerModule) (now : Now) :
    (m.update now).1.toTimerState = m.toTimerState := by
  simp [update, checkTimerAlert_eq]

@[simp] theorem update_notificationSent (m : TimerModule) (now : Now) :
    (m.update now).1.notificationSent = m.expired now.steady := by
  simp [update, checkTimerAlert_eq]

theorem update_sent (m : TimerModule) (now : Now) :
    (m.update now).2.sent =
      if m.expired now.steady && !m.notificationSent then some completed else none := by
  rw [update, checkTimerAlert_eq]
  rfl

end TimerModule

/-- What holds of the timer between operations. -/
structure TimerState.Ok (s : TimerState) : Prop where
  running_of_paused : s.isPaused = true → s.isRunning = true
  target_pos_of_running : s.isRunning = true → 0 < s.targetDurationMs
  target_nonneg : 0 ≤ s.targetDurationMs

theorem TimerState.Ok.playPause {s : TimerState} (h : s.Ok) (now : TimePoint) :
    (s.playPause now).Ok := by
  by_cases hrun : s.isRunning = true
  · have hpos := h.target_pos_of_running hrun
    exact ⟨by simp [TimerState.playPause, hrun], by simpa [TimerState.playPause, hrun],
      by simpa [TimerState.playPause, hrun] using hpos.le⟩
  · by_cases hpos : s.targetDurationMs > 0
    · simp only [TimerState.playPause, hrun, hpos, Bool.not_false, if_true]
      exact ⟨by simp [Pausable.start], fun _ => hpos, hpos.le⟩
    · simpa [TimerState.playPause, hrun, hpos] using h

theorem TimerState.Ok.adjustTime {s : TimerState} (h : s.Ok) (hrun : ¬ s.isRunning = true)
    (ms : Int) : (s.adjustTime ms).Ok := by
  by_cases hneg : s.targetDurationMs + ms < 0
  · simp only [TimerState.adjustTime, hneg, if_true]
    exact ⟨h.running_of_paused, fun hr => absurd hr hrun, le_refl 0⟩
  · simp only [TimerState.adjustTime, hneg, if_false]
    exact ⟨h.running_of_paused, fun hr => absurd hr hrun, not_lt.mp hneg⟩

theorem TimerState.Ok.reset (s : TimerState) : s.reset.Ok :=
  ⟨fun h => h, nofun, le_refl 0⟩

namespace TimerModule

/-- **What an operation does**: it returns at once, or it moves to a state that is
again sound and updates. -/
theorem step_cases (m : TimerModule) (now : Now) (op : TimerOp) :
    m.step now op = (m, none) ∨
      ∃ s : TimerState, m.step now op = updated (update { m with toTimerState := s } now) ∧
        (m.Ok → s.Ok) := by
  obtain (_ | _ | _ | ms) | _ := op
  · -- playPause
    exact .inr ⟨m.toTimerState.playPause now.steady, rfl, fun h => h.playPause _⟩
  · -- reset
    by_cases hrefused :
        (m.isRunning && !m.isPaused && decide (m.getRemainingMs now.steady > 0)) = true
    · exact .inl (if_pos hrefused)
    · exact .inr ⟨m.toTimerState.reset, if_neg hrefused, fun _ => .reset _⟩
  · -- toggleDetails
    exact .inr ⟨{ m.toTimerState with showDetails := !m.showDetails }, rfl, fun h =>
      ⟨h.running_of_paused, h.target_pos_of_running, h.target_nonneg⟩⟩
  · -- adjustTime
    by_cases hrun : m.isRunning = true
    · exact .inl (if_pos hrun)
    · exact .inr ⟨m.toTimerState.adjustTime ms, if_neg hrun, fun h => h.adjustTime hrun ms⟩
  · -- the scheduler's update
    exact .inr ⟨m.toTimerState, rfl, id⟩

/-! ## Runs -/

/-- One update of a run: what it found, and whether it sent a notification. -/
structure Tick where
  expired : Bool
  sent : Bool

/-- The updates of a run. -/
def trace (m : TimerModule) : List (Now × TimerOp) → List Tick
  | [] => []
  | (now, op) :: ops =>
    match m.step now op with
    | (m', none) => trace m' ops
    | (m', some u) => ⟨m'.expired now.steady, u.sent.isSome⟩ :: trace m' ops

/-- The module after a run. -/
def after (m : TimerModule) (ops : List (Now × TimerOp)) : TimerModule :=
  ops.foldl (fun m op => (m.step op.1 op.2).1) m

/-- An update sends if it finds the timer expired and the one before did not
(`prev`: what the one before the first has found). -/
def SentAtStarts : Bool → List Tick → Prop
  | _, [] => True
  | prev, t :: ts => t.sent = (t.expired && !prev) ∧ SentAtStarts t.expired ts

theorem SentAtStarts.head {prev : Bool} {ts : List Tick} (h : SentAtStarts prev ts) {t : Tick}
    (ht : ts[0]? = some t) : t.sent = (t.expired && !prev) := by
  cases ts with
  | nil => cases ht
  | cons t' ts =>
    obtain rfl : t' = t := by simpa using ht
    exact h.1

/-- Later updates are compared with the update before them. -/
theorem SentAtStarts.succ {ts : List Tick} :
    ∀ {prev : Bool}, SentAtStarts prev ts → ∀ {i : Nat} {p t : Tick}, ts[i]? = some p →
      ts[i + 1]? = some t → t.sent = (t.expired && !p.expired) := by
  induction ts with
  | nil => intro _ _ i p t hp; cases hp
  | cons t' ts ih =>
    rintro prev ⟨-, hts⟩ i p t hp ht
    cases i with
    | zero =>
      obtain rfl : t' = p := by simpa using hp
      exact hts.head (by simpa using ht)
    | succ i => exact ih hts (by simpa using hp) (by simpa using ht)

/-- The flag `notificationSent` is what the last update has found. -/
theorem sentAtStarts_trace (ops : List (Now × TimerOp)) :
    ∀ m : TimerModule, SentAtStarts m.notificationSent (m.trace ops) := by
  induction ops with
  | nil => intro m; trivial
  | cons op ops ih =>
    obtain ⟨now, op⟩ := op
    intro m
    rcases m.step_cases now op with hret | ⟨s, hupd, -⟩
    · rw [trace, hret]
      exact ih m
    · rw [trace, hupd]
      have hflag := update_notificationSent { m with toTimerState := s } now
      have hsent := update_sent { m with toTimerState := s } now
      have hstate := update_state { m with toTimerState := s } now
      generalize update { m with toTimerState := s } now = r at hflag hsent hstate
      refine ⟨?_, ?_⟩
      · simp only [hsent, hstate]
        cases s.expired now.steady <;> cases m.notificationSent <;> rfl
      · have hrest := ih r.1
        rw [hflag] at hrest
        simpa only [updated, hstate] using hrest

theorem ok_after (ops : List (Now × TimerOp)) :
    ∀ m : TimerModule, m.Ok → (m.after ops).Ok := by
  induction ops with
  | nil => exact fun _ h => h
  | cons op ops ih =>
    intro m h
    have hstep : (m.step op.1 op.2).1.Ok := by
      rcases m.step_cases op.1 op.2 with hret | ⟨s, hupd, hs⟩
      · rw [hret]
        exact h
      · rw [hupd, updated, update_state]
        exact hs h
    exact ih _ hstep

/-- **The alert**: in every run an update sends the notification exactly if it is the first of a
stretch of updates that find the timer expired; and the state is sound after every run. An
operation that returns before its update leaves no trace, and one that updates passes on, in
`notificationSent`, whether it has found the timer expired. -/
theorem alert_iff_first_expired (ops : List (Now × TimerOp)) :
    (∀ (i : Nat) (t : Tick), (new.trace ops)[i]? = some t →
      (t.sent = true ↔ t.expired = true ∧
        ∀ (j : Nat) (p : Tick), j + 1 = i → (new.trace ops)[j]? = some p → p.expired = false)) ∧
    (new.after ops).Ok := by
  refine ⟨fun i t ht => ?_, ok_after ops new ⟨by decide, by decide, by decide⟩⟩
  have hstarts := sentAtStarts_trace ops new
  cases i with
  | zero =>
    rw [hstarts.head ht]
    simp [new]
  | succ i =>
    obtain ⟨p, hp⟩ : ∃ p, (new.trace ops)[i]? = some p := by
      have hlt : i + 1 < (new.trace ops).length := (List.getElem?_eq_some_iff.mp ht).1
      exact ⟨_, List.getElem?_eq_getElem (by omega)⟩
    rw [hstarts.succ hp ht, Bool.and_eq_true]
    refine and_congr_right fun _ => ⟨fun h j q hj hq => ?_, fun h => ?_⟩
    · obtain rfl : j = i := by omega
      obtain rfl := Option.some.inj (hp.symm.trans hq)
      simpa using h
    · simpa using h i p rfl hp

end TimerModule

end Photonbar
