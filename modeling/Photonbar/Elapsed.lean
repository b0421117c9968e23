import Photonbar.Timer
import Photonbar.Stopwatch

/-!
# The time that the timer and the stopwatch report

`Stopclock` is what the two modules have in common for this: operations, one of which pauses and
resumes, and looks at the elapsed time in between. `Keeps` says what its operations may do to the
fields of the clock, in the states that occur: the one that toggles does to them what `playPause`
does, and the others leave them alone.

Then the runs of the module refine those of the abstract `PauseClock` in milliseconds
(`readings_fst`), and the facts about that clock carry over (`Sound`): every reading is at least
the floor of the unpaused time, and exceeds it by a millisecond a pause at most; no reading is
below an earlier one; and those in one pause are all the same. `elapsed_of_run` states them for
both modules, from a start on, with what each of them shows of the elapsed time. A `reset` ends
such a run; a start after it begins the next one.
-/

namespace Photonbar

/-- A module `M` with operations `Op` that keeps the time; `shown` is what it makes
of the elapsed time. -/
structure Stopclock (M Op R : Type) where
  step : M → Now → Op → M
  /-- the operation that pauses and resumes -/
  toggles : Op → Bool
  pausable : M → Pausable
  elapsed : M → TimePoint → Int
  shown : M → TimePoint → R

namespace Stopclock

variable {M Op R : Type} (k : Stopclock M Op R)

/-- The readings of a run of operations and of looks at the clock (`none`), with
what is shown at each. -/
def readings (m : M) (l : Ledger) : List (Now × Option Op) → List (Reading × R)
  | [] => []
  | (now, some op) :: ops =>
    readings (k.step m now op)
      (if k.toggles op then l.toggle (k.pausable m).isPaused now.steady.ns else l) ops
  | (now, none) :: ops =>
    let p := (k.pausable m).isPaused
    (⟨k.elapsed m now.steady, l.total p now.steady.ns, l.pauses, p⟩, k.shown m now.steady) ::
      readings m l ops

/-- The run as the abstract clock sees it. -/
def clockOps : List (Now × Option Op) → List (Int × ClockOp)
  | [] => []
  | (now, some op) :: ops =>
    if k.toggles op then (now.steady.ns, .toggle) :: clockOps ops else clockOps ops
  | (now, none) :: ops => (now.steady.ns, .read) :: clockOps ops

theorem timesFrom_clockOps {ops : List (Now × Option Op)} :
    ∀ {s : TimePoint}, NowsFrom s ops → TimesFrom s.ns (k.clockOps ops) := by
  induction ops with
  | nil => intro s _; trivial
  | cons op ops ih =>
    obtain ⟨now, _ | op⟩ := op
    · rintro s ⟨hs, hops⟩
      exact ⟨hs, ih hops⟩
    · rintro s ⟨hs, hops⟩
      rw [clockOps]
      split
      · exact ⟨hs, ih hops⟩
      · exact (ih hops).weaken hs

theorem clockOps_lt {ops : List (Now × Option Op)} : ∀ op ∈ k.clockOps ops, op.1 ≤ 2 ^ 63 := by
  induction ops with
  | nil => intro op hop; cases hop
  | cons op ops ih =>
    obtain ⟨now, _ | op⟩ := op <;> intro op' hop
    · rcases List.mem_cons.mp hop with rfl | hop
      · exact now.steady.lt.le
      · exact ih op' hop
    · rw [clockOps] at hop
      split at hop
      · rcases List.mem_cons.mp hop with rfl | hop
        · exact now.steady.lt.le
        · exact ih op' hop
      · exact ih op' hop

/-- What the operations `Allowed` do to a module in a state `I`, seen from its clock. -/
structure Keeps (I : M → Prop) (Allowed : Op → Prop) : Prop where
  elapsed_eq : ∀ m now, I m → k.elapsed m now = (k.pausable m).actualElapsed now
  step_inv : ∀ m now op, I m → Allowed op → I (k.step m now op)
  step_toggle : ∀ m now op, I m → k.toggles op = true →
    k.pausable (k.step m now op) = (k.pausable m).pauseOrResume now.steady
  step_other : ∀ m now op, I m → Allowed op → k.toggles op = false →
    k.pausable (k.step m now op) = k.pausable m

variable {k} {I : M → Prop} {Allowed : Op → Prop}

/-- **Refinement**: the readings of a run are those of the abstract clock, as far as it sees the
run. An operation that toggles is a toggle of the clock, and one that does something else is no
event for it. -/
theorem readings_fst (hk : k.Keeps I Allowed) {ops : List (Now × Option Op)} :
    ∀ {m : M} {l : Ledger}, I m → (∀ now op, (now, some op) ∈ ops → Allowed op) →
      (k.readings m l ops).map Prod.fst =
        (k.pausable m).clock.readings 1000000 l (k.clockOps ops) := by
  induction ops with
  | nil => intro m l _ _; rfl
  | cons op ops ih =>
    obtain ⟨now, _ | op⟩ := op
    · intro m l hI hops
      have hrest := @ih m l hI fun now op hop => hops now op (List.mem_cons_of_mem _ hop)
      rw [readings, List.map_cons, hrest, hk.elapsed_eq m _ hI, Pausable.actualElapsed_eq]
      rfl
    · intro m l hI hops
      have hop : Allowed op := hops now op List.mem_cons_self
      rw [readings, clockOps,
        ih (hk.step_inv m now op hI hop) fun now op hop => hops now op (List.mem_cons_of_mem _ hop)]
      cases ht : k.toggles op with
      | true =>
        rw [hk.step_toggle m now op hI ht, Pausable.clock_pauseOrResume]
        rfl
      | false =>
        rw [hk.step_other m now op hI hop ht]
        rfl

/-- Each reading was taken in a state that the invariant holds of. -/
theorem mem_readings (hk : k.Keeps I Allowed) {ops : List (Now × Option Op)} :
    ∀ {m : M} {l : Ledger}, I m → (∀ now op, (now, some op) ∈ ops → Allowed op) →
      ∀ r ∈ k.readings m l ops,
        ∃ m' now, I m' ∧ r.1.elapsed = k.elapsed m' now ∧ r.2 = k.shown m' now := by
  induction ops with
  | nil => intro m l _ _ r hr; cases hr
  | cons op ops ih =>
    obtain ⟨now, _ | op⟩ := op <;> intro m l hI hops r hr
    · rcases List.mem_cons.mp hr with rfl | hr
      · exact ⟨m, now.steady, hI, rfl, rfl⟩
      · exact ih hI (fun now op hop => hops now op (List.mem_cons_of_mem _ hop)) r hr
    · exact ih (hk.step_inv m now op hI (hops now op List.mem_cons_self))
        (fun now op hop => hops now op (List.mem_cons_of_mem _ hop)) r hr

/-- What a list of readings has to satisfy, in milliseconds: each is the floor of the
unpaused time, or above it by at most the number of completed pauses; none is below
an earlier one; those in one pause are equal. -/
structure Sound (rs : List (Reading × R)) : Prop where
  bounds : ∀ r ∈ rs, r.1.total / 1000000 ≤ r.1.elapsed ∧
    r.1.elapsed ≤ r.1.total / 1000000 + r.1.pauses
  mono : rs.Pairwise fun r r' => r.1.elapsed ≤ r'.1.elapsed
  paused : rs.Pairwise fun r r' => r.1.isPaused = true → r'.1.isPaused = true →
    r.1.pauses = r'.1.pauses → r.1.elapsed = r'.1.elapsed

section

variable (hk : k.Keeps I Allowed) {m : M} {p : Pausable} {t₀ : TimePoint}
  {ops : List (Now × Option Op)} (hI : I m) (hm : k.pausable m = p.start t₀)
  (hops : ∀ now op, (now, some op) ∈ ops → Allowed op) (ht : NowsFrom t₀ ops)

include hk hI hm hops

/-- The readings after a start, as readings of the abstract clock after a start. -/
theorem readings_start : (k.readings m (.start t₀.ns) ops).map Prod.fst =
    (p.clock.start t₀.ns).readings 1000000 (.start t₀.ns) (k.clockOps ops) := by
  rw [readings_fst hk hI hops, hm, Pausable.clock_start]

include ht

/-- The readings after a start are sound. -/
theorem sound_readings : Sound (k.readings m (.start t₀.ns) ops) := by
  have hmap := readings_start hk hI hm hops
  have hkept := PauseClock.Kept.start (q := 1000000) p.clock t₀.ns
  have htimes := k.timesFrom_clockOps ht
  refine ⟨fun r hr => ?_, ?_, ?_⟩
  · refine PauseClock.readings_bounds (by decide) hkept htimes r.1 ?_
    rw [← hmap]
    exact List.mem_map_of_mem hr
  · have hmono := PauseClock.readings_mono (by decide) hkept htimes
    rwa [← hmap, List.pairwise_map] at hmono
  · have hpaused := PauseClock.readings_paused (q := 1000000) (k.clockOps ops)
      (p.clock.start t₀.ns) (.start t₀.ns)
    rwa [← hmap, List.pairwise_map] at hpaused

/-- The readings after a start are not negative, and below 2^44 ms. -/
theorem readings_lt : ∀ r ∈ k.readings m (.start t₀.ns) ops,
    0 ≤ r.1.elapsed ∧ r.1.elapsed < 2 ^ 44 := by
  intro r hr
  have hmem : r.1 ∈ (p.clock.start t₀.ns).readings 1000000 (.start t₀.ns) (k.clockOps ops) := by
    rw [← readings_start hk hI hm hops]
    exact List.mem_map_of_mem hr
  obtain ⟨hlow, -⟩ := (sound_readings hk hI hm hops ht).bounds r hr
  obtain ⟨htotal, hhigh⟩ := PauseClock.readings_range (by decide) (.start p.clock t₀.ns)
    (k.timesFrom_clockOps ht) k.clockOps_lt r.1 hmem
  have hstart : (p.clock.start t₀.ns).startTime = t₀.ns := rfl
  have := t₀.nonneg
  omega

end

end Stopclock

/-! ## The timer -/

/-- The timer, with its remaining time. -/
def TimerModule.stopclock : Stopclock TimerModule TimerOp Int where
  step m now op := (m.step now op).1
  toggles op := op = .handle .playPause
  pausable m := m.toPausable
  elapsed m now := m.actualElapsed now
  shown m now := m.getRemainingMs now

/-- While the timer runs, only `reset` touches its clock otherwise than `playPause`. -/
theorem TimerModule.stopclock_keeps (target : Int) :
    TimerModule.stopclock.Keeps
      (fun m => m.isRunning = true ∧ m.targetDurationMs = target) (· ≠ .handle .reset) where
  elapsed_eq _ _ _ := rfl
  step_inv := by
    rintro m now ((_ | _ | _ | ms) | _) ⟨hrun, htarget⟩ hop
    · simp [stopclock, step, playPause, updated, TimerState.playPause, hrun, htarget]
    · exact absurd rfl hop
    · simp [stopclock, step, toggleDetails, updated, hrun, htarget]
    · simp [stopclock, step, adjustTime, hrun, htarget]
    · simp [stopclock, step, updated, hrun, htarget]
  step_toggle := by
    rintro m now ((_ | _ | _ | ms) | _) ⟨hrun, -⟩ hop
    · simp [stopclock, step, playPause, updated, TimerState.playPause, hrun]
    all_goals exact absurd hop (by simp [stopclock])
  step_other := by
    rintro m now ((_ | _ | _ | ms) | _) ⟨hrun, -⟩ hop htoggles
    · exact absurd htoggles (by simp [stopclock])
    · exact absurd rfl hop
    · simp [stopclock, step, toggleDetails, updated]
    · simp [stopclock, step, adjustTime, hrun]
    · simp [stopclock, step, updated]

/-- The remaining time of a running timer. -/
theorem getRemainingMs_of_running {s : TimerState} (hrun : s.isRunning = true) (now : TimePoint) :
    s.getRemainingMs now = max 0 (s.targetDurationMs - s.actualElapsed now) := by
  simp only [TimerState.getRemainingMs, hrun, Bool.not_true, Bool.false_eq_true, if_false]
  split <;> omega

/-! ## The stopwatch -/

/-- The stopwatch, with the text of its time. -/
def StopwatchModule.stopclock : Stopclock StopwatchModule StopwatchOp Text where
  step := StopwatchModule.step
  toggles op := op = .handle .playPause
  pausable m := m.toPausable
  elapsed m now := m.get_elapsed_ms now
  shown m now := m.time_buffer now

theorem StopwatchModule.stopclock_keeps :
    StopwatchModule.stopclock.Keeps (fun m => m.isRunning = true) (· ≠ .handle .reset) where
  elapsed_eq m now hrun := by
    have : m.isRunning = true := hrun
    simp [stopclock, get_elapsed_ms, this]
  step_inv := by
    rintro m now ((_ | _ | _) | _) hrun hop
    · simp [stopclock, step, playPause_toPausable, hrun]
    · exact absurd rfl hop
    · exact hrun
    · exact hrun
  step_toggle := by
    rintro m now ((_ | _ | _) | _) hrun hop
    · simp [stopclock, step, playPause_toPausable, hrun]
    all_goals exact absurd hop (by simp [stopclock])
  step_other := by
    rintro m now ((_ | _ | _) | _) hrun hop htoggles
    · exact absurd htoggles (by simp [stopclock])
    · exact absurd rfl hop
    · rfl
    · rfl

/-- **Elapsed time**: from a start of the timer or of the stopwatch on, through any operations but
`reset`, the readings are sound. The timer shows what is left of its target and never more than
before, as a scroll does nothing to a timer that runs; the stopwatch shows no negative time. Both
are `Stopclock`s, so that this is one fact about the abstract clock, read twice. -/
theorem elapsed_of_run :
    (∀ (m : TimerModule) (now : Now) (ops : List (Now × Option TimerOp)),
      m.isRunning = false → 0 < m.targetDurationMs → NowsFrom now.steady ops →
      (∀ t op, (t, some op) ∈ ops → op ≠ .handle .reset) →
      let rs := TimerModule.stopclock.readings (m.playPause now).1 (.start now.steady.ns) ops
      Stopclock.Sound rs ∧ (∀ r ∈ rs, r.2 = max 0 (m.targetDurationMs - r.1.elapsed)) ∧
        rs.Pairwise fun r r' => r'.2 ≤ r.2) ∧
    (∀ (m : StopwatchModule) (now : Now) (ops : List (Now × Option StopwatchOp)),
      m.isRunning = false → NowsFrom now.steady ops →
      (∀ t op, (t, some op) ∈ ops → op ≠ .handle .reset) →
      let rs := StopwatchModule.stopclock.readings (m.playPause now) (.start now.steady.ns) ops
      Stopclock.Sound rs ∧ ∀ r ∈ rs, 0 ≤ r.1.elapsed ∧ ∀ c ∈ r.2, c ≠ '-') := by
  refine ⟨?_, ?_⟩
  · intro m now ops hstopped hpos htimes hops rs
    have hkeeps := TimerModule.stopclock_keeps m.targetDurationMs
    have hstate : (m.playPause now).1.toTimerState = { m with toPausable := m.start now.steady } := by
      simp [TimerModule.playPause, TimerModule.updated, TimerState.playPause, hstopped, hpos]
    have hrunning : (m.playPause now).1.isRunning = true ∧
        (m.playPause now).1.targetDurationMs = m.targetDurationMs := by
      rw [hstate]
      exact ⟨rfl, rfl⟩
    have hstart : TimerModule.stopclock.pausable (m.playPause now).1 =
        m.toPausable.start now.steady := congrArg TimerState.toPausable hstate
    have hsound := Stopclock.sound_readings hkeeps hrunning hstart hops htimes
    have hshown : ∀ r ∈ rs, r.2 = max 0 (m.targetDurationMs - r.1.elapsed) := by
      intro r hr
      obtain ⟨m', t, ⟨hrun, htarget⟩, helapsed, hr⟩ :=
        Stopclock.mem_readings hkeeps hrunning hops r hr
      rw [hr, helapsed, ← htarget]
      exact getRemainingMs_of_running hrun t
    refine ⟨hsound, hshown, hsound.mono.imp_of_mem fun {r r'} hr hr' hle => ?_⟩
    rw [hshown r hr, hshown r' hr']
    omega
  · intro m now ops hstopped htimes hops rs
    have hkeeps := StopwatchModule.stopclock_keeps
    have hstart : StopwatchModule.stopclock.pausable (m.playPause now) =
        m.toPausable.start now.steady := by
      simp [StopwatchModule.stopclock, StopwatchModule.playPause_toPausable, hstopped]
    have hrunning : (m.playPause now).isRunning = true := congrArg Pausable.isRunning hstart
    refine ⟨Stopclock.sound_readings hkeeps hrunning hstart hops htimes, fun r hr => ?_⟩
    obtain ⟨hlow, hhigh⟩ := Stopclock.readings_lt hkeeps hrunning hstart hops htimes r hr
    obtain ⟨m', t, -, helapsed, hr⟩ := Stopclock.mem_readings hkeeps hrunning hops r hr
    refine ⟨hlow, fun c hc => ?_⟩
    rw [helapsed] at hlow hhigh
    rw [hr] at hc
    exact StopwatchModule.formatTime_ne_minus hlow hhigh 64 c hc

/-- A moment, in nanoseconds. -/
def Now.at (ns : Int) (h₀ : 0 ≤ ns := by omega) (h : ns < 2 ^ 63 := by omega) : Now :=
  ⟨⟨ns, h₀, h⟩, 0⟩

/-- A timer started at 0, paused from 1.9 ms to 2.1 ms and read at 3 ms: the unpaused time
is 2.8 ms, the pause counts for nothing. And a stopwatch read at 5 ms. -/
theorem elapsed_of_run_one_pause :
    let m : TimerModule := { TimerModule.new with targetDurationMs := 1000 }
    let ops : List (Now × Option TimerOp) :=
      [(.at 1900000, some (.handle .playPause)), (.at 2100000, some (.handle .playPause)),
        (.at 3000000, none)]
    let rs := TimerModule.stopclock.readings (m.playPause (.at 0)).1 (.start 0) ops
    (rs.map (·.1) = [⟨3, 2800000, 1, false⟩] ∧ Stopclock.Sound rs ∧ ∀ r ∈ rs, r.2 = 997) ∧
      Stopclock.Sound (StopwatchModule.stopclock.readings (StopwatchModule.new.playPause (.at 0))
        (.start 0) [(.at 5000000, none)]) := by
  intro m ops rs
  have hreadings : rs.map (·.1) = [⟨3, 2800000, 1, false⟩] := by decide +kernel
  have hops : ∀ t op, (t, some op) ∈ ops → op ≠ .handle .reset := by
    intro t op hop
    simp only [ops, List.mem_cons, Prod.mk.injEq, Option.some.injEq, reduceCtorEq, and_false,
      List.not_mem_nil, or_false] at hop
    rcases hop with ⟨-, rfl⟩ | ⟨-, rfl⟩ <;> decide
  obtain ⟨hsound, hshown, -⟩ := elapsed_of_run.1 m (.at 0) ops rfl (by decide)
    ⟨by decide, by decide, by decide, trivial⟩ hops
  refine ⟨⟨hreadings, hsound, fun r hr => ?_⟩,
    (elapsed_of_run.2 .new (.at 0) [(.at 5000000, none)] rfl ⟨by decide, trivial⟩
      (by simp)).1⟩
  have hmem : r.1 ∈ rs.map (·.1) := List.mem_map_of_mem hr
  rw [hreadings, List.mem_singleton] at hmem
  rw [hshown r hr, hmem]
  decide

end Photonbar
