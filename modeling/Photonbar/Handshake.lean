import Photonbar.Run

/-!
# How `main` waits for the top bar (`main.cpp`)

The thread of the top bar initialises its modules and then sets `gTopReady` under `gInitMutex` and
notifies `gInitCv`; `main` waits on it before it starts the bottom bar. `Handshake` is the state of
both threads and of what they share. One step is one action of one thread, in any order, and a
blocked thread has no step. `main` may also wake without being notified, as a condition variable
allows, and then takes the mutex and looks at the flag again.

A module that fails to initialise ends the thread before it sets the flag: `never_stuck_iff` says
that exactly then `main` can be left waiting. Without a failure the invariant is `Ready`: the flag
is set as soon as the thread is behind the place that sets it, and it cannot end before. With one
it is `Lost`: the flag stays unset in every state, so that the bottom bar is never started
(`never_starting`), however often `main` wakes.
-/

namespace Photonbar

/-- What comes of `initialize()` of a module. -/
inductive InitResult where
  /-- it returns true -/
  | ok
  /-- it returns false -/
  | failed
  /-- it does not return -/
  | never
  deriving DecidableEq

/-- Where the thread of the top bar is. -/
inductive TopThread where
  /-- in the loop of `initializeAllModules`, before these modules -/
  | initializing (modules : List InitResult)
  /-- before the lock on `gInitMutex` -/
  | locking
  /-- before `gTopReady = true` -/
  | setting
  /-- before the lock is given back -/
  | unlocking
  /-- before `notify_one` -/
  | notifying
  /-- in `run` -/
  | running
  | terminated
  deriving DecidableEq

/-- Where `main` is. -/
inductive MainThread where
  /-- before the lock on `gInitMutex` -/
  | locking
  /-- in `gInitCv.wait`, before it looks at `gTopReady` -/
  | checking
  /-- in `gInitCv.wait`, blocked -/
  | waiting
  /-- in `gInitCv.wait`, awake, before it has the lock again -/
  | woken
  /-- `gInitCv.wait` has returned -/
  | unlocking
  /-- before the thread of the bottom bar is started -/
  | starting
  deriving DecidableEq

/-- The two threads. -/
inductive Party where
  | top
  | main
  deriving DecidableEq

/-- The state of both threads and of what they share. -/
structure Handshake where
  top : TopThread
  main : MainThread
  /-- who holds `gInitMutex` -/
  gInitMutex : Option Party := none
  gTopReady : Bool := false

/-- What happens next. -/
inductive Action where
  /-- the thread of the top bar goes on -/
  | top
  /-- `main` goes on -/
  | main
  /-- `main` wakes although nobody has notified it -/
  | spurious
  deriving DecidableEq

namespace Handshake

/-- `main` has just started the thread of a top bar with these modules. -/
def start (modules : List InitResult) : Handshake where
  top := .initializing modules
  main := .locking

/-- `notify_one`. -/
def notify_one (s : Handshake) : Handshake :=
  if s.main = .waiting then { s with main := .woken } else s

/-- One step of the thread of the top bar. -/
def stepTop (s : Handshake) : Option Handshake :=
  match s.top with
  | .initializing [] => some { s with top := .locking }
  | .initializing (.ok :: modules) => some { s with top := .initializing modules }
  -- `initialize` returns false, and the thread returns
  | .initializing (.failed :: _) => some { s with top := .terminated }
  | .initializing (.never :: _) => none
  | .locking =>
    if s.gInitMutex = none then some { s with top := .setting, gInitMutex := some .top } else none
  | .setting => some { s with top := .unlocking, gTopReady := true }
  | .unlocking => some { s with top := .notifying, gInitMutex := none }
  | .notifying => some { s.notify_one with top := .running }
  | .running => some { s with top := .terminated }
  | .terminated => none

/-- One step of `main`. -/
def stepMain (s : Handshake) : Option Handshake :=
  match s.main with
  | .locking | .woken =>
    if s.gInitMutex = none then some { s with main := .checking, gInitMutex := some .main } else none
  | .checking =>
    if s.gTopReady then some { s with main := .unlocking }
    else some { s with main := .waiting, gInitMutex := none }
  | .waiting => none
  | .unlocking => some { s with main := .starting, gInitMutex := none }
  | .starting => none

/-- One step. -/
def step (s : Handshake) : Action → Option Handshake
  | .top => s.stepTop
  | .main => s.stepMain
  | .spurious => if s.main = .waiting then some { s with main := .woken } else none

/-- The thread of the top bar has ended, while `main` is blocked and the flag is not set. -/
def Stuck (s : Handshake) : Prop :=
  s.top = .terminated ∧ s.main = .waiting ∧ s.gTopReady = false

/-! ## Modules that do not fail -/

/-- No module fails that is reached. -/
def NoneFails (modules : List InitResult) : Prop :=
  .failed ∉ modules.takeWhile (· ≠ .never)

/-- **The invariant** where no module fails: the thread sets the flag before it goes on. -/
def Ready (s : Handshake) : Prop :=
  match s.top with
  | .initializing modules => NoneFails modules
  | .locking | .setting => True
  | .unlocking | .notifying | .running | .terminated => s.gTopReady = true

variable {s s' : Handshake} {a : Action}

theorem noneFails_cons_ok {modules : List InitResult} (h : NoneFails (.ok :: modules)) :
    NoneFails modules := by
  simpa [NoneFails] using h

theorem not_noneFails_cons_failed (modules : List InitResult) :
    ¬ NoneFails (.failed :: modules) := by
  simp [NoneFails]

/-- `main` changes neither the flag nor the other thread. -/
theorem stepMain_keeps (h : s.stepMain = some s') :
    s'.top = s.top ∧ s'.gTopReady = s.gTopReady := by
  rw [stepMain] at h
  cases hmain : s.main <;> simp only [hmain] at h
  case locking | woken =>
    split at h
    · obtain rfl := Option.some.inj h
      exact ⟨rfl, rfl⟩
    · cases h
  case checking =>
    split at h <;> obtain rfl := Option.some.inj h <;> exact ⟨rfl, rfl⟩
  case unlocking =>
    obtain rfl := Option.some.inj h
    exact ⟨rfl, rfl⟩
  case waiting | starting => cases h

theorem notify_one_gTopReady (s : Handshake) : s.notify_one.gTopReady = s.gTopReady := by
  rw [notify_one]
  split <;> rfl

/-- One step of the thread of the top bar keeps the invariant. -/
theorem Ready.stepTop (hready : s.Ready) (h : s.stepTop = some s') : s'.Ready := by
  rw [Handshake.stepTop] at h
  rw [Ready] at hready
  cases htop : s.top with
  | initializing modules =>
    simp only [htop] at h hready
    match modules with
    | [] =>
      obtain rfl := Option.some.inj h
      trivial
    | .ok :: modules =>
      obtain rfl := Option.some.inj h
      exact noneFails_cons_ok hready
    | .failed :: modules => exact absurd hready (not_noneFails_cons_failed modules)
    | .never :: modules => cases h
  | locking =>
    simp only [htop] at h
    split at h
    · obtain rfl := Option.some.inj h
      trivial
    · cases h
  | setting =>
    simp only [htop] at h
    obtain rfl := Option.some.inj h
    rfl
  | unlocking | running =>
    simp only [htop] at h hready
    obtain rfl := Option.some.inj h
    exact hready
  | notifying =>
    simp only [htop] at h hready
    obtain rfl := Option.some.inj h
    exact (notify_one_gTopReady s).trans hready
  | terminated =>
    simp only [htop] at h
    cases h

/-- **One step** keeps the invariant. -/
theorem Ready.step (hready : s.Ready) (h : s.step a = some s') : s'.Ready := by
  cases a with
  | top => exact hready.stepTop h
  | main =>
    obtain ⟨htop, hflag⟩ := stepMain_keeps h
    rw [Ready] at hready ⊢
    rw [htop, hflag]
    exact hready
  | spurious =>
    simp only [Handshake.step] at h
    split at h
    · obtain rfl := Option.some.inj h
      exact hready
    · cases h

theorem Ready.not_stuck (hready : s.Ready) : ¬ s.Stuck := by
  rintro ⟨htop, -, hflag⟩
  rw [Ready] at hready
  rw [htop] at hready
  rw [hflag] at hready
  cases hready

/-! ## A module that fails -/

/-- Where a module fails, all before it have been initialised. -/
theorem exists_failed {modules : List InitResult} (h : ¬ NoneFails modules) :
    ∃ n rest, modules = List.replicate n .ok ++ .failed :: rest := by
  induction modules with
  | nil => exact absurd List.not_mem_nil h
  | cons r modules ih =>
    cases r with
    | ok =>
      obtain ⟨n, rest, rfl⟩ := ih fun hnone => h (by simpa [NoneFails] using hnone)
      exact ⟨n + 1, rest, rfl⟩
    | failed => exact ⟨0, modules, rfl⟩
    | never => exact absurd (by simp [NoneFails]) h

/-- Modules that are initialised, one step each. -/
theorem runOn_ok (n : Nat) (rest : List InitResult) (s : Handshake)
    (h : s.top = .initializing (List.replicate n .ok ++ rest)) :
    runOn step s (List.replicate n .top) = some { s with top := .initializing rest } := by
  induction n generalizing s with
  | zero =>
    rw [List.replicate_zero, List.nil_append] at h
    rw [List.replicate_zero, ← h]
    rfl
  | succ n ih =>
    have hstep : s.step .top =
        some { s with top := .initializing (List.replicate n .ok ++ rest) } := by
      simp only [step, stepTop, h, List.replicate_succ, List.cons_append]
    rw [List.replicate_succ, runOn, hstep, Option.bind_some, ih _ rfl]

/-- `main` waits, and then a module fails. -/
theorem runOn_stuck (n : Nat) (rest : List InitResult) :
    runOn step (start (List.replicate n .ok ++ .failed :: rest))
        ([.main, .main] ++ (List.replicate n .top ++ [.top])) =
      some { top := .terminated, main := .waiting } := by
  rw [runOn_append]
  show runOn step { top := _, main := .waiting } _ = _
  rw [runOn_append, runOn_ok n (.failed :: rest) _ rfl]
  rfl

/-- **Exactly when `main` cannot be left waiting**: in no interleaving, if and only if no module
fails to initialise. Without a failure every state is `Ready`, and none of these is stuck. With
one, the interleaving is the plainest there is: `main` goes first and blocks, and then the thread
runs up to the module that fails. -/
theorem never_stuck_iff (modules : List InitResult) :
    (∀ as s, runOn step (start modules) as = some s → ¬ s.Stuck) ↔ NoneFails modules := by
  refine ⟨fun h => ?_, fun h as s hs => ?_⟩
  · by_contra hfails
    obtain ⟨n, rest, rfl⟩ := exists_failed hfails
    exact h _ _ (runOn_stuck n rest) ⟨rfl, rfl, rfl⟩
  · have hstart : (start modules).Ready := h
    have hready : s.Ready := runOn_keeps (fun _ _ _ hready h => Ready.step hready h) hstart hs
    exact hready.not_stuck

/-- The modules of the top bar, where the weather cannot be fetched: `main` blocks, the thread
of the top bar ends, and the flag is not set. -/
theorem offline_weather_leaves_main_waiting :
    ∃ as s, runOn step (start [.ok, .ok, .ok, .ok, .failed, .ok]) as = some s ∧ s.Stuck :=
  ⟨_, _, runOn_stuck 4 [.ok], rfl, rfl, rfl⟩

/-- What holds all the time where a module fails. -/
structure Lost (s : Handshake) : Prop where
  top : s.top = .terminated ∨ ∃ modules, s.top = .initializing modules ∧ ¬ NoneFails modules
  flag : s.gTopReady = false
  main : s.main ≠ .unlocking ∧ s.main ≠ .starting

theorem Lost.stepTop (h : s.Lost) (hs : s.stepTop = some s') : s'.Lost := by
  rw [Handshake.stepTop] at hs
  rcases h.top with htop | ⟨modules, htop, hfails⟩
  · simp only [htop] at hs
    cases hs
  · simp only [htop] at hs
    match modules with
    | [] => exact absurd List.not_mem_nil hfails
    | .ok :: modules =>
      obtain rfl := Option.some.inj hs
      exact ⟨.inr ⟨modules, rfl, by simpa [NoneFails] using hfails⟩, h.flag, h.main⟩
    | .failed :: modules =>
      obtain rfl := Option.some.inj hs
      exact ⟨.inl rfl, h.flag, h.main⟩
    | .never :: modules => cases hs

theorem Lost.stepMain (h : s.Lost) (hs : s.stepMain = some s') : s'.Lost := by
  obtain ⟨htop, hflag⟩ := stepMain_keeps hs
  refine ⟨htop ▸ h.top, hflag.trans h.flag, ?_⟩
  rw [Handshake.stepMain] at hs
  cases hmain : s.main <;> simp only [hmain] at hs
  case locking | woken =>
    split at hs
    · obtain rfl := Option.some.inj hs
      exact ⟨nofun, nofun⟩
    · cases hs
  case checking =>
    rw [h.flag, if_neg Bool.false_ne_true] at hs
    obtain rfl := Option.some.inj hs
    exact ⟨nofun, nofun⟩
  case unlocking => exact absurd hmain h.main.1
  case waiting | starting => cases hs

/-- **Where a module fails, the bottom bar is never started**, in no interleaving. The flag is set
only behind a loop that a failure leaves, so that `main` may wake as often as it likes: it sees the
flag unset, and waits again. -/
theorem never_starting (modules : List InitResult) (hfails : ¬ NoneFails modules)
    (as : List Action) (hs : runOn step (start modules) as = some s) : s.main ≠ .starting := by
  have hstart : (start modules).Lost := ⟨.inr ⟨modules, rfl, hfails⟩, rfl, nofun, nofun⟩
  have hlost : s.Lost := by
    refine runOn_keeps (fun s a s' h hs => ?_) hstart hs
    cases a with
    | top => exact h.stepTop hs
    | main => exact h.stepMain hs
    | spurious =>
      simp only [step] at hs
      split at hs
      · obtain rfl := Option.some.inj hs
        exact ⟨h.top, h.flag, nofun, nofun⟩
      · cases hs
  exact hlost.main.2

/-- The weather again, with a wake-up that nobody asked for. -/
theorem never_starting_offline :
    let modules : List InitResult := [.ok, .ok, .ok, .ok, .failed, .ok]
    let s : Handshake := { top := .terminated, main := .waiting }
    runOn step (start modules)
        [.main, .main, .top, .top, .spurious, .main, .main, .top, .top, .top] = some s ∧
      s.main ≠ .starting := by
  intro modules s
  have hfails : ¬ NoneFails modules := by simp [modules, NoneFails]
  have hrun : runOn step (start modules)
      [.main, .main, .top, .top, .spurious, .main, .main, .top, .top, .top] = some s := rfl
  exact ⟨hrun, never_starting modules hfails _ hrun⟩

end Handshake

end Photonbar
