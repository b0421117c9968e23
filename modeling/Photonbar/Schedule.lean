import Mathlib.Data.List.Basic
import Photonbar.Run

/-!
# When a module updates (`module.h`)

`Module` is the base class as far as scheduling goes: what `shouldUpdate` reads, and what decides
in each class whether its `update` writes `lastUpdate`. What an update prints is left to the
modules themselves. The classes are one type with the values that their constructors pass, so that
a statement about all modules is one about all classes.

`Schedule` is a run of `checkAndUpdate` calls. `Spaced` says that two updates in a row are a period
apart. That rests on `lastUpdate`, and not every `update` writes it: some classes have a field of
the same name that hides it, and the clock returns early when it would show what it shows already
(`keepsLastUpdate`). A module that leaves `lastUpdate` as it was is due again at once, and so
`spaced_iff` says in which runs the updates are apart: where no call comes too soon after such an
update. `Timed` is the bookkeeping, what `lastUpdate` says of the last call that returned true.
-/

namespace Photonbar

/-- The module classes. -/
inductive ModuleClass where
  | workspace
  | audio
  | battery
  | notifications
  | weather
  | datetime
  | timer
  | stopwatch
  | space
  | resources
  | ping
  deriving DecidableEq

namespace ModuleClass

/-- `autoUpdate`, as the constructor passes it. -/
def autoUpdate : ModuleClass → Bool
  | workspace => true
  | _ => false

/-- `secondsPerUpdate`, as the constructor passes it. -/
def secondsPerUpdate : ModuleClass → Int
  | workspace => 1
  | audio => 5
  | battery => 5
  | notifications => 0
  | weather => 600
  | datetime => 1
  | timer => 1
  | stopwatch => 1
  | space => 30
  | resources => 2
  | ping => 1

end ModuleClass

/-! ## Local time -/

/-- `std::tm`, as far as `DateTimeModule` reads it. -/
structure Tm where
  tm_sec : Int
  tm_min : Int
  tm_hour : Int
  tm_mday : Int
  tm_wday : Int
  tm_mon : Int
  tm_year : Int
  deriving DecidableEq

/-- A time zone. -/
structure Zone where
  localtime_r : Int → Tm

/-- The time of day, on the first day of the epoch. -/
def timeOfDay (t : Int) : Tm := ⟨t % 60, t / 60 % 60, t / 3600 % 24, 1, 4, 0, 70⟩

theorem timeOfDay_inj {t t' : Int} (h : timeOfDay t = timeOfDay t') :
    t % 86400 = t' % 86400 := by
  injection h with hsec hmin hhour
  omega

namespace Zone

/-- Of these times, none shows what another one has shown ten minutes ago or less: clocks may be put
back, but by more than that. -/
def Distinct (zone : Zone) (times : Int → Prop) : Prop :=
  ∀ t t', times t → times t' → t < t' → t' ≤ t + 600 → zone.localtime_r t' ≠ zone.localtime_r t

/-- UTC. -/
def utc : Zone where
  localtime_r := timeOfDay

theorem utc_distinct (times : Int → Prop) : utc.Distinct times := by
  intro t t' _ _ hlt hle heq
  have hday := timeOfDay_inj heq
  omega

/-- A zone where the clocks are put back from 2:00 to 1:00. -/
def putBack : Zone where
  localtime_r t := timeOfDay (if t < 7200 then t else t - 3600)

end Zone

/-! ## The base class -/

/-- `Module`, as far as scheduling goes. -/
structure Module where
  cls : ModuleClass
  secondsPerUpdate : Int
  lastUpdate : Int := 0
  /-- `lastSec` to `lastYear` of `DateTimeModule`; `none` as long as they are -1 -/
  last : Option Tm := none
  /-- `showHour` of `DateTimeModule` -/
  showHour : Bool := true
  /-- how often `update` was called -/
  updates : Nat := 0

namespace Module

/-- The constructor. -/
def new (cls : ModuleClass) : Module := { cls, secondsPerUpdate := cls.secondsPerUpdate }

/-- `shouldUpdate`. -/
def shouldUpdate (m : Module) (now : Int) : Bool :=
  if m.cls.autoUpdate then true else now - m.lastUpdate ≥ m.secondsPerUpdate

/-- `update`, where `time` is what it reads of the clock. -/
def update (zone : Zone) (m : Module) (time : Int) : Module :=
  let m := { m with updates := m.updates + 1 }
  match m.cls with
  -- `AudioModule` writes a field of its own that is also called `lastUpdate`
  | .workspace | .audio | .notifications => m
  | .datetime =>
    let tm := zone.localtime_r time
    if m.last = some tm then m else { m with last := some tm, lastUpdate := time }
  | _ => { m with lastUpdate := time }

/-- `checkAndUpdate` at `now`. -/
def checkAndUpdate (zone : Zone) (m : Module) (now time : Int) : Module × Bool :=
  if m.shouldUpdate now then (m.update zone time, true) else (m, false)

/-- At this time, `update` leaves `lastUpdate` as it is. -/
def keepsLastUpdate (zone : Zone) (m : Module) (time : Int) : Bool :=
  match m.cls with
  | .workspace | .audio | .notifications => true
  | .datetime => m.last = some (zone.localtime_r time)
  | _ => false

variable (zone : Zone) (m : Module) (time : Int)

@[simp] theorem update_cls : (m.update zone time).cls = m.cls := by
  cases h : m.cls <;> simp only [update, h]
  split <;> rfl

@[simp] theorem update_secondsPerUpdate :
    (m.update zone time).secondsPerUpdate = m.secondsPerUpdate := by
  cases h : m.cls <;> simp only [update, h]
  split <;> rfl

/-- What becomes of `lastUpdate`. -/
theorem update_lastUpdate : (m.update zone time).lastUpdate =
    if m.keepsLastUpdate zone time then m.lastUpdate else time := by
  cases h : m.cls <;> simp only [update, keepsLastUpdate, h] <;> simp
  split <;> rfl

theorem shouldUpdate_iff {m : Module} (h : m.cls.autoUpdate = false) (now : Int) :
    m.shouldUpdate now = true ↔ m.lastUpdate + m.secondsPerUpdate ≤ now := by
  rw [shouldUpdate, h, if_neg Bool.false_ne_true, decide_eq_true_eq]
  omega

end Module

/-! ## Runs of `checkAndUpdate` -/

/-- One call: it comes `delay` seconds after the one before, and `update` reads the clock
`reading` seconds later. -/
structure Call where
  delay : Nat
  reading : Nat

/-- A module in a run of calls. -/
structure Schedule where
  module : Module
  now : Int
  /-- when the last call came that returned true -/
  lastTrue : Option Int
  /-- when the one before came -/
  prevTrue : Option Int
  /-- the last call that returned true has left `lastUpdate` as it was -/
  kept : Bool

namespace Schedule

variable (zone : Zone)

/-- Before the first call. -/
def start (m : Module) (now : Int) : Schedule := ⟨m, now, none, none, false⟩

/-- One call. -/
def step (s : Schedule) (c : Call) : Option Schedule :=
  let now := s.now + c.delay
  let (module, updated) := s.module.checkAndUpdate zone now (now + c.reading)
  some {
    module
    now := now + c.reading
    lastTrue := if updated then some now else s.lastTrue
    prevTrue := if updated then s.lastTrue else s.prevTrue
    kept := if updated then s.module.keepsLastUpdate zone (now + c.reading) else s.kept }

/-- The last two calls that returned true are a period apart. -/
def Spaced (s : Schedule) : Prop :=
  ∀ a b, s.prevTrue = some a → s.lastTrue = some b → a + s.module.secondsPerUpdate ≤ b

/-- The call comes a period after the last one that returned true, if that one has left
`lastUpdate` as it was. -/
def Apart (s : Schedule) (c : Call) : Prop :=
  s.kept = true → ∀ a, s.lastTrue = some a → a + s.module.secondsPerUpdate ≤ s.now + c.delay

/-- What `lastUpdate` says of the last call that returned true. -/
structure Timed (s : Schedule) : Prop where
  autoUpdate : s.module.cls.autoUpdate = false
  le_now : ∀ a, s.lastTrue = some a → a ≤ s.now
  written : ∀ a, s.lastTrue = some a → s.kept = false → a ≤ s.module.lastUpdate
  notWritten : ∀ a, s.lastTrue = some a → s.kept = true →
    s.module.lastUpdate + s.module.secondsPerUpdate ≤ a

variable {zone} {s s' : Schedule} {c : Call}

/-- **What a call does**: it updates where a period has passed since `lastUpdate`. -/
theorem step_cases (zone : Zone) (h : s.module.cls.autoUpdate = false) (c : Call) :
    (s.now + c.delay < s.module.lastUpdate + s.module.secondsPerUpdate ∧
      s.step zone c = some { s with now := s.now + c.delay + c.reading }) ∨
    (s.module.lastUpdate + s.module.secondsPerUpdate ≤ s.now + c.delay ∧
      s.step zone c = some {
        module := s.module.update zone (s.now + c.delay + c.reading)
        now := s.now + c.delay + c.reading
        lastTrue := some (s.now + c.delay)
        prevTrue := s.lastTrue
        kept := s.module.keepsLastUpdate zone (s.now + c.delay + c.reading) }) := by
  have hiff := Module.shouldUpdate_iff h (s.now + c.delay)
  cases hdue : s.module.shouldUpdate (s.now + c.delay) with
  | true => exact .inr ⟨hiff.mp hdue, by simp [step, Module.checkAndUpdate, hdue]⟩
  | false =>
    have hlate : ¬ s.module.lastUpdate + s.module.secondsPerUpdate ≤ s.now + c.delay := by
      rw [← hiff, hdue]
      exact Bool.false_ne_true
    exact .inl ⟨Int.not_le.mp hlate, by simp [step, Module.checkAndUpdate, hdue]⟩

/-- Every call keeps the bookkeeping. -/
theorem Timed.step (h : s.Timed) (hs : s.step zone c = some s') : s'.Timed := by
  rcases step_cases zone h.autoUpdate c with ⟨hlt, heq⟩ | ⟨hle, heq⟩ <;>
    obtain rfl := Option.some.inj (heq.symm.trans hs)
  · refine ⟨h.autoUpdate, fun a ha => ?_, h.written, h.notWritten⟩
    have := h.le_now a ha
    show a ≤ s.now + c.delay + c.reading
    omega
  · refine ⟨?_, ?_, ?_, ?_⟩
    · rw [Module.update_cls]
      exact h.autoUpdate
    · rintro a ha
      obtain rfl := Option.some.inj ha
      show s.now + c.delay ≤ s.now + c.delay + c.reading
      omega
    · rintro a ha hkept
      obtain rfl := Option.some.inj ha
      replace hkept : s.module.keepsLastUpdate zone (s.now + c.delay + c.reading) = false := hkept
      rw [Module.update_lastUpdate, hkept, if_neg Bool.false_ne_true]
      omega
    · rintro a ha hkept
      obtain rfl := Option.some.inj ha
      replace hkept : s.module.keepsLastUpdate zone (s.now + c.delay + c.reading) = true := hkept
      rw [Module.update_lastUpdate, hkept, if_pos rfl, Module.update_secondsPerUpdate]
      exact hle

/-- **One call** keeps the updates apart exactly under `Apart`. -/
theorem step_iff (hspaced : s.Spaced) (h : s.Timed) :
    s.Apart c ↔ ∃ s', s.step zone c = some s' ∧ s'.Spaced := by
  rcases step_cases zone h.autoUpdate c with ⟨hlt, heq⟩ | ⟨hle, heq⟩
  · -- not due: an update that wrote nothing would be due
    refine iff_of_true (fun hkept a ha => ?_) ⟨_, heq, hspaced⟩
    have hdue := h.notWritten a ha hkept
    have hnow := h.le_now a ha
    omega
  · rw [heq]
    refine ⟨fun hapart => ⟨_, rfl, ?_⟩, ?_⟩
    · intro a b ha hb
      obtain rfl := Option.some.inj hb
      rw [Module.update_secondsPerUpdate]
      cases hkept : s.kept with
      | true => exact hapart hkept a ha
      | false =>
        have hwritten := h.written a ha hkept
        omega
    · rintro ⟨s', hs, hspaced'⟩ - a ha
      obtain rfl := Option.some.inj hs
      simpa using hspaced' a (s.now + c.delay) ha rfl

/-- **Exactly when updates are a period apart**: in every run of calls, from any module that does
not update by itself, if and only if no call follows too soon on an update that has left
`lastUpdate` as it was. After an update that has written it, `shouldUpdate` itself keeps the next
one away; after any other one, only the caller can. -/
theorem spaced_iff (zone : Zone) (m : Module) (now : Int) (calls : List Call)
    (hm : m.cls.autoUpdate = false) :
    Always (step zone) Spaced (start m now) calls ↔
      AllSteps (step zone) Apart (start m now) calls := by
  have hstart : (start m now).Spaced := nofun
  have htimed : (start m now).Timed := ⟨hm, nofun, nofun, nofun⟩
  rw [always_iff_allSteps (fun s c s' h hs => h.step hs) (fun s c h₁ h₂ => step_iff h₁ h₂) htimed]
  exact and_iff_right hstart

/-- A battery that is looked at five seconds after its update. -/
theorem spaced_battery :
    Always (step .utc) Spaced (start (.new .battery) 100) [⟨0, 1⟩, ⟨1, 0⟩, ⟨4, 0⟩] := by
  refine (spaced_iff .utc (.new .battery) 100 [⟨0, 1⟩, ⟨1, 0⟩, ⟨4, 0⟩] rfl).mpr ?_
  refine ⟨nofun, ?_⟩
  rintro s hs
  obtain rfl := Option.some.inj hs
  refine ⟨nofun, ?_⟩
  rintro s hs
  obtain rfl := Option.some.inj hs
  exact ⟨nofun, fun _ _ => trivial⟩

/-- `AudioModule` updates at every call, since its `update` writes another `lastUpdate`.
`DateTimeModule` does so while the clock shows what it showed an hour ago. -/
theorem shadowed_lastUpdate_stays :
    (∃ s, runOn (step .utc) (start (.new .audio) 100) [⟨0, 0⟩, ⟨1, 0⟩] = some s ∧
      s.module.cls.autoUpdate = false ∧ s.module.secondsPerUpdate = 5 ∧
      s.prevTrue = some 100 ∧ s.lastTrue = some 101) ∧
    ¬ Always (step .utc) Spaced (start (.new .audio) 100) [⟨0, 0⟩, ⟨1, 0⟩] ∧
    ¬ Always (step .putBack) Spaced (start (.new .datetime) 3600) [⟨0, 0⟩, ⟨3600, 0⟩, ⟨0, 0⟩] := by
  refine ⟨⟨_, rfl, rfl, rfl, rfl, rfl⟩, fun h => ?_, fun h => ?_⟩
  · have hspaced := h.runOn rfl
    exact absurd (hspaced 100 101 rfl rfl) (by decide)
  · have hspaced := h.runOn rfl
    exact absurd (hspaced 7200 7200 rfl rfl) (by decide)

end Schedule

end Photonbar
