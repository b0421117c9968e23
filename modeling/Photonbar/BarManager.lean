import Photonbar.Schedule

/-!
# The loop of a bar (`main.cpp`)

`BarManager::run` waits in `select` for X, for i3 or for a timeout of about a second. Modules are
looked at (`checkAndUpdate`) after a timeout or a change of the workspaces only; other wake-ups may
run handlers, and set the timeout back. The times are those of `time(nullptr)`, and updates take
none.

`Fresh` says that no data is stale: a module that has been updated was so within its period and two
seconds more. Events of X that keep coming break it, as the comment on the timeout does not say.
`fresh_of_inTime` has it for all runs in which the modules are looked at often enough. The
invariant is `Kept`, for one module: it was not due when it was looked at last, and the date that
is shown is the one of its last update. One lemma for each thing that can happen to a module (an
update, a handler, a second that passes) carries it through an iteration, and `Inv` through a run.
In the other direction, a clock that was set is stale as soon as a wake-up is late
(`inTime_of_fresh`).
-/

namespace Photonbar

/-- A handler that an event of X runs: of which module, by its place in `modules`, and whether
it calls `update`. That of `DateTimeModule` always does. -/
structure HandlerCall where
  module : Nat
  updates : Bool

/-- A wake-up of `select`. -/
structure Wake where
  /-- how long after the one before it comes -/
  delay : Nat
  delay_le : delay ≤ 2
  /-- i3 is ready, and what `handleI3Events` says -/
  i3 : Option Bool
  /-- X is ready, and which handlers run -/
  x : Option (List HandlerCall)

namespace Module

/-- A handler of a module, as far as scheduling goes. -/
def handle (zone : Zone) (m : Module) (updates : Bool) (time : Int) : Module :=
  match m.cls with
  | .datetime =>
    let m := { m with showHour := !m.showHour }
    let m := { m with secondsPerUpdate := if m.showHour then 1 else 60 }
    m.update zone time
  -- no handlers, or none that calls `update`
  | .battery | .resources | .workspace | .audio | .notifications => m
  | .weather | .timer | .stopwatch | .space | .ping => if updates then m.update zone time else m

end Module

/-- `BarManager`. -/
structure BarManager where
  modules : List Module
  any_updated : Bool := false

namespace BarManager

variable (zone : Zone)

/-- There is a `WorkspaceModule`. -/
def workspace (b : BarManager) : Bool := b.modules.any (·.cls = .workspace)

/-- `updateModules` at `now`. -/
def updateModules (b : BarManager) (now : Int) : BarManager :=
  let results := b.modules.map fun m => m.checkAndUpdate zone now now
  { modules := results.map (·.1), any_updated := results.any (·.2) }

/-- `workspace->update()`; a bar has one at most. -/
def updateWorkspace (b : BarManager) (now : Int) : BarManager :=
  { b with modules := b.modules.map fun m => if m.cls = .workspace then m.update zone now else m }

/-- A handler runs. -/
def handle (b : BarManager) (now : Int) (call : HandlerCall) : BarManager :=
  { b with
    modules := b.modules.mapIdx fun i m =>
      if i = call.module then m.handle zone call.updates now else m }

/-- `should_update`, for a wake-up. -/
def should_update (b : BarManager) (w : Wake) : Bool :=
  let i3 := if b.workspace then w.i3 else none
  let workspace_changed := i3.getD false
  let ret := i3.isSome.toNat + w.x.isSome.toNat
  workspace_changed || ret == 0

/-- An iteration of the loop in `run`, from the wake-up on. -/
def iteration (b : BarManager) (w : Wake) (now : Int) : BarManager :=
  let workspace_changed := b.workspace && w.i3.getD false
  let should_update := b.should_update w
  let b := (w.x.getD []).foldl (fun b call => b.handle zone now call) b
  let b := if workspace_changed then b.updateWorkspace zone now else b
  if should_update then b.updateModules zone now else b

end BarManager

/-! ## Runs of the loop -/

/-- A bar in its loop. -/
structure BarLoop where
  bar : BarManager
  now : Int
  /-- when the modules were looked at last, or the loop began -/
  checked : Int

namespace BarLoop

variable (zone : Zone)

/-- The loop begins. -/
def start (classes : List ModuleClass) (now : Int) : BarLoop :=
  ⟨⟨classes.map .new, false⟩, now, now⟩

/-- One iteration. -/
def step (s : BarLoop) (w : Wake) : Option BarLoop :=
  let now := s.now + w.delay
  some {
    bar := s.bar.iteration zone w now
    now
    checked := if s.bar.should_update w then now else s.checked }

/-- The modules that are spoken of. -/
def Spoken (cls : ModuleClass) : Prop := cls = .datetime ∨ cls = .battery ∨ cls = .resources

/-- No data is stale: each module that was updated was so within its period and two seconds. -/
def Fresh (s : BarLoop) : Prop :=
  ∀ m ∈ s.bar.modules, Spoken m.cls → 0 < m.updates →
    s.now - m.lastUpdate ≤ m.secondsPerUpdate + 2

/-- When the wake-ups come. -/
def times : Int → List Wake → List Int
  | _, [] => []
  | now, w :: wakes => (now + w.delay) :: times (now + w.delay) wakes

/-- A wake-up that does not look at the modules comes within three seconds of the last that
did. -/
def InTime (s : BarLoop) (w : Wake) : Prop :=
  s.bar.should_update w = false → s.now + w.delay ≤ s.checked + 3

end BarLoop

/-! ## One module -/

namespace Module

/-- What is known of a module at `now`, if it was looked at last at `checked`: it was not due any
more then, and the date that it shows is that of its last update. Updates come at some of `times`. -/
structure Kept (zone : Zone) (times : Int → Prop) (m : Module) (now checked : Int) : Prop where
  period : 1 ≤ m.secondsPerUpdate ∧ m.secondsPerUpdate ≤ 60
  past : 0 < m.updates → times m.lastUpdate ∧ m.lastUpdate ≤ now
  shown : ∀ tm, m.last = some tm →
    m.cls = .datetime ∧ 0 < m.updates ∧ tm = zone.localtime_r m.lastUpdate
  checked : 0 < m.updates → checked < m.lastUpdate + m.secondsPerUpdate

variable {zone : Zone} {times : Int → Prop} {m : Module} {now checked t : Int}

/-- The date that is shown is one of the last ten minutes. -/
def Recent (zone : Zone) (times : Int → Prop) (m : Module) (t : Int) : Prop :=
  ∀ tm, m.last = some tm →
    m.cls = .datetime ∧ tm = zone.localtime_r m.lastUpdate ∧ times m.lastUpdate ∧
      m.lastUpdate ≤ t ∧ t ≤ m.lastUpdate + 600

theorem Kept.recent (h : Kept zone times m now checked) (hnow : now ≤ t) (ht : t ≤ checked + 5) :
    Recent zone times m t := by
  intro tm htm
  obtain ⟨hcls, hupdates, heq⟩ := h.shown tm htm
  obtain ⟨htimes, hpast⟩ := h.past hupdates
  have hchecked := h.checked hupdates
  have hperiod := h.period.2
  exact ⟨hcls, heq, htimes, by omega, by omega⟩

/-- **An update**, if the date shown is recent: the clock does not show it again. -/
theorem update_spoken (hzone : zone.Distinct times) (htimes : times t)
    (hm : BarLoop.Spoken m.cls) (h : Recent zone times m t) :
    (m.update zone t).lastUpdate = t ∧ 0 < (m.update zone t).updates ∧
      ∀ tm, (m.update zone t).last = some tm → m.cls = .datetime ∧ tm = zone.localtime_r t := by
  rcases hm with hcls | hcls | hcls
  · simp only [update, hcls]
    split
    · next hsame =>
      obtain ⟨-, heq, hlast, hle, hrecent⟩ := h _ hsame
      have hlast : m.lastUpdate = t := by
        by_contra hne
        exact hzone m.lastUpdate t hlast htimes (by omega) hrecent heq
      exact ⟨hlast, Nat.succ_pos _, fun tm htm => ⟨trivial, Option.some.inj (htm.symm.trans hsame)⟩⟩
    · exact ⟨rfl, Nat.succ_pos _, fun tm htm => ⟨trivial, (Option.some.inj htm).symm⟩⟩
  · simp only [update, hcls]
    refine ⟨trivial, Nat.succ_pos _, fun tm htm => ?_⟩
    have hdate := (h tm htm).1
    rw [hcls] at hdate
    cases hdate
  · simp only [update, hcls]
    refine ⟨trivial, Nat.succ_pos _, fun tm htm => ?_⟩
    have hdate := (h tm htm).1
    rw [hcls] at hdate
    cases hdate

/-- After an update. -/
theorem kept_update (hzone : zone.Distinct times) (htimes : times t) (hm : BarLoop.Spoken m.cls)
    (hperiod : 1 ≤ m.secondsPerUpdate ∧ m.secondsPerUpdate ≤ 60) (h : Recent zone times m t)
    (hchecked : checked ≤ t) : Kept zone times (m.update zone t) t checked := by
  obtain ⟨hlast, hupdates, hshown⟩ := update_spoken hzone htimes hm h
  refine ⟨by rwa [update_secondsPerUpdate], fun _ => ⟨by rwa [hlast], Int.le_of_eq hlast⟩,
    fun tm htm => ?_, fun _ => ?_⟩
  · rw [update_cls, hlast]
    exact ⟨(hshown tm htm).1, hupdates, (hshown tm htm).2⟩
  · rw [hlast, update_secondsPerUpdate]
    omega

theorem Kept.wait (h : Kept zone times m now checked) (hnow : now ≤ t) :
    Kept zone times m t checked :=
  { h with past := fun hupdates => ⟨(h.past hupdates).1, Int.le_trans (h.past hupdates).2 hnow⟩ }

/-- A handler. -/
theorem Kept.handle (hzone : zone.Distinct times) (htimes : times t)
    (h : Kept zone times m t checked) (hm : BarLoop.Spoken m.cls) (hchecked : checked ≤ t)
    (ht : t ≤ checked + 5) (updates : Bool) :
    Kept zone times (m.handle zone updates t) t checked := by
  have hrecent := h.recent (Int.le_refl t) ht
  rcases hm with hcls | hcls | hcls
  · simp only [Module.handle, hcls]
    refine kept_update hzone htimes (.inl rfl) ?_ (fun tm htm => ?_) hchecked
    · show 1 ≤ (if _ then (1 : Int) else 60) ∧ (if _ then (1 : Int) else 60) ≤ 60
      split <;> decide
    · obtain ⟨-, hdate⟩ := hrecent tm htm
      exact ⟨rfl, hdate⟩
  · simp only [Module.handle, hcls]
    exact h
  · simp only [Module.handle, hcls]
    exact h

@[simp] theorem handle_cls (updates : Bool) : (m.handle zone updates t).cls = m.cls := by
  cases h : m.cls <;> simp only [Module.handle, h]
  all_goals first | exact update_cls .. | (split <;> simp [h])

@[simp] theorem checkAndUpdate_cls : (m.checkAndUpdate zone t t).1.cls = m.cls := by
  rw [Module.checkAndUpdate]
  split
  · exact update_cls ..
  · rfl

/-- A look at the module. -/
theorem Kept.checkAndUpdate (hzone : zone.Distinct times) (htimes : times t)
    (h : Kept zone times m t checked) (hm : BarLoop.Spoken m.cls)
    (ht : t ≤ checked + 5) : Kept zone times (m.checkAndUpdate zone t t).1 t t := by
  have hauto : m.cls.autoUpdate = false := by
    rcases hm with hcls | hcls | hcls <;> rw [hcls] <;> rfl
  rw [Module.checkAndUpdate]
  split
  · exact kept_update hzone htimes hm h.period (h.recent (Int.le_refl t) ht) (Int.le_refl t)
  · next hdue =>
    rw [shouldUpdate_iff hauto] at hdue
    exact { h with checked := fun _ => Int.not_le.mp hdue }

end Module

/-! ## A bar -/

namespace BarLoop

variable {zone : Zone} {times : Int → Prop} {b : BarManager} {now checked t : Int}

/-- All modules that are spoken of are kept. -/
def AllKept (zone : Zone) (times : Int → Prop) (b : BarManager) (now checked : Int) : Prop :=
  ∀ m ∈ b.modules, Spoken m.cls → m.Kept zone times now checked

theorem AllKept.handle (hzone : zone.Distinct times) (htimes : times t)
    (h : AllKept zone times b t checked) (hchecked : checked ≤ t) (ht : t ≤ checked + 5)
    (call : HandlerCall) : AllKept zone times (b.handle zone t call) t checked := by
  intro m hm hspoken
  obtain ⟨i, hi, rfl⟩ := List.mem_mapIdx.mp hm
  by_cases hcall : i = call.module
  · rw [if_pos hcall] at hspoken ⊢
    rw [Module.handle_cls] at hspoken
    exact (h _ (List.getElem_mem hi) hspoken).handle hzone htimes hspoken hchecked ht call.updates
  · rw [if_neg hcall] at hspoken ⊢
    exact h _ (List.getElem_mem hi) hspoken

theorem AllKept.handles (hzone : zone.Distinct times) (htimes : times t) (calls : List HandlerCall)
    (hchecked : checked ≤ t) (ht : t ≤ checked + 5) :
    ∀ {b : BarManager}, AllKept zone times b t checked →
      AllKept zone times (calls.foldl (fun b call => b.handle zone t call) b) t checked := by
  induction calls with
  | nil => exact id
  | cons call calls ih => exact fun h => ih (h.handle hzone htimes hchecked ht call)

theorem AllKept.updateWorkspace (h : AllKept zone times b t checked) :
    AllKept zone times (b.updateWorkspace zone t) t checked := by
  intro m hm hspoken
  obtain ⟨m₀, hm₀, rfl⟩ := List.mem_map.mp hm
  by_cases hcls : m₀.cls = .workspace
  · rw [if_pos hcls, Module.update_cls, hcls] at hspoken
    rcases hspoken with hcls | hcls | hcls <;> cases hcls
  · rw [if_neg hcls] at hspoken ⊢
    exact h m₀ hm₀ hspoken

theorem AllKept.updateModules (hzone : zone.Distinct times) (htimes : times t)
    (h : AllKept zone times b t checked) (ht : t ≤ checked + 5) :
    AllKept zone times (b.updateModules zone t) t t := by
  intro m hm hspoken
  obtain ⟨p, hp, rfl⟩ := List.mem_map.mp hm
  obtain ⟨m₀, hm₀, rfl⟩ := List.mem_map.mp hp
  rw [Module.checkAndUpdate_cls] at hspoken
  exact (h m₀ hm₀ hspoken).checkAndUpdate hzone htimes hspoken ht

/-- **An iteration**: all modules are kept, and looked at if it comes to that. -/
theorem AllKept.iteration (hzone : zone.Distinct times) (htimes : times t)
    (h : AllKept zone times b t checked) (hchecked : checked ≤ t) (ht : t ≤ checked + 5) (w : Wake) :
    AllKept zone times (b.iteration zone w t) t (if b.should_update w then t else checked) := by
  have hhandled := h.handles hzone htimes (w.x.getD []) hchecked ht
  have hworkspace : AllKept zone times
      (if b.workspace && w.i3.getD false then
        ((w.x.getD []).foldl (fun b call => b.handle zone t call) b).updateWorkspace zone t
      else (w.x.getD []).foldl (fun b call => b.handle zone t call) b) t checked := by
    split
    · exact hhandled.updateWorkspace
    · exact hhandled
  rw [BarManager.iteration]
  cases b.should_update w with
  | true => exact hworkspace.updateModules hzone htimes ht
  | false => exact hworkspace

variable {s : BarLoop} {w : Wake}

/-- The invariant of a run. -/
structure Inv (zone : Zone) (times : Int → Prop) (s : BarLoop) : Prop where
  past : s.checked ≤ s.now
  recent : s.now ≤ s.checked + 3
  kept : AllKept zone times s.bar s.now s.checked

theorem Inv.step (hzone : zone.Distinct times) (h : Inv zone times s)
    (hw : s.InTime w ∧ times (s.now + w.delay)) :
    ∃ s', s.step zone w = some s' ∧ Inv zone times s' := by
  have hpast := h.past
  have hrecent := h.recent
  have hdelay := w.delay_le
  have hwait : AllKept zone times s.bar (s.now + w.delay) s.checked :=
    fun m hm hspoken => (h.kept m hm hspoken).wait (by omega)
  refine ⟨_, rfl, ?_, ?_, hwait.iteration hzone hw.2 (by omega) (by omega) w⟩
  · show (if s.bar.should_update w then s.now + w.delay else s.checked) ≤ s.now + w.delay
    split <;> omega
  · show s.now + w.delay ≤ (if s.bar.should_update w then s.now + w.delay else s.checked) + 3
    split
    · omega
    · next hshould => exact hw.1 (Bool.not_eq_true _ ▸ hshould)

theorem Inv.fresh (h : Inv zone times s) : s.Fresh := by
  intro m hm hspoken hupdates
  have hchecked := (h.kept m hm hspoken).checked hupdates
  have hrecent := h.recent
  omega

/-- The wake-ups of a run come at the times of the run. -/
theorem allSteps_times (wakes : List Wake) : ∀ {s : BarLoop}, (∀ t ∈ BarLoop.times s.now wakes, times t) →
    AllSteps (step zone) InTime s wakes →
      AllSteps (step zone) (fun s w => s.InTime w ∧ times (s.now + w.delay)) s wakes := by
  induction wakes with
  | nil => exact fun _ _ => trivial
  | cons w wakes ih =>
    rintro s htimes ⟨hw, hrest⟩
    obtain ⟨hnow, hlater⟩ := List.forall_mem_cons.mp htimes
    refine ⟨⟨hw, hnow⟩, fun s' hs => ?_⟩
    obtain rfl := Option.some.inj hs
    exact ih hlater (hrest _ rfl)

/-- **No data is stale** in any run of the loop of any bar, if every wake-up that does not look at the
modules comes within three seconds of one that does. A module that is looked at is either not due, and
will not be for a while, or has just been updated; so its age is bounded by its period and by how long
ago the last look was. Only the clock can refuse an update, when the time it would show is the one it
shows; hence what is asked of the zone, for the times of the run alone. -/
theorem fresh_of_inTime (zone : Zone) (classes : List ModuleClass) (now : Int) (wakes : List Wake)
    (hzone : zone.Distinct (· ∈ BarLoop.times now wakes))
    (h : AllSteps (step zone) InTime (start classes now) wakes) :
    Always (step zone) Fresh (start classes now) wakes := by
  have hstart : Inv zone (· ∈ BarLoop.times now wakes) (start classes now) := by
    refine ⟨Int.le_refl now, by show now ≤ now + 3; omega, fun m hm hspoken => ?_⟩
    obtain ⟨cls, -, rfl⟩ := List.mem_map.mp hm
    refine ⟨?_, fun hupdates => (Nat.lt_irrefl 0 hupdates).elim, fun _ htm => (nomatch htm),
      fun hupdates => (Nat.lt_irrefl 0 hupdates).elim⟩
    rcases hspoken with hcls | hcls | hcls <;>
    · obtain rfl : cls = _ := hcls
      decide
  refine Always.imp (fun _ hs => hs.fresh)
    (Always.of_allSteps (fun _ _ hs hw => hs.step hzone hw) hstart (allSteps_times wakes ?_ h))
  exact fun _ ht => ht

/-- A timeout, and two seconds later an event of X. -/
theorem fresh_timeout :
    Always (step .utc) Fresh (start [.workspace, .datetime] 100)
      [⟨1, by decide, none, none⟩, ⟨2, by decide, none, some []⟩] := by
  refine fresh_of_inTime .utc [.workspace, .datetime] 100 _ (Zone.utc_distinct _) ⟨?_, ?_⟩
  · intro hlook
    cases hlook
  · rintro s hs
    obtain rfl := Option.some.inj hs
    exact ⟨fun _ => by decide, fun _ _ => trivial⟩

/-- An event of X, one second after the wake-up before. -/
def xEvent : Wake := ⟨1, by decide, none, some []⟩

/-- A timeout, and then an event of X every second: after the fourth the clock of the bar is late
by four seconds. -/
theorem events_starve_updates :
    (∃ s, runOn (step .utc) (start [.workspace, .battery, .datetime] 100)
      [⟨1, by decide, none, none⟩, xEvent, xEvent, xEvent, xEvent] = some s ∧ s.now = 105 ∧
        ∃ m ∈ s.bar.modules, m.cls = .datetime ∧ m.updates = 1 ∧ m.lastUpdate = 101 ∧
          m.secondsPerUpdate = 1) ∧
    ¬ Always (step .utc) Fresh (start [.workspace, .battery, .datetime] 100)
      [⟨1, by decide, none, none⟩, xEvent, xEvent, xEvent, xEvent] := by
  have hclock {ms : List Module} {m m₁ m₂ : Module} : m ∈ m₁ :: m₂ :: m :: ms :=
    List.mem_cons_of_mem _ (List.mem_cons_of_mem _ List.mem_cons_self)
  refine ⟨⟨_, rfl, rfl, _, hclock, rfl, rfl, rfl, rfl⟩, fun h => ?_⟩
  exact absurd (h.runOn rfl _ hclock (.inl rfl) (by decide)) (by decide)

/-! ## A clock that is late -/

/-- A clock was updated when the modules were looked at last, at one of `times`. -/
def ClockSet (zone : Zone) (times : Int → Prop) (s : BarLoop) : Prop :=
  times s.checked ∧ s.checked ≤ s.now ∧ ∃ m ∈ s.bar.modules, m.cls = .datetime ∧ m.secondsPerUpdate = 1 ∧
    0 < m.updates ∧ m.lastUpdate = s.checked ∧
      ∀ tm, m.last = some tm → tm = zone.localtime_r m.lastUpdate

/-- Where no handler runs, a look is all that happens to a module. -/
theorem mem_iteration (zone : Zone) (t : Int) {m : Module} (hm : m ∈ b.modules) (hcls : m.cls ≠ .workspace)
    (hx : w.x.getD [] = []) :
    (if b.should_update w then (m.checkAndUpdate zone t t).1 else m) ∈
      (b.iteration zone w t).modules := by
  have hworkspace : m ∈ (if b.workspace && w.i3.getD false then b.updateWorkspace zone t
      else b).modules := by
    split
    · exact List.mem_map.mpr ⟨m, hm, if_neg hcls⟩
    · exact hm
  rw [BarManager.iteration, hx, List.foldl_nil]
  cases b.should_update w with
  | true => exact List.mem_map_of_mem (List.mem_map_of_mem hworkspace)
  | false => exact hworkspace

theorem ClockSet.step (hzone : zone.Distinct times) (htimes : times (s.now + w.delay))
    (h : ClockSet zone times s) (hfresh : s.Fresh) (hx : w.x.getD [] = []) :
    ∃ s', s.step zone w = some s' ∧ ClockSet zone times s' := by
  obtain ⟨hchecked, hpast, m, hm, hcls, hperiod, hupdates, hlast, hshown⟩ := h
  have hmem := mem_iteration zone (s.now + w.delay) hm (by rw [hcls]; decide) hx
  have hlate := hfresh m hm (.inl hcls) hupdates
  have hdelay := w.delay_le
  refine ⟨_, rfl, ?_⟩
  cases hlook : s.bar.should_update w with
  | false =>
    rw [hlook, if_neg Bool.false_ne_true] at hmem
    refine ⟨hchecked, ?_, m, hmem, hcls, hperiod, hupdates, hlast, hshown⟩
    show s.checked ≤ s.now + w.delay
    omega
  | true =>
    rw [hlook, if_pos rfl] at hmem
    have hrecent : Module.Recent zone times m (s.now + w.delay) :=
      fun tm htm => ⟨hcls, hshown tm htm, hlast ▸ hchecked, by omega, by omega⟩
    refine ⟨htimes, Int.le_refl _, _, hmem, ?_, ?_⟩
    · rw [Module.checkAndUpdate_cls, hcls]
    · rw [Module.checkAndUpdate]
      split
      · obtain ⟨hnow, hagain, hdate⟩ := Module.update_spoken hzone htimes (.inl hcls) hrecent
        refine ⟨by rw [Module.update_secondsPerUpdate, hperiod], hagain, hnow, fun tm htm => ?_⟩
        rw [hnow]
        exact (hdate tm htm).2
      · next hdue =>
        -- no second has passed since the last update
        have hauto : m.cls.autoUpdate = false := by rw [hcls]; rfl
        rw [Module.shouldUpdate_iff hauto] at hdue
        refine ⟨hperiod, hupdates, ?_, hshown⟩
        show m.lastUpdate = s.now + w.delay
        omega

/-- **The condition is tight**: once a clock was set, and while no handler runs, nothing is stale
only if every wake-up is in time. The clock has a period of one second, and is updated in no other
way than by a look at the modules; a wake-up that is more than three seconds late therefore finds
it older than it may be. -/
theorem inTime_of_fresh (hzone : zone.Distinct times) (wakes : List Wake)
    (hx : ∀ w ∈ wakes, w.x.getD [] = []) :
    ∀ {s : BarLoop}, (∀ t ∈ BarLoop.times s.now wakes, times t) → ClockSet zone times s →
      Always (step zone) Fresh s wakes → AllSteps (step zone) InTime s wakes := by
  induction wakes with
  | nil => exact fun _ _ _ => trivial
  | cons w wakes ih =>
    obtain ⟨hxw, hxs⟩ := List.forall_mem_cons.mp hx
    rintro s htimes hset ⟨hfresh, s', hs, hrest⟩
    obtain ⟨hnow, hlater⟩ := List.forall_mem_cons.mp htimes
    obtain ⟨s'', hs'', hset'⟩ := hset.step hzone hnow hfresh hxw
    obtain rfl := Option.some.inj (hs.symm.trans hs'')
    refine ⟨fun hlook => ?_, fun s'' hs'' => ?_⟩
    · obtain ⟨-, -, m, hm, hcls, hperiod, hupdates, hlast, -⟩ := hset'
      have hlate := hrest.head m hm (.inl hcls) hupdates
      obtain rfl := Option.some.inj hs
      rw [hperiod, hlast] at hlate
      replace hlate : s.now + w.delay - (if s.bar.should_update w then s.now + w.delay
        else s.checked) ≤ 1 + 2 := hlate
      rw [hlook, if_neg Bool.false_ne_true] at hlate
      omega
    · obtain rfl := Option.some.inj (hs.symm.trans hs'')
      refine ih hxs ?_ hset' hrest
      obtain rfl := Option.some.inj hs
      exact hlater

/-- An event of X two seconds after the clock was set, and a timeout. -/
theorem inTime_of_fresh_event :
    let clock : Module := { Module.new .datetime with
      lastUpdate := 100, last := some (timeOfDay 100), updates := 1 }
    let s : BarLoop := ⟨⟨[clock], false⟩, 100, 100⟩
    let wakes : List Wake := [⟨2, by decide, none, some []⟩, ⟨1, by decide, none, none⟩]
    Always (step .utc) Fresh s wakes ∧ AllSteps (step .utc) InTime s wakes := by
  intro clock s wakes
  have hfresh : Always (step .utc) Fresh s wakes := by
    refine ⟨?_, _, rfl, ?_, _, rfl, ?_⟩ <;>
    · refine List.forall_mem_singleton.mpr fun _ _ => ?_
      decide
  have hzone : Zone.utc.Distinct fun _ => True := Zone.utc_distinct _
  have hset : ClockSet .utc (fun _ => True) s :=
    ⟨trivial, Int.le_refl _, clock, List.mem_cons_self, rfl, rfl, Nat.one_pos, rfl,
      fun _ htm => (Option.some.inj htm).symm⟩
  exact ⟨hfresh, inTime_of_fresh hzone wakes (by simp [wakes]) (fun _ _ => trivial) hset hfresh⟩

end BarLoop

end Photonbar
