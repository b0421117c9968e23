import Photonbar.DateTime
import Photonbar.Dirty
import Photonbar.Indicators
import Photonbar.Ping
import Photonbar.Stopwatch
import Photonbar.WeatherRequests
import Photonbar.WorkspaceRuns

/-!
# The modules together

`AnyModule` is a module of any class, and `AnyModule.step` one operation on it. The bar is given
the elements without their handlers, which no pass of it reads, and gives them back with what it
has left of them (`HasElements`), so that it needs to know of no class.

`step_marked` says what an operation does to the contents: it writes all of them and sets every
`dirtyContent`, or it leaves the elements as they are. This is a lemma for each class, by the way
its updates print. Most of them print all of their elements, always or not at all; the workspaces
print some, or replace all of their elements by new ones (`rebuilds`), of which nothing has been
parsed yet. What follows from it for the bar is in `Panel`.
-/

namespace Photonbar

variable {H : Type} {json : JsonC}

namespace BarElement

/-- The element as the bar is given it. -/
def shown (e : BarElement H) : BarElement Unit := { e with events := fun _ => none }

/-- The element, after a pass of the bar has left `s` of it. -/
def passed (e : BarElement H) (s : BarElement Unit) : BarElement H := { s with events := e.events }

end BarElement

/-- A content with its `dirtyContent`. -/
def contentFlag (H : Type) : Flagged (BarElement H) (Buffer CONTENT_MAX_LEN) where
  value e := e.content
  dirty e := e.dirtyContent

/-- A class of modules, by the elements that `getElements` points to. -/
class HasElements (M : Type) (H : outParam Type) where
  getElements : M → List (BarElement H)
  setElements : M → List (BarElement H) → M
  getElements_setElements : ∀ (m : M) {es : List (BarElement H)},
    es.length = (getElements m).length → getElements (setElements m es) = es

namespace HasElements

variable {M : Type} [HasElements M H]

/-- The elements as the bar is given them. -/
def shown (m : M) : List (BarElement Unit) := (getElements m).map BarElement.shown

/-- The module, after a pass of the bar has left `es` of its elements. -/
def passed (m : M) (es : List (BarElement Unit)) : M :=
  setElements m (List.zipWith BarElement.passed (getElements m) es)

theorem shown_passed (m : M) {es : List (BarElement Unit)} (h : es.length = (shown m).length) :
    shown (passed m es) = es.map BarElement.shown := by
  have hlen : es.length = (getElements m).length := by rw [h, shown, List.length_map]
  have hzip : ∀ (es₀ : List (BarElement H)) (es : List (BarElement Unit)),
      es.length = es₀.length →
      (List.zipWith BarElement.passed es₀ es).map BarElement.shown = es.map BarElement.shown := by
    intro es₀
    induction es₀ with
    | nil =>
      intro es hnil
      rw [List.length_eq_zero_iff.mp hnil]
      rfl
    | cons e₀ es₀ ih =>
      rintro (_ | ⟨e, es⟩) hcons
      · cases hcons
      · rw [List.zipWith_cons_cons, List.map_cons, List.map_cons, ih es (Nat.succ.inj hcons)]
        rfl
  rw [shown, passed, getElements_setElements m (by simp [hlen]), hzip _ _ hlen]

end HasElements

/-! ## The classes -/

instance : HasElements WorkspaceModule WorkspaceHandler where
  getElements m := m.elements
  setElements _ es := ⟨es⟩
  getElements_setElements _ _ _ := rfl

instance : HasElements AudioModule AudioHandler where
  getElements m := [m.baseElement]
  setElements m
    | [baseElement] => { m with baseElement }
    | _ => m
  getElements_setElements m es h := by
    obtain ⟨_, rfl⟩ := List.length_eq_one_iff.mp h
    rfl

instance : HasElements BatteryModule Empty where
  getElements := BatteryModule.getElements
  setElements m
    | [iconElement, textElement] => { m with iconElement, textElement }
    | _ => m
  getElements_setElements m es h := by
    obtain ⟨_, _, rfl⟩ := List.length_eq_two.mp h
    rfl

instance : HasElements NotificationsModule NotificationsHandler where
  getElements := NotificationsModule.getElements
  setElements m
    | [element] => { m with element }
    | _ => m
  getElements_setElements m es h := by
    obtain ⟨_, rfl⟩ := List.length_eq_one_iff.mp h
    rfl

instance : HasElements (WeatherState json) WeatherHandler where
  getElements m := [m.baseElement]
  setElements m
    | [baseElement] => { m with baseElement }
    | _ => m
  getElements_setElements m es h := by
    obtain ⟨_, rfl⟩ := List.length_eq_one_iff.mp h
    rfl

instance : HasElements DateTimeModule DateTimeHandler where
  getElements := DateTimeModule.getElements
  setElements m
    | [baseElement] => { m with baseElement }
    | _ => m
  getElements_setElements m es h := by
    obtain ⟨_, rfl⟩ := List.length_eq_one_iff.mp h
    rfl

instance : HasElements TimerModule TimerHandler where
  getElements := TimerModule.getElements
  setElements m
    | [baseElement, playIconElement, hourElement, minuteElement, secondElement] =>
      { m with baseElement, playIconElement, hourElement, minuteElement, secondElement }
    | _ => m
  getElements_setElements m es h := by
    obtain _ | ⟨_, _ | ⟨_, es⟩⟩ := es
    · cases h
    · cases h
    · obtain ⟨_, _, _, rfl⟩ := List.length_eq_three.mp (Nat.succ.inj (Nat.succ.inj h))
      rfl

instance : HasElements StopwatchModule StopwatchHandler where
  getElements := StopwatchModule.getElements
  setElements m
    | [baseElement, timeElement] => { m with baseElement, timeElement }
    | _ => m
  getElements_setElements m es h := by
    obtain ⟨_, _, rfl⟩ := List.length_eq_two.mp h
    rfl

instance : HasElements SpaceModule SpaceHandler where
  getElements := SpaceModule.getElements
  setElements m
    | [baseElement] => { m with baseElement }
    | _ => m
  getElements_setElements m es h := by
    obtain ⟨_, rfl⟩ := List.length_eq_one_iff.mp h
    rfl

instance : HasElements ResourcesModule Empty where
  getElements := ResourcesModule.getElements
  setElements m
    | [ramElement, cpuElement, tempElement] => { m with ramElement, cpuElement, tempElement }
    | _ => m
  getElements_setElements m es h := by
    obtain ⟨_, _, _, rfl⟩ := List.length_eq_three.mp h
    rfl

instance : HasElements PingModule PingHandler where
  getElements m := [m.baseElement]
  setElements m
    | [baseElement] => { m with baseElement }
    | _ => m
  getElements_setElements m es h := by
    obtain ⟨_, rfl⟩ := List.length_eq_one_iff.mp h
    rfl

/-! ## What an operation writes -/

/-- All contents are written and marked, or the elements stay as they are. -/
def Marked (es es' : List (BarElement H)) : Prop :=
  (∀ e ∈ es', e.dirtyContent = true) ∨ es' = es

theorem Marked.shown {es es' : List (BarElement H)} (h : Marked es es') :
    Marked (es.map BarElement.shown) (es'.map BarElement.shown) := by
  refine h.imp (fun hdirty => ?_) (fun hsame => by rw [hsame])
  exact List.forall_mem_map.mpr hdirty

/-- Elements that are written in place. -/
theorem Marked.wrote {es es' : List (BarElement H)} (h : Marked es es')
    (hlen : es.length = es'.length) : List.Forall₂ (contentFlag H).Wrote es es' := by
  rcases h with hdirty | rfl
  · refine List.forall₂_iff_get.mpr ⟨hlen, fun i _ h' => .inl ?_⟩
    exact hdirty _ (List.get_mem es' ⟨i, h'⟩)
  · exact List.forall₂_same.mpr fun e _ => .refl _ e

/-- One call. -/
def WorkspaceModule.step (m : WorkspaceModule) : WorkspaceOp → Except Fault WorkspaceModule
  | .initializeElements reply => m.initializeElements reply
  | .updateElements reply reply' => m.updateElements reply reply'

/-- One entry at `now`, with what comes of its request. -/
def WeatherState.enter (ops : DoubleOps json.Double) (m : WeatherState json) (now : Int)
    (easy_init : Bool) (o : Outcome) : Entry → WeatherState json
  | .initializeModule => (m.initializeModule o).1
  | .scheduler => (m.update ops now easy_init o).1
  | .click => (m.click ops now easy_init o).1

/-- The elements of `WorkspaceModule` are replaced by new ones. -/
def WorkspaceModule.rebuilds (m : WorkspaceModule) : WorkspaceOp → Bool
  | .initializeElements _ => true
  | .updateElements none _ => false
  | .updateElements (some workspaces) _ => workspaces.length ≠ m.elements.length

section

open HasElements

theorem printName_dirty {e e' : BarElement WorkspaceHandler} {name : CStr}
    (h : WorkspaceModule.printName e name = .ok e') : e'.dirtyContent = true := by
  obtain ⟨e₁, -, h⟩ := bind_eq_ok_iff.mp h
  obtain ⟨e₂, -, h⟩ := bind_eq_ok_iff.mp h
  obtain rfl := Except.ok.inj h
  rfl

theorem style_dirty (e : BarElement WorkspaceHandler) (focused : Bool) :
    (WorkspaceModule.style e focused).dirtyContent = e.dirtyContent := by
  cases focused <;> rfl

theorem newElement_dirty {e : BarElement WorkspaceHandler} {ws : Workspace}
    (h : WorkspaceModule.newElement ws = .ok e) : e.dirtyContent = true := by
  obtain ⟨e₁, hprint, h⟩ := bind_eq_ok_iff.mp h
  obtain rfl := Except.ok.inj h
  have hdirty := printName_dirty hprint
  rw [style_dirty]
  exact hdirty

theorem updateElement_dirty {e e' : BarElement WorkspaceHandler} {ws : Workspace}
    (h : WorkspaceModule.updateElement e ws = .ok e') : e'.dirtyContent = true := by
  obtain ⟨e₁, hprint, h⟩ := bind_eq_ok_iff.mp h
  obtain rfl := Except.ok.inj h
  rw [style_dirty]
  exact printName_dirty hprint

/-- What a loop that may fail gives comes of its passes. -/
theorem forall_mem_of_mapM {α β : Type} {f : α → Except Fault β} {P : β → Prop}
    (hf : ∀ a b, f a = .ok b → P b) {as : List α} {bs : List β} (h : as.mapM f = .ok bs) :
    ∀ b ∈ bs, P b := by
  have hpasses := mapM_eq_ok_iff.mp h
  clear h
  induction hpasses with
  | nil => nofun
  | cons hb _ ih => exact List.forall_mem_cons.mpr ⟨hf _ _ hb, ih⟩

theorem initializeElements_dirty {m m' : WorkspaceModule} {reply : Option (List Workspace)}
    (h : m.initializeElements reply = .ok m') : ∀ e ∈ m'.elements, e.dirtyContent = true := by
  cases reply with
  | none =>
    obtain rfl := Except.ok.inj h
    nofun
  | some workspaces =>
    obtain ⟨es, hes, h⟩ := bind_eq_ok_iff.mp h
    obtain rfl := Except.ok.inj h
    exact forall_mem_of_mapM (fun _ _ => newElement_dirty) hes

/-- What a call does to the elements of the workspaces. -/
theorem WorkspaceModule.step_marked {m m' : WorkspaceModule} {op : WorkspaceOp}
    (h : m.step op = .ok m') :
    (m.rebuilds op = true → ∀ e ∈ m'.elements, e.dirtyContent = true) ∧
      (m.rebuilds op = false →
        Marked m.elements m'.elements ∧ m.elements.length = m'.elements.length) := by
  obtain reply | ⟨_ | workspaces, reply'⟩ := op
  · exact ⟨fun _ => initializeElements_dirty h, nofun⟩
  · obtain rfl := Except.ok.inj h
    exact ⟨nofun, fun _ => ⟨.inr rfl, rfl⟩⟩
  · obtain ⟨updated, hupdated, h⟩ := bind_eq_ok_iff.mp h
    have hlength := length_updated hupdated
    have hwritten := forall_mem_of_mapM (fun _ _ => updateElement_dirty) hupdated
    by_cases hlen : workspaces.length = m.elements.length
    · -- in place, where no element is left over
      have hdrop : m.elements.drop workspaces.length = [] := by rw [hlen, List.drop_length]
      rw [hdrop, List.append_nil] at hlength
      rw [if_neg (by simp [hlength, hlen]), hdrop, List.append_nil] at h
      obtain rfl := Except.ok.inj h
      exact ⟨by simp [rebuilds, hlen], fun _ => ⟨.inl hwritten, hlength.symm⟩⟩
    · rw [if_pos (by simpa only [hlength] using hlen)] at h
      exact ⟨fun _ => initializeElements_dirty h, by simp [rebuilds, hlen]⟩

theorem AudioModule.step_marked (m : AudioModule) (e : AudioEvent) :
    Marked (getElements m) (getElements (m.step e).module) := by
  have hwritten (m : AudioModule) (now : Int) :
      ∀ e ∈ getElements { m.updateElement with lastUpdate := now }, e.dirtyContent = true :=
    List.forall_mem_singleton.mpr rfl
  obtain ⟨now, r⟩ | ⟨_ | _ | delta, r⟩ := e
  · show Marked _ (getElements (m.update now r).module)
    rw [update]
    split
    · exact .inr rfl
    · exact .inl (hwritten _ _)
  · exact .inl (hwritten _ _)
  · show Marked _ (getElements (m.cycleSinks r).module)
    rw [cycleSinks]
    split
    · exact .inr rfl
    · exact .inl (hwritten _ _)
  · exact .inl (hwritten _ _)

theorem BatteryModule.checkBatteryAlert_elements (m : BatteryModule) :
    m.checkBatteryAlert.1.getElements = m.getElements := by
  rw [checkBatteryAlert]
  split
  · rfl
  · split <;> rfl

theorem BatteryModule.readStatus_elements (m : BatteryModule) (r : BatteryReading) :
    (m.readStatus r).getElements = m.getElements := by
  rw [readStatus]
  split <;> rfl

theorem BatteryModule.update_marked (m : BatteryModule) (r : BatteryReading) :
    Marked m.getElements (m.update r).1.getElements := by
  have hwritten (m : BatteryModule) :
      ∀ e ∈ m.updateVisuals.checkBatteryAlert.1.getElements, e.dirtyContent = true := by
    rw [checkBatteryAlert_elements]
    exact List.forall_mem_cons.mpr ⟨rfl, List.forall_mem_singleton.mpr rfl⟩
  simp only [update]
  split
  · exact .inl (hwritten _)
  · exact .inr (readStatus_elements _ r)

theorem NotificationsModule.step_marked (m : NotificationsModule) (r : DunstReading)
    (op : NotificationsOp) : Marked (getElements m) (getElements (m.step r op)) := by
  obtain _ | _ := op <;> exact .inl (List.forall_mem_singleton.mpr rfl)

theorem WeatherState.enter_marked (ops : DoubleOps json.Double) (m : WeatherState json) (now : Int)
    (easy_init : Bool) (o : Outcome) (entry : Entry) :
    Marked (getElements m) (getElements (m.enter ops now easy_init o entry)) := by
  cases entry with
  | initializeModule => exact .inr rfl
  | scheduler => exact .inl (List.forall_mem_singleton.mpr rfl)
  | click => exact .inl (List.forall_mem_singleton.mpr rfl)

theorem DateTimeModule.update_marked (m : DateTimeModule) (now : Int) (tm : LocalTime) :
    Marked (getElements m) (getElements (m.update now tm)) := by
  rw [update]
  split
  · exact .inr rfl
  · exact .inl (List.forall_mem_singleton.mpr rfl)

theorem DateTimeModule.step_marked (m : DateTimeModule) (now : Int) (tm : LocalTime)
    (op : DateTimeOp) : Marked (getElements m) (getElements (m.step now tm op)) := by
  obtain _ | _ := op
  · have hupdate := update_marked { m with
      showHour := !m.showHour
      secondsPerUpdate := if !m.showHour then 1 else 60 } now tm
    exact hupdate
  · exact m.update_marked now tm

theorem TimerModule.update_dirty (m : TimerModule) (now : Now) :
    ∀ e ∈ getElements (m.update now).1, e.dirtyContent = true := by
  have hprint (m : TimerModule) (now : TimePoint) :
      ∀ e ∈ (m.printElements now).getElements, e.dirtyContent = true := by
    by_cases hd : m.showDetails = true <;> simp [printElements, getElements, printDirty, hd]
  exact hprint _ _

theorem TimerModule.step_marked (m : TimerModule) (now : Now) (op : TimerOp) :
    Marked (getElements m) (getElements (m.step now op).1) := by
  rcases m.step_cases now op with hret | ⟨s, hupd, -⟩
  · rw [hret]
    exact .inr rfl
  · rw [hupd]
    exact .inl (update_dirty _ now)

theorem StopwatchModule.update_dirty (m : StopwatchModule) (now : Now) :
    ∀ e ∈ getElements (m.update now), e.dirtyContent = true :=
  List.forall_mem_cons.mpr ⟨rfl, List.forall_mem_singleton.mpr rfl⟩

theorem StopwatchModule.step_marked (m : StopwatchModule) (now : Now) (op : StopwatchOp) :
    Marked (getElements m) (getElements (m.step now op)) := by
  obtain (_ | _ | _) | _ := op <;> exact .inl (update_dirty _ now)

theorem SpaceModule.step_marked (m : SpaceModule) (vfs : Option Statvfs) (now : Int)
    (op : SpaceOp) : Marked (getElements m) (getElements (m.step vfs now op)) := by
  obtain _ | _ := op <;> exact .inl (List.forall_mem_singleton.mpr rfl)

theorem ResourcesModule.update_marked (m : ResourcesModule) (r : ResourcesReading) :
    Marked (getElements m) (getElements (m.update r)) := by
  refine .inl ?_
  exact List.forall_mem_cons.mpr ⟨rfl, List.forall_mem_cons.mpr ⟨rfl, List.forall_mem_singleton.mpr rfl⟩⟩

theorem PingModule.step_marked (m : PingModule) (r : PingReading) (op : PingOp) :
    Marked (getElements m) (getElements (m.step r op)) := by
  obtain _ | _ := op <;> exact .inl (List.forall_mem_singleton.mpr rfl)

end

/-! ## A module of any class -/

/-- A module. -/
inductive AnyModule (json : JsonC) where
  | workspace (m : WorkspaceModule)
  | audio (m : AudioModule)
  | battery (m : BatteryModule)
  | notifications (m : NotificationsModule)
  | weather (m : WeatherState json)
  | datetime (m : DateTimeModule)
  | timer (m : TimerModule)
  | stopwatch (m : StopwatchModule)
  | space (m : SpaceModule)
  | resources (m : ResourcesModule)
  | ping (m : PingModule)

/-- One operation: the scheduler, a click or a scroll, or an event of i3, with what it reads. -/
inductive AnyOp where
  | workspace (op : WorkspaceOp)
  | switchToWorkspace (ws_name : CStr)
  | audio (e : AudioEvent)
  | battery (r : BatteryReading)
  | notifications (r : DunstReading) (op : NotificationsOp)
  | weather (now : Int) (easy_init : Bool) (o : Outcome) (entry : Entry)
  | datetime (now : Int) (tm : LocalTime) (op : DateTimeOp)
  | timer (now : Now) (op : TimerOp)
  | stopwatch (now : Now) (op : StopwatchOp)
  | space (vfs : Option Statvfs) (now : Int) (op : SpaceOp)
  | resources (r : ResourcesReading)
  | ping (r : PingReading) (op : PingOp)

namespace AnyModule

/-- Modules as the constructors leave them; for the workspaces, before they are asked for. -/
inductive New : AnyModule json → Prop
  | workspace : New (.workspace .new)
  | audio (currentSink : SinkInfo) : New (.audio (.new currentSink))
  | battery : New (.battery .new)
  | notifications : New (.notifications .new)
  | weather (curl_handle : Bool) : New (.weather (.new json curl_handle))
  | datetime : New (.datetime .new)
  | timer : New (.timer .new)
  | stopwatch : New (.stopwatch .new)
  | space : New (.space .new)
  | resources : New (.resources .new)
  | ping (io : NetIo) : New (.ping (.new io))

/-- The elements as the bar is given them. -/
def elements : AnyModule json → List (BarElement Unit)
  | workspace m => HasElements.shown m
  | audio m => HasElements.shown m
  | battery m => HasElements.shown m
  | notifications m => HasElements.shown m
  | weather m => HasElements.shown m
  | datetime m => HasElements.shown m
  | timer m => HasElements.shown m
  | stopwatch m => HasElements.shown m
  | space m => HasElements.shown m
  | resources m => HasElements.shown m
  | ping m => HasElements.shown m

/-- The module, after a pass of the bar has left `es` of its elements. -/
def passed : AnyModule json → List (BarElement Unit) → AnyModule json
  | workspace m, es => workspace (HasElements.passed m es)
  | audio m, es => audio (HasElements.passed m es)
  | battery m, es => battery (HasElements.passed m es)
  | notifications m, es => notifications (HasElements.passed m es)
  | weather m, es => weather (HasElements.passed m es)
  | datetime m, es => datetime (HasElements.passed m es)
  | timer m, es => timer (HasElements.passed m es)
  | stopwatch m, es => stopwatch (HasElements.passed m es)
  | space m, es => space (HasElements.passed m es)
  | resources m, es => resources (HasElements.passed m es)
  | ping m, es => ping (HasElements.passed m es)

/-- One operation; `none` if it is one of another class, or writes outside an array. -/
def step (ops : DoubleOps json.Double) : AnyModule json → AnyOp → Option (AnyModule json)
  | workspace m, .workspace op => (m.step op).toOption.map workspace
  | workspace m, .switchToWorkspace _ => some (workspace m)
  | audio m, .audio e => some (audio (m.step e).module)
  | battery m, .battery r => some (battery (m.update r).1)
  | notifications m, .notifications r op => some (notifications (m.step r op))
  | weather m, .weather now easy_init o entry => some (weather (m.enter ops now easy_init o entry))
  | datetime m, .datetime now tm op => some (datetime (m.step now tm op))
  | timer m, .timer now op => some (timer (m.step now op).1)
  | stopwatch m, .stopwatch now op => some (stopwatch (m.step now op))
  | space m, .space vfs now op => some (space (m.step vfs now op))
  | resources m, .resources r => some (resources (m.update r))
  | ping m, .ping r op => some (ping (m.step r op))
  | _, _ => none

/-- The operation replaces the elements by new ones. -/
def rebuilds : AnyModule json → AnyOp → Bool
  | workspace m, .workspace op => m.rebuilds op
  | _, _ => false

/-- The contents of a new module are those of new elements. -/
theorem New.content {m : AnyModule json} (h : m.New) :
    ∀ e ∈ m.elements, e.content = (BarElement.new : BarElement Unit).content := by
  cases h with
  | workspace => nofun
  | battery | stopwatch =>
    exact List.forall_mem_cons.mpr ⟨rfl, List.forall_mem_singleton.mpr rfl⟩
  | resources =>
    exact List.forall_mem_cons.mpr ⟨rfl, List.forall_mem_cons.mpr ⟨rfl,
      List.forall_mem_singleton.mpr rfl⟩⟩
  | timer =>
    exact List.forall_mem_cons.mpr ⟨rfl, List.forall_mem_cons.mpr ⟨rfl, List.forall_mem_cons.mpr ⟨rfl,
      List.forall_mem_cons.mpr ⟨rfl, List.forall_mem_singleton.mpr rfl⟩⟩⟩⟩
  | _ => exact List.forall_mem_singleton.mpr rfl

theorem elements_passed (m : AnyModule json) {es : List (BarElement Unit)}
    (h : es.length = m.elements.length) :
    (m.passed es).elements = es.map BarElement.shown := by
  cases m <;> exact HasElements.shown_passed _ h

/-- **What an operation does to the contents**: it rebuilds the elements, all with new contents,
or it leaves their number as it is, and marks what it writes. -/
theorem step_marked {ops : DoubleOps json.Double} {m m' : AnyModule json} {op : AnyOp}
    (h : m.step ops op = some m') :
    (m.rebuilds op = true → ∀ e ∈ m'.elements, e.dirtyContent = true) ∧
      (m.rebuilds op = false →
        Marked m.elements m'.elements ∧ m.elements.length = m'.elements.length) := by
  have hkept {M H : Type} [HasElements M H] {m m' : M}
      (hmarked : Marked (HasElements.getElements m) (HasElements.getElements m'))
      (hlen : (HasElements.getElements m).length = (HasElements.getElements m').length) :
      Marked (HasElements.shown m) (HasElements.shown m') ∧
        (HasElements.shown m).length = (HasElements.shown m').length :=
    ⟨hmarked.shown, by simp only [HasElements.shown, List.length_map, hlen]⟩
  unfold step at h
  split at h
  case h_1 m op =>
    -- the workspaces
    cases hm : m.step op with
    | error fault => rw [hm] at h; cases h
    | ok m₁ =>
      rw [hm] at h
      obtain rfl := Option.some.inj h
      obtain ⟨hnew, hsame⟩ := WorkspaceModule.step_marked hm
      refine ⟨fun hr => List.forall_mem_map.mpr (hnew hr), fun hr => ?_⟩
      obtain ⟨hmarked, hlen⟩ := hsame hr
      exact hkept hmarked hlen
  case h_2 m _ =>
    obtain rfl := Option.some.inj h
    exact ⟨nofun, fun _ => ⟨.inr rfl, rfl⟩⟩
  case h_3 m e =>
    obtain rfl := Option.some.inj h
    exact ⟨nofun, fun _ => hkept (m.step_marked e) rfl⟩
  case h_4 m r =>
    obtain rfl := Option.some.inj h
    exact ⟨nofun, fun _ => hkept (m.update_marked r) rfl⟩
  case h_5 m r op =>
    obtain rfl := Option.some.inj h
    exact ⟨nofun, fun _ => hkept (m.step_marked r op) rfl⟩
  case h_6 m now easy_init o entry =>
    obtain rfl := Option.some.inj h
    exact ⟨nofun, fun _ => hkept (m.enter_marked ops now easy_init o entry) rfl⟩
  case h_7 m now tm op =>
    obtain rfl := Option.some.inj h
    exact ⟨nofun, fun _ => hkept (m.step_marked now tm op) rfl⟩
  case h_8 m now op =>
    obtain rfl := Option.some.inj h
    exact ⟨nofun, fun _ => hkept (m.step_marked now op) rfl⟩
  case h_9 m now op =>
    obtain rfl := Option.some.inj h
    exact ⟨nofun, fun _ => hkept (m.step_marked now op) rfl⟩
  case h_10 m vfs now op =>
    obtain rfl := Option.some.inj h
    exact ⟨nofun, fun _ => hkept (m.step_marked vfs now op) rfl⟩
  case h_11 m r =>
    obtain rfl := Option.some.inj h
    exact ⟨nofun, fun _ => hkept (m.update_marked r) rfl⟩
  case h_12 m r op =>
    obtain rfl := Option.some.inj h
    exact ⟨nofun, fun _ => hkept (m.step_marked r op) rfl⟩
  case h_13 => cases h

end AnyModule

end Photonbar
