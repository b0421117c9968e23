import Mathlib.Data.List.Nodup
import Photonbar.Audio

/-!
# Which sinks are asked for (`audio.h`)

`currentSink` is the sink that the last report with its default sink in the list gave for it,
whatever was reported since (`Tracks`). A command `Fits` when it goes to a sink of the last list,
and, of `cycleSinks`, to another than the current one. `sinks_asked_for` says after which reports
it does, and speaks of the reports alone: the current sink, or what was in memory at first, must be
in the last list. So a report that lists its default sink, and no two sinks of one name, is enough
for every event (`fits_of_listed`).

`refreshCache_eq` says in one line what a report leaves; the loop over its sinks is a search for
the last one with the default name. From this `Tracks` follows for every event and every run. The
first section is about going round a list: the next one behind the first that has a property, and
behind the last the first again (`cyclicNext_eq_some_iff`), over any type.
-/

namespace Photonbar

/-! ## The next in a cycle -/

section

variable {α β : Type} {p : α → Bool} {xs : List α} {x : α}

theorem cyclicNext_split {before after : List α} (hbefore : ∀ y ∈ before, p y = false)
    (hx : p x = true) :
    cyclicNext p (before ++ x :: after) = (after ++ (before ++ [x])).head? := by
  have hi : (before ++ x :: after).findIdx? p = some before.length := by
    simp [List.findIdx?_append, List.findIdx?_eq_none_iff.mpr hbefore, List.findIdx?_cons, hx]
  rw [cyclicNext, hi]
  change (before ++ x :: after)[(before.length + 1) % (before ++ x :: after).length]? = _
  cases after with
  | nil =>
    rw [List.length_append, List.length_singleton, Nat.mod_self, List.nil_append,
      List.head?_eq_getElem?]
  | cons y after =>
    have hlt : before.length + 1 < (before ++ x :: y :: after).length := by simp
    rw [Nat.mod_eq_of_lt hlt, List.getElem?_append_right (Nat.le_succ _)]
    simp

theorem cyclicNext_eq_some_iff {y : α} : cyclicNext p xs = some y ↔
    ∃ before x after, xs = before ++ x :: after ∧ (∀ z ∈ before, p z = false) ∧ p x = true ∧
      (after ++ (before ++ [x])).head? = some y := by
  refine ⟨?_, ?_⟩
  · intro h
    cases hfind : xs.find? p with
    | none =>
      have hi : xs.findIdx? p = none := by
        rw [List.findIdx?_eq_none_iff]
        exact fun x hx => Bool.eq_false_iff.mpr (List.find?_eq_none.mp hfind x hx)
      rw [cyclicNext, hi] at h
      cases h
    | some x =>
      obtain ⟨hx, before, after, rfl, hbefore⟩ := List.find?_eq_some_iff_append.mp hfind
      have hbefore : ∀ z ∈ before, p z = false := fun z hz => by simpa using hbefore z hz
      rw [cyclicNext_split hbefore hx] at h
      exact ⟨before, x, after, rfl, hbefore, hx, h⟩
  · rintro ⟨before, x, after, rfl, hbefore, hx, hy⟩
    rw [cyclicNext_split hbefore hx, hy]

theorem cyclicNext_map (f : β → α) (xs : List β) :
    (cyclicNext (fun x => p (f x)) xs).map f = cyclicNext p (xs.map f) := by
  rw [cyclicNext, cyclicNext, List.findIdx?_map]
  cases hi : xs.findIdx? (fun x => p (f x)) with
  | none =>
    have hi' : xs.findIdx? (p ∘ f) = none := hi
    rw [hi']
    rfl
  | some i =>
    have hi' : xs.findIdx? (p ∘ f) = some i := hi
    rw [hi']
    change (xs[(i + 1) % xs.length]?).map f = (xs.map f)[(i + 1) % (xs.map f).length]?
    rw [List.getElem?_map, List.length_map]

theorem mem_of_cyclicNext (h : cyclicNext p xs = some x) : x ∈ xs := by
  rw [cyclicNext] at h
  obtain ⟨i, -, h⟩ := Option.bind_eq_some_iff.mp h
  exact List.mem_of_getElem? h

end

/-! ## What was reported, the latest first -/

/-- The sinks of a report. -/
def Report.listed (r : Report) : List Sink := r.sinks.map (·.toSink)

/-- The name of the default sink. -/
def defaultName : List Report → Bytes
  | [] => []
  | r :: rs => r.server.getD (defaultName rs)

/-- The last list. -/
def lastList : List Report → List Sink
  | [] => []
  | r :: _ => r.listed

/-- The default sink of the last report that had it in its list; of several with its name, the
last. -/
def lastDefault : List Report → Option Sink
  | [] => none
  | r :: rs =>
    (r.listed.filter (·.name = defaultName (r :: rs))).getLast?.or (lastDefault rs)

/-- Behind the first sink of the list with the name of `s`, and behind the last the first again,
there is one with another name. -/
def HasNext (s : Sink) (sinks : List Sink) : Prop :=
  ∃ before t after, sinks = before ++ t :: after ∧ (∀ u ∈ before, u.name ≠ s.name) ∧
    t.name = s.name ∧ ∃ u, (after ++ before).head? = some u ∧ u.name ≠ s.name

theorem hasNext_iff {s : Sink} {sinks : List Sink} :
    HasNext s sinks ↔ ∃ t, cyclicNext (·.name = s.name) sinks = some t ∧ t.name ≠ s.name := by
  refine ⟨?_, ?_⟩
  · rintro ⟨before, t, after, hsplit, hbefore, ht, u, hu, hne⟩
    refine ⟨u, cyclicNext_eq_some_iff.mpr ⟨before, t, after, hsplit, ?_, ?_, ?_⟩, hne⟩
    · exact fun v hv => decide_eq_false (hbefore v hv)
    · exact decide_eq_true ht
    · rw [← List.append_assoc, List.head?_append, hu]
      rfl
  · rintro ⟨u, hu, hne⟩
    obtain ⟨before, t, after, hsplit, hbefore, ht, hhead⟩ := cyclicNext_eq_some_iff.mp hu
    have ht := of_decide_eq_true ht
    refine ⟨before, t, after, hsplit, fun v hv => of_decide_eq_false (hbefore v hv), ht, u, ?_, hne⟩
    rw [← List.append_assoc, List.head?_append] at hhead
    cases hcases : (after ++ before).head? with
    | some v => rwa [hcases] at hhead
    | none =>
      -- the only sink of the list is the one itself
      rw [hcases] at hhead
      obtain rfl := Option.some.inj hhead
      exact absurd ht hne

/-! ## What a refresh leaves -/

namespace AudioModule

variable (m : AudioModule)

/-- `getBluetoothBatteryLevel` keeps the level, and when it was asked for. -/
theorem getBluetoothBatteryLevel_eq (now : Int) (upower : Upower) :
    ∃ lastBatteryCheck cachedBattery, (m.getBluetoothBatteryLevel now upower).1 =
      { m with lastBatteryCheck, cachedBattery } := by
  unfold getBluetoothBatteryLevel
  split
  · exact ⟨_, _, rfl⟩
  · cases upower <;> exact ⟨_, _, rfl⟩

theorem addSink_eq (s : SinkInfo) : m.addSink s =
    { m with
      allSinks := m.allSinks ++ [s]
      currentSink := if m.defaultSinkName = s.name then s else m.currentSink } := by
  by_cases hname : m.defaultSinkName = s.name
  · simp only [addSink, if_pos hname]
  · simp only [addSink, if_neg hname]

/-- One sink is appended to the list; it is the current one if it has the default name. -/
theorem sink_info_callback_eq (i : SinkReport) : ∃ s lastBatteryCheck cachedBattery,
    s.toSink = i.toSink ∧ m.sink_info_callback i =
      { m with
        allSinks := m.allSinks ++ [s]
        currentSink := if m.defaultSinkName = i.name then s else m.currentSink
        lastBatteryCheck, cachedBattery } := by
  rw [sink_info_callback]
  by_cases hblue : ascii "bluez".toList <:+: i.name
  · obtain ⟨_, _, hlevel⟩ := m.getBluetoothBatteryLevel_eq i.now i.upower
    simp only [hblue, decide_true, if_true, addSink_eq, hlevel]
    exact ⟨_, _, _, rfl, rfl⟩
  · simp only [hblue, decide_false, Bool.false_eq_true, if_false, addSink_eq]
    exact ⟨_, _, _, rfl, rfl⟩

theorem foldl_sink_info_callback (is : List SinkReport) :
    ∀ m : AudioModule, let m' := is.foldl sink_info_callback m
      m'.defaultSinkName = m.defaultSinkName ∧
        m'.allSinks.map (·.toSink) = m.allSinks.map (·.toSink) ++ is.map (·.toSink) ∧
        m'.currentSink.toSink = ((is.map (·.toSink)).filter
          (·.name = m.defaultSinkName)).getLast?.getD m.currentSink.toSink := by
  induction is with
  | nil => exact fun m => ⟨rfl, (List.append_nil _).symm, rfl⟩
  | cons i is ih =>
    intro m
    obtain ⟨s, _, _, hs, heq⟩ := m.sink_info_callback_eq i
    obtain ⟨hname, hall, hcurrent⟩ := ih (m.sink_info_callback i)
    rw [heq] at hname hall hcurrent
    simp only [List.foldl_cons, heq]
    refine ⟨hname, hall.trans ?_, hcurrent.trans ?_⟩
    · simp [hs]
    · by_cases hdefault : m.defaultSinkName = i.name
      · simp [hdefault, hs, List.getLast?_cons]
      · have hne : ¬ i.name = m.defaultSinkName := fun h => hdefault h.symm
        simp [hdefault, hne]

/-- **What `refreshCache` leaves.** -/
theorem refreshCache_eq (r : Report) : let m' := m.refreshCache r
    m'.defaultSinkName = r.server.getD m.defaultSinkName ∧
      m'.allSinks.map (·.toSink) = r.listed ∧
      m'.currentSink.toSink = (r.listed.filter
        (·.name = r.server.getD m.defaultSinkName)).getLast?.getD m.currentSink.toSink := by
  obtain ⟨server, sinks⟩ := r
  cases server with
  | none => exact foldl_sink_info_callback sinks { m with allSinks := [] }
  | some name =>
    exact foldl_sink_info_callback sinks { m with allSinks := [], defaultSinkName := name }

end AudioModule

/-! ## Runs -/

/-- The module in a run, with the reports that it has received, the latest first. -/
structure AudioRun where
  module : AudioModule
  reports : List Report

namespace AudioRun

/-- Before the first event. -/
def start (initial : SinkInfo) : AudioRun := ⟨.new initial, []⟩

/-- One event. -/
def step (s : AudioRun) (e : AudioEvent) : AudioRun :=
  let o := s.module.step e
  ⟨o.module, o.report.toList ++ s.reports⟩

/-- A run. -/
def run (initial : SinkInfo) (es : List AudioEvent) : AudioRun := es.foldl step (start initial)

/-- What the module knows of the reports. -/
structure Tracks (first : Sink) (s : AudioRun) : Prop where
  defaultSinkName : s.module.defaultSinkName = defaultName s.reports
  allSinks : s.module.allSinks.map (·.toSink) = lastList s.reports
  currentSink : s.module.currentSink.toSink = (lastDefault s.reports).getD first

variable {first : Sink} {s : AudioRun}

theorem Tracks.refresh (h : Tracks first s) (r : Report) :
    Tracks first ⟨s.module.refreshCache r, r :: s.reports⟩ := by
  obtain ⟨hname, hall, hcurrent⟩ := s.module.refreshCache_eq r
  rw [h.defaultSinkName] at hname hcurrent
  refine ⟨hname, hall, hcurrent.trans ?_⟩
  rw [h.currentSink, lastDefault, defaultName]
  cases (r.listed.filter (·.name = r.server.getD (defaultName s.reports))).getLast? <;> rfl

/-- **Every event keeps it.** -/
theorem Tracks.step (h : Tracks first s) (e : AudioEvent) : Tracks first (s.step e) := by
  cases e with
  | update now r =>
    rw [AudioRun.step, AudioModule.step, AudioModule.update]
    split
    · exact h
    · have hr := h.refresh r
      exact ⟨hr.defaultSinkName, hr.allSinks, hr.currentSink⟩
  | handler a r =>
    have hr := h.refresh r
    have hupdated : Tracks first ⟨(s.module.refreshCache r).updateElement, r :: s.reports⟩ :=
      ⟨hr.defaultSinkName, hr.allSinks, hr.currentSink⟩
    cases a with
    | toggleMute => exact hupdated
    | cycleSinks =>
      rw [AudioRun.step, AudioModule.step, AudioModule.cycleSinks]
      split
      · exact h
      · exact hupdated
    | adjustVolume delta => exact hupdated

theorem tracks_run (initial : SinkInfo) (es : List AudioEvent) :
    Tracks ⟨[], initial.index⟩ (run initial es) := by
  have hfrom : ∀ (es : List AudioEvent) (s : AudioRun), Tracks ⟨[], initial.index⟩ s →
      Tracks ⟨[], initial.index⟩ (es.foldl AudioRun.step s) := by
    intro es
    induction es with
    | nil => exact fun s h => h
    | cons e es ih => exact fun s h => ih _ (h.step e)
  exact hfrom es _ ⟨rfl, rfl, rfl⟩

/-! ## Commands -/

/-- What an event asks for fits the last list: an index is one of the list, and `cycleSinks`, of
two sinks or more, asks for one that is not the current one. -/
structure Fits (s : AudioRun) (e : AudioEvent) : Prop where
  index : ∀ i, (s.module.step e).command.bind SinkCommand.index? = some i →
    ∃ t ∈ lastList s.reports, t.index = i
  next : (∃ r, e = .handler .cycleSinks r) → 2 ≤ (lastList s.reports).length →
    ∃ t ∈ lastList s.reports, (s.module.step e).command = some (.setDefault t.name) ∧
      t.name ≠ s.module.currentSink.name

end AudioRun

/-- What must have been reported for it. The current sink is the last default that was listed, or
what was in memory at first. -/
def Reported (first : Sink) (rs : List Report) (e : AudioEvent) : Prop :=
  let current := (lastDefault rs).getD first
  match e with
  | .update _ _ => True
  | .handler .cycleSinks _ => 2 ≤ (lastList rs).length → HasNext current (lastList rs)
  | .handler _ _ => ∃ t ∈ lastList rs, t.index = current.index

namespace AudioRun

variable {first : Sink} {s : AudioRun}

/-- The sink that `cycleSinks` would ask for. -/
theorem Tracks.nextSink (h : Tracks first s) : s.module.nextSink.map (·.toSink) =
    cyclicNext (·.name = ((lastDefault s.reports).getD first).name) (lastList s.reports) := by
  rw [← h.currentSink, ← h.allSinks]
  exact cyclicNext_map (p := fun t : Sink => t.name = s.module.currentSink.name) _ _

theorem Tracks.cycleSinks_iff (h : Tracks first s) (r : Report)
    (hlen : 2 ≤ (lastList s.reports).length) :
    (∃ t ∈ lastList s.reports, (s.module.cycleSinks r).command = some (.setDefault t.name) ∧
      t.name ≠ s.module.currentSink.name) ↔
    HasNext ((lastDefault s.reports).getD first) (lastList s.reports) := by
  have hmany : ¬ s.module.allSinks.length ≤ 1 := by
    rw [← h.allSinks, List.length_map] at hlen
    omega
  have hcurrent : s.module.currentSink.name = ((lastDefault s.reports).getD first).name :=
    congrArg Sink.name h.currentSink
  rw [AudioModule.cycleSinks, if_neg hmany, hasNext_iff, ← h.nextSink, hcurrent]
  cases hnext : s.module.nextSink with
  | none => simp
  | some t =>
    have hmem : t.toSink ∈ lastList s.reports := by
      refine mem_of_cyclicNext (h.nextSink.symm.trans ?_)
      rw [hnext]
      rfl
    simp only [Option.map_some, Option.some.injEq, SinkCommand.setDefault.injEq,
      exists_eq_left']
    refine ⟨?_, ?_⟩
    · rintro ⟨u, -, hname, hne⟩
      rwa [← hname] at hne
    · exact fun hne => ⟨t.toSink, hmem, rfl, hne⟩

/-- **When an event fits**, by what was reported. -/
theorem Tracks.fits_iff (h : Tracks first s) (e : AudioEvent) :
    s.Fits e ↔ Reported first s.reports e := by
  have hindex : s.module.currentSink.index = ((lastDefault s.reports).getD first).index :=
    congrArg Sink.index h.currentSink
  cases e with
  | update now r =>
    refine iff_of_true ⟨fun i hi => ?_, nofun⟩ trivial
    rw [AudioModule.step, AudioModule.update] at hi
    split at hi <;> cases hi
  | handler a r =>
    cases a with
    | toggleMute =>
      refine ⟨fun hfits => hfits.index _ (congrArg some hindex), fun hlisted => ⟨?_, nofun⟩⟩
      rintro i hi
      obtain rfl := Option.some.inj hi
      rwa [hindex]
    | cycleSinks =>
      refine ⟨?_, ?_⟩
      · exact fun hfits hlen => (h.cycleSinks_iff r hlen).mp (hfits.next ⟨r, rfl⟩ hlen)
      · refine fun hnext => ⟨fun i hi => ?_, fun _ hlen => (h.cycleSinks_iff r hlen).mpr (hnext hlen)⟩
        -- the default sink is set by its name
        rw [AudioModule.step, AudioModule.cycleSinks] at hi
        split at hi
        · cases hi
        · cases hsink : s.module.nextSink with
          | none => simp only [hsink] at hi; cases hi
          | some t => simp only [hsink] at hi; cases hi
    | adjustVolume delta =>
      refine ⟨fun hfits => hfits.index _ (congrArg some hindex), fun hlisted => ⟨?_, nofun⟩⟩
      rintro i hi
      obtain rfl := Option.some.inj hi
      rwa [hindex]

/-- Where the last report has its default sink in the list, and no two sinks have one name,
everything fits. -/
theorem Tracks.fits_inOrder (h : Tracks first s) {r : Report} {rs : List Report}
    (hr : s.reports = r :: rs) (hdefault : ∃ t ∈ r.listed, t.name = defaultName (r :: rs))
    (hdistinct : (r.listed.map (·.name)).Nodup) (e : AudioEvent) : s.Fits e := by
  obtain ⟨t, hlast, hmem⟩ : ∃ t, lastDefault (r :: rs) = some t ∧ t ∈ r.listed := by
    obtain ⟨t₀, ht₀, hname⟩ := hdefault
    have hfilter : t₀ ∈ r.listed.filter (·.name = defaultName (r :: rs)) :=
      List.mem_filter.mpr ⟨ht₀, decide_eq_true hname⟩
    obtain ⟨t, ht⟩ := Option.isSome_iff_exists.mp
      (List.getLast?_isSome.mpr (List.ne_nil_of_mem hfilter))
    refine ⟨t, by rw [lastDefault, ht]; rfl, ?_⟩
    exact (List.mem_filter.mp (List.mem_of_getLast? ht)).1
  have hnext : 2 ≤ r.listed.length → HasNext t r.listed := by
    intro hlen
    obtain ⟨before, after, hsplit⟩ := List.append_of_mem hmem
    rw [hsplit, List.map_append, List.map_cons, List.nodup_middle, List.nodup_cons] at hdistinct
    have hne : ∀ u ∈ after ++ before, u.name ≠ t.name := by
      rintro u hu hname
      refine hdistinct.1 (hname ▸ ?_)
      rw [← List.map_append]
      exact List.mem_map_of_mem (List.mem_append.mpr (List.mem_append.mp hu).symm)
    refine ⟨before, t, after, hsplit, fun u hu => hne u (List.mem_append_right _ hu), rfl, ?_⟩
    cases hhead : after ++ before with
    | nil =>
      obtain ⟨rfl, rfl⟩ := List.append_eq_nil_iff.mp hhead
      rw [hsplit] at hlen
      exact absurd hlen (Nat.not_succ_le_self 1)
    | cons u us => exact ⟨u, rfl, hne u (by rw [hhead]; exact List.mem_cons_self)⟩
  rw [h.fits_iff, hr]
  cases e with
  | update now r => trivial
  | handler a r' =>
    cases a with
    | toggleMute => exact ⟨t, hmem, by rw [hlast]; rfl⟩
    | cycleSinks =>
      intro hlen
      rw [hlast]
      exact hnext hlen
    | adjustVolume delta => exact ⟨t, hmem, by rw [hlast]; rfl⟩

/-- **Which commands fit.** In every run, with any reports and from any contents of memory, an
event asks for a sink of the last list, and `cycleSinks` for another than the current one, exactly
after these reports. What was reported is all that matters: the module never asks the server anew
before it asks for something. -/
theorem sinks_asked_for (initial : SinkInfo) (es : List AudioEvent) (e : AudioEvent) :
    (run initial es).Fits e ↔ Reported ⟨[], initial.index⟩ (run initial es).reports e :=
  (tracks_run initial es).fits_iff e

/-- **After a report that is in order**, one that lists its default sink and names no two sinks
alike, every event fits in every run: whatever was reported before, the default sink is the current
one then, and where there is another one `cycleSinks` finds it. -/
theorem fits_of_listed (initial : SinkInfo) (es : List AudioEvent) (e : AudioEvent) {r : Report}
    {rs : List Report} (hr : (run initial es).reports = r :: rs)
    (hdefault : ∃ t ∈ r.listed, t.name = defaultName (r :: rs))
    (hdistinct : (r.listed.map (·.name)).Nodup) : (run initial es).Fits e :=
  (tracks_run initial es).fits_inOrder hr hdefault hdistinct e

/-- A report of these sinks. -/
def reportOf (server : Bytes) (sinks : List Sink) : Report :=
  ⟨some server, sinks.map fun s => ⟨s, false, 65536, 0, .noLine⟩⟩

/-- A headset and speakers, one of which is the default sink. -/
theorem fits_of_listed_headset :
    let headset : Sink := ⟨ascii "bluez".toList, 7⟩
    let speakers : Sink := ⟨ascii "alsa".toList, 3⟩
    let r := reportOf headset.name [speakers, headset]
    let s := run ⟨headset, 0, false, false, -1⟩ [.update 1000 r]
    s.Fits (.handler (.adjustVolume 2) r) ∧ s.Fits (.handler .cycleSinks r) := by
  intro headset speakers r s
  have hreports : s.reports = [r] := rfl
  have hdefault : ∃ t ∈ r.listed, t.name = defaultName [r] :=
    ⟨headset, List.mem_cons_of_mem _ List.mem_cons_self, rfl⟩
  have hdistinct : (r.listed.map (·.name)).Nodup := by decide +kernel
  exact ⟨fits_of_listed _ _ _ hreports hdefault hdistinct,
    fits_of_listed _ _ _ hreports hdefault hdistinct⟩

/-- A headset is the default sink, and then it is gone, while the server still names it. A scroll
goes to its index, and `cycleSinks` asks for nothing, with two sinks in the list. -/
theorem gone_sink_asked_for :
    let headset : Sink := ⟨ascii "bluez".toList, 7⟩
    let speakers : Sink := ⟨ascii "alsa".toList, 3⟩
    let hdmi : Sink := ⟨ascii "hdmi".toList, 4⟩
    let gone := reportOf headset.name [speakers, hdmi]
    let s := run ⟨headset, 0, false, false, -1⟩
      [.update 1000 (reportOf headset.name [headset, speakers]), .update 2000 gone]
    (s.module.step (.handler (.adjustVolume 2) gone)).command = some (.setVolume 7 66846) ∧
      ¬ s.Fits (.handler (.adjustVolume 2) gone) ∧
      (s.module.step (.handler .cycleSinks gone)).command = none ∧
      ¬ s.Fits (.handler .cycleSinks gone) := by
  intro headset speakers hdmi gone s
  have hscroll : (s.module.step (.handler (.adjustVolume 2) gone)).command =
      some (.setVolume 7 66846) := by decide +kernel
  have hcycle : (s.module.step (.handler .cycleSinks gone)).command = none := by decide +kernel
  refine ⟨hscroll, fun h => ?_, hcycle, fun h => ?_⟩
  · obtain ⟨t, ht, hi⟩ := h.index 7 (by rw [hscroll]; rfl)
    have hnone : ∀ t ∈ lastList s.reports, t.index ≠ 7 := by decide +kernel
    exact hnone t ht hi
  · obtain ⟨t, -, ht, -⟩ := h.next ⟨gone, rfl⟩ (by decide +kernel)
    rw [hcycle] at ht
    cases ht

end AudioRun

end Photonbar
