import Photonbar.BarElement
import Photonbar.Schedule
import Photonbar.Weather

/-!
# How often the weather is asked for (`weather.h`)

Requests are made at the start, by the scheduler and by clicks. `WeatherState` is the whole module:
what it fetches, what it shows, and its bookkeeping. A run is a sequence of `Visit`s; `Rate` is
what has to hold of them: no request follows within ten minutes on one that succeeded, clicks
toggle the details, and a click shows the text that goes with them.

`lastApiCall` is written and never read, so that only `lastUpdate` limits requests, and only those
of the scheduler. The request that `initialize` makes does not write it, and a click makes a
request whatever it holds. `rate_iff_rested` says in which runs this is enough. `step_cases` has
one case for an entry that finds nothing due, and one for an entry that makes a request if it has a
handle; `Booked` is what `lastUpdate` says of the last request that succeeded.
-/

namespace Photonbar

/-- What the module does with a `double`. -/
structure DoubleOps (Double : Type) where
  /-- `{:.1f}` -/
  fixed1 : Double → Bytes
  /-- `> n` -/
  gt : Double → Int → Bool
  /-- `< n` -/
  lt : Double → Int → Bool

/-- What the handler of the weather's element does. -/
inductive WeatherHandler where
  | toggleDetails
  deriving DecidableEq

/-- `WeatherModule`, with what it shows and its bookkeeping. -/
structure WeatherState (json : JsonC) extends WeatherModule json where
  baseElement : BarElement WeatherHandler
  showDetails : Bool := false
  lastApiCall : Int := 0
  lastUpdate : Int := 0

namespace WeatherState

variable {json : JsonC} (ops : DoubleOps json.Double)

/-- The colour of the text, before anything is known. -/
def defaultColor : Color := (Color.parseColor (some "#E0AAFF".toList) (.ofBytes 224 170 255 255)).1

/-- The constructor; `curl_handle` says whether `curl_easy_init` succeeds. -/
def new (json : JsonC) (curl_handle : Bool) : WeatherState json where
  toWeatherModule := .new json curl_handle
  baseElement :=
    { BarElement.new.setEvent .CLICK_LEFT .toggleDetails with foregroundColor := defaultColor }

/-! ## What is shown -/

/-- `getWeatherDescription`. -/
def getWeatherDescription (w : Weather json.Double) : Bytes :=
  let icon (code : Nat) : Bytes := utf8 (Char.ofNat code).toString
  match w.weatherCode with
  | 0 => if w.isNight then icon 0xF0594 else icon 0xF0599
  | 1 | 2 | 3 => if w.isNight then icon 0xF0F31 else icon 0xF0595
  | 45 | 48 => icon 0xF0591
  | 51 | 53 | 55 => icon 0xF0F33
  | 56 | 57 => icon 0xF0597
  | 61 | 63 | 65 | 66 | 67 => icon 0xF0596
  | 71 | 73 | 75 => icon 0xF0F36
  | 77 => icon 0xF0592
  | 80 | 81 | 82 => icon 0xF067E
  | 85 | 86 => icon 0xF0598
  | _ => icon 0xF2C7

/-- The text that `generateBuffer` builds. -/
def text (w : Weather json.Double) (showDetails : Bool) : Bytes :=
  getWeatherDescription w ++ ascii [' '] ++ ops.fixed1 w.temperature ++ utf8 "°C" ++
    if showDetails then
      utf8 " | ST: " ++ ops.fixed1 w.feelsLike ++ utf8 "°C | H: " ++ ascii (decimal w.humidity) ++
        utf8 "% | V: " ++ ops.fixed1 w.windSpeed ++ utf8 "km/h"
    else []

/-- `generateBuffer`. -/
def generateBuffer (m : WeatherState json) : WeatherState json :=
  let parse (str : String) (deflt : Color) : Color := (Color.parseColor (some str.toList) deflt).1
  let foregroundColor :=
    if ops.gt m.weather.temperature 30 then parse "#FF6B6B" (.ofBytes 255 107 107 255)
    else if ops.lt m.weather.temperature 5 then parse "#6BB6FF" (.ofBytes 107 182 255 255)
    else defaultColor
  let content := (text ops m.weather m.showDetails).takeWhile (· ≠ 0)
  { m with baseElement := { m.baseElement.print content with dirtyContent := true, foregroundColor } }

/-! ## The entry points -/

/-- `initialize`. -/
def initializeModule (m : WeatherState json) (o : Outcome) : WeatherState json × Bool :=
  let (fetched, ok) := m.toWeatherModule.fetchWeatherData o
  ({ m with toWeatherModule := fetched }, ok)

/-- `initializeCurlHandle`; `easy_init` says whether `curl_easy_init` succeeds. -/
def initializeCurlHandle (m : WeatherState json) (easy_init : Bool) : WeatherState json :=
  if !m.curl_handle then { m with curl_handle := easy_init } else m

/-- `update`, from `now` on until `o.time`, and whether its request has succeeded. -/
def update (m : WeatherState json) (now : Int) (easy_init : Bool) (o : Outcome) :
    WeatherState json × Bool :=
  let m := m.initializeCurlHandle easy_init
  let (fetched, ok) := m.toWeatherModule.fetchWeatherData o
  let m := { m with toWeatherModule := fetched }
  let m := if ok then { m with lastApiCall := now } else m
  ({ m.generateBuffer ops with lastUpdate := o.time }, ok)

/-- `shouldUpdate`, for the period of ten minutes. -/
def shouldUpdate (m : WeatherState json) (now : Int) : Bool :=
  now - m.lastUpdate ≥ ModuleClass.weather.secondsPerUpdate

/-- A left click, before its rendering. -/
def click (m : WeatherState json) (now : Int) (easy_init : Bool) (o : Outcome) :
    WeatherState json × Bool :=
  update ops { m with showDetails := !m.showDetails } now easy_init o

section

variable (m : WeatherState json) (now : Int) (easy_init : Bool) (o : Outcome)

theorem fetchWeatherData_handle (m : WeatherModule json) :
    (m.fetchWeatherData o).1.curl_handle = m.curl_handle := by
  cases hm : m.curl_handle with
  | false => simp [WeatherModule.fetchWeatherData, hm]
  | true =>
    rw [WeatherModule.fetchWeatherData_eq hm]
    split <;> exact hm

/-- Only a request that is made succeeds. -/
theorem handle_of_fetched {m : WeatherModule json} (h : (m.fetchWeatherData o).2 = true) :
    m.curl_handle = true := by
  cases hm : m.curl_handle with
  | true => rfl
  | false => simp [WeatherModule.fetchWeatherData, hm] at h

theorem initializeCurlHandle_handle :
    (m.initializeCurlHandle easy_init).curl_handle = (m.curl_handle || easy_init) := by
  cases hm : m.curl_handle <;> simp [initializeCurlHandle, hm]

@[simp] theorem initializeCurlHandle_showDetails :
    (m.initializeCurlHandle easy_init).showDetails = m.showDetails := by
  rw [initializeCurlHandle]
  split <;> rfl

/-- **What `update` leaves**: a printed module that has its handle. -/
theorem update_eq : ∃ ready : WeatherState json,
    m.update ops now easy_init o =
      ({ ready.generateBuffer ops with lastUpdate := o.time },
        ((m.initializeCurlHandle easy_init).toWeatherModule.fetchWeatherData o).2) ∧
      ready.curl_handle = (m.initializeCurlHandle easy_init).curl_handle ∧
      ready.showDetails = m.showDetails := by
  simp only [update]
  split <;> exact ⟨_, rfl, fetchWeatherData_handle o _,
    m.initializeCurlHandle_showDetails easy_init⟩

@[simp] theorem update_lastUpdate : (m.update ops now easy_init o).1.lastUpdate = o.time := rfl

@[simp] theorem update_handle : (m.update ops now easy_init o).1.curl_handle =
    (m.initializeCurlHandle easy_init).curl_handle := by
  obtain ⟨ready, heq, hhandle, -⟩ := m.update_eq ops now easy_init o
  rw [heq]
  exact hhandle

@[simp] theorem update_showDetails :
    (m.update ops now easy_init o).1.showDetails = m.showDetails := by
  obtain ⟨ready, heq, -, hdetails⟩ := m.update_eq ops now easy_init o
  rw [heq]
  exact hdetails

theorem handle_of_updated (h : (m.update ops now easy_init o).2 = true) :
    (m.initializeCurlHandle easy_init).curl_handle = true := handle_of_fetched o h

/-- What is shown is the text, as far as the content holds it. -/
theorem generateBuffer_shown :
    ((text ops m.weather m.showDetails).takeWhile (· ≠ 0)).take 254 ++ [0]
      <+: (m.generateBuffer ops).baseElement.content.toList := by
  obtain ⟨content, hprint, hlist⟩ := m.baseElement.snprintf_eq_ok (by decide)
    (le_refl CONTENT_MAX_LEN) ((text ops m.weather m.showDetails).takeWhile (· ≠ 0))
  rw [BarElement.snprintf_eq_print] at hprint
  have hcontent : (m.generateBuffer ops).baseElement.content = content :=
    congrArg BarElement.content (Except.ok.inj hprint)
  rw [hcontent, hlist]
  exact ⟨_, by rw [List.append_assoc]; rfl⟩

theorem update_shown :
    ((text ops (m.update ops now easy_init o).1.weather
        (m.update ops now easy_init o).1.showDetails).takeWhile (· ≠ 0)).take 254 ++ [0]
      <+: (m.update ops now easy_init o).1.baseElement.content.toList := by
  obtain ⟨ready, heq, -, -⟩ := m.update_eq ops now easy_init o
  rw [heq]
  exact ready.generateBuffer_shown ops

end

end WeatherState

/-! ## Runs -/

/-- Where the module is entered. -/
inductive Entry where
  /-- `initialize` -/
  | initializeModule
  /-- `checkAndUpdate` -/
  | scheduler
  | click
  deriving DecidableEq

/-- One entry: it comes `delay` seconds after the one before has ended, and takes `took`
seconds if it makes a request. -/
structure Visit where
  entry : Entry
  delay : Nat
  took : Nat
  easy_init : Bool
  headers : List (Bytes × Int)
  http_code : Option Int
  readBuffer : Bytes

/-- A run, with what has to be remembered to speak about it. -/
structure RequestRun (json : JsonC) where
  module : WeatherState json
  now : Int
  /-- when the last request that succeeded has ended -/
  succeeded : Option Int
  /-- that request was one of `update` -/
  byUpdate : Bool
  /-- when the last entry has made its request, if it has made one -/
  request : Option Int
  /-- `succeeded`, before the last entry -/
  succeededBefore : Option Int
  clicks : Nat
  /-- the last entry was a click -/
  clicked : Bool

namespace RequestRun

variable {json : JsonC} (ops : DoubleOps json.Double)

/-- Before the first entry. -/
def start (json : JsonC) (curl_handle : Bool) (now : Int) : RequestRun json :=
  ⟨.new json curl_handle, now, none, false, none, none, 0, false⟩

/-- What an entry leaves that has run `fetchWeatherData` in a module `before` it. -/
def fetched (s : RequestRun json) (v : Visit) (before : WeatherState json)
    (r : WeatherState json × Bool) : RequestRun json :=
  let now := s.now + v.delay
  { module := r.1
    now := now + v.took
    succeeded := if r.2 then some (now + v.took) else s.succeeded
    byUpdate := if r.2 then v.entry ≠ .initializeModule else s.byUpdate
    request := if before.curl_handle then some now else none
    succeededBefore := s.succeeded
    clicks := if v.entry = .click then s.clicks + 1 else s.clicks
    clicked := v.entry = .click }

/-- One entry. -/
def step (s : RequestRun json) (v : Visit) : Option (RequestRun json) :=
  let now := s.now + v.delay
  let o : Outcome := ⟨v.headers, v.http_code, v.readBuffer, now + v.took⟩
  let ready := s.module.initializeCurlHandle v.easy_init
  match v.entry with
  | .initializeModule => some (s.fetched v s.module (s.module.initializeModule o))
  | .click => some (s.fetched v ready (s.module.click ops now v.easy_init o))
  | .scheduler =>
    if s.module.shouldUpdate now then
      some (s.fetched v ready (s.module.update ops now v.easy_init o))
    else
      some { s with now, request := none, succeededBefore := s.succeeded, clicked := false }

/-- **The rule**: no request is made within ten minutes of one that has succeeded, and clicks
toggle the details shown. -/
structure Rate (s : RequestRun json) : Prop where
  limited : ∀ t r, s.succeededBefore = some t → s.request = some r → t + 600 ≤ r
  toggled : s.module.showDetails = decide (s.clicks % 2 = 1)
  shown : s.clicked = true →
    ((WeatherState.text ops s.module.weather s.module.showDetails).takeWhile (· ≠ 0)).take 254 ++ [0]
      <+: s.module.baseElement.content.toList

/-- Within ten minutes of a request that has succeeded, the entry is one of the scheduler, and
either that request was made by `update` or `update` has run within ten minutes. -/
def Rested (s : RequestRun json) (v : Visit) : Prop :=
  ∀ t, s.succeeded = some t → s.now + v.delay < t + 600 →
    v.entry = .scheduler ∧ (s.byUpdate = true ∨ s.now + v.delay < s.module.lastUpdate + 600)

/-- What `lastUpdate` says of the last request that succeeded. -/
structure Booked (s : RequestRun json) : Prop where
  handle : ∀ t, s.succeeded = some t → s.module.curl_handle = true
  past : ∀ t, s.succeeded = some t → t ≤ s.now
  updated : ∀ t, s.succeeded = some t → s.byUpdate = true → t ≤ s.module.lastUpdate
  toggled : s.module.showDetails = decide (s.clicks % 2 = 1)

variable {s s' : RequestRun json} {v : Visit}

/-- An entry that makes a request if it can: from the module `before`, with what `r` says. -/
structure Entered (s : RequestRun json) (v : Visit) (before : WeatherState json)
    (r : WeatherState json × Bool) : Prop where
  due : v.entry = .scheduler → s.module.lastUpdate + 600 ≤ s.now + v.delay
  ready : s.module.curl_handle = true → before.curl_handle = true
  handle : r.1.curl_handle = before.curl_handle
  made : r.2 = true → before.curl_handle = true
  written : v.entry ≠ .initializeModule → r.1.lastUpdate = s.now + v.delay + v.took
  notWritten : v.entry = .initializeModule → r.1.lastUpdate = s.module.lastUpdate
  showDetails : r.1.showDetails =
    if v.entry = .click then !s.module.showDetails else s.module.showDetails
  shown : v.entry = .click →
    ((WeatherState.text ops r.1.weather r.1.showDetails).takeWhile (· ≠ 0)).take 254 ++ [0]
      <+: r.1.baseElement.content.toList

/-- **What an entry does**: the scheduler may find that nothing is due; anything else makes a
request if there is a handle. -/
theorem step_cases (s : RequestRun json) (v : Visit) :
    (v.entry = .scheduler ∧ s.now + v.delay < s.module.lastUpdate + 600 ∧
      s.step ops v = some { s with
        now := s.now + v.delay, request := none, succeededBefore := s.succeeded
        clicked := false }) ∨
    ∃ before r, s.step ops v = some (s.fetched v before r) ∧ Entered ops s v before r := by
  have hready : s.module.curl_handle = true →
      (s.module.initializeCurlHandle v.easy_init).curl_handle = true := by
    intro h
    rw [WeatherState.initializeCurlHandle_handle, h, Bool.true_or]
  cases hentry : v.entry with
  | initializeModule =>
    refine .inr ⟨_, _, by rw [step, hentry], ?_⟩
    exact ⟨by simp [hentry], id, WeatherState.fetchWeatherData_handle _ _,
      WeatherState.handle_of_fetched _, by simp [hentry], fun _ => rfl, by simp [hentry]; rfl,
      by simp [hentry]⟩
  | click =>
    refine .inr ⟨_, _, by rw [step, hentry], ?_⟩
    -- toggling the details leaves the handle as it is
    have hsame : ((WeatherState.initializeCurlHandle
        { s.module with showDetails := !s.module.showDetails } v.easy_init).curl_handle) =
          (s.module.initializeCurlHandle v.easy_init).curl_handle := by
      simp only [WeatherState.initializeCurlHandle_handle]
    exact ⟨by simp [hentry], hready, (WeatherState.update_handle ops _ _ _ _).trans hsame,
      fun hok => hsame ▸ WeatherState.handle_of_updated ops _ _ _ _ hok, fun _ => rfl,
      by simp [hentry], by simp [hentry, WeatherState.click],
      fun _ => WeatherState.update_shown ops _ _ _ _⟩
  | scheduler =>
    cases hdue : s.module.shouldUpdate (s.now + v.delay) with
    | true =>
      refine .inr ⟨_, _, by simp only [step, hentry, hdue, if_true]; rfl, ?_⟩
      have hlate : 600 ≤ s.now + v.delay - s.module.lastUpdate := of_decide_eq_true hdue
      exact ⟨fun _ => by omega, hready, WeatherState.update_handle ops _ _ _ _,
        WeatherState.handle_of_updated ops _ _ _ _, fun _ => rfl, by simp [hentry],
        by simp [hentry], by simp [hentry]⟩
    | false =>
      have hearly : ¬ 600 ≤ s.now + v.delay - s.module.lastUpdate := of_decide_eq_false hdue
      exact .inl ⟨rfl, by omega, by simp [step, hentry, hdue]⟩

/-- Every entry keeps the bookkeeping. -/
theorem Booked.step (h : s.Booked) (hs : s.step ops v = some s') : s'.Booked := by
  rcases s.step_cases ops v with ⟨-, -, heq⟩ | ⟨before, r, heq, hr⟩ <;>
    obtain rfl := Option.some.inj (heq.symm.trans hs)
  · refine ⟨h.handle, fun t ht => ?_, h.updated, h.toggled⟩
    have := h.past t ht
    show t ≤ s.now + v.delay
    omega
  · refine ⟨fun t ht => ?_, fun t ht => ?_, fun t ht hby => ?_, ?_⟩
    · show r.1.curl_handle = true
      rw [hr.handle]
      cases hok : r.2 with
      | true => exact hr.made hok
      | false =>
        simp only [fetched, hok] at ht
        exact hr.ready (h.handle t ht)
    · show t ≤ s.now + v.delay + v.took
      cases hok : r.2 with
      | true =>
        simp only [fetched, hok, if_true, Option.some.injEq] at ht
        omega
      | false =>
        simp only [fetched, hok] at ht
        have := h.past t ht
        omega
    · show t ≤ r.1.lastUpdate
      cases hok : r.2 with
      | true =>
        simp only [fetched, hok, if_true, decide_eq_true_eq, Option.some.injEq] at ht hby
        rw [hr.written hby]
        omega
      | false =>
        simp only [fetched, hok, Bool.false_eq_true, if_false] at ht hby
        have hpast := h.past t ht
        by_cases hentry : v.entry = .initializeModule
        · rw [hr.notWritten hentry]
          exact h.updated t ht hby
        · rw [hr.written hentry]
          omega
    · show r.1.showDetails = decide ((if v.entry = .click then s.clicks + 1 else s.clicks) % 2 = 1)
      rw [hr.showDetails, h.toggled]
      split
      · rw [← decide_not]
        exact decide_eq_decide.mpr (by omega)
      · rfl

/-- **One entry** keeps the rule exactly under `Rested`. -/
theorem step_iff (h : s.Booked) :
    s.Rested v ↔ ∃ s', s.step ops v = some s' ∧ s'.Rate ops := by
  rcases s.step_cases ops v with ⟨hentry, hearly, heq⟩ | ⟨before, r, heq, hr⟩
  · -- nothing is due, and no request is made
    exact iff_of_true (fun t ht hlt => ⟨hentry, .inr hearly⟩)
      ⟨_, heq, nofun, h.toggled, nofun⟩
  · have hnext := (h.step ops heq).toggled
    rw [heq]
    refine ⟨fun hrested => ⟨_, rfl, fun t r' ht hr' => ?_, hnext, fun hclick => ?_⟩, ?_⟩
    · -- a request that is too early is one that the scheduler makes when nothing is due
      replace ht : s.succeeded = some t := ht
      simp only [fetched, hr.ready (h.handle t ht), if_true, Option.some.injEq] at hr'
      by_contra hlt
      obtain ⟨hentry, hupdate⟩ := hrested t ht (by omega)
      have hdue := hr.due hentry
      rcases hupdate with hby | hlate
      · have := h.updated t ht hby
        omega
      · omega
    · exact hr.shown (of_decide_eq_true hclick)
    · rintro ⟨s', hs, hrate⟩ t ht hlt
      obtain rfl := Option.some.inj hs
      have hlimited := hrate.limited t (s.now + v.delay) ht
        (by simp only [fetched, hr.ready (h.handle t ht), if_true])
      omega

/-- **Exactly when the rule holds**: in every run of entries, if and only if each of them is
rested. What clicks do and show is always right; the limit fails with the first entry that comes
too soon and is not turned away, and `shouldUpdate` turns away only the scheduler, and only behind
an update. -/
theorem rate_iff_rested (json : JsonC) (ops : DoubleOps json.Double) (curl_handle : Bool)
    (now : Int) (visits : List Visit) :
    Always (step ops) (Rate ops) (start json curl_handle now) visits ↔
      AllSteps (step ops) Rested (start json curl_handle now) visits := by
  have hstart : (start json curl_handle now).Rate ops := ⟨nofun, rfl, nofun⟩
  have hbook : (start json curl_handle now).Booked := ⟨nofun, nofun, nofun, rfl⟩
  have hstep : ∀ (s : RequestRun json) (v : Visit) (s' : RequestRun json), s.Booked →
      step ops s v = some s' → s'.Booked := fun s v s' h hs => h.step ops hs
  rw [always_iff_allSteps hstep (fun s v _ h => step_iff ops h) hbook]
  exact and_iff_right hstart

/-- json-c on a body whose `current_weather` is an empty object. -/
def noFields : JsonC where
  Obj := Unit
  Double := Int
  zero := 0
  tokener_parse _ := some ()
  object_get_ex _ key := if key = "current_weather" then some (some ()) else none
  array_length _ := 0
  array_get_idx _ _ := none
  get_double _ := 0
  get_int _ := 0
  get_boolean _ := false

/-- Doubles that are integers. -/
def intOps : DoubleOps Int where
  fixed1 n := ascii (decimal n ++ ".0".toList)
  gt n k := k < n
  lt n k := n < k

/-- The weather arrives when the bar starts. The scheduler asks for it again a second later,
and so does a click another second later. -/
theorem start_and_click_request_again :
    let body := ascii "\x7b\"current_weather\":\x7b\x7d\x7d".toList
    let visit (entry : Entry) : Visit := ⟨entry, 1, 0, true, [], some 200, body⟩
    let run := [visit .initializeModule, visit .scheduler, visit .click]
    (∃ s, runOn (step intOps) (start noFields true 999) [visit .initializeModule] = some s ∧
      s.succeeded = some 1000) ∧
    (∃ s, runOn (step intOps) (start noFields true 999) (run.take 2) = some s ∧
      s.request = some 1001 ∧ s.succeeded = some 1001) ∧
    (∃ s, runOn (step intOps) (start noFields true 999) run = some s ∧ s.request = some 1002) ∧
    ¬ Always (step intOps) (Rate intOps) (start noFields true 999) run := by
  intro body visit run
  refine ⟨⟨_, rfl, rfl⟩, ⟨_, rfl, rfl, rfl⟩, ⟨_, rfl, rfl⟩, fun h => ?_⟩
  have hrate := h.runOn rfl
  exact absurd (hrate.limited 1001 1002 rfl rfl) (by decide)

end RequestRun

end Photonbar
