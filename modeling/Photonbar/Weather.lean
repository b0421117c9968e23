import Mathlib.Data.List.Induction
import Photonbar.CString
import Photonbar.Run

/-!
# Fetching the weather (`weather.h`)

json-c is a parameter: `JsonC` lists the functions that `parseWeatherJson` calls, on pointers that
may be null. What comes of a request is an `Outcome`; the time that curl is given as
`If-Modified-Since` is `lastModified`, and any outcome may follow any request. A call on which
json-c aborts the process is not followed.

The rule of the conditional request is `WeatherRun.Coherent`: a fetch that fails changes nothing,
and one that succeeds leaves the weather of an accepted body. The code writes `lastModified` as
soon as the header arrives, and for every reply of 200, whether or not the body turns out to be any
good; so a body that is rejected leaves a new time behind, and then the server may answer that
nothing has changed since. `coherent_iff_kept` says for which outcomes the code keeps the rule.
`step_cases` is what one fetch can do, and `FromAccepted` is the bookkeeping: the weather comes
from the accepted body, if there is one.
-/

namespace Photonbar

/-- The part of json-c that is used. A pointer is `none` where it is null, as for
the JSON value `null`. -/
structure JsonC where
  Obj : Type
  /-- `double` -/
  Double : Type
  /-- `0.0` -/
  zero : Double
  /-- `json_tokener_parse` -/
  tokener_parse : Bytes → Option Obj
  /-- `json_object_object_get_ex`: `none` where it returns false -/
  object_get_ex : Option Obj → String → Option (Option Obj)
  /-- `json_object_array_length` -/
  array_length : Option Obj → Nat
  /-- `json_object_array_get_idx` -/
  array_get_idx : Option Obj → Nat → Option Obj
  /-- `json_object_get_double` -/
  get_double : Option Obj → Double
  /-- `json_object_get_int` -/
  get_int : Option Obj → Int
  /-- `json_object_get_boolean` -/
  get_boolean : Option Obj → Bool

/-- The weather fields of the module. -/
structure Weather (Double : Type) where
  temperature : Double
  feelsLike : Double
  humidity : Int
  windSpeed : Double
  weatherCode : Int
  isNight : Bool

/-- `WeatherModule`, as far as fetching goes. -/
structure WeatherModule (json : JsonC) where
  /-- whether `curl_handle` is set -/
  curl_handle : Bool
  weather : Weather json.Double
  lastModified : Int

/-- What comes of a request. Each time is what `time(nullptr)` returns then. -/
structure Outcome where
  /-- the header lines that arrive, and when -/
  headers : List (Bytes × Int)
  /-- the status code; `none` when `curl_easy_perform` fails -/
  http_code : Option Int
  readBuffer : Bytes
  /-- the time after the transfer -/
  time : Int

/-- The header that `HeaderCallback` looks for. -/
def lastModifiedHeader : Bytes := ascii "Last-Modified:".toList

namespace WeatherModule

variable {json : JsonC}

/-- The constructor; `curl_handle` says whether `curl_easy_init` succeeds. -/
def new (json : JsonC) (curl_handle : Bool) : WeatherModule json where
  curl_handle
  weather := ⟨json.zero, json.zero, 0, json.zero, 0, false⟩
  lastModified := 0

/-- `HeaderCallback`, at `time`. -/
def HeaderCallback (m : WeatherModule json) (header : Bytes) (time : Int) : WeatherModule json :=
  if lastModifiedHeader.isPrefixOf header then { m with lastModified := time } else m

/-- The part of `parseWeatherJson` about the hourly data. -/
def parseHourly (w : Weather json.Double) (root : json.Obj) : Weather json.Double :=
  match json.object_get_ex (some root) "hourly" with
  | none => w
  | some hourly =>
    match json.object_get_ex hourly "temperature_2m",
        json.object_get_ex hourly "apparent_temperature",
        json.object_get_ex hourly "relativehumidity_2m",
        json.object_get_ex hourly "windspeed_10m" with
    | some temp_2m_array, some feels_array, some humidity_array, some wind_array =>
      if json.array_length temp_2m_array > 0 then
        { w with
          feelsLike := json.get_double (json.array_get_idx feels_array 0)
          humidity := json.get_int (json.array_get_idx humidity_array 0)
          windSpeed := json.get_double (json.array_get_idx wind_array 0) }
      else w
    | _, _, _, _ => w

/-- `parseWeatherJson`: what becomes of the fields, and the result. -/
def parseWeatherJson (w : Weather json.Double) (json_str : Bytes) : Weather json.Double × Bool :=
  match json.tokener_parse (json_str.takeWhile (· ≠ 0)) with
  | none => (w, false)
  | some root =>
    match json.object_get_ex (some root) "current_weather" with
    | none => (w, false)
    | some current_weather =>
      let w :=
        match json.object_get_ex current_weather "temperature" with
        | some temp_obj => { w with temperature := json.get_double temp_obj }
        | none => w
      let w :=
        match json.object_get_ex current_weather "weathercode" with
        | some weathercode_obj => { w with weatherCode := json.get_int weathercode_obj }
        | none => w
      let w :=
        match json.object_get_ex current_weather "is_day" with
        | some is_day_obj => { w with isNight := !json.get_boolean is_day_obj }
        | none => w
      (parseHourly w root, true)

/-- `fetchWeatherData`, with what comes of the request. -/
def fetchWeatherData (m : WeatherModule json) (o : Outcome) : WeatherModule json × Bool :=
  if !m.curl_handle then (m, false)
  else
    let m := o.headers.foldl (fun m h => m.HeaderCallback h.1 h.2) m
    match o.http_code with
    | none => (m, false)
    | some http_code =>
      if http_code = 200 then
        let (weather, success) := parseWeatherJson m.weather o.readBuffer
        ({ m with weather, lastModified := o.time }, success)
      else if http_code = 304 then (m, true)
      else (m, false)

end WeatherModule

/-! ## What one fetch does -/

/-- The time of the last `Last-Modified` header. -/
def lastStamp (headers : List (Bytes × Int)) : Option Int :=
  (headers.filter fun h => lastModifiedHeader.isPrefixOf h.1).getLast?.map (·.2)

theorem lastStamp_append (headers : List (Bytes × Int)) (h : Bytes × Int) :
    lastStamp (headers ++ [h]) =
      if lastModifiedHeader.isPrefixOf h.1 then some h.2 else lastStamp headers := by
  by_cases hh : lastModifiedHeader.isPrefixOf h.1 = true <;>
    simp [lastStamp, List.filter_append, hh]

/-- A body that `parseWeatherJson` accepts: json-c parses it, and it has current weather. -/
def JsonC.accepts (json : JsonC) (body : Bytes) : Bool :=
  match json.tokener_parse (body.takeWhile (· ≠ 0)) with
  | none => false
  | some root => (json.object_get_ex (some root) "current_weather").isSome

namespace WeatherModule

variable {json : JsonC}

/-- The headers leave the time of the last one that counts. -/
theorem foldl_HeaderCallback (hs : List (Bytes × Int)) : ∀ m : WeatherModule json,
    hs.foldl (fun m h => m.HeaderCallback h.1 h.2) m =
      { m with lastModified := (lastStamp hs).getD m.lastModified } := by
  induction hs using List.reverseRecOn with
  | nil => intro m; rfl
  | append_singleton hs h ih =>
    intro m
    rw [List.foldl_append, ih m, lastStamp_append]
    simp only [List.foldl_cons, List.foldl_nil, HeaderCallback]
    split <;> rfl

theorem parseWeatherJson_accepts (w : Weather json.Double) (body : Bytes) :
    (parseWeatherJson w body).2 = json.accepts body := by
  rw [parseWeatherJson, JsonC.accepts]
  split
  · rfl
  · split <;> simp [*]

/-- A rejected body changes no field. -/
theorem parseWeatherJson_rejected (w : Weather json.Double) {body : Bytes}
    (h : json.accepts body = false) : (parseWeatherJson w body).1 = w := by
  rw [parseWeatherJson]
  rw [JsonC.accepts] at h
  split
  · rfl
  · split
    · rfl
    · simp_all

/-- The end of a fetch that succeeds, and of one that fails. -/
theorem fetchWeatherData_eq {m : WeatherModule json} (hm : m.curl_handle = true) (o : Outcome) :
    m.fetchWeatherData o =
      if o.http_code = some 200 then
        ({ m with
            weather := (parseWeatherJson m.weather o.readBuffer).1
            lastModified := o.time }, json.accepts o.readBuffer)
      else
        ({ m with lastModified := (lastStamp o.headers).getD m.lastModified },
          o.http_code = some 304) := by
  rw [fetchWeatherData, foldl_HeaderCallback, hm]
  obtain _ | code := o.http_code
  · rfl
  · by_cases h200 : code = 200
    · simp [h200, parseWeatherJson_accepts]
    · by_cases h304 : code = 304 <;> simp [h200, h304]

end WeatherModule

/-! ## Runs -/

/-- A run of fetches, with what has to be remembered to speak about it. -/
structure WeatherRun (json : JsonC) where
  module : WeatherModule json
  /-- the module before the last fetch -/
  before : WeatherModule json
  /-- what the last fetch has returned -/
  result : Option Bool
  /-- the last body that came with 200 and was accepted, and the fields it came upon -/
  accepted : Option (Weather json.Double × Bytes)

namespace WeatherRun

variable {json : JsonC}

/-- Before the first fetch. -/
def start (json : JsonC) (curl_handle : Bool) : WeatherRun json :=
  ⟨.new json curl_handle, .new json curl_handle, none, none⟩

/-- One fetch. -/
def step (s : WeatherRun json) (o : Outcome) : Option (WeatherRun json) :=
  let (module, ok) := s.module.fetchWeatherData o
  some {
    module
    before := s.module
    result := some ok
    accepted :=
      if s.module.curl_handle ∧ o.http_code = some 200 ∧ json.accepts o.readBuffer then
        some (s.module.weather, o.readBuffer)
      else s.accepted }

/-- **The rule**: a fetch that fails leaves the weather and `lastModified` as they were,
and one that succeeds leaves the weather that an accepted body gave. -/
structure Coherent (s : WeatherRun json) : Prop where
  failed : s.result = some false →
    s.module.weather = s.before.weather ∧ s.module.lastModified = s.before.lastModified
  succeeded : s.result = some true → ∃ w body, s.accepted = some (w, body) ∧
    WeatherModule.parseWeatherJson w body = (s.module.weather, true)

/-- The outcomes that keep the rule: a rejected body comes when the clock shows
`lastModified`, 304 comes after an accepted body, and any other failure comes without a
`Last-Modified` header, or with one at a time that is `lastModified` already. -/
def Kept (s : WeatherRun json) (o : Outcome) : Prop :=
  s.module.curl_handle = true →
    if o.http_code = some 200 then json.accepts o.readBuffer = true ∨ o.time = s.module.lastModified
    else if o.http_code = some 304 then s.accepted ≠ none
    else lastStamp o.headers = none ∨ lastStamp o.headers = some s.module.lastModified

/-- The accepted body, if there is one, is where the weather comes from. -/
def FromAccepted (s : WeatherRun json) : Prop :=
  ∀ w body, s.accepted = some (w, body) →
    WeatherModule.parseWeatherJson w body = (s.module.weather, true)

/-- **What a fetch does**: nothing without a handle; it takes an accepted body; it
rejects a body, but for `lastModified`; or it leaves the fields, and `lastModified` to
the headers. -/
theorem step_cases (s : WeatherRun json) (o : Outcome) :
    (s.module.curl_handle = false ∧
      s.step o = some ⟨s.module, s.module, some false, s.accepted⟩) ∨
    (s.module.curl_handle = true ∧ o.http_code = some 200 ∧ json.accepts o.readBuffer = true ∧
      s.step o = some ⟨{ s.module with
          weather := (WeatherModule.parseWeatherJson s.module.weather o.readBuffer).1
          lastModified := o.time },
        s.module, some true, some (s.module.weather, o.readBuffer)⟩) ∨
    (s.module.curl_handle = true ∧ o.http_code = some 200 ∧ json.accepts o.readBuffer = false ∧
      s.step o = some ⟨{ s.module with lastModified := o.time },
        s.module, some false, s.accepted⟩) ∨
    (s.module.curl_handle = true ∧ o.http_code ≠ some 200 ∧
      s.step o = some ⟨{ s.module with
          lastModified := (lastStamp o.headers).getD s.module.lastModified },
        s.module, some (o.http_code = some 304), s.accepted⟩) := by
  cases hm : s.module.curl_handle with
  | false => exact .inl ⟨rfl, by simp [step, WeatherModule.fetchWeatherData, hm]⟩
  | true =>
    have hfetch := WeatherModule.fetchWeatherData_eq hm o
    by_cases h200 : o.http_code = some 200
    · rw [if_pos h200] at hfetch
      cases haccepts : json.accepts o.readBuffer with
      | true =>
        exact .inr (.inl ⟨rfl, h200, rfl, by simp [step, hfetch, hm, h200, haccepts]⟩)
      | false =>
        have hweather := WeatherModule.parseWeatherJson_rejected s.module.weather haccepts
        exact .inr (.inr (.inl ⟨rfl, h200, rfl, by
          simp [step, hfetch, hm, h200, haccepts, hweather]⟩))
    · rw [if_neg h200] at hfetch
      exact .inr (.inr (.inr ⟨rfl, h200, by simp [step, hfetch, hm, h200]⟩))

/-- Every fetch keeps the bookkeeping. -/
theorem FromAccepted.step {s s' : WeatherRun json} {o : Outcome} (h : s.FromAccepted)
    (hs : s.step o = some s') : s'.FromAccepted := by
  rcases s.step_cases o with ⟨-, heq⟩ | ⟨-, -, haccepts, heq⟩ | ⟨-, -, -, heq⟩ | ⟨-, -, heq⟩ <;>
    obtain rfl := Option.some.inj (heq.symm.trans hs)
  · exact h
  · intro w body hacc
    obtain ⟨rfl, rfl⟩ := Prod.mk.inj (Option.some.inj hacc)
    exact Prod.ext rfl (by rw [WeatherModule.parseWeatherJson_accepts, haccepts])
  · exact h
  · exact h

/-- **One fetch** keeps the rule exactly under `Kept`. -/
theorem step_iff (s : WeatherRun json) (o : Outcome) (h : s.FromAccepted) :
    s.Kept o ↔ ∃ s', s.step o = some s' ∧ s'.Coherent := by
  have hnext : ∀ s', s.step o = some s' → s'.FromAccepted := fun s' hs => h.step hs
  rcases s.step_cases o with ⟨hm, heq⟩ | ⟨hm, h200, haccepts, heq⟩ | ⟨hm, h200, haccepts, heq⟩ |
    ⟨hm, h200, heq⟩
  · -- no handle: nothing changes
    simp only [Kept, hm, heq, Bool.false_eq_true, false_implies, true_iff]
    exact ⟨_, rfl, fun _ => ⟨rfl, rfl⟩, nofun⟩
  · -- an accepted body
    simp only [Kept, hm, h200, haccepts, if_true, true_or, forall_const, true_iff]
    exact ⟨_, heq, nofun, fun _ => ⟨_, _, rfl, hnext _ heq _ _ rfl⟩⟩
  · -- a rejected body: the time is stored all the same
    simp only [Kept, hm, h200, haccepts, heq, Bool.false_eq_true, if_true, false_or, forall_const]
    refine ⟨?_, ?_⟩
    · intro htime
      exact ⟨_, rfl, fun _ => ⟨rfl, htime⟩, nofun⟩
    · rintro ⟨s', hs, hcoherent⟩
      obtain rfl := Option.some.inj hs
      exact (hcoherent.failed rfl).2
  · by_cases h304 : o.http_code = some 304
    · -- 304 counts as a success
      simp only [Kept, hm, h304, heq, if_true, forall_const, decide_true]
      refine ⟨?_, ?_⟩
      · intro hacc
        obtain ⟨⟨w, body⟩, hacc⟩ := Option.ne_none_iff_exists'.mp hacc
        exact ⟨_, rfl, nofun, fun _ => ⟨w, body, hacc, h w body hacc⟩⟩
      · rintro ⟨s', hs, hcoherent⟩
        obtain rfl := Option.some.inj hs
        obtain ⟨w, body, hacc, -⟩ := hcoherent.succeeded rfl
        rw [hacc]
        nofun
    · -- another failure: the headers decide what becomes of `lastModified`
      have hstamp : (lastStamp o.headers).getD s.module.lastModified = s.module.lastModified ↔
          lastStamp o.headers = none ∨ lastStamp o.headers = some s.module.lastModified := by
        cases lastStamp o.headers <;> simp
      simp only [Kept, hm, h200, h304, heq, if_false, forall_const, decide_false, ← hstamp]
      refine ⟨?_, ?_⟩
      · intro hkept
        exact ⟨_, rfl, fun _ => ⟨rfl, hkept⟩, nofun⟩
      · rintro ⟨s', hs, hcoherent⟩
        obtain rfl := Option.some.inj hs
        exact (hcoherent.failed rfl).2

/-- **Exactly when the rule holds**: in every run of fetches, after every fetch, if and only if
each outcome is of the kind that keeps it. A body that is rejected, and a reply of any other
status, is of that kind only if `lastModified` happens to be what it was; a 304 is, if there is an
accepted body for it to be about. -/
theorem coherent_iff_kept (json : JsonC) (curl_handle : Bool) (os : List Outcome) :
    Always step Coherent (start json curl_handle) os ↔
      AllSteps step Kept (start json curl_handle) os := by
  have hstart : (start json curl_handle).Coherent := ⟨nofun, nofun⟩
  have hbook : (start json curl_handle).FromAccepted := nofun
  rw [always_iff_allSteps (fun s o s' h hs => h.step hs) (fun s o _ h => s.step_iff o h) hbook]
  exact and_iff_right hstart

/-- json-c where nothing is well-formed JSON. -/
def malformed : JsonC where
  Obj := Unit
  Double := Int
  zero := 0
  tokener_parse _ := none
  object_get_ex _ _ := none
  array_length _ := 0
  array_get_idx _ _ := none
  get_double _ := 0
  get_int _ := 0
  get_boolean _ := false

/-- A malformed body that comes with 200 moves `lastModified`; the 304 that answers the
next request counts as a success, although no weather was ever received. -/
theorem malformed_body_moves_lastModified :
    let rejected : Outcome := ⟨[], some 200, ascii "x".toList, 100⟩
    let notModified : Outcome := ⟨[], some 304, [], 700⟩
    (∃ s, runOn step (start malformed true) [rejected] = some s ∧
      s.result = some false ∧ s.before.lastModified = 0 ∧ s.module.lastModified = 100) ∧
    (∃ s, runOn step (start malformed true) [rejected, notModified] = some s ∧
      s.result = some true ∧ s.accepted = none) ∧
    ¬ Always step Coherent (start malformed true) [rejected, notModified] := by
  intro rejected notModified
  refine ⟨⟨_, rfl, rfl, rfl, rfl⟩, ⟨_, rfl, rfl, rfl⟩, ?_⟩
  rintro ⟨-, s, hs, hrest⟩
  obtain rfl := Option.some.inj hs
  exact absurd (hrest.head.failed rfl).2 (by decide)

end WeatherRun

end Photonbar
