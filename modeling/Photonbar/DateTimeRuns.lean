import Photonbar.DateTime

/-!
# Runs of the date (`datetime.h`)

`update` overwrites the front of the content and leaves what is behind. `Clean` says that nothing
is behind what the mode writes, `shows_toggle_iff` after which clicks the text is that of the mode,
and `shown_iff_fresh` in which runs it is after every click.

The layouts of the two modes differ in length, and so a click that takes away the hours leaves the
end of them on the content; and a click at the time of the last update changes the mode, but
updates nothing. Both leave a text that is not that of the mode (`not_shows_toggle_hours`,
`not_shows_toggle_same`). A click that is neither leaves a clean content again (`Clean.update`),
which is the invariant of the runs in which all clicks are such.
-/

namespace Photonbar

/-- A run of the date. -/
structure DateTimeRun where
  module : DateTimeModule
  now : Int
  /-- the time of the click, if the last operation was one -/
  clicked : Option LocalTime

namespace DateTimeRun

open DateTimeModule

variable (localtime_r : Int → LocalTime)

/-- A new module. -/
def start (now : Int) : DateTimeRun := ⟨.new, now, none⟩

/-- An operation, `delay` seconds after the one before. -/
def step (s : DateTimeRun) : Nat × DateTimeOp → Option DateTimeRun
  | (delay, op) =>
    let now := s.now + delay
    let tm := localtime_r now
    some ⟨s.module.step now tm op, now, if op = .update then none else some tm⟩

/-- The text that is shown is that of the mode at this time. -/
def Shows (m : DateTimeModule) (tm : LocalTime) : Prop :=
  tm.FourDigits ∧
    m.baseElement.content.cstring = (encode (dayStr tm)).take 3 ++ ascii (tm.layout m.showHour)

/-- After a click the text is that of the mode. -/
def Shown (s : DateTimeRun) : Prop := ∀ tm, s.clicked = some tm → Shows s.module tm

/-- A click comes before anything was written if it takes away the hours, and never at the time of
the last update; and the year has four digits. -/
def Fresh (s : DateTimeRun) : Nat × DateTimeOp → Prop
  | (_, .update) => True
  | (delay, .handle _) =>
    let tm := localtime_r (s.now + delay)
    tm.FourDigits ∧ tm.toTm ≠ s.module.last ∧
      (s.module.showHour = true → s.module.last = DateTimeModule.new.last)

/-- The content is what the mode writes at the time of the last update, and zeros. -/
def Clean (m : DateTimeModule) : Prop :=
  ∃ bs k, m.baseElement.content.toList = bs ++ List.replicate (k + 1) 0 ∧
    ((m.last = DateTimeModule.new.last ∧ bs = []) ∨
      ∃ tm : LocalTime, m.last = tm.toTm ∧ bs = stamp m.showHour tm)

variable {localtime_r} {m : DateTimeModule} {now : Int} {tm : LocalTime}

theorem clean_new : Clean .new :=
  ⟨[], 254, by rw [List.nil_append]; exact Vector.toList_replicate, .inl ⟨rfl, rfl⟩⟩

/-- Behind what was written there are zeros. -/
theorem drop_zeros {content : Buffer CONTENT_MAX_LEN} {bs : Bytes} {k n : Nat}
    (h : content.toList = bs ++ List.replicate (k + 1) 0) (hle : bs.length ≤ n)
    (hn : n < CONTENT_MAX_LEN) : ∃ k', content.toList.drop n = List.replicate (k' + 1) 0 := by
  have hlen := congrArg List.length h
  rw [Vector.length_toList, List.length_append, List.length_replicate] at hlen
  refine ⟨k - (n - bs.length), ?_⟩
  have hzeros : k + 1 - (n - bs.length) = k - (n - bs.length) + 1 := by omega
  rw [h, List.drop_append, List.drop_eq_nil_of_le hle, List.nil_append, List.drop_replicate, hzeros]

theorem stamp_length_lt (showHour : Bool) (tm : LocalTime) :
    (stamp showHour tm).length < CONTENT_MAX_LEN := by
  rw [stamp_length]
  cases showHour <;> decide

/-- An update keeps a clean content clean. -/
theorem Clean.update (h : Clean m) : Clean (m.update now tm) := by
  obtain ⟨bs, k, hcontent, hbs⟩ := h
  by_cases hnew : tm.toTm = m.last
  · rw [DateTimeModule.update, if_pos hnew]
    exact ⟨bs, k, hcontent, hbs⟩
  · have hle : bs.length ≤ (stamp m.showHour tm).length := by
      rcases hbs with ⟨-, rfl⟩ | ⟨t, -, rfl⟩
      · exact Nat.zero_le _
      · rw [stamp_length, stamp_length]
    obtain ⟨k', hk'⟩ := drop_zeros hcontent hle (stamp_length_lt _ _)
    refine ⟨stamp m.showHour tm, k', ?_, .inr ⟨tm, ?_, ?_⟩⟩
    · rw [update_content hnew, hk']
    all_goals rw [DateTimeModule.update, if_neg hnew]

/-- The text of a mode has the length of the mode. -/
theorem Shows.length (h : Shows m tm) :
    m.baseElement.content.cstring.length = if m.showHour then 23 else 14 := by
  rw [h.2, ← stamp_eq tm h.1, stamp_length]

theorem cstring_zeros {bs : Bytes} {k : Nat} {content : Buffer CONTENT_MAX_LEN}
    (h : content.toList = bs ++ List.replicate (k + 1) 0) (hbs : (0 : UInt8) ∉ bs) :
    content.cstring = bs := by
  rw [List.replicate_succ] at h
  exact Buffer.cstring_eq h hbs

/-- What a click at the time of the last update leaves is the text of the other mode. -/
theorem not_shows_toggle_same (h : Clean m) (hlast : tm.toTm = m.last) :
    ¬ Shows (m.toggleHour now tm) tm := by
  intro hshows
  obtain ⟨bs, k, hcontent, ⟨hnew, -⟩ | ⟨t, ht, rfl⟩⟩ := h
  · exact toTm_ne_new tm (hlast.trans hnew)
  · have hlen := hshows.length
    rw [DateTimeModule.toggleHour, DateTimeModule.update, if_pos hlast] at hlen
    have hfour : t.FourDigits := by
      have hyear := hshows.1
      rw [LocalTime.FourDigits, hlast.trans ht] at hyear
      exact hyear
    rw [cstring_zeros hcontent (zero_notMem_stamp t hfour _), stamp_length] at hlen
    cases hmode : m.showHour <;> simp [hmode] at hlen

/-- What a click leaves that takes away the hours, after they were written. -/
theorem not_shows_toggle_hours (h : Clean m) (hshow : m.showHour = true)
    (hwritten : m.last ≠ DateTimeModule.new.last) (hnew : tm.toTm ≠ m.last) :
    ¬ Shows (m.toggleHour now tm) tm := by
  intro hshows
  obtain ⟨bs, k, hcontent, ⟨hlast, -⟩ | ⟨t, -, rfl⟩⟩ := h
  · exact hwritten hlast
  · -- the hours of the last update are still there
    have hstale : (m.toggleHour now tm).baseElement.content.toList =
        (stamp false tm ++ timeBytes t) ++ List.replicate (k + 1) 0 := by
      have hdrop : (stamp true t ++ List.replicate (k + 1) 0).drop 14 =
          timeBytes t ++ List.replicate (k + 1) 0 := by
        rw [stamp, if_pos rfl, List.append_assoc, List.drop_left' (dateBytes_length t)]
      rw [toggleHour_content hnew, hcontent, hshow, Bool.not_true, stamp_length,
        if_neg Bool.false_ne_true, hdrop, List.append_assoc]
    have hzero : (0 : UInt8) ∉ stamp false tm ++ timeBytes t := by
      rw [List.mem_append]
      rintro (hz | hz)
      · exact zero_notMem_stamp tm hshows.1 false hz
      · exact zero_notMem_timeBytes t hz
    have hlen := hshows.length
    rw [cstring_zeros hstale hzero, List.length_append, stamp_length, timeBytes_length] at hlen
    have hmode : (m.toggleHour now tm).showHour = false := by
      rw [toggleHour, DateTimeModule.update, if_neg hnew]
      simp [hshow]
    rw [hmode] at hlen
    exact absurd hlen (by decide)

/-- What a fresh click leaves. -/
theorem shows_toggle_fresh (h : Clean m) (hfour : tm.FourDigits) (hnew : tm.toTm ≠ m.last)
    (hfresh : m.showHour = true → m.last = DateTimeModule.new.last) :
    Shows (m.toggleHour now tm) tm ∧ Clean (m.toggleHour now tm) := by
  obtain ⟨bs, k, hcontent, hbs⟩ := h
  have hle : bs.length ≤ (stamp (!m.showHour) tm).length := by
    rcases hbs with ⟨-, rfl⟩ | ⟨t, ht, rfl⟩
    · exact Nat.zero_le _
    · cases hshow : m.showHour with
      | true => exact absurd (ht.symm.trans (hfresh hshow)) (toTm_ne_new t)
      | false => rw [stamp_length, stamp_length]; decide
  obtain ⟨k', hk'⟩ := drop_zeros hcontent hle (stamp_length_lt _ _)
  have hstamp : (m.toggleHour now tm).baseElement.content.toList =
      stamp (!m.showHour) tm ++ List.replicate (k' + 1) 0 := by
    rw [toggleHour_content hnew, hk']
  have hmode : (m.toggleHour now tm).showHour = !m.showHour := by
    rw [toggleHour, DateTimeModule.update, if_neg hnew]
  have hlast : (m.toggleHour now tm).last = tm.toTm := by
    rw [toggleHour, DateTimeModule.update, if_neg hnew]
  refine ⟨?_, ?_⟩
  · refine ⟨hfour, ?_⟩
    rw [cstring_zeros hstamp (zero_notMem_stamp tm hfour _), hmode, stamp_eq tm hfour]
  · exact ⟨_, k', hstamp, .inr ⟨tm, hlast, by rw [hmode]⟩⟩

/-- **After a click** on a clean content the text is that of the mode exactly when the click is
fresh. -/
theorem shows_toggle_iff (h : Clean m) : Shows (m.toggleHour now tm) tm ↔
    tm.FourDigits ∧ tm.toTm ≠ m.last ∧
      (m.showHour = true → m.last = DateTimeModule.new.last) := by
  refine ⟨?_, ?_⟩
  · intro hshows
    have hnew : tm.toTm ≠ m.last := fun hlast => not_shows_toggle_same h hlast hshows
    refine ⟨hshows.1, hnew, fun hshow => ?_⟩
    by_contra hwritten
    exact not_shows_toggle_hours h hshow hwritten hnew hshows
  · rintro ⟨hfour, hnew, hfresh⟩
    exact (shows_toggle_fresh h hfour hnew hfresh).1

/-- A step that shows the text of its mode leaves a clean content. -/
theorem clean_step {s s' : DateTimeRun} {e : Nat × DateTimeOp} (h : Clean s.module)
    (hs : s.step localtime_r e = some s') (hshown : s'.Shown) : Clean s'.module := by
  obtain rfl := Option.some.inj hs
  obtain ⟨delay, ⟨⟨⟩⟩ | _⟩ := e
  · obtain ⟨hfour, hnew, hfresh⟩ := (shows_toggle_iff h).mp (hshown _ rfl)
    exact (shows_toggle_fresh h hfour hnew hfresh).2
  · exact h.update

/-- **One operation** leaves the text of the mode exactly under `Fresh`. -/
theorem fresh_iff {s : DateTimeRun} {e : Nat × DateTimeOp} (h : Clean s.module) :
    s.Fresh localtime_r e ↔ ∃ s', s.step localtime_r e = some s' ∧ s'.Shown := by
  obtain ⟨delay, ⟨⟨⟩⟩ | _⟩ := e
  · refine ⟨?_, ?_⟩
    · intro hfresh
      refine ⟨_, rfl, ?_⟩
      rintro tm htm
      obtain rfl := Option.some.inj htm
      exact (shows_toggle_iff h).mpr hfresh
    · rintro ⟨s', hs, hshown⟩
      obtain rfl := Option.some.inj hs
      exact (shows_toggle_iff h).mp (hshown _ rfl)
  · exact iff_of_true trivial ⟨_, rfl, nofun⟩

/-- **The text after a click** is that of the mode, in every run, if and only if every click of the
run is fresh: the year has four digits, it comes at another time than the last update, and if it
takes away the hours nothing has been written yet. As long as all clicks are fresh, the content is
clean, and every click can be judged on its own. -/
theorem shown_iff_fresh (localtime_r : Int → LocalTime) (now : Int)
    (es : List (Nat × DateTimeOp)) :
    Always (step localtime_r) Shown (start now) es ↔
      AllSteps (step localtime_r) (Fresh localtime_r) (start now) es := by
  have hstart : (start now).Shown := nofun
  have hrule : Always (step localtime_r) Shown (start now) es ↔
      (start now).Shown ∧ AllSteps (step localtime_r) (Fresh localtime_r) (start now) es :=
    always_iff_allSteps_of (fun s e s' hs _ h hshown => clean_step hs h hshown)
      (fun s e _ hs _ => fresh_iff hs) clean_new (allSteps_of_forall (fun _ _ => trivial) _ es)
  rw [hrule]
  exact and_iff_right hstart

/-- A clock that shows another second at every time of a day, all on the second of January. -/
def clock (now : Int) : LocalTime :=
  { LocalTime.january 1 with
    tm_sec := now % 60
    tm_min := now / 60 % 60
    tm_hour := now / 3600 % 24
    sec := by omega
    min := by omega
    hour := by omega }

/-- The hours are shown, and a click ten seconds later leaves them where they are. -/
theorem hours_stay :
    ¬ Always (step clock) Shown (start 0) [(0, .update), (10, .handle .toggleHour)] := by
  rintro ⟨-, s, hs, -, s', hs', hshown⟩
  obtain rfl := Option.some.inj hs
  obtain rfl := Option.some.inj hs'
  have hlen := Shows.length (hshown _ rfl)
  exact absurd hlen (by decide)

end DateTimeRun

end Photonbar
