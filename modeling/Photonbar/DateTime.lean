import Photonbar.Schedule
import Photonbar.TextParse

/-!
# Date and time (`datetime.h`)

What `update` writes into the content is a stretch of bytes without a NUL behind it (`stamp`). It
is the day of the week and the time in the layout of the mode, as long as the year has four digits
(`stamp_eq`). `parsed_iff` says on which days of the week it is decoded as such: three bytes of
`mié` are not the whole of it, and the decoder then takes the blank that follows for the rest of
the `é`.

Digits are written one at a time, as a `char` that is computed from the number, and so the first
thing to prove is that these are the last digits of the number in decimal (`write2digits_eq`,
`yearDigits_eq`). Everything behind the day of the week is printable ASCII, and decodes as it
stands. An update at a time that is shown already does nothing, which is also what `Schedule` says
of the module (`toModule_update`).
-/

namespace Photonbar

/-- A `std::tm` as `localtime_r` fills it. -/
structure LocalTime extends Tm where
  sec : 0 ≤ tm_sec ∧ tm_sec ≤ 60
  min : 0 ≤ tm_min ∧ tm_min ≤ 59
  hour : 0 ≤ tm_hour ∧ tm_hour ≤ 23
  mday : 1 ≤ tm_mday ∧ tm_mday ≤ 31
  mon : 0 ≤ tm_mon ∧ tm_mon ≤ 11
  wday : 0 ≤ tm_wday ∧ tm_wday ≤ 6

/-- What the handler of the element does. -/
inductive DateTimeHandler where
  | toggleHour
  deriving DecidableEq

/-- `DateTimeModule`. -/
structure DateTimeModule where
  baseElement : BarElement DateTimeHandler
  showHour : Bool := true
  /-- `lastSec` to `lastYear` -/
  last : Tm := ⟨-1, -1, -1, -1, -1, -1, -1⟩
  lastUpdate : Int := 0
  secondsPerUpdate : Int := 1

namespace DateTimeModule

/-- `dias`. -/
def dias : Vector Text 7 := #v["dom".toList, "lun".toList, "mar".toList, "mié".toList,
  "jue".toList, "vie".toList, "sab".toList]

/-- The constructor. -/
def new : DateTimeModule where
  baseElement := BarElement.new.setEvent .CLICK_LEFT .toggleHour

/-- `getElements`. -/
def getElements (m : DateTimeModule) : List (BarElement DateTimeHandler) := [m.baseElement]

/-- `'0' + val`, as a `char`. -/
def digit (val : Int) : UInt8 := UInt8.ofInt ('0'.toNat + val)

/-- `write2digits`. -/
def write2digits (val : Int) : Bytes := [digit (val.tdiv 10), digit (val.tmod 10)]

/-- `dayStr`. -/
def dayStr (tm : LocalTime) : Text :=
  dias.get ⟨tm.tm_wday.toNat, by have := tm.wday; omega⟩

/-- What `update` writes into `contentBuf` of the day. -/
def dateBytes (tm : LocalTime) : Bytes :=
  let year := tm.tm_year + 1900
  (encode (dayStr tm)).take 3 ++ ascii [' '] ++
    write2digits tm.tm_mday ++ ascii ['-'] ++ write2digits (tm.tm_mon + 1) ++ ascii ['-'] ++
    [digit (year.tdiv 1000), digit ((year.tmod 1000).tdiv 100),
      digit (((year.tmod 1000).tmod 100).tdiv 10), digit (((year.tmod 1000).tmod 100).tmod 10)]

/-- What `update` writes into `contentBuf` of the time of day. -/
def timeBytes (tm : LocalTime) : Bytes :=
  ascii [' '] ++ write2digits tm.tm_hour ++ ascii [':'] ++ write2digits tm.tm_min ++
    ascii [':'] ++ write2digits tm.tm_sec

/-- `contentBuf`, up to `p`. -/
def stamp (showHour : Bool) (tm : LocalTime) : Bytes :=
  dateBytes tm ++ if showHour then timeBytes tm else []

/-- `update`, at `now`, where `localtime_r` gives `tm`. -/
def update (m : DateTimeModule) (now : Int) (tm : LocalTime) : DateTimeModule :=
  if tm.toTm = m.last then m
  else
    let contentBuf := stamp m.showHour tm
    { m with
      last := tm.toTm
      baseElement := { m.baseElement with
        content := (m.baseElement.content.writeAll 0 contentBuf).getD m.baseElement.content
        contentLen := contentBuf.length
        dirtyContent := true }
      lastUpdate := now }

/-- The click. It is followed by a rendering, which leaves the bytes of the content. -/
def toggleHour (m : DateTimeModule) (now : Int) (tm : LocalTime) : DateTimeModule :=
  let showHour := !m.showHour
  update { m with showHour, secondsPerUpdate := if showHour then 1 else 60 } now tm

end DateTimeModule

/-- What happens to the date. -/
inductive DateTimeOp where
  | handle (h : DateTimeHandler)
  | update
  deriving DecidableEq

/-- One operation. -/
def DateTimeModule.step (m : DateTimeModule) (now : Int) (tm : LocalTime) :
    DateTimeOp → DateTimeModule
  | .handle .toggleHour => m.toggleHour now tm
  | .update => m.update now tm

/-! ## When it updates -/

namespace DateTimeModule

/-- What `Schedule` says of the module, after this many updates. -/
def toModule (m : DateTimeModule) (updates : Nat) : Module where
  cls := .datetime
  secondsPerUpdate := m.secondsPerUpdate
  lastUpdate := m.lastUpdate
  last := if m.last = DateTimeModule.new.last then none else some m.last
  showHour := m.showHour
  updates := updates

/-- No clock shows what a new module holds. -/
theorem toTm_ne_new (tm : LocalTime) : tm.toTm ≠ DateTimeModule.new.last := by
  intro h
  have hsec := tm.sec
  rw [h] at hsec
  exact absurd hsec.1 (by decide)

/-- An update is one of the schedule. -/
theorem toModule_update {zone : Zone} {m : DateTimeModule} {now : Int} {tm : LocalTime}
    (htm : zone.localtime_r now = tm.toTm) (updates : Nat) :
    (m.update now tm).toModule (updates + 1) = (m.toModule updates).update zone now := by
  have hnone := toTm_ne_new tm
  by_cases hnew : tm.toTm = m.last
  · have hlast : (m.toModule updates).last = some (zone.localtime_r now) := by
      rw [toModule, ← hnew, if_neg hnone, htm]
    have hkeep : (m.toModule updates).update zone now =
        { m.toModule updates with updates := updates + 1 } := if_pos hlast
    rw [update, if_pos hnew, hkeep]
    rfl
  · have hlast : (m.toModule updates).last ≠ some (zone.localtime_r now) := by
      rw [htm]
      rw [toModule]
      split
      · exact nofun
      · exact fun h => hnew (Option.some.inj h).symm
    have hwrite : (m.toModule updates).update zone now =
        { m.toModule updates with
          updates := updates + 1, last := some (zone.localtime_r now), lastUpdate := now } :=
      if_neg hlast
    rw [update, if_neg hnew, hwrite, htm]
    simp only [toModule, if_neg hnone]

end DateTimeModule

/-! ## The layout -/

/-- The last `w` digits of a number. -/
def digits : Nat → Nat → Text
  | 0, _ => []
  | w + 1, n => digits w (n / 10) ++ [Nat.digitChar (n % 10)]

namespace LocalTime

/-- The year has four digits. -/
def FourDigits (tm : LocalTime) : Prop := 0 ≤ tm.tm_year + 1900 ∧ tm.tm_year + 1900 ≤ 9999

/-- ` DD-MM-YYYY`. -/
def dateText (tm : LocalTime) : Text :=
  ' ' :: digits 2 tm.tm_mday.toNat ++ '-' :: digits 2 (tm.tm_mon + 1).toNat ++
    '-' :: digits 4 (tm.tm_year + 1900).toNat

/-- ` HH:MM:SS`. -/
def timeText (tm : LocalTime) : Text :=
  ' ' :: digits 2 tm.tm_hour.toNat ++ ':' :: digits 2 tm.tm_min.toNat ++
    ':' :: digits 2 tm.tm_sec.toNat

/-- What a mode shows behind the day of the week. -/
def layout (tm : LocalTime) (showHour : Bool) : Text :=
  tm.dateText ++ if showHour then tm.timeText else []

end LocalTime

theorem Printable.plain {c : Char} (h : Printable c) : c.val ≠ 0 ∧ c.val ≠ 10 := by
  obtain ⟨hge, -⟩ := h
  refine ⟨?_, ?_⟩
  all_goals
    intro h₀
    rw [Char.toNat, h₀] at hge
    exact absurd hge (by decide)

theorem digitChar_printable (n : Nat) : Printable (Nat.digitChar (n % 10)) := by
  have h : ∀ d : Fin 10, 32 ≤ (Nat.digitChar d.val).toNat ∧ (Nat.digitChar d.val).toNat < 128 := by
    decide
  exact h ⟨n % 10, Nat.mod_lt _ (by decide)⟩

theorem digits_printable : ∀ w n, ∀ c ∈ digits w n, Printable c := by
  intro w
  induction w with
  | zero => exact fun n c hc => (List.not_mem_nil hc).elim
  | succ w ih =>
    intro n c hc
    rcases List.mem_append.mp hc with hc | hc
    · exact ih _ c hc
    · obtain rfl := List.mem_singleton.mp hc
      exact digitChar_printable n

/-- UTF-8 is ASCII on ASCII. -/
theorem encode_eq_ascii {t : Text} (ht : ∀ c ∈ t, Printable c) : encode t = ascii t := by
  induction t with
  | nil => rfl
  | cons c t ih =>
    have hc := ht c List.mem_cons_self
    have hone : String.utf8EncodeChar c = [UInt8.ofNat c.toNat] := by
      have : c.val.toNat ≤ 127 := Nat.le_of_lt_succ hc.2
      rw [String.utf8EncodeChar, if_pos this]
      rfl
    rw [encode, List.flatMap_cons, hone]
    exact congrArg _ (ih fun d hd => ht d (List.mem_cons_of_mem c hd))

/-- Three numbers, with a separator between them. -/
theorem joined_printable {sep : Char} (hsep : Printable sep) (a b c w : Nat) :
    ∀ d ∈ ' ' :: digits 2 a ++ sep :: digits 2 b ++ sep :: digits w c, Printable d := by
  simp only [List.cons_append, List.mem_cons, List.mem_append]
  rintro d (rfl | (hd | rfl | hd) | rfl | hd)
  · exact ⟨by decide, by decide⟩
  · exact digits_printable _ _ _ hd
  · exact hsep
  · exact digits_printable _ _ _ hd
  · exact hsep
  · exact digits_printable _ _ _ hd

theorem LocalTime.dateText_printable (tm : LocalTime) : ∀ c ∈ tm.dateText, Printable c :=
  joined_printable ⟨by decide, by decide⟩ _ _ _ _

theorem LocalTime.timeText_printable (tm : LocalTime) : ∀ c ∈ tm.timeText, Printable c :=
  joined_printable ⟨by decide, by decide⟩ _ _ _ _

theorem LocalTime.layout_printable (tm : LocalTime) (showHour : Bool) :
    ∀ c ∈ tm.layout showHour, Printable c := by
  intro c hc
  rcases List.mem_append.mp hc with hc | hc
  · exact tm.dateText_printable c hc
  · cases showHour with
    | false => exact (List.not_mem_nil hc).elim
    | true => exact tm.timeText_printable c hc

/-! ## What is written -/

namespace DateTimeModule

theorem digit_eq {d : Nat} (h : d < 10) : digit d = UInt8.ofNat (Nat.digitChar d).toNat := by
  have hall : ∀ d : Fin 10, digit d.val = UInt8.ofNat (Nat.digitChar d.val).toNat := by decide
  exact hall ⟨d, h⟩

theorem write2digits_eq {n : Nat} (h : n ≤ 99) : write2digits n = ascii (digits 2 n) := by
  have htens : (n : Int).tdiv 10 = (n / 10 % 10 : Nat) := by
    rw [Int.tdiv_eq_ediv_of_nonneg (by omega)]
    omega
  have hones : (n : Int).tmod 10 = (n % 10 : Nat) := by
    rw [Int.tmod_eq_emod_of_nonneg (by omega)]
    omega
  rw [write2digits, htens, hones, digit_eq (by omega), digit_eq (by omega)]
  rfl

/-- The four digits of a year. -/
theorem yearDigits_eq {n : Nat} (h : n ≤ 9999) :
    [digit ((n : Int).tdiv 1000), digit (((n : Int).tmod 1000).tdiv 100),
      digit ((((n : Int).tmod 1000).tmod 100).tdiv 10),
      digit ((((n : Int).tmod 1000).tmod 100).tmod 10)] = ascii (digits 4 n) := by
  have hpos : 0 ≤ (n : Int) := by omega
  rw [Int.tdiv_eq_ediv_of_nonneg hpos, Int.tmod_eq_emod_of_nonneg hpos,
    Int.tdiv_eq_ediv_of_nonneg (by omega), Int.tmod_eq_emod_of_nonneg (by omega),
    Int.tdiv_eq_ediv_of_nonneg (by omega), Int.tmod_eq_emod_of_nonneg (by omega)]
  have hthousands : (n : Int) / 1000 = (n / 10 / 10 / 10 % 10 : Nat) := by omega
  have hhundreds : (n : Int) % 1000 / 100 = (n / 10 / 10 % 10 : Nat) := by omega
  have htens : (n : Int) % 1000 % 100 / 10 = (n / 10 % 10 : Nat) := by omega
  have hones : (n : Int) % 1000 % 100 % 10 = (n % 10 : Nat) := by omega
  rw [hthousands, hhundreds, htens, hones, digit_eq (by omega), digit_eq (by omega),
    digit_eq (by omega), digit_eq (by omega)]
  rfl

variable (tm : LocalTime)

theorem timeBytes_eq : timeBytes tm = ascii tm.timeText := by
  obtain ⟨⟨sec, min, hour, mday, wday, mon, year⟩, hsec, hmin, hhour, -, -, -⟩ := tm
  simp only at hsec hmin hhour
  lift sec to Nat using hsec.1
  lift min to Nat using hmin.1
  lift hour to Nat using hhour.1
  simp only [timeBytes, LocalTime.timeText, Int.toNat_natCast]
  rw [write2digits_eq (by omega), write2digits_eq (by omega), write2digits_eq (by omega)]
  simp [ascii]

theorem dateBytes_eq (h : tm.FourDigits) :
    dateBytes tm = (encode (dayStr tm)).take 3 ++ ascii tm.dateText := by
  obtain ⟨hyear, hyear'⟩ := h
  have hmday := tm.mday
  have hmon := tm.mon
  have hday : (tm.tm_mday : Int) = (tm.tm_mday.toNat : Int) := by omega
  have hmonth : tm.tm_mon + 1 = ((tm.tm_mon + 1).toNat : Int) := by omega
  have hyears : tm.tm_year + 1900 = ((tm.tm_year + 1900).toNat : Int) := by omega
  rw [dateBytes, hday, hmonth, hyears]
  rw [write2digits_eq (by omega), write2digits_eq (by omega), yearDigits_eq (by omega)]
  simp [ascii, LocalTime.dateText]

theorem dayBytes_length : ((encode (dayStr tm)).take 3).length = 3 := by
  have h : ∀ i : Fin 7, ((encode dias[i]).take 3).length = 3 := by decide
  exact h ⟨tm.tm_wday.toNat, by have := tm.wday; omega⟩

theorem zero_notMem_dayBytes : (0 : UInt8) ∉ (encode (dayStr tm)).take 3 := by
  have h : ∀ i : Fin 7, (0 : UInt8) ∉ (encode dias[i]).take 3 := by decide
  exact h ⟨tm.tm_wday.toNat, by have := tm.wday; omega⟩

theorem dateBytes_length : (dateBytes tm).length = 14 := by
  simp only [dateBytes, List.length_append, dayBytes_length]
  rfl

theorem timeBytes_length : (timeBytes tm).length = 9 := by
  simp [timeBytes, write2digits, ascii]

theorem stamp_length (showHour : Bool) :
    (stamp showHour tm).length = if showHour then 23 else 14 := by
  cases showHour <;> simp [stamp, dateBytes_length, timeBytes_length]

/-- **What is written** is the day of the week and the layout of the mode. -/
theorem stamp_eq (h : tm.FourDigits) (showHour : Bool) :
    stamp showHour tm = (encode (dayStr tm)).take 3 ++ ascii (tm.layout showHour) := by
  rw [stamp, dateBytes_eq tm h, List.append_assoc]
  cases showHour <;> simp [timeBytes_eq, LocalTime.layout, ascii]

/-- What is written after the year has no NUL in any year. -/
theorem zero_notMem_timeBytes : (0 : UInt8) ∉ timeBytes tm := by
  rw [timeBytes_eq]
  exact zero_notMem_ascii tm.timeText_printable

theorem zero_notMem_stamp (h : tm.FourDigits) (showHour : Bool) : (0 : UInt8) ∉ stamp showHour tm := by
  rw [stamp_eq tm h, List.mem_append]
  rintro (hz | hz)
  · exact zero_notMem_dayBytes tm hz
  · exact zero_notMem_ascii (tm.layout_printable showHour) hz

variable {tm} {m : DateTimeModule} {now : Int}

/-- **An update** at another time overwrites the front of the content, and keeps what is behind. -/
theorem update_content (hnew : tm.toTm ≠ m.last) :
    (m.update now tm).baseElement.content.toList =
      stamp m.showHour tm ++
        m.baseElement.content.toList.drop (stamp m.showHour tm).length := by
  have hfit : 0 + (stamp m.showHour tm).length ≤ CONTENT_MAX_LEN := by
    rw [stamp_length]
    cases m.showHour <;> decide
  obtain ⟨content, hw, hlist⟩ :=
    Buffer.writeAll_eq_some (stamp m.showHour tm) m.baseElement.content 0 hfit
  rw [update, if_neg hnew]
  have hwrite : m.baseElement.content.writeAll 0 (stamp m.showHour tm) = some content := hw
  simp only [hwrite, Option.getD_some, hlist, List.take_zero, List.nil_append, Nat.zero_add]

theorem toggleHour_content (hnew : tm.toTm ≠ m.last) :
    (m.toggleHour now tm).baseElement.content.toList =
      stamp (!m.showHour) tm ++
        m.baseElement.content.toList.drop (stamp (!m.showHour) tm).length :=
  update_content (m := { m with
    showHour := !m.showHour, secondsPerUpdate := if !m.showHour then 1 else 60 }) hnew

/-! ## What is shown -/

/-- The character that a cut `mié` and the space behind it become. -/
theorem codePoints_cutDay {content : Buffer CONTENT_MAX_LEN} {rest : Bytes} (n : Nat)
    (h : content.toList = 0x6d :: 0x69 :: 0xc3 :: 0x20 :: rest) :
    codePoints content (n + 3) 0 =
      (codePoints content n 4).map fun r => (0x6d :: 0x69 :: 0xe0 :: r.1, r.2) := by
  have h₀ : Bar.contentByte content 0 = .ok 0x6d := contentByte_eq (by rw [h]; rfl)
  have h₁ : Bar.contentByte content 1 = .ok 0x69 := contentByte_eq (by rw [h]; rfl)
  have h₂ : Bar.contentByte content 2 = .ok 0xc3 := contentByte_eq (by rw [h]; rfl)
  have h₃ : Bar.contentByte content 3 = .ok 0x20 := contentByte_eq (by rw [h]; rfl)
  have hm : decodeUtf8Char (fun j => Bar.contentByte content (0 + j)) = .ok ⟨0x6d, 1⟩ := by
    simp only [decodeUtf8Char, h₀, bind, Except.bind, Nat.zero_add]
    rfl
  have hi : decodeUtf8Char (fun j => Bar.contentByte content (1 + j)) = .ok ⟨0x69, 1⟩ := by
    simp only [decodeUtf8Char, h₁, bind, Except.bind, Nat.add_zero]
    rfl
  have hcut : decodeUtf8Char (fun j => Bar.contentByte content (2 + j)) = .ok ⟨0xe0, 2⟩ := by
    simp only [decodeUtf8Char, h₂, h₃, bind, Except.bind, Nat.add_zero, Nat.reduceAdd]
    rfl
  have hfirst : codePoints content (n + 3) 0 =
      (codePoints content (n + 2) 1).map fun r => (0x6d :: r.1, r.2) :=
    codePoints_step h₀ (by decide) hm
  have hsecond : codePoints content (n + 2) 1 =
      (codePoints content (n + 1) 2).map fun r => (0x69 :: r.1, r.2) :=
    codePoints_step h₁ (by decide) hi
  have hthird : codePoints content (n + 1) 2 =
      (codePoints content n 4).map fun r => (0xe0 :: r.1, r.2) :=
    codePoints_step h₂ (by decide) hcut
  rw [hfirst, hsecond, hthird]
  cases codePoints content n 4 <;> rfl

theorem dayBytes_eq (h : tm.tm_wday ≠ 3) : (encode (dayStr tm)).take 3 = encode (dayStr tm) := by
  have hall : ∀ i : Fin 7, i.val ≠ 3 → (encode dias[i]).take 3 = encode dias[i] := by decide
  have hwday := tm.wday
  exact hall ⟨tm.tm_wday.toNat, by omega⟩ (by simp only; omega)

theorem dayStr_wednesday (h : tm.tm_wday = 3) : dayStr tm = ['m', 'i', 'é'] := by
  simp only [dayStr, h]
  rfl

theorem dayStr_plain : ∀ c ∈ dayStr tm, c.val ≠ 0 ∧ c.val ≠ 10 := by
  have hall : ∀ i : Fin 7, dias[i].all (fun c => c.val ≠ 0 ∧ c.val ≠ 10) = true := by decide
  intro c hc
  have hday := hall ⟨tm.tm_wday.toNat, by have := tm.wday; omega⟩
  simpa using List.all_eq_true.mp hday c hc

/-- What is written into an empty content has zeros behind it. -/
theorem update_empty (hempty : m.baseElement.content = Vector.replicate _ 0)
    (hnew : tm.toTm ≠ m.last) (h : tm.FourDigits) :
    ∃ k, ∀ now, (m.update now tm).baseElement.content.toList =
      (encode (dayStr tm)).take 3 ++ ascii (tm.layout m.showHour) ++ List.replicate (k + 1) 0 := by
  refine ⟨CONTENT_MAX_LEN - (stamp m.showHour tm).length - 1, fun now => ?_⟩
  have hzeros : CONTENT_MAX_LEN - (stamp m.showHour tm).length - 1 + 1 =
      CONTENT_MAX_LEN - (stamp m.showHour tm).length := by
    rw [stamp_length]
    cases m.showHour <;> rfl
  rw [update_content hnew, hempty, Vector.toList_replicate, List.drop_replicate, hzeros,
    ← stamp_eq tm h]

/-- On a Wednesday another character is shown in the place of the third one. -/
theorem parsed_wednesday (hempty : m.baseElement.content = Vector.replicate _ 0)
    (hnew : tm.toTm ≠ m.last) (hyear : tm.FourDigits) (hwday : tm.tm_wday = 3) :
    codePoints (m.update now tm).baseElement.content CONTENT_MAX_LEN 0 ≠
      .ok ((dayStr tm ++ tm.layout m.showHour).map (·.val), true) := by
  intro h
  obtain ⟨k, hcontent⟩ := update_empty hempty hnew hyear
  replace hcontent := hcontent now
  have hcut : (encode ['m', 'i', 'é']).take 3 = [0x6d, 0x69, 0xc3] := by decide
  rw [dayStr_wednesday hwday, hcut] at hcontent
  rw [dayStr_wednesday hwday, codePoints_cutDay 252 hcontent] at h
  cases hrest : codePoints (m.update now tm).baseElement.content 252 4 with
  | error f =>
    rw [hrest] at h
    cases h
  | ok r =>
    rw [hrest] at h
    obtain ⟨hchars, -⟩ := Prod.mk.inj (Except.ok.inj h)
    have hthird := congrArg (·[2]?) hchars
    exact absurd (Option.some.inj hthird) (by decide)

/-- **What an update shows** on an empty content: it is decoded as the day of the week and the
layout of the mode if and only if it is not a Wednesday. The labels of the other days are three
bytes of ASCII; the third byte of `mié` is the first one of its `é`, and the second one is cut off.
-/
theorem parsed_iff (hempty : m.baseElement.content = Vector.replicate _ 0)
    (hnew : tm.toTm ≠ m.last) (hyear : 1000 ≤ tm.tm_year + 1900 ∧ tm.tm_year + 1900 ≤ 9999) :
    codePoints (m.update now tm).baseElement.content CONTENT_MAX_LEN 0 =
        .ok ((dayStr tm ++ tm.layout m.showHour).map (·.val), true) ↔
      tm.tm_wday ≠ 3 := by
  have hfour : tm.FourDigits := ⟨by omega, hyear.2⟩
  refine ⟨?_, ?_⟩
  · exact fun h hwday => parsed_wednesday hempty hnew hfour hwday h
  · intro hwday
    obtain ⟨k, hcontent⟩ := update_empty hempty hnew hfour
    replace hcontent := hcontent now
    have hlayout := tm.layout_printable m.showHour
    rw [dayBytes_eq hwday, ← encode_eq_ascii hlayout] at hcontent
    apply HoldsText.codePoints
    refine ⟨fun c hc => ?_, List.replicate k 0, ?_⟩
    · rcases List.mem_append.mp hc with hc | hc
      · exact dayStr_plain c hc
      · exact (hlayout c hc).plain
    · rw [hcontent, ← List.replicate_succ, encode, encode, encode, List.flatMap_append]

end DateTimeModule

/-- 10:30 on a day at the start of 2025: the first one was a Wednesday. -/
def LocalTime.january (day : Fin 31) : LocalTime where
  tm_sec := 0
  tm_min := 30
  tm_hour := 10
  tm_mday := day + 1
  tm_wday := (day + 3) % 7
  tm_mon := 0
  tm_year := 125
  sec := by decide
  min := by decide
  hour := by decide
  mday := by omega
  mon := by decide
  wday := by omega

namespace DateTimeModule

/-- On the first of January, `mié` is not shown. -/
theorem cut_label :
    codePoints (new.update 1735727400 (.january 0)).baseElement.content CONTENT_MAX_LEN 0 ≠
      .ok ("mié 01-01-2025 10:30:00".toList.map (·.val), true) :=
  parsed_wednesday rfl (by decide) ⟨by decide, by decide⟩ rfl

/-- On the second, `jue` is. -/
theorem whole_label :
    codePoints (new.update 1735813800 (.january 1)).baseElement.content CONTENT_MAX_LEN 0 =
      .ok ("jue 02-01-2025 10:30:00".toList.map (·.val), true) :=
  (parsed_iff rfl (by decide) ⟨by decide, by decide⟩).mpr (by decide)

end DateTimeModule

end Photonbar
