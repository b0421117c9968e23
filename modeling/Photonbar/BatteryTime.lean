import Mathlib.Tactic.Linarith
import Mathlib.Tactic.Positivity
import Photonbar.Battery

/-!
# The time that the battery has left (`battery.h`)

`updateVisuals` prints hours and minutes of an `int`. They are the time if and only if this time is
neither negative nor out of range (`BatteryModule.showsTime_iff`): a battery that is charged above
what it counts as full has a negative time to go, and one that hardly charges at all has more
minutes to go than an `int` has room for.

The condition is said of what the update has read, as a product and not as a quotient (`Timely`),
and is that of the minutes (`timely_iff`). Where it holds, hours and minutes are quotient and rest,
none of them negative, and the conversion has cut off less than a minute (`time_of_timely`). That
the whole text fits into the content, so that it is printed as it is, takes a bound for the length
of a percentage (`fixed_one_length`).
-/

namespace Photonbar

/-! ## Conversions -/

theorem truncate_of_nonneg {x : ℚ} (h : 0 ≤ x) : truncate x = ⌊x⌋ := if_neg (not_lt.mpr h)

theorem floatToInt_range (x : ℚ) : -2 ^ 31 ≤ floatToInt x ∧ floatToInt x < 2 ^ 31 := by
  simp only [floatToInt]
  split
  · assumption
  · decide

/-- The quotient and the remainder of a whole number of minutes. -/
theorem sixty (n : Int) : 60 * n.tdiv 60 + n.tmod 60 = n := Int.mul_tdiv_add_tmod n 60

theorem tmod_sixty {n : Int} (h : 0 ≤ n) : 0 ≤ n.tmod 60 ∧ n.tmod 60 ≤ 59 := by
  have hlt := Int.tmod_lt_of_pos n (show (0 : Int) < 60 by decide)
  exact ⟨Int.tmod_nonneg 60 h, by omega⟩

/-! ## The text -/

theorem roundHalfEven_le {x : ℚ} {n : Nat} (hn : 0 < n) (h : x < n) : roundHalfEven x ≤ n := by
  have hnum : x.num.toNat / x.den < n := by
    have hlt : (x.num : ℚ) < n * x.den := by
      rw [← Rat.mul_den_eq_num]
      exact mul_lt_mul_of_pos_right h (by exact_mod_cast x.den_pos)
    have hlt : x.num < n * x.den := by exact_mod_cast hlt
    rw [Nat.div_lt_iff_lt_mul x.den_pos]
    have hpos : 0 < n * x.den := Nat.mul_pos hn x.den_pos
    omega
  simp only [roundHalfEven]
  split
  · omega
  · split
    · omega
    · omega

/-- A number below `10 ^ k` is printed in that many characters, and three more. -/
theorem fixed_one_length {x : ℚ} {k : Nat} (h₀ : 0 ≤ x) (h : x < 10 ^ k) :
    (fixed 1 x).length ≤ k + 3 := by
  have hround : roundHalfEven (x * 10 ^ 1) ≤ 10 ^ (k + 1) := by
    refine roundHalfEven_le (by positivity) ?_
    push_cast
    rw [pow_one, pow_succ]
    linarith
  have hwhole : (Nat.toDigits 10 (roundHalfEven (x * 10 ^ 1) / 10 ^ 1)).length ≤ k + 1 := by
    rw [Nat.length_toDigits_le_iff (by decide) (by omega)]
    rw [Nat.pow_succ] at hround ⊢
    have := Nat.pow_pos (n := k) (show 0 < 10 by decide)
    omega
  have htenth : (Nat.toDigits 10 (roundHalfEven (x * 10 ^ 1) % 10 ^ 1)).length ≤ 1 := by
    rw [Nat.length_toDigits_le_iff (by decide) (by decide)]
    exact Nat.mod_lt _ (by decide)
  simp only [fixed, if_neg (not_lt.mpr h₀), one_ne_zero, if_false, List.nil_append,
    List.length_append, List.length_cons, List.length_leftpad]
  omega

namespace BatteryModule

/-! ## What is printed -/

/-- `totalMins / 60`. -/
def hours (m : BatteryModule) : Int := (floatToInt m.minutes).tdiv 60

/-- `totalMins % 60`. -/
def mins (m : BatteryModule) : Int := (floatToInt m.minutes).tmod 60

/-- The time is shown, in hours and minutes and rounded down. -/
structure ShowsTime (m : BatteryModule) : Prop where
  printed : m.textElement.content.cstring =
    ascii (fixed 1 m.percentage ++ ['%', ' '] ++ decimal2 m.hours ++ ':' :: decimal2 m.mins)
  fits : -2 ^ 31 ≤ truncate m.minutes ∧ truncate m.minutes < 2 ^ 31
  hour : 0 ≤ m.hours
  minute : 0 ≤ m.mins ∧ m.mins ≤ 59
  floor : 60 * m.hours + m.mins = ⌊m.minutes⌋

/-- What is still to go, into the battery or out of it. -/
def togo (m : BatteryModule) : Int := if m.isCharging then m.energyFull - m.energyNow else m.energyNow

/-- What is still to go is not negative, and does not take `2 ^ 31` minutes. -/
def Timely (m : BatteryModule) : Prop := 0 ≤ m.togo ∧ 60 * m.togo < 2 ^ 31 * m.powerNow

instance (m : BatteryModule) : Decidable m.Timely := inferInstanceAs (Decidable (_ ∧ _))

theorem minutes_eq (m : BatteryModule) : m.minutes = (60 * m.togo : Int) / m.powerNow := by
  rw [minutes, togo]
  split
  · push_cast
    ring
  · push_cast
    ring

/-- **The condition, for the minutes.** -/
theorem timely_iff {m : BatteryModule} (hpower : 0 < m.powerNow) :
    m.Timely ↔ 0 ≤ m.minutes ∧ m.minutes < 2 ^ 31 := by
  have hpos : (0 : ℚ) < m.powerNow := by exact_mod_cast hpower
  rw [minutes_eq, le_div_iff₀ hpos, zero_mul, div_lt_iff₀ hpos, Timely]
  refine and_congr ?_ ?_
  · rw [Int.cast_nonneg_iff]
    omega
  · exact_mod_cast Iff.rfl

/-- Where the minutes are in range, hours and minutes are theirs. -/
theorem time_of_timely {m : BatteryModule} (h₀ : 0 ≤ m.minutes) (h : m.minutes < 2 ^ 31) :
    (-2 ^ 31 ≤ truncate m.minutes ∧ truncate m.minutes < 2 ^ 31) ∧ 0 ≤ m.hours ∧
      (0 ≤ m.mins ∧ m.mins ≤ 59) ∧ 60 * m.hours + m.mins = ⌊m.minutes⌋ := by
  have hfloor : 0 ≤ ⌊m.minutes⌋ := Int.floor_nonneg.mpr h₀
  have hlt : ⌊m.minutes⌋ < 2 ^ 31 := Int.floor_lt.mpr (by exact_mod_cast h)
  have htotal : floatToInt m.minutes = ⌊m.minutes⌋ := by
    simp only [floatToInt, truncate_of_nonneg h₀]
    exact if_pos ⟨by omega, hlt⟩
  rw [truncate_of_nonneg h₀, hours, mins, htotal]
  exact ⟨⟨by omega, hlt⟩, Int.tdiv_nonneg hfloor (by decide), tmod_sixty hfloor, sixty _⟩

/-! ## An update -/

theorem scanLong_lt {t : Text} {n : Int} (h : scanLong t = some n) : n < 2 ^ 63 := by
  rw [scanLong] at h
  simp only at h
  split at h
  · cases h
  · obtain rfl := Option.some.inj h
    omega

theorem readLong_lt (r : BatteryReading) (f1 f2 : String) : r.readLong f1 f2 < 2 ^ 63 := by
  rw [BatteryReading.readLong]
  split
  · decide
  · next t _ =>
    cases h : scanLong t with
    | none => decide
    | some n => exact scanLong_lt h

variable (m : BatteryModule) (r : BatteryReading)

/-- What an update has read. -/
def reads : BatteryModule :=
  { m.readStatus r with
    energyNow := r.readLong "energy_now" "charge_now"
    energyFull := r.readLong "energy_full" "charge_full"
    powerNow := r.readLong "power_now" "current_now"
    percentage := r.readLong "energy_now" "charge_now" / r.readLong "energy_full" "charge_full" * 100 }

/-- The alert changes nothing else. -/
theorem checkBatteryAlert_eq : ∃ sent, m.checkBatteryAlert.1 = { m with notificationSent := sent } := by
  rw [checkBatteryAlert]
  split
  · exact ⟨_, rfl⟩
  · split
    · exact ⟨_, rfl⟩
    · exact ⟨_, rfl⟩

/-- An update shows what it has read. -/
theorem update_eq (hfull : 0 < r.readLong "energy_full" "charge_full") : ∃ sent,
    (m.update r).1 = { (m.reads r).updateVisuals with notificationSent := sent, lastUpdate := r.now } := by
  obtain ⟨sent, hsent⟩ := (m.reads r).updateVisuals.checkBatteryAlert_eq
  refine ⟨sent, ?_⟩
  have hreads : ({ m with
      energyNow := r.readLong "energy_now" "charge_now"
      energyFull := r.readLong "energy_full" "charge_full"
      powerNow := r.readLong "power_now" "current_now" } : BatteryModule).readStatus r =
      { m.reads r with percentage := m.percentage } := by
    unfold reads readStatus
    cases r.files "status" <;> rfl
  simp only [update, hreads]
  rw [if_pos (show (m.reads r).energyFull > 0 from hfull)]
  show { (m.reads r).updateVisuals.checkBatteryAlert.1 with lastUpdate := r.now } = _
  rw [hsent]

/-- The text is printed whole. -/
theorem printed_of_reads {m : BatteryModule} (hnow : 0 ≤ m.energyNow ∧ m.energyNow < 2 ^ 63)
    (hfull : 0 < m.energyFull) (hpercentage : m.percentage = m.energyNow / m.energyFull * 100)
    (hpower : 0 < m.powerNow) (hstatus : m.isCharging ∨ m.status.head? = some 'D') :
    m.updateVisuals.textElement.content.cstring =
      ascii (fixed 1 m.percentage ++ ['%', ' '] ++ decimal2 m.hours ++ ':' :: decimal2 m.mins) := by
  have htext : m.text =
      fixed 1 m.percentage ++ ['%', ' '] ++ decimal2 m.hours ++ ':' :: decimal2 m.mins :=
    if_pos ⟨hpower, hstatus⟩
  show (m.textElement.printOver (ascii m.text)).content.cstring = _
  rw [htext]
  have hrange := floatToInt_range m.minutes
  have hhours : (decimal2 m.hours).length ≤ 12 := decimal2_length (by
    have habs : m.hours.natAbs = (floatToInt m.minutes).natAbs / 60 := Int.natAbs_tdiv _ 60
    omega)
  have hmins : (decimal2 m.mins).length ≤ 12 := decimal2_length (by
    have habs : m.mins.natAbs = (floatToInt m.minutes).natAbs % 60 := Int.natAbs_tmod _ 60
    omega)
  have hfixed : (fixed 1 m.percentage).length ≤ 24 := by
    have hfull' : (1 : ℚ) ≤ m.energyFull := by exact_mod_cast hfull
    have hnow₀ : (0 : ℚ) ≤ m.energyNow := by exact_mod_cast hnow.1
    have hnow₁ : (m.energyNow : ℚ) < 2 ^ 63 := by exact_mod_cast hnow.2
    have hle := div_le_self hnow₀ hfull'
    refine fixed_one_length (k := 21) ?_ ?_
    · rw [hpercentage]
      positivity
    · rw [hpercentage]
      norm_num at hnow₁ ⊢
      linarith
  refine BarElement.printOver_cstring _ ?_ (zero_notMem_ascii fun c hc => ?_)
  · simp only [ascii, List.length_map, List.length_append, List.length_cons, List.length_nil]
    show _ < 255
    omega
  · simp only [List.mem_append, List.mem_cons, List.not_mem_nil, or_false] at hc
    rcases hc with ((hc | rfl | rfl) | hc) | rfl | hc
    · exact fixed_printable 1 _ c hc
    · exact ⟨by decide, by decide⟩
    · exact ⟨by decide, by decide⟩
    · exact decimal2_printable _ c hc
    · exact ⟨by decide, by decide⟩
    · exact decimal2_printable _ c hc

/-- **The time is shown** if and only if what is still to go is not negative and fits. In the other
direction, a negative time shows a minus, in its hours or in its minutes, unless it is cut off to
nothing, which is not the floor of it; and one that does not fit is replaced by the smallest `int`.
-/
theorem showsTime_iff (hnow : 0 ≤ r.readLong "energy_now" "charge_now")
    (hfull : 0 < r.readLong "energy_full" "charge_full")
    (hpower : 0 < r.readLong "power_now" "current_now")
    (hstatus : (m.readStatus r).status = "Charging".toList ∨
      (m.readStatus r).status = "Discharging".toList) :
    (m.update r).1.ShowsTime ↔ (m.reads r).Timely := by
  obtain ⟨sent, heq⟩ := m.update_eq r hfull
  have hcharge : (m.reads r).isCharging ∨ (m.reads r).status.head? = some 'D' := by
    rcases hstatus with h | h
    · exact .inl (by show decide ((m.readStatus r).status.head? = some 'C') = true; rw [h]; rfl)
    · exact .inr (by show (m.readStatus r).status.head? = some 'D'; rw [h]; rfl)
  have hprinted :=
    printed_of_reads (m := m.reads r) ⟨hnow, readLong_lt r _ _⟩ hfull rfl hpower hcharge
  have hminutes : (m.update r).1.minutes = (m.reads r).minutes := by
    rw [heq]
    rfl
  rw [timely_iff (m := m.reads r) hpower, ← hminutes]
  refine ⟨?_, ?_⟩
  · intro h
    have hfloor : 0 ≤ ⌊(m.update r).1.minutes⌋ := by
      have hhour := h.hour
      have hminute := h.minute.1
      have hsum := h.floor
      omega
    have h₀ := Int.floor_nonneg.mp hfloor
    have hlt := h.fits.2
    rw [truncate_of_nonneg h₀, Int.floor_lt] at hlt
    exact ⟨h₀, by exact_mod_cast hlt⟩
  · rintro ⟨h₀, hlt⟩
    obtain ⟨hfits, hhour, hminute, hfloor⟩ := time_of_timely h₀ hlt
    refine ⟨?_, hfits, hhour, hminute, hfloor⟩
    rw [heq]
    exact hprinted

/-- What a battery says of itself. -/
def saying (energy_now energy_full power_now status : String) : BatteryReading where
  files f :=
    if f = "energy_now" then some energy_now.toList
    else if f = "energy_full" then some energy_full.toList
    else if f = "power_now" then some power_now.toList
    else if f = "status" then some status.toList
    else none
  now := 0

/-- An hour and a half to full. -/
theorem showsTime_charging : (new.update (saying "20" "50" "20" "Charging")).1.ShowsTime :=
  (showsTime_iff new (saying "20" "50" "20" "Charging") (by decide) (by decide) (by decide)
    (by decide)).mpr (by decide +kernel)

/-- A battery that is charged above what it counts as full: it would be full 30 minutes ago, and 0
hours and -30 minutes are shown. -/
theorem negative_minutes :
    let m := (new.update (saying "51" "50" "2" "Charging")).1
    ¬ m.ShowsTime ∧ m.textElement.content.cstring = utf8 "102.0% 00:-30" := by
  intro m
  have hmins : m.mins = -30 := by decide +kernel
  refine ⟨fun h => ?_, by decide +kernel⟩
  have hminute := h.minute.1
  rw [hmins] at hminute
  exact absurd hminute (by decide)

end BatteryModule

end Photonbar
