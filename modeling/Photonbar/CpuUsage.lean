import Mathlib.Algebra.Order.Field.Basic
import Mathlib.Tactic.Linarith
import Mathlib.Tactic.NormNum
import Photonbar.Resources
import Photonbar.Run

/-!
# The CPU usage (`resources.h`)

`getCpuUsage` compares two readings of `/proc/stat`. Its differences are unsigned, so that the
usage is a percentage if and only if neither the idle part nor the rest has fallen since the
reading before (`usage_iff`), though the sum of the two never falls. The kernel may take back idle
time, and time spent waiting.

One reading is a fact about three numbers: the difference of the sums, that of the idle parts, and
the quotient (`percentage_iff`). In a run the invariant is that the idle part is a part, of the
last reading as of any other (`Sound`), and `percentage_iff_partsRise` goes from one reading to the
next. The first section connects counters with the text that they are read from, so that the
examples are about files.
-/

namespace Photonbar

/-! ## The first line of `/proc/stat` -/

/-- A number is read up to the next character that is no digit. -/
theorem strtoull_decimal (n : UInt64) {c : Char} (hc : c.isDigit = false) (rest : Text) :
    strtoull (' ' :: Nat.toDigits 10 n.toNat ++ c :: rest) = (n, c :: rest) := by
  have hdigit : ∀ d ∈ Nat.toDigits 10 n.toNat, d.isDigit = true :=
    fun d hd => Nat.isDigit_of_mem_toDigits (by omega) (by omega) hd
  have hvalue : Nat.ofDigitChars 10 (Nat.toDigits 10 n.toNat) 0 = n.toNat :=
    Nat.ofDigitChars_ten_toDigits
  have hlt := n.toNat_lt
  rcases hd : Nat.toDigits 10 n.toNat with _ | ⟨d, ds⟩
  · exact absurd hd Nat.toDigits_ne_nil
  · rw [hd] at hdigit hvalue
    obtain ⟨hblank, hminus, hplus⟩ := not_blank_of_isDigit (hdigit d List.mem_cons_self)
    have hstart : (' ' :: d :: ds ++ c :: rest).dropWhile isspace = d :: ds ++ c :: rest := by
      simp [hblank, show isspace ' ' = true from rfl]
    have hsign : readSign (d :: ds ++ c :: rest) = (false, d :: ds ++ c :: rest) := by
      rw [List.cons_append, readSign]
      · exact fun _ h => hminus (List.cons.inj h).1
      · exact fun _ h => hplus (List.cons.inj h).1
    have htake : (d :: ds ++ c :: rest).takeWhile Char.isDigit = d :: ds := by
      rw [List.takeWhile_append_of_pos hdigit, List.takeWhile_cons_of_neg (by simp [hc]),
        List.append_nil]
    have hdrop : (d :: ds ++ c :: rest).dropWhile Char.isDigit = c :: rest := by
      rw [List.dropWhile_append_of_pos hdigit, List.dropWhile_cons_of_neg (by simp [hc])]
    simp only [strtoull, hstart, hsign, htake, hdrop, hvalue, reduceCtorEq, if_false,
      if_neg (show ¬ 2 ^ 64 ≤ n.toNat by omega), Bool.false_eq_true, UInt64.ofNat_toNat]

/-- The numbers behind a blank each are read one by one. -/
theorem strtoull_iterate (rest : Text) : ∀ (ns : List UInt64) (i : Nat) (hi : i < ns.length),
    (strtoull ((fun p => (strtoull p).2)^[i]
      ((ns.flatMap fun n => ' ' :: Nat.toDigits 10 n.toNat) ++ '\n' :: rest))).1 = ns[i] := by
  intro ns
  induction ns with
  | nil => intro i hi; cases hi
  | cons n ns ih =>
    intro i hi
    -- behind a number comes the blank of the next one, or the end of the line
    have hone : strtoull (((n :: ns).flatMap fun n => ' ' :: Nat.toDigits 10 n.toNat) ++
        '\n' :: rest) = (n, (ns.flatMap fun n => ' ' :: Nat.toDigits 10 n.toNat) ++ '\n' :: rest) := by
      rw [List.flatMap_cons, List.append_assoc]
      cases ns with
      | nil => exact strtoull_decimal n (by decide) rest
      | cons k ns => exact strtoull_decimal n (by decide) _
    cases i with
    | zero => rw [Function.iterate_zero_apply, hone]; rfl
    | succ i =>
      rw [Function.iterate_succ_apply, hone]
      exact ih i (by simpa using hi)

/-- What is read of a file with these counters. -/
def statText (v : Vector UInt64 8) (rest : Text) : Text :=
  "cpu ".toList ++ ((v.toList.flatMap fun n => ' ' :: Nat.toDigits 10 n.toNat) ++ '\n' :: rest)

/-- Any eight counters can be read. -/
theorem cpuCounters_statText (v : Vector UInt64 8) (rest : Text) :
    cpuCounters (statText v rest) = v := by
  have hname : (statText v rest).drop 4 =
      (v.toList.flatMap fun n => ' ' :: Nat.toDigits 10 n.toNat) ++ '\n' :: rest := rfl
  ext i hi
  rw [cpuCounters, hname, Vector.getElem_ofFn, strtoull_iterate rest v.toList i (by simpa using hi)]
  simp

namespace ResourcesModule

/-! ## One reading -/

/-- What the usage is after two readings with the sums `t'`, `t` and the idle parts `i'`, `i`. -/
theorem percentage_iff {t' t i' i : UInt64} (ht : t' ≤ t) (hi' : i' ≤ t') (hi : i ≤ t)
    (hne : t - t' ≠ 0) :
    (0 ≤ (100 : ℚ) * (1 - ((i - i').toNat : ℚ) / (t - t').toNat) ∧
        (100 : ℚ) * (1 - ((i - i').toNat : ℚ) / (t - t').toNat) ≤ 100) ↔
      i' ≤ i ∧ t'.toNat - i'.toNat ≤ t.toNat - i.toNat := by
  rw [UInt64.le_iff_toNat_le] at *
  have hdiff : (t - t').toNat = t.toNat - t'.toNat :=
    UInt64.toNat_sub_of_le _ _ (UInt64.le_iff_toNat_le.mpr ht)
  have hpos : 0 < (t - t').toNat := by
    apply Nat.pos_of_ne_zero
    exact fun h => hne (UInt64.toNat_inj.mp h)
  have hposq : (0 : ℚ) < (t - t').toNat := by exact_mod_cast hpos
  have hidle : (0 : ℚ) ≤ (i - i').toNat := Nat.cast_nonneg _
  -- the quotient is not negative, and it is at most 1 as long as the one difference is at most
  -- the other
  have hrange : (0 ≤ (100 : ℚ) * (1 - ((i - i').toNat : ℚ) / (t - t').toNat) ∧
      (100 : ℚ) * (1 - ((i - i').toNat : ℚ) / (t - t').toNat) ≤ 100) ↔
        (i - i').toNat ≤ (t - t').toNat := by
    have hq : 0 ≤ ((i - i').toNat : ℚ) / (t - t').toNat := div_nonneg hidle hposq.le
    have hle : ((i - i').toNat : ℚ) / (t - t').toNat ≤ 1 ↔ (i - i').toNat ≤ (t - t').toNat := by
      rw [div_le_one hposq]
      exact_mod_cast Iff.rfl
    rw [← hle]
    refine ⟨?_, ?_⟩
    · rintro ⟨h, -⟩
      linarith
    · intro h
      constructor <;> linarith
  rw [hrange, hdiff, UInt64.toNat_sub]
  have := i.toNat_lt
  have := i'.toNat_lt
  have := t.toNat_lt
  omega

theorem getCpuUsage_some (m : ResourcesModule) (t : Text) : m.getCpuUsage (some t) =
    (if m.lastCpuTotal = 0 ∨ total (cpuCounters t) - m.lastCpuTotal = 0 then 0
      else 100 * (1 - ((idle (cpuCounters t) - m.lastCpuIdle).toNat : ℚ) /
        (total (cpuCounters t) - m.lastCpuTotal).toNat),
      { m with
        lastCpuTotal := total (cpuCounters t)
        lastCpuIdle := idle (cpuCounters t) }) := by
  by_cases hfirst : m.lastCpuTotal = 0
  · simp [getCpuUsage, hfirst]
  · by_cases hsame : total (cpuCounters t) - m.lastCpuTotal = 0
    · simp only [getCpuUsage, hfirst, hsame, if_true, if_false, or_true]
    · simp only [getCpuUsage, hfirst, hsame, if_false, or_false]

end ResourcesModule

/-! ## Runs -/

/-- A run, with the usage that the last reading has given. -/
structure CpuRun where
  module : ResourcesModule
  usage : ℚ

namespace CpuRun

open ResourcesModule

/-- Before the first reading. -/
def start : CpuRun := ⟨.new, 0⟩

/-- One call of `getCpuUsage`. -/
def step (s : CpuRun) (stat : Option Text) : Option CpuRun :=
  let (usage, module) := s.module.getCpuUsage stat
  some ⟨module, usage⟩

/-- The usage is a percentage. -/
def Percentage (s : CpuRun) : Prop := 0 ≤ s.usage ∧ s.usage ≤ 100

/-- What is promised of a reading: the sum of the counters does not wrap, and it is not below the
one before. -/
def Counted (s : CpuRun) (stat : Option Text) : Prop :=
  ∀ t, stat = some t → sum (cpuCounters t) < 2 ^ 64 ∧
    s.module.lastCpuTotal.toNat ≤ sum (cpuCounters t)

/-- The reading is the first one, or it is that of the same sum, or neither of the two parts has
fallen. -/
def PartsRise (s : CpuRun) (stat : Option Text) : Prop :=
  ∀ t, stat = some t → s.module.lastCpuTotal = 0 ∨
    s.module.lastCpuTotal.toNat = sum (cpuCounters t) ∨
      (s.module.lastCpuIdle.toNat ≤ idleSum (cpuCounters t) ∧
        s.module.lastCpuTotal.toNat - s.module.lastCpuIdle.toNat ≤
          sum (cpuCounters t) - idleSum (cpuCounters t))

/-- The idle part is a part. -/
def Sound (s : CpuRun) : Prop := s.module.lastCpuIdle ≤ s.module.lastCpuTotal

theorem sound_step {s s' : CpuRun} {stat : Option Text} (hs : s.Sound) (hD : s.Counted stat)
    (h : s.step stat = some s') : s'.Sound := by
  cases stat with
  | none =>
    obtain rfl := Option.some.inj h
    exact hs
  | some t =>
    obtain ⟨htotal, hidle, hle⟩ := toNat_total (hD t rfl).1
    rw [step, getCpuUsage_some] at h
    obtain rfl := Option.some.inj h
    show idle (cpuCounters t) ≤ total (cpuCounters t)
    rw [UInt64.le_iff_toNat_le]
    omega

/-- One reading gives a percentage if and only if its parts have risen. -/
theorem usage_iff {s : CpuRun} {stat : Option Text} (hs : s.Sound) (hD : s.Counted stat) :
    s.PartsRise stat ↔ ∃ s', s.step stat = some s' ∧ s'.Percentage := by
  have hzero : (0 : ℚ) ≤ 0 ∧ (0 : ℚ) ≤ 100 := by norm_num
  cases stat with
  | none => exact ⟨fun _ => ⟨_, rfl, hzero⟩, fun _ t ht => by cases ht⟩
  | some t =>
    obtain ⟨hwrap, hle⟩ := hD t rfl
    obtain ⟨htotal, hidle, hpart⟩ := toNat_total hwrap
    have hle' : s.module.lastCpuTotal ≤ total (cpuCounters t) := by
      rw [UInt64.le_iff_toNat_le]
      omega
    have hdiff := UInt64.toNat_sub_of_le _ _ hle'
    simp only [step, getCpuUsage_some, Option.some.injEq, exists_eq_left', Percentage, PartsRise,
      forall_eq']
    by_cases hspecial : s.module.lastCpuTotal = 0 ∨
        total (cpuCounters t) - s.module.lastCpuTotal = 0
    · rw [if_pos hspecial]
      refine iff_of_true ?_ hzero
      rcases hspecial with h | h
      · exact .inl h
      · right; left
        rw [← htotal]
        have := UInt64.toNat_inj.mpr h
        rw [hdiff, UInt64.toNat_zero] at this
        omega
    · rw [if_neg hspecial]
      obtain ⟨hfirst, hsame⟩ := not_or.mp hspecial
      have hne : s.module.lastCpuTotal.toNat ≠ sum (cpuCounters t) := by
        intro h
        apply hsame
        rw [← UInt64.toNat_inj, hdiff, UInt64.toNat_zero]
        omega
      have hidle_le : idle (cpuCounters t) ≤ total (cpuCounters t) := by
        rw [UInt64.le_iff_toNat_le]
        omega
      rw [percentage_iff hle' hs hidle_le hsame, UInt64.le_iff_toNat_le, htotal, hidle]
      simp only [hfirst, hne, false_or]

/-- **The usage is a percentage** at every reading of a run if and only if at each of them neither
the idle part nor the rest has fallen. The sum does not fall, which is what is promised of a
reading, and so a part that falls is made up for by the other: the difference of the idle parts is
then beyond that of the sums, or wraps. -/
theorem percentage_iff_partsRise {es : List (Option Text)} (h : AllSteps step Counted start es) :
    Always step Percentage start es ↔ AllSteps step PartsRise start es := by
  have hstart : start.Percentage := ⟨le_refl _, by norm_num [start]⟩
  have hsound : start.Sound := UInt64.le_refl _
  have hrule : Always step Percentage start es ↔
      start.Percentage ∧ AllSteps step PartsRise start es :=
    always_iff_allSteps_of (fun s e s' hs hD h _ => sound_step hs hD h)
      (fun s e _ hs hD => usage_iff hs hD) hsound h
  rw [hrule]
  exact and_iff_right hstart

/-- A reading of eight counters. -/
theorem step_statText (s : CpuRun) (v : Vector UInt64 8) :
    s.step (some (statText v [])) = some
      ⟨{ s.module with lastCpuTotal := total v, lastCpuIdle := idle v },
        if s.module.lastCpuTotal = 0 ∨ total v - s.module.lastCpuTotal = 0 then 0
        else 100 * (1 - ((idle v - s.module.lastCpuIdle).toNat : ℚ) /
          (total v - s.module.lastCpuTotal).toNat)⟩ := by
  rw [step, getCpuUsage_some, cpuCounters_statText]

/-- Readings whose sums do not fall. -/
theorem counted_statText {v w : Vector UInt64 8} (hv : sum v < 2 ^ 64) (hw : sum w < 2 ^ 64)
    (hvw : (total v).toNat ≤ sum w) :
    AllSteps step Counted start [some (statText v []), some (statText w [])] := by
  refine ⟨?_, fun s hs => ⟨?_, fun _ _ => trivial⟩⟩
  · rintro t ht
    obtain rfl := Option.some.inj ht
    rw [cpuCounters_statText]
    exact ⟨hv, Nat.zero_le _⟩
  · rintro t ht
    obtain rfl := Option.some.inj ht
    rw [step_statText] at hs
    obtain rfl := Option.some.inj hs
    rw [cpuCounters_statText]
    exact ⟨hw, hvw⟩

/-- A second in which half of the time is spent on work. -/
theorem percentage_of_busy_second :
    let es := [some (statText #v[100, 0, 0, 100, 0, 0, 0, 0] []),
      some (statText #v[150, 0, 0, 150, 0, 0, 0, 0] [])]
    AllSteps step Counted start es ∧ Always step Percentage start es := by
  intro es
  have h : AllSteps step Counted start es :=
    counted_statText (by decide) (by decide) (by decide)
  refine ⟨h, (percentage_iff_partsRise h).mpr ⟨?_, fun s hs => ⟨?_, fun _ _ => trivial⟩⟩⟩
  · exact fun _ _ => .inl rfl
  · rintro t ht
    obtain rfl := Option.some.inj ht
    rw [step_statText] at hs
    obtain rfl := Option.some.inj hs
    rw [cpuCounters_statText]
    decide

/-- The time spent waiting is taken back, and more than as much work is added: the usage is far
below 0. -/
theorem usage_of_falling_iowait :
    let es := [some (statText #v[100, 0, 0, 100, 100, 0, 0, 0] []),
      some (statText #v[210, 0, 0, 100, 0, 0, 0, 0] [])]
    AllSteps step Counted start es ∧ ¬ Always step Percentage start es := by
  refine ⟨counted_statText (by decide) (by decide) (by decide), ?_⟩
  rintro ⟨-, s, hs, -, s', hs', hpercentage⟩
  rw [step_statText] at hs
  obtain rfl := Option.some.inj hs
  rw [step_statText] at hs'
  obtain rfl := Option.some.inj hs'
  exact absurd hpercentage.1 (by decide +kernel)

end CpuRun

end Photonbar
