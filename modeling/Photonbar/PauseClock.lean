import Mathlib.Algebra.Order.Ring.Int
import Mathlib.Data.List.Pairwise
import Mathlib.Tactic.Linarith

/-!
# A clock that is paused and resumed, in truncated units

A `PauseClock` runs on a fine time scale and reports in units of `q`. It keeps the
time it was started, the time it was paused and, in whole units, the pauses that
are over. Each of these is truncated on its own, so the report differs from the
truncated running time; the `Ledger` keeps the running time and the number of
completed pauses exactly, and `PauseClock.slack` is what truncation has withheld
so far. A report is always `(running time + slack) / q` (`elapsed_eq`), and the
slack only grows, by less than one unit a pause. Everything else follows from that:
`readings_bounds`, `readings_mono`, `readings_paused`.
-/

namespace Photonbar

/-- A running clock. `accumulated` counts whole units. -/
structure PauseClock where
  startTime : Int
  pauseTime : Int
  isPaused : Bool
  accumulated : Int

/-- What the clock is about: the time it ran up to `since`, the last time it was
started, paused or resumed, and how many pauses are over. -/
structure Ledger where
  unpaused : Int
  since : Int
  pauses : Nat

namespace Ledger

/-- A clock started at `t`. -/
def start (t : Int) : Ledger := ⟨0, t, 0⟩

/-- The time run until `t`. -/
def total (l : Ledger) (isPaused : Bool) (t : Int) : Int :=
  if isPaused then l.unpaused else l.unpaused + (t - l.since)

/-- Pause, or resume, at `t`. -/
def toggle (l : Ledger) (isPaused : Bool) (t : Int) : Ledger :=
  if isPaused then { l with since := t, pauses := l.pauses + 1 }
  else { l with unpaused := l.total false t, since := t }

end Ledger

namespace PauseClock

variable (q : Int)

/-- Start at `t`. -/
def start (c : PauseClock) (t : Int) : PauseClock :=
  { c with startTime := t, isPaused := false, accumulated := 0 }

/-- Pause, or resume, at `t`. -/
def toggle (c : PauseClock) (t : Int) : PauseClock :=
  if c.isPaused then
    { c with accumulated := c.accumulated + (t - c.pauseTime).tdiv q, isPaused := false }
  else { c with pauseTime := t, isPaused := true }

/-- The units run until `t`, as the clock reports them. -/
def elapsed (c : PauseClock) (t : Int) : Int :=
  if c.isPaused then (c.pauseTime - c.startTime).tdiv q - c.accumulated
  else (t - c.startTime).tdiv q - c.accumulated

/-- The part of the pauses that truncation has not subtracted. -/
def slack (c : PauseClock) (l : Ledger) : Int :=
  l.since - c.startTime - l.unpaused - q * c.accumulated

/-- The clock agrees with its ledger. -/
structure Kept (c : PauseClock) (l : Ledger) : Prop where
  started : c.startTime ≤ l.since
  unpaused_nonneg : 0 ≤ l.unpaused
  accumulated_nonneg : 0 ≤ c.accumulated
  paused_since : c.isPaused = true → c.pauseTime = l.since
  slack_nonneg : 0 ≤ c.slack q l
  slack_le : c.slack q l ≤ l.pauses * (q - 1)

variable {q}

theorem Kept.start (c : PauseClock) (t : Int) : (c.start t).Kept q (.start t) where
  started := le_refl t
  unpaused_nonneg := le_refl 0
  accumulated_nonneg := le_refl 0
  paused_since h := by cases h
  slack_nonneg := by simp [slack, PauseClock.start, Ledger.start]
  slack_le := by simp [slack, PauseClock.start, Ledger.start]

/-- Running time does not go back. -/
theorem total_mono (l : Ledger) (b : Bool) {s t : Int} (h : s ≤ t) :
    l.total b s ≤ l.total b t := by
  cases b <;> simp only [Ledger.total, Bool.false_eq_true, if_true, if_false] <;> omega

theorem Kept.total_nonneg {c : PauseClock} {l : Ledger} (h : c.Kept q l) (b : Bool) {t : Int}
    (ht : l.since ≤ t) : 0 ≤ l.total b t := by
  have := h.unpaused_nonneg
  cases b <;> simp only [Ledger.total, Bool.false_eq_true, if_true, if_false] <;> omega

/-- **The report**: running time and slack, truncated together. -/
theorem Kept.elapsed_eq {c : PauseClock} {l : Ledger} (h : c.Kept q l) (hq : 0 < q) {t : Int}
    (ht : l.since ≤ t) :
    c.elapsed q t = (l.total c.isPaused t + c.slack q l) / q := by
  have hstart := h.started
  have hdiv (x : Int) : (x + q * c.accumulated) / q - c.accumulated = x / q := by
    rw [Int.add_mul_ediv_left _ _ (by omega)]
    omega
  cases hp : c.isPaused with
  | true =>
    have hsince := h.paused_since hp
    simp only [elapsed, Ledger.total, hp, if_true]
    rw [Int.tdiv_eq_ediv_of_nonneg (by omega), ← hdiv (l.unpaused + c.slack q l)]
    congr 2
    simp only [slack]
    omega
  | false =>
    simp only [elapsed, Ledger.total, hp, Bool.false_eq_true, if_false]
    rw [Int.tdiv_eq_ediv_of_nonneg (by omega), ← hdiv (l.unpaused + (t - l.since) + c.slack q l)]
    congr 2
    simp only [slack]
    omega

/-- What a pause or a resumption does to the slack: nothing, or it adds what is
left of the pause after truncation. -/
theorem Kept.slack_toggle {c : PauseClock} {l : Ledger} (h : c.Kept q l) {t : Int}
    (ht : l.since ≤ t) :
    (c.toggle q t).slack q (l.toggle c.isPaused t) =
      c.slack q l + if c.isPaused then (t - l.since) % q else 0 := by
  cases hp : c.isPaused with
  | true =>
    have hsince := h.paused_since hp
    have hmod := Int.mul_ediv_add_emod (t - l.since) q
    simp only [toggle, Ledger.toggle, slack, hp, if_true, hsince]
    rw [Int.tdiv_eq_ediv_of_nonneg (by omega), Int.mul_add]
    omega
  | false =>
    simp only [toggle, Ledger.toggle, Ledger.total, slack, hp, Bool.false_eq_true, if_false]
    omega

/-- A pause or a resumption keeps the agreement. -/
theorem Kept.toggle {c : PauseClock} {l : Ledger} (h : c.Kept q l) (hq : 0 < q) {t : Int}
    (ht : l.since ≤ t) : (c.toggle q t).Kept q (l.toggle c.isPaused t) := by
  have hslack := h.slack_toggle ht
  have hstart := h.started
  have hnonneg := h.slack_nonneg
  have hle := h.slack_le
  have hmod₀ : 0 ≤ (t - l.since) % q := Int.emod_nonneg _ (by omega)
  have hmod₁ : (t - l.since) % q ≤ q - 1 := by
    have := Int.emod_lt_of_pos (t - l.since) hq
    omega
  cases hp : c.isPaused with
  | true =>
    rw [hp, if_pos rfl] at hslack
    refine ⟨?_, ?_, ?_, ?_, ?_, ?_⟩
    · simp only [PauseClock.toggle, Ledger.toggle, hp, if_true]
      omega
    · exact h.unpaused_nonneg
    · have hpause : 0 ≤ (t - c.pauseTime).tdiv q := by
        rw [Int.tdiv_eq_ediv_of_nonneg (by rw [h.paused_since hp]; omega)]
        exact Int.ediv_nonneg (by rw [h.paused_since hp]; omega) (by omega)
      have := h.accumulated_nonneg
      simp only [PauseClock.toggle, hp, if_true]
      omega
    · simp [PauseClock.toggle, hp]
    · rw [hslack]
      omega
    · rw [hslack]
      simp only [Ledger.toggle, if_true]
      push_cast
      rw [Int.add_mul]
      omega
  | false =>
    rw [hp, if_neg Bool.false_ne_true] at hslack
    refine ⟨?_, ?_, ?_, ?_, ?_, ?_⟩
    · simp only [PauseClock.toggle, Ledger.toggle, hp, Bool.false_eq_true, if_false]
      omega
    · exact h.total_nonneg false ht
    · simpa [PauseClock.toggle, hp] using h.accumulated_nonneg
    · simp [PauseClock.toggle, Ledger.toggle, hp]
    · rw [hslack]
      omega
    · rw [hslack]
      simpa [Ledger.toggle] using hle

/-- The report is the truncated running time, or more by at most one unit for each
completed pause. -/
theorem Kept.elapsed_bounds {c : PauseClock} {l : Ledger} (h : c.Kept q l) (hq : 0 < q) {t : Int}
    (ht : l.since ≤ t) :
    l.total c.isPaused t / q ≤ c.elapsed q t ∧
      c.elapsed q t ≤ l.total c.isPaused t / q + l.pauses := by
  rw [h.elapsed_eq hq ht]
  set total := l.total c.isPaused t
  have hnonneg := h.slack_nonneg
  have hle := h.slack_le
  refine ⟨?_, ?_⟩
  · exact Int.ediv_le_ediv hq (by omega)
  · have hmod := Int.mul_ediv_add_emod total q
    have hlt := Int.emod_lt_of_pos total hq
    have hsum : total + c.slack q l < (total / q + l.pauses + 1) * q := by
      have hslack : c.slack q l ≤ l.pauses * q - l.pauses := by
        rw [Int.mul_sub, Int.mul_one] at hle
        exact hle
      rw [Int.add_mul, Int.add_mul, Int.one_mul, Int.mul_comm (total / q)]
      omega
    have := Int.ediv_lt_of_lt_mul hq hsum
    omega

/-- The report is at most what a clock without pauses would report. -/
theorem Kept.elapsed_le {c : PauseClock} {l : Ledger} (h : c.Kept q l) (hq : 0 < q) {t : Int}
    (ht : l.since ≤ t) : c.elapsed q t ≤ (t - c.startTime) / q := by
  have hslack : c.slack q l = l.since - c.startTime - l.unpaused - q * c.accumulated := rfl
  have hacc : 0 ≤ q * c.accumulated := Int.mul_nonneg (by omega) h.accumulated_nonneg
  rw [h.elapsed_eq hq ht]
  refine Int.ediv_le_ediv hq ?_
  cases c.isPaused <;> simp only [Ledger.total, Bool.false_eq_true, if_true, if_false] <;> omega

/-- The report does not go back while time goes on. -/
theorem Kept.elapsed_mono {c : PauseClock} {l : Ledger} (h : c.Kept q l) (hq : 0 < q) {s t : Int}
    (hs : l.since ≤ s) (hst : s ≤ t) : c.elapsed q s ≤ c.elapsed q t := by
  rw [h.elapsed_eq hq hs, h.elapsed_eq hq (hs.trans hst)]
  have := total_mono l c.isPaused hst
  exact Int.ediv_le_ediv hq (by omega)

/-- The report does not go back when the clock is paused or resumed. -/
theorem Kept.elapsed_toggle {c : PauseClock} {l : Ledger} (h : c.Kept q l) (hq : 0 < q) {t : Int}
    (ht : l.since ≤ t) : c.elapsed q t ≤ (c.toggle q t).elapsed q t := by
  have htoggled := h.toggle hq ht
  have hslack := h.slack_toggle ht
  have hmod : 0 ≤ (t - l.since) % q := Int.emod_nonneg _ (by omega)
  rw [h.elapsed_eq hq ht, htoggled.elapsed_eq hq (by cases hp : c.isPaused <;> exact le_refl t)]
  refine Int.ediv_le_ediv hq ?_
  cases hp : c.isPaused <;> rw [hp] at hslack <;>
    simp [PauseClock.toggle, Ledger.toggle, Ledger.total, hp] at hslack ⊢ <;> omega

/-! ## Runs -/

end PauseClock

/-- What is done with a running clock. -/
inductive ClockOp where
  /-- pause or resume -/
  | toggle
  /-- look at it -/
  | read
  deriving DecidableEq

/-- The operations come at times that do not go back, the first not before `s`. -/
def TimesFrom : Int → List (Int × ClockOp) → Prop
  | _, [] => True
  | s, (t, _) :: ops => s ≤ t ∧ TimesFrom t ops

theorem TimesFrom.weaken {s s' : Int} {ops : List (Int × ClockOp)} (h : TimesFrom s ops)
    (hs : s' ≤ s) : TimesFrom s' ops := by
  cases ops with
  | nil => trivial
  | cons op ops => exact ⟨hs.trans h.1, h.2⟩

/-- One look at the clock: the report, and what the ledger says at that moment. -/
structure Reading where
  elapsed : Int
  total : Int
  pauses : Nat
  isPaused : Bool
  deriving DecidableEq

namespace PauseClock

variable (q : Int)

/-- The readings of a run. -/
def readings (c : PauseClock) (l : Ledger) : List (Int × ClockOp) → List Reading
  | [] => []
  | (t, .toggle) :: ops => readings (c.toggle q t) (l.toggle c.isPaused t) ops
  | (t, .read) :: ops =>
    ⟨c.elapsed q t, l.total c.isPaused t, l.pauses, c.isPaused⟩ :: readings c l ops

variable {q}

theorem since_toggle (l : Ledger) (b : Bool) (t : Int) : (l.toggle b t).since = t := by
  cases b <;> rfl

/-- Every reading is within one unit a completed pause of the truncated running time. -/
theorem readings_bounds (hq : 0 < q) {ops : List (Int × ClockOp)} :
    ∀ {c : PauseClock} {l : Ledger}, c.Kept q l → TimesFrom l.since ops →
      ∀ r ∈ c.readings q l ops,
        r.total / q ≤ r.elapsed ∧ r.elapsed ≤ r.total / q + r.pauses := by
  induction ops with
  | nil => intro c l _ _ r hr; cases hr
  | cons op ops ih =>
    obtain ⟨t, op⟩ := op
    rintro c l h ⟨ht, hops⟩ r hr
    cases op with
    | toggle => exact ih (h.toggle hq ht) (by rwa [since_toggle]) r hr
    | read =>
      rcases List.mem_cons.mp hr with rfl | hr
      · exact h.elapsed_bounds hq ht
      · exact ih h (hops.weaken ht) r hr

/-- The running time at a reading is not negative, and the report is at most what a
clock without pauses reports at `b`, where no reading is later. -/
theorem readings_range (hq : 0 < q) {b : Int} {ops : List (Int × ClockOp)} :
    ∀ {c : PauseClock} {l : Ledger}, c.Kept q l → TimesFrom l.since ops → (∀ op ∈ ops, op.1 ≤ b) →
      ∀ r ∈ c.readings q l ops, 0 ≤ r.total ∧ r.elapsed ≤ (b - c.startTime) / q := by
  induction ops with
  | nil => intro c l _ _ _ r hr; cases hr
  | cons op ops ih =>
    obtain ⟨t, op⟩ := op
    rintro c l h ⟨ht, hops⟩ hb r hr
    have hrest : ∀ op ∈ ops, op.1 ≤ b := fun op hop => hb op (List.mem_cons_of_mem _ hop)
    cases op with
    | toggle =>
      have hstart : (c.toggle q t).startTime = c.startTime := by
        cases hp : c.isPaused <;> simp [toggle, hp]
      rw [← hstart]
      exact ih (h.toggle hq ht) (by rwa [since_toggle]) hrest r hr
    | read =>
      rcases List.mem_cons.mp hr with rfl | hr
      · have htb : t ≤ b := hb _ List.mem_cons_self
        exact ⟨h.total_nonneg _ ht,
          (h.elapsed_le hq ht).trans (Int.ediv_le_ediv hq (by omega))⟩
      · exact ih h (hops.weaken ht) hrest r hr

/-- A reading is not below what the clock reported at an earlier time. -/
theorem elapsed_le_readings (hq : 0 < q) {ops : List (Int × ClockOp)} :
    ∀ {c : PauseClock} {l : Ledger} {s : Int}, c.Kept q l → l.since ≤ s → TimesFrom s ops →
      ∀ r ∈ c.readings q l ops, c.elapsed q s ≤ r.elapsed := by
  induction ops with
  | nil => intro c l s _ _ _ r hr; cases hr
  | cons op ops ih =>
    obtain ⟨t, op⟩ := op
    rintro c l s h hs ⟨ht, hops⟩ r hr
    have hmono := h.elapsed_mono hq hs ht
    cases op with
    | toggle =>
      have hafter := ih (h.toggle hq (hs.trans ht)) (by rw [since_toggle]) hops r hr
      exact hmono.trans ((h.elapsed_toggle hq (hs.trans ht)).trans hafter)
    | read =>
      rcases List.mem_cons.mp hr with rfl | hr
      · exact hmono
      · exact hmono.trans (ih h (hs.trans ht) hops r hr)

/-- **No reading is below an earlier one.** -/
theorem readings_mono (hq : 0 < q) {ops : List (Int × ClockOp)} :
    ∀ {c : PauseClock} {l : Ledger}, c.Kept q l → TimesFrom l.since ops →
      (c.readings q l ops).Pairwise fun r r' => r.elapsed ≤ r'.elapsed := by
  induction ops with
  | nil => intro c l _ _; exact List.Pairwise.nil
  | cons op ops ih =>
    obtain ⟨t, op⟩ := op
    rintro c l h ⟨ht, hops⟩
    cases op with
    | toggle => exact ih (h.toggle hq ht) (by rwa [since_toggle])
    | read =>
      exact List.pairwise_cons.mpr
        ⟨elapsed_le_readings hq h ht hops, ih h (hops.weaken ht)⟩

/-- The number of completed pauses does not go down. -/
theorem pauses_le_readings {ops : List (Int × ClockOp)} :
    ∀ {c : PauseClock} {l : Ledger}, ∀ r ∈ c.readings q l ops, l.pauses ≤ r.pauses := by
  induction ops with
  | nil => intro c l r hr; cases hr
  | cons op ops ih =>
    obtain ⟨t, op⟩ := op
    intro c l r hr
    cases op with
    | toggle =>
      refine le_trans ?_ (ih r hr)
      cases c.isPaused <;> simp [Ledger.toggle]
    | read =>
      rcases List.mem_cons.mp hr with rfl | hr
      · exact le_refl _
      · exact ih r hr

/-- A later reading in the same pause is the same. -/
theorem elapsed_eq_readings {ops : List (Int × ClockOp)} :
    ∀ {c : PauseClock} {l : Ledger} (s : Int), c.isPaused = true →
      ∀ r ∈ c.readings q l ops, r.pauses = l.pauses → c.elapsed q s = r.elapsed := by
  induction ops with
  | nil => intro c l s _ r hr; cases hr
  | cons op ops ih =>
    obtain ⟨t, op⟩ := op
    intro c l s hp r hr hk
    cases op with
    | toggle =>
      -- the pause is over: the count has moved on
      have := pauses_le_readings (l := l.toggle c.isPaused t) r hr
      simp only [Ledger.toggle, hp, if_true] at this
      omega
    | read =>
      rcases List.mem_cons.mp hr with rfl | hr
      · simp only [elapsed, hp, if_true]
      · exact ih s hp r hr hk

/-- **Readings in one pause are all the same.** -/
theorem readings_paused (ops : List (Int × ClockOp)) :
    ∀ (c : PauseClock) (l : Ledger),
      (c.readings q l ops).Pairwise fun r r' =>
        r.isPaused = true → r'.isPaused = true → r.pauses = r'.pauses → r.elapsed = r'.elapsed := by
  induction ops with
  | nil => intro c l; exact List.Pairwise.nil
  | cons op ops ih =>
    obtain ⟨t, op⟩ := op
    intro c l
    cases op with
    | toggle => exact ih _ _
    | read =>
      refine List.pairwise_cons.mpr ⟨fun r hr hp _ hk => ?_, ih _ _⟩
      exact elapsed_eq_readings t hp r hr hk.symm

end PauseClock

end Photonbar
