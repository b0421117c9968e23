import Mathlib.Tactic.Linarith
import Mathlib.Tactic.NormNum
import Mathlib.Tactic.Ring
import Photonbar.Ping
import Photonbar.Run

/-!
# The network rates (`ping.h`)

The rates are smoothed, so that every update hands on what the ones before it have measured. They
stay within the largest rate so far as long as no counter falls (`bounded_of_noFall`): a smoothed
rate is a mean of the one before and of the new one, and lies between them (`smooth_mem`).

The difference of a counter that has fallen is unsigned: the test against 0 comes too late for it,
and a rate is the rate of the rise exactly if the counter has not fallen (`rate_eq_rise_iff`). The
rise itself, with nothing where a counter falls, is what `PingRun` keeps the largest one of.
`step_rates` is all that is needed of an operation: the counters that it has seen are the last ones
from then on, and the rates are smoothed.
-/

namespace Photonbar

/-- The rate at which a counter has risen, in kilobytes. -/
def rise (cur last : UInt64) : ℚ := max 0 ((cur.toNat : ℚ) - last.toNat) / 1024

/-- What `curSent` and `curRecv` are after `getNetworkIo`. -/
def PingReading.seen (r : PingReading) : UInt64 × UInt64 := getNetworkIo r.io r.stack.1 r.stack.2

namespace PingModule

theorem rise_nonneg (cur last : UInt64) : 0 ≤ rise cur last :=
  div_nonneg (le_max_left _ _) (by norm_num)

theorem rate_eq (cur last : UInt64) : rate cur last = ((cur - last).toNat : ℚ) / 1024 := by
  have hpos : (0 : ℚ) ≤ (cur - last).toNat := Nat.cast_nonneg _
  rw [rate, if_neg (by linarith)]
  norm_num
  ring

/-- **A rate is that of the rise** if and only if the counter has not fallen. -/
theorem rate_eq_rise_iff (cur last : UInt64) : rate cur last = rise cur last ↔ last ≤ cur := by
  rw [rate_eq, rise, div_left_inj' (by norm_num), UInt64.le_iff_toNat_le]
  refine ⟨?_, ?_⟩
  · intro h
    by_contra hlt
    -- the unsigned difference is not 0
    have hfall : (cur.toNat : ℚ) - last.toNat ≤ 0 := by
      have : (cur.toNat : ℚ) ≤ last.toNat := by exact_mod_cast (not_le.mp hlt).le
      linarith
    rw [max_eq_left hfall] at h
    have hzero : (cur - last).toNat = 0 := by exact_mod_cast h
    rw [UInt64.toNat_sub] at hzero
    have := last.toNat_lt
    omega
  · intro h
    rw [UInt64.toNat_sub_of_le _ _ (UInt64.le_iff_toNat_le.mpr h), Nat.cast_sub h, max_eq_right]
    have : (last.toNat : ℚ) ≤ cur.toNat := by exact_mod_cast h
    linarith

/-- Smoothing stays within the bounds of what it smoothes. -/
theorem smooth_mem {r last M : ℚ} (hr : 0 ≤ r ∧ r ≤ M) (hlast : 0 ≤ last ∧ last ≤ M) :
    0 ≤ smooth r last ∧ smooth r last ≤ M := by
  rw [smooth]
  refine ⟨?_, ?_⟩
  · linarith [hr.1, hlast.1]
  · linarith [hr.2, hlast.2]

/-- Every operation updates the rates. -/
theorem step_rates (m : PingModule) (r : PingReading) (op : PingOp) :
    (m.step r op).lastSent = r.seen.1 ∧ (m.step r op).lastRecv = r.seen.2 ∧
      (m.step r op).lastUp = smooth (rate r.seen.1 m.lastSent) m.lastUp ∧
      (m.step r op).lastDown = smooth (rate r.seen.2 m.lastRecv) m.lastDown := by
  have hupdate (m : PingModule) : (m.update r).lastSent = r.seen.1 ∧
      (m.update r).lastRecv = r.seen.2 ∧
      (m.update r).lastUp = smooth (rate r.seen.1 m.lastSent) m.lastUp ∧
      (m.update r).lastDown = smooth (rate r.seen.2 m.lastRecv) m.lastDown := by
    rw [update, PingReading.seen]
    by_cases hnow : r.now = m.lastLatencyCheck
    · simp [hnow]
    · simp [hnow]
  obtain _ | _ := op
  · exact hupdate { m with showDetails := !m.showDetails }
  · exact hupdate m

end PingModule

/-! ## Runs -/

/-- A run, with the largest rates at which the counters have risen in an update so far. -/
structure PingRun where
  module : PingModule
  maxUp : ℚ
  maxDown : ℚ

namespace PingRun

/-- At the start nothing has risen. -/
def start (io : NetIo) : PingRun := ⟨.new io, 0, 0⟩

/-- One operation. -/
def step (s : PingRun) : PingReading × PingOp → Option PingRun
  | (r, op) => some ⟨s.module.step r op, max s.maxUp (rise r.seen.1 s.module.lastSent),
      max s.maxDown (rise r.seen.2 s.module.lastRecv)⟩

/-- The smoothed rates are not above the largest so far. -/
structure Bounded (s : PingRun) : Prop where
  up : 0 ≤ s.module.lastUp ∧ s.module.lastUp ≤ s.maxUp
  down : 0 ≤ s.module.lastDown ∧ s.module.lastDown ≤ s.maxDown

/-- No counter is below the one before. -/
def NoFall (s : PingRun) (e : PingReading × PingOp) : Prop :=
  s.module.lastSent ≤ e.1.seen.1 ∧ s.module.lastRecv ≤ e.1.seen.2

/-- After a step, none has fallen if none is below what that step read. -/
theorem noFall_step (m : PingModule) (r : PingReading) (op : PingOp) (up down : ℚ)
    (e : PingReading × PingOp) :
    NoFall ⟨m.step r op, up, down⟩ e ↔ r.seen.1 ≤ e.1.seen.1 ∧ r.seen.2 ≤ e.1.seen.2 := by
  obtain ⟨hsent, hrecv, -, -⟩ := m.step_rates r op
  rw [NoFall, hsent, hrecv]

theorem Bounded.step {s : PingRun} (h : s.Bounded) {e : PingReading × PingOp} (he : s.NoFall e) :
    ∃ s', s.step e = some s' ∧ s'.Bounded := by
  obtain ⟨r, op⟩ := e
  obtain ⟨hsent, hrecv⟩ := he
  obtain ⟨-, -, hup, hdown⟩ := s.module.step_rates r op
  refine ⟨_, rfl, ?_, ?_⟩
  · rw [hup, (PingModule.rate_eq_rise_iff _ _).mpr hsent]
    apply PingModule.smooth_mem
    · exact ⟨PingModule.rise_nonneg _ _, le_max_right _ _⟩
    · exact ⟨h.up.1, h.up.2.trans (le_max_left _ _)⟩
  · rw [hdown, (PingModule.rate_eq_rise_iff _ _).mpr hrecv]
    apply PingModule.smooth_mem
    · exact ⟨PingModule.rise_nonneg _ _, le_max_right _ _⟩
    · exact ⟨h.down.1, h.down.2.trans (le_max_left _ _)⟩

/-- **The rates stay in bounds** in every run in which no counter falls: they are not negative, and
not above the largest rate at which a counter has risen so far. The rate of an update is then that
of the rise, so both ends of the smoothing are within the bounds. -/
theorem bounded_of_noFall {io : NetIo} {es : List (PingReading × PingOp)}
    (h : AllSteps step NoFall (start io) es) : Always step Bounded (start io) es := by
  apply Always.of_allSteps (fun s e hs he => hs.step he) _ h
  exact ⟨⟨le_refl _, le_refl _⟩, ⟨le_refl _, le_refl _⟩⟩

/-- What an update meets that reads these counters, and no connection. -/
def reading (sent recv : UInt64) : PingReading := ⟨.counters sent recv, (0, 0), 0, .noSocket⟩

/-- Three updates and a click: no counter falls, and some stand still. -/
theorem bounded_first_kilobytes :
    let es := [(reading 2048 1024, PingOp.update), (reading 2048 4096, .handle .toggleDetails),
      (reading 10240 4096, .update), (reading 10240 8192, .update)]
    AllSteps step NoFall (start (.counters 0 0)) es ∧
      Always step Bounded (start (.counters 0 0)) es := by
  intro es
  have h : AllSteps step NoFall (start (.counters 0 0)) es := by
    refine ⟨⟨by decide, by decide⟩, ?_⟩
    simp only [AllSteps, step, noFall_step, Option.some.injEq, forall_eq', and_true]
    decide
  exact ⟨h, bounded_of_noFall h⟩

/-- An interface that has sent a kilobyte disappears: a rate of more than 10¹⁶ kilobytes is shown,
though no counter has ever risen. -/
theorem spike_of_reset :
    let s := start (.counters 1024 0)
    (∃ s', s.step (reading 0 0, .update) = some s' ∧ s'.maxUp = 0 ∧
        10 ^ 16 ≤ s'.module.lastUp) ∧
      ¬ Always step Bounded s [(reading 0 0, .update)] := by
  intro s
  have hspike : (10 : ℚ) ^ 16 ≤ (s.module.step (reading 0 0) .update).lastUp := by
    obtain ⟨-, -, hup, -⟩ := s.module.step_rates (reading 0 0) .update
    have hrate : PingModule.rate 0 1024 = ((2 ^ 64 - 1024 : Nat) : ℚ) / 1024 :=
      PingModule.rate_eq 0 1024
    rw [hup]
    show (10 : ℚ) ^ 16 ≤ PingModule.smooth (PingModule.rate 0 1024) 0
    rw [hrate]
    norm_num [PingModule.smooth]
  have hmax : max 0 (rise 0 1024) = 0 := by norm_num [rise]
  refine ⟨⟨_, rfl, hmax, hspike⟩, ?_⟩
  rintro ⟨-, s', hs', hbounded⟩
  obtain rfl := Option.some.inj hs'
  have hle := hspike.trans hbounded.head.up.2
  exact absurd (hle.trans hmax.le) (by norm_num)

end PingRun

end Photonbar
