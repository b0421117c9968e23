import Mathlib.Logic.Function.Iterate
import Mathlib.Tactic.Ring
import Photonbar.AudioRuns

/-!
# The volume that is shown after a scroll (`audio.h`)

`adjustVolume` turns a percentage into a `pa_volume_t`, cutting off the fraction, and
`sink_info_callback` turns it back, cutting off again. A percentage is `n * 65536 / 100`, and 100
and 65536 have only a 4 in common: both quotients are exact for the multiples of 25 only. For every
other percentage the volume that comes back is one less than the one that was asked for
(`rescale_rescale`, `adjustVolume_volume`).

So a scroll is the function `shownAfter`, once the server has stored what was asked for (`Stored`).
Scrolls up and down again are an iteration of it, and lose more than they gain: a step up never
ends above what was asked for, and a step down ends at least two below where it began. Only where
nothing is heard does the loss come to nothing (`iterate_down_up`).
-/

namespace Photonbar

/-! ## A number in another scale and back -/

/-- With `N` steps in the place of `B` fewer ones, there and back loses one unless the number is
hit exactly. -/
theorem rescale_rescale {N B : Int} (hB : 0 < B) (hBN : B ≤ N) (n : Int) :
    N * n / B * B / N = if B ∣ N * n then n else n - 1 := by
  have hN : 0 < N := by omega
  have hcut : N * n / B * B = N * n - N * n % B := by
    have := Int.mul_ediv_add_emod (N * n) B
    rw [Int.mul_comm] at this
    omega
  rw [hcut]
  split
  · next h =>
      rw [Int.emod_eq_zero_of_dvd h, Int.sub_zero, Int.mul_ediv_cancel_left n (by omega)]
  · next h =>
      have hpos : 0 < N * n % B := by
        have hne : N * n % B ≠ 0 := fun h0 => h (Int.dvd_of_emod_eq_zero h0)
        have := Int.emod_nonneg (N * n) (by omega : B ≠ 0)
        omega
      have hlt := Int.emod_lt_of_pos (N * n) hB
      have hsplit : N * n - N * n % B = (N - N * n % B) + N * (n - 1) := by ring
      rw [hsplit, Int.add_mul_ediv_left _ _ (by omega : N ≠ 0),
        Int.ediv_eq_zero_of_lt (by omega) (by omega)]
      omega

/-! ## One scroll -/

/-- The percentage that is shown when `n` was asked for. -/
def shownFor (n : Int) : Int := if 25 ∣ n then n else n - 1

theorem shownFor_eq (n : Int) : PA_VOLUME_NORM * n / 100 * 100 / PA_VOLUME_NORM = shownFor n := by
  have h := rescale_rescale (N := PA_VOLUME_NORM) (B := 100) (by decide) (by decide) n
  have hdvd : (100 ∣ PA_VOLUME_NORM * n) ↔ 25 ∣ n := by
    rw [PA_VOLUME_NORM]
    omega
  rw [h]
  simp only [hdvd, shownFor]

/-- The products of `adjustVolume` and of `sink_info_callback` for the percentage `n` fit their
types. -/
def NoOverflow (n : Int) : Prop := PA_VOLUME_NORM * n / 100 * 100 < 2 ^ 31

instance (n : Int) : Decidable (NoOverflow n) := inferInstanceAs (Decidable (_ < _))

namespace AudioModule

/-- What a report says of the sink that is the default one. -/
theorem sink_info_callback_volume (m : AudioModule) (i : SinkReport) :
    (m.sink_info_callback i).currentSink.volume =
      if m.defaultSinkName = i.name then (i.avg.toBitVec.toInt * 100).tdiv PA_VOLUME_NORM
      else m.currentSink.volume := by
  rw [sink_info_callback]
  by_cases hblue : ascii "bluez".toList <:+: i.name
  · obtain ⟨_, _, hlevel⟩ := m.getBluetoothBatteryLevel_eq i.now i.upower
    simp only [hblue, decide_true, if_true, addSink_eq, hlevel]
    split <;> rfl
  · simp only [hblue, decide_false, Bool.false_eq_true, if_false, addSink_eq]
    split <;> rfl

theorem sink_info_callback_defaultSinkName (m : AudioModule) (i : SinkReport) :
    (m.sink_info_callback i).defaultSinkName = m.defaultSinkName := by
  obtain ⟨_, _, _, -, heq⟩ := m.sink_info_callback_eq i
  rw [heq]

/-- Sinks of which those with the default name have the volume `cv`. -/
theorem foldl_sink_info_callback_volume (cv : UInt32) (is : List SinkReport) :
    ∀ m : AudioModule, (∀ i ∈ is, i.name = m.defaultSinkName → i.avg = cv) →
      (∃ i ∈ is, i.name = m.defaultSinkName) ∨
        m.currentSink.volume = (cv.toBitVec.toInt * 100).tdiv PA_VOLUME_NORM →
      (is.foldl sink_info_callback m).currentSink.volume =
        (cv.toBitVec.toInt * 100).tdiv PA_VOLUME_NORM := by
  induction is with
  | nil =>
    intro m _ hlisted
    rcases hlisted with ⟨_, hi, -⟩ | h
    · exact (List.not_mem_nil hi).elim
    · exact h
  | cons i is ih =>
    intro m hcv hlisted
    have hname := m.sink_info_callback_defaultSinkName i
    rw [List.foldl_cons]
    apply ih
    · rw [hname]
      exact fun j hj => hcv j (List.mem_cons_of_mem _ hj)
    · rw [hname, sink_info_callback_volume]
      by_cases hi : m.defaultSinkName = i.name
      · right
        rw [if_pos hi, hcv i List.mem_cons_self hi.symm]
      · rw [if_neg hi]
        rcases hlisted with ⟨j, hj, hjname⟩ | h
        · rcases List.mem_cons.mp hj with rfl | hj
          · exact absurd hjname.symm hi
          · exact .inl ⟨j, hj, hjname⟩
        · exact .inr h

/-- The server has stored what the scroll has asked for: the sink that was set is in the report
as the default one, with the volume that it was given. -/
structure Stored (m : AudioModule) (delta : Int) (r : Report) : Prop where
  listed : ∃ s ∈ r.sinks, s.name = (m.server_info_callback r.server).defaultSinkName
  volume : ∀ s ∈ r.sinks, s.name = (m.server_info_callback r.server).defaultSinkName →
    (m.adjustVolume delta r).command = some (.setVolume s.index s.avg)

/-- **After a scroll** the percentage that was asked for is shown, or the one below it. -/
theorem adjustVolume_volume {m : AudioModule} {delta : Int} {r : Report} (h : m.Stored delta r)
    (hfit : NoOverflow (max 0 (m.currentSink.volume + delta))) :
    (m.adjustVolume delta r).module.currentSink.volume =
      shownFor (max 0 (m.currentSink.volume + delta)) := by
  have hn : 0 ≤ max 0 (m.currentSink.volume + delta) := le_max_left ..
  generalize hasked : max 0 (m.currentSink.volume + delta) = n at hfit hn ⊢
  have hcv : (UInt32.ofInt (PA_VOLUME_NORM * n / 100)).toBitVec.toInt =
      PA_VOLUME_NORM * n / 100 := by
    rw [NoOverflow, PA_VOLUME_NORM] at *
    have hnat : ((UInt32.ofInt (65536 * n / 100)).toNat : Int) = 65536 * n / 100 := by
      rw [UInt32.ofInt, UInt32.toNat_ofNat']
      omega
    rw [BitVec.toInt_eq_toNat_of_lt]
    · exact hnat
    · rw [UInt32.toNat_toBitVec]
      omega
  have hback : (PA_VOLUME_NORM * n / 100 * 100).tdiv PA_VOLUME_NORM = shownFor n := by
    rw [← shownFor_eq, Int.tdiv_eq_ediv_of_nonneg]
    rw [PA_VOLUME_NORM]
    omega
  have hname : (({ m with allSinks := [] } : AudioModule).server_info_callback
      r.server).defaultSinkName = (m.server_info_callback r.server).defaultSinkName := by
    cases r.server <;> rfl
  have hshow := foldl_sink_info_callback_volume (UInt32.ofInt (PA_VOLUME_NORM * n / 100))
    r.sinks (({ m with allSinks := [] } : AudioModule).server_info_callback r.server)
  rw [hname, hcv, hback] at hshow
  refine hshow (fun s hs hdefault => ?_) (.inl h.listed)
  have hset := h.volume s hs hdefault
  simp only [adjustVolume, hasked, Option.some.injEq, SinkCommand.setVolume.injEq] at hset
  exact hset.2.symm

/-! ## Scrolling up and down -/

/-- Scrolls by `delta`, one for each report. -/
def scroll (delta : Int) (m : AudioModule) (rs : List Report) : AudioModule :=
  rs.foldl (fun m r => (m.adjustVolume delta r).module) m

/-- The server has stored what each of the scrolls has asked for, and no product overflows. -/
def AllStored (delta : Int) : AudioModule → List Report → Prop
  | _, [] => True
  | m, r :: rs =>
    m.Stored delta r ∧ NoOverflow (max 0 (m.currentSink.volume + delta)) ∧
      AllStored delta (m.adjustVolume delta r).module rs

end AudioModule

/-- The percentage that is shown after `v`. -/
def shownAfter (delta v : Int) : Int := shownFor (max 0 (v + delta))

open AudioModule in
theorem scroll_volume {delta : Int} {rs : List Report} :
    ∀ {m : AudioModule}, m.AllStored delta rs →
      (m.scroll delta rs).currentSink.volume =
        (shownAfter delta)^[rs.length] m.currentSink.volume := by
  induction rs with
  | nil => exact fun _ => rfl
  | cons r rs ih =>
    rintro m ⟨hstored, hfit, hrest⟩
    have hone : (m.adjustVolume delta r).module.currentSink.volume =
        shownAfter delta m.currentSink.volume := adjustVolume_volume hstored hfit
    rw [List.length_cons, Function.iterate_succ_apply, ← hone]
    exact ih hrest

/-- Upwards no step is more than 2, and it is 2 only onto a multiple of 25. -/
theorem shownAfter_up {v : Int} (hv : 0 ≤ v) :
    0 ≤ shownAfter 2 v ∧ shownAfter 2 v ≤ v + 2 ∧ (shownAfter 2 v = v + 2 → 25 ∣ v + 2) := by
  rw [shownAfter, shownFor]
  split <;> omega

/-- Downwards no step is less than 2, but onto 0, and it is 2 only onto a multiple of 25. -/
theorem shownAfter_down {v : Int} (hv : 0 ≤ v) :
    0 ≤ shownAfter (-2) v ∧ shownAfter (-2) v ≤ max 0 (v - 2) ∧
      (shownAfter (-2) v = v - 2 → 25 ∣ v - 2) := by
  rw [shownAfter, shownFor]
  split <;> omega

theorem iterate_up (n : Nat) : ∀ {v : Int}, 0 ≤ v →
    0 ≤ (shownAfter 2)^[n] v ∧ (shownAfter 2)^[n] v ≤ v + 2 * n ∧
      ((shownAfter 2)^[n] v = v + 2 * n → n = 0 ∨ 25 ∣ v + 2) := by
  induction n with
  | zero => intro v hv; simpa using hv
  | succ n ih =>
    intro v hv
    obtain ⟨hpos, hle, hexact⟩ := shownAfter_up hv
    obtain ⟨hpos', hle', -⟩ := ih hpos
    rw [Function.iterate_succ_apply]
    refine ⟨hpos', by omega, fun heq => .inr (hexact ?_)⟩
    omega

theorem iterate_down (n : Nat) {v : Int} (hv : 0 ≤ v) :
    0 ≤ (shownAfter (-2))^[n] v ∧ (shownAfter (-2))^[n] v ≤ max 0 (v - 2 * n) := by
  induction n with
  | zero => simpa using hv
  | succ n ih =>
    obtain ⟨hpos, hle, -⟩ := shownAfter_down ih.1
    rw [Function.iterate_succ_apply']
    omega

/-- As many steps down as up lead back from 0 only. -/
theorem iterate_down_up (n : Nat) {v : Int} (hv : 0 ≤ v) :
    (shownAfter (-2))^[n] ((shownAfter 2)^[n] v) = v ↔ n = 0 ∨ v = 0 := by
  obtain ⟨hup, hule, huexact⟩ := iterate_up n hv
  refine ⟨?_, ?_⟩
  · intro heq
    cases n with
    | zero => exact .inl rfl
    | succ n =>
      right
      by_contra hne
      -- the last step ends at `v`, and the first one started there: one of them is not exact
      obtain ⟨hpos, hle⟩ := iterate_down n hup
      obtain ⟨-, hlast, hexact⟩ := shownAfter_down hpos
      rw [Function.iterate_succ_apply'] at heq
      rw [heq] at hlast hexact
      omega
  · rintro (rfl | rfl)
    · rfl
    · obtain ⟨hpos, hle⟩ := iterate_down n hup
      omega

open AudioModule in
/-- **What a scroll shows.** A scroll ends at the percentage that was asked for if and only if that
is a multiple of 25, and as many scrolls down as up lead back if and only if there are none or
nothing was heard to begin with. To lead back, the last step down would have to be exact and the
first step up as well, and they are two apart. -/
theorem scroll_exact_iff (m : AudioModule) :
    (∀ {delta : Int} {r : Report}, m.Stored delta r →
      NoOverflow (max 0 (m.currentSink.volume + delta)) →
        ((m.adjustVolume delta r).module.currentSink.volume =
            max 0 (m.currentSink.volume + delta) ↔
          25 ∣ max 0 (m.currentSink.volume + delta))) ∧
    ∀ {ups downs : List Report}, 0 ≤ m.currentSink.volume →
      m.AllStored 2 ups → (m.scroll 2 ups).AllStored (-2) downs → downs.length = ups.length →
        (((m.scroll 2 ups).scroll (-2) downs).currentSink.volume = m.currentSink.volume ↔
          ups = [] ∨ m.currentSink.volume = 0) := by
  refine ⟨?_, ?_⟩
  · intro delta r hstored hfit
    rw [adjustVolume_volume hstored hfit, shownFor]
    split <;> omega
  · intro ups downs hv hups hdowns hlen
    rw [scroll_volume hdowns, scroll_volume hups, hlen, iterate_down_up ups.length hv,
      List.length_eq_zero_iff]

/-- A server with one sink, at the volume `avg`. -/
def oneSink (avg : UInt32) : Report where
  server := some (ascii "alsa".toList)
  sinks := [{ name := ascii "alsa".toList, index := 0, mute := false, avg := avg, now := 0, upower := .noPipe }]

/-- The module that has read this server. -/
def atVolume (avg : UInt32) : AudioModule :=
  (AudioModule.new ⟨⟨[], 0⟩, 0, false, false, 0⟩).refreshCache (oneSink avg)

theorem stored_oneSink {cv : UInt32} {delta : Int} {m : AudioModule}
    (h : (m.adjustVolume delta (oneSink cv)).command = some (.setVolume 0 cv)) :
    m.Stored delta (oneSink cv) where
  listed := ⟨_, List.mem_singleton_self _, rfl⟩
  volume s hs _ := by
    rw [List.mem_singleton.mp hs]
    exact h

/-- At 50 %, two more are 51 %; and two less are then 48 %. -/
theorem scroll_from_fifty :
    let m := atVolume 32768
    let up := m.adjustVolume 2 (oneSink 34078)
    let down := up.module.adjustVolume (-2) (oneSink 32112)
    m.currentSink.volume = 50 ∧ m.Stored 2 (oneSink 34078) ∧ NoOverflow 52 ∧
      up.module.currentSink.volume = 51 ∧ up.module.Stored (-2) (oneSink 32112) ∧
      NoOverflow 49 ∧ down.module.currentSink.volume = 48 := by
  intro m up down
  exact ⟨by decide, stored_oneSink (by decide), by decide, by decide, stored_oneSink (by decide),
    by decide, by decide⟩

/-- From 48 % to 50 % and from nothing to 1 % and back. -/
theorem scroll_exact_at_fifty :
    ((atVolume 31458).adjustVolume 2 (oneSink 32768)).module.currentSink.volume = 50 ∧
      (((atVolume 0).scroll 2 [oneSink 1310]).scroll (-2) [oneSink 0]).currentSink.volume = 0 := by
  have hups : (atVolume 0).AllStored 2 [oneSink 1310] :=
    ⟨stored_oneSink (by decide), by decide, trivial⟩
  have hdowns : ((atVolume 0).scroll 2 [oneSink 1310]).AllStored (-2) [oneSink 0] :=
    ⟨stored_oneSink (by decide), by decide, trivial⟩
  refine ⟨?_, ?_⟩
  · exact ((scroll_exact_iff (atVolume 31458)).1 (stored_oneSink (by decide)) (by decide)).mpr
      (by decide)
  · exact ((scroll_exact_iff (atVolume 0)).2 (by decide) hups hdowns rfl).mpr (.inr (by decide))

end Photonbar
