import Photonbar.NetDevParse
import Photonbar.PingRates

/-!
# Updates that cannot read the counters (`ping.h`)

`Meter` is what the module is for: a sample that cannot be read counts as no traffic, and the next
one is measured against the last counters that were read. `update` has no such counters at hand, as
`curSent` and `curRecv` are not initialised: what they hold is taken for the counters, and kept.

A run has a meter beside the module, on the same samples. The module follows the meter if and only
if the variables on the stack happen to be right (`follows_meter_iff`). It needs no bookkeeping: an
operation is `Lucky`, or the module has counters from then on that nobody has read, and that is a
step like any other, judged by what `step_rates` says of it.
-/

namespace Photonbar

/-- The last counters that were read, and the rates. -/
structure Meter where
  lastSent : UInt64
  lastRecv : UInt64
  lastUp : ℚ
  lastDown : ℚ

namespace Meter

/-- A sample. -/
def sample (m : Meter) : NetIo → Meter
  | .unread => { m with
      lastUp := PingModule.smooth 0 m.lastUp
      lastDown := PingModule.smooth 0 m.lastDown }
  | .counters sent recv =>
    ⟨sent, recv, PingModule.smooth (PingModule.rate sent m.lastSent) m.lastUp,
      PingModule.smooth (PingModule.rate recv m.lastRecv) m.lastDown⟩

end Meter

/-- What happens to the module, with what comes of the calls. -/
structure PingEvent where
  calls : NetDev.Calls
  /-- what `curSent` and `curRecv` hold before anything is written to them -/
  stack : UInt64 × UInt64
  now : Int
  connection : Connection
  op : PingOp

/-- What the `update` of an event meets. -/
def PingEvent.reading (e : PingEvent) (netDevFd : Int) : PingReading :=
  ⟨NetDev.io netDevFd e.calls, e.stack, e.now, e.connection⟩

/-- A run, with a meter beside the module. -/
structure MeteredRun where
  netDevFd : Int
  module : PingModule
  meter : Meter

namespace MeteredRun

/-- The meter begins with what the module has. -/
def start (netDevFd : Int) (m : PingModule) : MeteredRun :=
  ⟨netDevFd, m, ⟨m.lastSent, m.lastRecv, m.lastUp, m.lastDown⟩⟩

/-- One operation. -/
def step (s : MeteredRun) (e : PingEvent) : Option MeteredRun :=
  some ⟨s.netDevFd, s.module.step (e.reading s.netDevFd) e.op,
    s.meter.sample (NetDev.io s.netDevFd e.calls)⟩

/-- The module has what the meter has. -/
def Follows (s : MeteredRun) : Prop :=
  s.meter = ⟨s.module.lastSent, s.module.lastRecv, s.module.lastUp, s.module.lastDown⟩

/-- Nothing is read only where the variables on the stack have the last counters. -/
def Lucky (s : MeteredRun) (e : PingEvent) : Prop :=
  NetDev.io s.netDevFd e.calls = .unread → e.stack = (s.module.lastSent, s.module.lastRecv)

end MeteredRun

namespace PingModule

theorem rate_self (c : UInt64) : rate c c = 0 := by
  rw [rate_eq, UInt64.sub_self]
  norm_num

end PingModule

namespace MeteredRun

/-- One operation follows the meter if and only if it is lucky. -/
theorem follows_step_iff {s : MeteredRun} (h : s.Follows) (e : PingEvent) :
    s.Lucky e ↔ ∃ s', s.step e = some s' ∧ s'.Follows := by
  obtain ⟨hsent, hrecv, hup, hdown⟩ := s.module.step_rates (e.reading s.netDevFd) e.op
  have hstep : (∃ s', s.step e = some s' ∧ s'.Follows) ↔ Follows
      ⟨s.netDevFd, s.module.step (e.reading s.netDevFd) e.op,
        s.meter.sample (NetDev.io s.netDevFd e.calls)⟩ := by
    simp only [step, Option.some.injEq, exists_eq_left']
  rw [hstep, Follows, hsent, hrecv, hup, hdown, h]
  cases hio : NetDev.io s.netDevFd e.calls with
  | counters sent recv =>
    have hseen : (e.reading s.netDevFd).seen = (sent, recv) := by
      rw [PingReading.seen, PingEvent.reading, hio]
      rfl
    rw [hseen, Lucky, hio]
    exact iff_of_true (by simp) rfl
  | unread =>
    have hseen : (e.reading s.netDevFd).seen = e.stack := by
      rw [PingReading.seen, PingEvent.reading, hio]
      rfl
    rw [hseen, Lucky, hio]
    refine ⟨?_, ?_⟩
    · intro hstack
      rw [hstack rfl, PingModule.rate_self, PingModule.rate_self]
      rfl
    · intro hmeter _
      obtain ⟨hsent, hrecv, -, -⟩ := Meter.mk.inj hmeter
      exact Prod.ext hsent.symm hrecv.symm

/-- **The module follows the meter** in a run if and only if, at every update that cannot read the
counters, the variables on the stack happen to have the last ones. -/
theorem follows_meter_iff (netDevFd : Int) (m : PingModule) (es : List PingEvent) :
    Always step Follows (start netDevFd m) es ↔ AllSteps step Lucky (start netDevFd m) es := by
  have hstart : (start netDevFd m).Follows := rfl
  rw [always_iff_allSteps (fun _ _ _ _ _ => trivial) (fun s e h _ => follows_step_iff h e) trivial,
    and_iff_right hstart]

/-- An update that has no descriptor. -/
def unreadable : PingEvent := ⟨⟨0, none⟩, (7, 0), 0, .noSocket, .update⟩

/-- What was on the stack becomes the last counter, though nothing has been read. -/
theorem stack_is_counter :
    let s := start (-1) (.new .unread)
    (∃ s', s.step unreadable = some s' ∧ s'.module.lastSent = 7 ∧ s'.meter.lastSent = 0) ∧
      ¬ Always step Follows s [unreadable] := by
  intro s
  have hsent : (s.module.step (unreadable.reading (-1)) .update).lastSent = 7 :=
    (s.module.step_rates (unreadable.reading (-1)) .update).1
  refine ⟨⟨_, rfl, hsent, rfl⟩, ?_⟩
  rintro ⟨-, s', hs', hfollows⟩
  obtain rfl := Option.some.inj hs'
  have hzero := (Meter.mk.inj hfollows.head).1
  exact absurd (hzero.trans hsent) (by decide)

end MeteredRun

end Photonbar
