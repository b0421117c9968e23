import Photonbar.SingleInstance

/-!
# Processes that start at the same time (`process_manager.cpp`, `main.cpp`)

Any number of processes start at once, so that each of them calls `handleExistingInstances(false, _)`.
`Race` is what is left of the `main` of each process, beside the files and the process table; one step
is one access of one process to the lock file or the process table, or a process that appears or is
killed. The program of a process is `mainStart`, the one that whole starts are made of elsewhere, and
so a call that is refused is not the end: `main` returns, and the destructor of `ProcessManager`
removes the lock file, whose ever it is.

Two things go wrong. The file is read and written by separate steps, so that two processes may both
find it free; and a process that has been refused removes the lock of the one that runs, after which
a third one finds the file free (`two_calls_succeed`). `atMostOne_of_careful` says that nothing else
does. The invariant is `Kept`: either no call has returned true, or one process *holds* the file
(`Held`), and every other one is *behind* it: it has not read the file yet, or has read the pid of the
holder, or has been refused, or what it has read is too old for it to go on.
-/

namespace Photonbar

open ProcessManager

/-- Starts that are under way. -/
structure Race where
  files : Text → Option Text
  /-- the process table -/
  alive : Int → Bool
  /-- what is left of the `main` of each process, up to the bars -/
  calls : Pid → Sys Started
  /-- the process has read the lock file since it was last written -/
  current : Pid → Bool

/-- What happens next. -/
inductive RaceEvent where
  /-- the process takes its next step; `writable` and `garbage` are as in `Env` -/
  | step (pid : Pid) (writable : Bool) (garbage : Int)
  /-- a process appears -/
  | appear (pid : Pid)
  /-- a process is killed, or is gone after it has returned from `main` -/
  | vanish (pid : Pid)

namespace Race

/-- The call has returned true: the process has gone on to its bars. -/
def succeeded : Sys Started → Bool
  | .ret (.running _) => true
  | _ => false

/-- The process goes on with `rest`. -/
def goOn (s : Race) (pid : Pid) (rest : Sys Started) : Race :=
  { s with calls := Function.update s.calls pid rest }

/-- The next step of a process. Without `--restart` no process signals or sleeps. -/
def next (s : Race) (pid : Pid) (writable : Bool) (garbage : Int) : Option Race :=
  match s.calls pid with
  | .ret _ => none
  | .read none k => some (s.goOn pid (k none))
  | .read (some path) k =>
    some { s.goOn pid (k (s.files path)) with current := Function.update s.current pid true }
  | .write none _ k => some (s.goOn pid (k false))
  | .write (some path) n k =>
    if writable then
      some { s.goOn pid (k true) with
        files := Function.update s.files path (some (decimal n))
        current := fun p => p = pid && s.current p }
    else some (s.goOn pid (k false))
  | .unlink none k => some (s.goOn pid k)
  | .unlink (some path) k =>
    some { s.goOn pid k with files := Function.update s.files path none }
  | .probe n k => some (s.goOn pid (k (s.alive n)))
  | .unset k => some (s.goOn pid (k garbage))
  | .kill _ _ _ | .sleep _ _ => none

/-- One event. Processes that run take steps, and none ends whose call has returned true. -/
def step (s : Race) : RaceEvent → Option Race
  | .step pid writable garbage => if s.alive pid.val then s.next pid writable garbage else none
  | .appear pid => some { s with alive := Function.update s.alive pid.val true }
  | .vanish pid =>
    if succeeded (s.calls pid) then none
    else some { s with alive := Function.update s.alive pid.val false }

section

variable (pw_name : Text)

/-- Before any process has taken a step. -/
def start (files : Text → Option Text) (alive : Int → Bool) : Race where
  files
  alive
  calls pid := mainStart pw_name pid.val false false false
  current _ := false

/-- The lock file is absent, or it names a process that does not run. -/
def Free (files : Text → Option Text) (alive : Int → Bool) : Prop :=
  ∀ text, files (getLockFilePath pw_name) = some text →
    ∃ pid, extract text = some pid ∧ alive pid = false

/-! ## What is left of a start -/

/-- Behind a call that has been refused: the destructor removes the lock file. -/
def refused : Sys Started := .unlink (minding pw_name).lockFilePath (.ret (.returned 1))

/-- Before the write. -/
def acquiring (pid : Pid) : Sys Started :=
  .write (minding pw_name).lockFilePath pid.val fun ok =>
    if ok then .ret (.running (minding pw_name)) else refused pw_name

/-- Before the removal of a stale file. -/
def removing (pid : Pid) : Sys Started :=
  .unlink (minding pw_name).lockFilePath (acquiring pw_name pid)

/-- Before the probe of the process that the file names. -/
def probing (pid : Pid) (n : Int) : Sys Started :=
  .probe n fun running => if running then refused pw_name else removing pw_name pid

/-- Behind the reading of the file. -/
def deciding (pid : Pid) (n : Int) : Sys Started :=
  if n = 0 then acquiring pw_name pid else probing pw_name pid n

/-- Before the reading of the file. -/
def reading (pid : Pid) : Sys Started :=
  .read (minding pw_name).lockFilePath fun
    | none => deciding pw_name pid 0
    | some text =>
      match extract text with
      | some n => deciding pw_name pid n
      | none => .unset (deciding pw_name pid)

/-- What `main` does with the result of the call. -/
def leaving (r : Bool × ProcessManager) : Sys Started :=
  if r.1 then .ret (.running r.2) else .unlink r.2.lockFilePath (.ret (.returned 1))

/-- A start without options is a call, and what `main` does with its result. -/
theorem mainStart_bind (pid : Int) : mainStart pw_name pid false false false =
    (handleExistingInstances pw_name pid false .new).bind leaving := by
  rw [mainStart]
  simp only [Bool.false_eq_true, if_false, Bool.not_false, if_true, Sys.bind_eq]
  refine congrArg _ (funext fun r => ?_)
  obtain ⟨ok, pm⟩ := r
  cases ok <;> rfl

theorem mainStart_eq (pid : Pid) :
    mainStart pw_name pid.val false false false = reading pw_name pid := by
  obtain ⟨rest, hrest, heq⟩ : ∃ rest, (∀ n, (rest n).bind leaving = deciding pw_name pid n) ∧
      handleExistingInstances pw_name pid.val false .new =
        (minding pw_name).readLockFile.bind rest := by
    refine ⟨_, fun n => ?_, rfl⟩
    have hwrite : (((minding pw_name).writeLockFile pid.val).bind (fun ok =>
        if !ok then .ret (false, minding pw_name) else .ret (true, minding pw_name))).bind leaving =
          acquiring pw_name pid := by
      refine congrArg (Sys.write _ _) (funext fun ok => ?_)
      cases ok <;> rfl
    simp only [deciding]
    split
    · exact hwrite
    · refine congrArg (Sys.probe n) (funext fun running => ?_)
      cases running
      · exact congrArg (Sys.unlink _) hwrite
      · rfl
  rw [mainStart_bind, heq, Sys.bind_assoc, readLockFile, Sys.bind, reading]
  refine congrArg _ (funext fun text => ?_)
  cases text with
  | none => exact hrest 0
  | some text =>
    simp only
    cases extract text with
    | none => exact congrArg Sys.unset (funext hrest)
    | some n => exact hrest n

/-- What can be left of a start. -/
inductive Pending (pid : Pid) : Sys Started → Prop
  | reading : Pending pid (reading pw_name pid)
  /-- the file is empty, and the variable was never written -/
  | choosing : Pending pid (.unset (deciding pw_name pid))
  | probing (n : Int) : Pending pid (probing pw_name pid n)
  | removing : Pending pid (removing pw_name pid)
  | acquiring : Pending pid (acquiring pw_name pid)
  | refused : Pending pid (refused pw_name)
  | ended (started : Started) : Pending pid (.ret started)

end

/-- The next step is one of those that take the lock file: the removal of a stale one, or the
write. -/
def takes (writable : Bool) : Sys Started → Bool
  | .write (some _) _ _ => writable
  | .unlink (some _) (.write _ _ _) => true
  | _ => false

/-- The file that the next step removes on the way out. -/
def leaves : Sys Started → Option Text
  | .unlink path (.ret _) => path
  | _ => none

/-- A process takes the lock file only if nobody has written it since the process has read it, and a
process that has been refused does not remove the lock file of one whose call has returned true. -/
def Careful (s : Race) : RaceEvent → Prop
  | .step pid writable _ =>
    (takes writable (s.calls pid) = true → s.current pid = true) ∧
      ∀ path p, leaves (s.calls pid) = some path → succeeded (s.calls p) = true →
        s.files path ≠ some (decimal p.val)
  | _ => True

/-- At most one call has returned true. -/
def AtMostOne (s : Race) : Prop :=
  ∀ p q, succeeded (s.calls p) = true → succeeded (s.calls q) = true → p = q

section

variable {pw_name : Text} {s s' : Race}

theorem deciding_pending (pid : Pid) (n : Int) : Pending pw_name pid (deciding pw_name pid n) := by
  rw [deciding]
  split
  · exact .acquiring
  · exact .probing n

theorem succeeded_deciding (pid : Pid) (n : Int) : succeeded (deciding pw_name pid n) = false := by
  rw [deciding]
  split <;> rfl

/-- What a process goes on with when it has read the file. -/
def afterReading (pw_name : Text) (files : Text → Option Text) (pid : Pid) :
    Sys Started :=
  match files (getLockFilePath pw_name) with
  | none => deciding pw_name pid 0
  | some text =>
    match extract text with
    | some n => deciding pw_name pid n
    | none => .unset (deciding pw_name pid)

theorem afterReading_pending (files : Text → Option Text) (pid : Pid) :
    Pending pw_name pid (afterReading pw_name files pid) ∧
      succeeded (afterReading pw_name files pid) = false := by
  rw [afterReading]
  split
  · exact ⟨deciding_pending pid 0, succeeded_deciding pid 0⟩
  · split
    · exact ⟨deciding_pending pid _, succeeded_deciding pid _⟩
    · exact ⟨.choosing, rfl⟩

/-- Who reads the pid of a process goes on to probe it. -/
theorem afterReading_decimal {files : Text → Option Text} {p : Pid}
    (h : files (getLockFilePath pw_name) = some (decimal p.val)) (pid : Pid) :
    afterReading pw_name files pid = probing pw_name pid p.val := by
  have hp : p.val ≠ 0 := by have := p.pos; omega
  simp only [afterReading, h, extract_decimal, deciding, if_neg hp]

/-- **What one step of a process does.** -/
theorem next_cases {pid : Pid} {writable : Bool} {garbage : Int}
    (hpending : Pending pw_name pid (s.calls pid)) (h : s.next pid writable garbage = some s') :
    (s.calls pid = reading pw_name pid ∧
      s' = { s.goOn pid (afterReading pw_name s.files pid) with
        current := Function.update s.current pid true }) ∨
    (s.calls pid = .unset (deciding pw_name pid) ∧ s' = s.goOn pid (deciding pw_name pid garbage)) ∨
    (∃ n, s.calls pid = probing pw_name pid n ∧
      s' = s.goOn pid (if s.alive n then refused pw_name else removing pw_name pid)) ∨
    (s.calls pid = removing pw_name pid ∧
      s' = { s.goOn pid (acquiring pw_name pid) with
        files := Function.update s.files (getLockFilePath pw_name) none }) ∨
    (s.calls pid = acquiring pw_name pid ∧ writable = true ∧
      s' = { s.goOn pid (.ret (.running (minding pw_name))) with
        files := Function.update s.files (getLockFilePath pw_name) (some (decimal pid.val))
        current := fun p => p = pid && s.current p }) ∨
    (s.calls pid = acquiring pw_name pid ∧ writable = false ∧ s' = s.goOn pid (refused pw_name)) ∨
    (s.calls pid = refused pw_name ∧
      s' = { s.goOn pid (.ret (.returned 1)) with
        files := Function.update s.files (getLockFilePath pw_name) none }) := by
  rw [next] at h
  generalize hrest : s.calls pid = rest at h hpending
  cases hpending with
  | reading =>
    exact .inl ⟨rfl, (Option.some.inj h).symm⟩
  | choosing => exact .inr (.inl ⟨rfl, (Option.some.inj h).symm⟩)
  | probing n => exact .inr (.inr (.inl ⟨n, rfl, (Option.some.inj h).symm⟩))
  | removing => exact .inr (.inr (.inr (.inl ⟨rfl, (Option.some.inj h).symm⟩)))
  | acquiring =>
    cases writable with
    | true => exact .inr (.inr (.inr (.inr (.inl ⟨rfl, rfl, (Option.some.inj h).symm⟩))))
    | false => exact .inr (.inr (.inr (.inr (.inr (.inl ⟨rfl, rfl, (Option.some.inj h).symm⟩)))))
  | refused => exact .inr (.inr (.inr (.inr (.inr (.inr ⟨rfl, (Option.some.inj h).symm⟩)))))
  | ended started => cases h

/-! ## Who holds the file -/

/-- Where another process may be while `p` holds the file: it has not read it yet, or it has
read the pid of `p`, or it has been refused, or what it has read is too old for it to go on. -/
def Behind (pw_name : Text) (s : Race) (p q : Pid) : Prop :=
  s.calls q = reading pw_name q ∨ s.calls q = probing pw_name q p.val ∨
    s.calls q = refused pw_name ∨ s.calls q = .ret (.returned 1) ∨
    (s.current q = false ∧ succeeded (s.calls q) = false)

/-- The call of `p` has returned true, and the file says so. -/
structure Held (pw_name : Text) (s : Race) (p : Pid) : Prop where
  succeeded : succeeded (s.calls p) = true
  file : s.files (getLockFilePath pw_name) = some (decimal p.val)
  alive : s.alive p.val = true
  others : ∀ q, q ≠ p → Behind pw_name s p q

/-- **The invariant**: either no call has returned true, or one process holds the file. -/
structure Kept (pw_name : Text) (s : Race) : Prop where
  pending : ∀ q, Pending pw_name q (s.calls q)
  held : (∀ q, Race.succeeded (s.calls q) = false) ∨ ∃ p, Held pw_name s p

theorem Behind.not_succeeded {p q : Pid} (h : Behind pw_name s p q) :
    succeeded (s.calls q) = false := by
  rcases h with h | h | h | h | ⟨-, h⟩
  · rw [h]; rfl
  · rw [h]; rfl
  · rw [h]; rfl
  · rw [h]; rfl
  · exact h

/-- Who is behind does not take the file, unless what it has read is too old. -/
theorem Behind.current {p q : Pid} (h : Behind pw_name s p q) {writable : Bool}
    (htakes : takes writable (s.calls q) = true) : s.current q = false := by
  rcases h with h | h | h | h | ⟨h, -⟩
  · rw [h] at htakes; cases htakes
  · rw [h] at htakes; cases htakes
  · rw [h] at htakes; cases htakes
  · rw [h] at htakes; cases htakes
  · exact h

/-- Who has read no pid has read the file before the holder wrote it. -/
theorem Behind.choosing {p q : Pid} (h : Behind pw_name s p q)
    (hc : s.calls q = .unset (deciding pw_name q)) : s.current q = false := by
  rcases h with h | h | h | h | ⟨h, -⟩
  · rw [hc] at h; cases h
  · rw [hc] at h; cases h
  · rw [hc] at h; cases h
  · rw [hc] at h; cases h
  · exact h

/-- Who probes another process than the holder, too. -/
theorem Behind.probing {p q : Pid} {n : Int} (h : Behind pw_name s p q)
    (hc : s.calls q = probing pw_name q n) : n = p.val ∨ s.current q = false := by
  rcases h with h | h | h | h | ⟨h, -⟩
  · rw [hc] at h; cases h
  · rw [hc] at h
    exact .inl (Sys.probe.inj h).1
  · rw [hc] at h; cases h
  · rw [hc] at h; cases h
  · exact .inr h

theorem Kept.atMostOne (h : s.Kept pw_name) : s.AtMostOne := by
  intro p q hp hq
  rcases h.held with hnone | ⟨r, hr⟩
  · rw [hnone p] at hp
    cases hp
  · have hwho : ∀ t, succeeded (s.calls t) = true → t = r := by
      intro t ht
      by_contra hne
      rw [(hr.others t hne).not_succeeded] at ht
      cases ht
    rw [hwho p hp, hwho q hq]

@[simp] theorem goOn_calls_self (s : Race) (pid : Pid) (rest : Sys Started) :
    (s.goOn pid rest).calls pid = rest := Function.update_self ..

theorem goOn_calls_of_ne (s : Race) {pid q : Pid} (hne : q ≠ pid)
    (rest : Sys Started) : (s.goOn pid rest).calls q = s.calls q :=
  Function.update_of_ne hne ..

/-- A process that has made its step leaves something of its call again. -/
theorem pending_next {pid : Pid} {writable : Bool} {garbage : Int}
    (hpending : ∀ q, Pending pw_name q (s.calls q))
    (h : s.next pid writable garbage = some s') : ∀ q, Pending pw_name q (s'.calls q) := by
  have hself : Pending pw_name pid (s'.calls pid) ∧ ∀ q, q ≠ pid → s'.calls q = s.calls q := by
    rcases next_cases (hpending pid) h with ⟨-, rfl⟩ | ⟨-, rfl⟩ | ⟨n, -, rfl⟩ | ⟨-, rfl⟩ |
      ⟨-, -, rfl⟩ | ⟨-, -, rfl⟩ | ⟨-, rfl⟩ <;>
      refine ⟨?_, fun q hne => goOn_calls_of_ne s hne _⟩ <;> simp only [goOn_calls_self]
    · exact (afterReading_pending s.files pid).1
    · exact deciding_pending pid garbage
    · split
      · exact .refused
      · exact .removing
    · exact .acquiring
    · exact .ended _
    · exact .refused
    · exact .ended _
  intro q
  by_cases hq : q = pid
  · exact hq ▸ hself.1
  · rw [hself.2 q hq]
    exact hpending q

/-- **One step of a process**, while nobody holds the file. -/
theorem next_of_none {pid : Pid} {writable : Bool} {garbage : Int}
    (hpending : ∀ q, Pending pw_name q (s.calls q))
    (hnone : ∀ q, succeeded (s.calls q) = false) (halive : s.alive pid.val = true)
    (h : s.next pid writable garbage = some s') :
    (∀ q, succeeded (s'.calls q) = false) ∨ ∃ p, Held pw_name s' p := by
  have hothers : ∀ {rest : Sys Started}, succeeded rest = false →
      ∀ q, succeeded ((s.goOn pid rest).calls q) = false := by
    intro rest hrest q
    by_cases hq : q = pid
    · rw [hq, goOn_calls_self]
      exact hrest
    · rw [goOn_calls_of_ne s hq]
      exact hnone q
  rcases next_cases (hpending pid) h with ⟨-, rfl⟩ | ⟨-, rfl⟩ | ⟨n, -, rfl⟩ | ⟨-, rfl⟩ |
    ⟨-, -, rfl⟩ | ⟨-, -, rfl⟩ | ⟨-, rfl⟩
  · exact .inl (hothers (afterReading_pending s.files pid).2)
  · exact .inl (hothers (succeeded_deciding pid garbage))
  · refine .inl (hothers ?_)
    split <;> rfl
  · exact .inl (hothers rfl)
  · -- the write: the process holds the file now
    refine .inr ⟨pid, ?_, Function.update_self .., halive, fun q hne => ?_⟩
    · exact congrArg succeeded (goOn_calls_self s pid _)
    · refine .inr (.inr (.inr (.inr ⟨by simp [hne], ?_⟩)))
      exact (congrArg succeeded (goOn_calls_of_ne s hne _)).trans (hnone q)
  · exact .inl (hothers rfl)
  · exact .inl (hothers rfl)

/-- **One step of a process**, while `p` holds the file. -/
theorem Held.next {p pid : Pid} {writable : Bool} {garbage : Int} (hp : Held pw_name s p)
    (hpending : ∀ q, Pending pw_name q (s.calls q))
    (hcareful : s.Careful (.step pid writable garbage))
    (h : s.next pid writable garbage = some s') : Held pw_name s' p := by
  have hne : pid ≠ p := by
    rintro rfl
    have hdone := hp.succeeded
    rcases next_cases (hpending pid) h with ⟨hc, -⟩ | ⟨hc, -⟩ | ⟨n, hc, -⟩ | ⟨hc, -⟩ |
      ⟨hc, -, -⟩ | ⟨hc, -, -⟩ | ⟨hc, -⟩ <;> rw [hc] at hdone <;> cases hdone
  have hbehind := hp.others pid hne
  obtain ⟨hcurrent, hspares⟩ := hcareful
  have hold : ¬ takes writable (s.calls pid) = true := by
    intro htakes
    rw [hbehind.current htakes] at hcurrent
    exact absurd (hcurrent htakes) Bool.false_ne_true
  -- a step that leaves the file and `p` alone
  have hkeep : ∀ {rest : Sys Started} {current : Pid → Bool},
      (∀ q, q ≠ pid → current q = s.current q) →
      Behind pw_name { s.goOn pid rest with current } p pid →
      Held pw_name { s.goOn pid rest with current } p := by
    intro rest current hcur hpid
    refine ⟨?_, hp.file, hp.alive, fun q hq => ?_⟩
    · exact (congrArg Race.succeeded (goOn_calls_of_ne s hne.symm rest)).trans hp.succeeded
    · by_cases hqp : q = pid
      · exact hqp ▸ hpid
      · have hb := hp.others q hq
        rw [Behind] at hb ⊢
        rw [show ({ s.goOn pid rest with current } : Race).calls q = s.calls q from
          goOn_calls_of_ne s hqp rest, show ({ s.goOn pid rest with current } : Race).current q =
            s.current q from hcur q hqp]
        exact hb
  rcases next_cases (hpending pid) h with ⟨hc, rfl⟩ | ⟨hc, rfl⟩ | ⟨n, hc, rfl⟩ | ⟨hc, rfl⟩ |
    ⟨hc, hw, rfl⟩ | ⟨hc, -, rfl⟩ | ⟨hc, rfl⟩
  · -- it reads the pid of `p`
    refine hkeep (fun q hq => Function.update_of_ne hq ..) (.inr (.inl ?_))
    exact (goOn_calls_self s pid _).trans (afterReading_decimal hp.file pid)
  · -- what it has read is no pid, so it has read it before the write of `p`
    refine hkeep (fun _ _ => rfl) (.inr (.inr (.inr (.inr ⟨hbehind.choosing hc, ?_⟩))))
    exact (congrArg Race.succeeded (goOn_calls_self s pid _)).trans (succeeded_deciding pid _)
  · rcases hbehind.probing hc with rfl | hcur
    · -- it finds `p` running
      refine hkeep (fun _ _ => rfl) (.inr (.inr (.inl ?_)))
      rw [hp.alive, if_pos rfl]
      exact goOn_calls_self s pid _
    · refine hkeep (fun _ _ => rfl) (.inr (.inr (.inr (.inr ⟨hcur, ?_⟩))))
      refine (congrArg Race.succeeded (goOn_calls_self s pid _)).trans ?_
      split <;> rfl
  · exact absurd (by rw [hc]; rfl) hold
  · exact absurd (by rw [hc, hw]; rfl) hold
  · exact hkeep (fun _ _ => rfl) (.inr (.inr (.inl (goOn_calls_self s pid _))))
  · -- the way out of a refused process: the file that it would remove is that of `p`
    exact absurd hp.file (hspares _ p (by rw [hc]; rfl) hp.succeeded)

/-- **One event** keeps the invariant. -/
theorem Kept.step {e : RaceEvent} (h : s.Kept pw_name) (hcareful : s.Careful e)
    (hs : s.step e = some s') : s'.Kept pw_name := by
  cases e with
  | step pid writable garbage =>
    simp only [Race.step] at hs
    split at hs
    · next halive =>
      refine ⟨pending_next h.pending hs, ?_⟩
      rcases h.held with hnone | ⟨p, hp⟩
      · exact next_of_none h.pending hnone halive hs
      · exact .inr ⟨p, hp.next h.pending hcareful hs⟩
    · cases hs
  | appear pid =>
    obtain rfl := Option.some.inj hs
    refine ⟨h.pending, h.held.imp_right fun ⟨p, hp⟩ => ⟨p, hp.succeeded, hp.file, ?_, hp.others⟩⟩
    by_cases hval : p.val = pid.val
    · rw [hval]
      exact Function.update_self ..
    · exact (Function.update_of_ne hval ..).trans hp.alive
  | vanish pid =>
    simp only [Race.step] at hs
    split at hs
    · cases hs
    · next hdone =>
      obtain rfl := Option.some.inj hs
      refine ⟨h.pending, h.held.imp_right fun ⟨p, hp⟩ => ⟨p, hp.succeeded, hp.file, ?_, hp.others⟩⟩
      have hval : p.val ≠ pid.val := by
        intro hval
        rw [← Pid.ext hval] at hdone
        exact hdone hp.succeeded
      exact (Function.update_of_ne hval ..).trans hp.alive

end

/-- **At most one call returns true** in every state of every run, whatever the lock file holds at the
start, if no process takes the file on what it has read before the last write and no process that has
been refused removes the file of one whose call has returned true. A process that writes the file while
nobody holds it makes all others late: they have not read its pid, so that from then on they either read
it, find its process running and are refused, or stand where the first condition stops them. Only the
destructor of a refused process is left to break the lock, and that is what the second condition is
about. -/
theorem atMostOne_of_careful (pw_name : Text) (files : Text → Option Text) (alive : Int → Bool)
    (es : List RaceEvent) {s : Race} (hrun : runOn step (start pw_name files alive) es = some s)
    (hcareful : AllSteps step Careful (start pw_name files alive) es) : s.AtMostOne := by
  have hstart : (start pw_name files alive).Kept pw_name := by
    refine ⟨fun q => ?_, .inl fun q => ?_⟩ <;> simp only [start, mainStart_eq]
    · exact .reading
    · rfl
  have hkept : s.Kept pw_name :=
    AllSteps.runOn (fun _ _ _ h hcareful hs => Kept.step h hcareful hs) hstart hcareful hrun
  exact hkept.atMostOne

/-- Two processes one after the other: the second finds the first running, and is killed before it
comes to its destructor. -/
theorem atMostOne_one_after_the_other :
    let p : Pid := ⟨1, by decide, by decide⟩
    let q : Pid := ⟨2, by decide, by decide⟩
    ∃ s, runOn step (start "me".toList (fun _ => none) fun _ => true)
        [.step p true 0, .step p true 0, .step q true 0, .step q true 0, .vanish q] = some s ∧
      succeeded (s.calls p) = true ∧ s.AtMostOne := by
  intro p q
  refine ⟨_, rfl, rfl, atMostOne_of_careful "me".toList (fun _ => none) (fun _ => true)
    [.step p true 0, .step p true 0, .step q true 0, .step q true 0, .vanish q] rfl ?_⟩
  refine ⟨⟨nofun, fun _ _ h => nomatch h⟩, fun s hs => ?_⟩
  obtain rfl := Option.some.inj hs
  refine ⟨⟨fun _ => rfl, fun _ _ h => nomatch h⟩, fun s hs => ?_⟩
  obtain rfl := Option.some.inj hs
  refine ⟨⟨nofun, fun _ _ h => nomatch h⟩, fun s hs => ?_⟩
  obtain rfl := Option.some.inj hs
  refine ⟨⟨nofun, fun _ _ h => nomatch h⟩, fun s hs => ?_⟩
  obtain rfl := Option.some.inj hs
  exact ⟨trivial, fun _ _ => trivial⟩

/-- Two calls return true. Two processes read the lock file before either writes it: when there is no
file, and when the file is left over from process 7. Or a third process takes the file that a refused
one has removed on its way out. -/
theorem two_calls_succeed :
    let p : Pid := ⟨1, by decide, by decide⟩
    let q : Pid := ⟨2, by decide, by decide⟩
    let r : Pid := ⟨3, by decide, by decide⟩
    let stale : Text → Option Text := fun _ => some ['7']
    let others : Int → Bool := fun n => n ≠ 7
    (Free "me".toList (fun _ => none) others ∧
      ∃ s, runOn step (start "me".toList (fun _ => none) others)
          [.step p true 0, .step q true 0, .step p true 0, .step q true 0] = some s ∧
        succeeded (s.calls p) = true ∧ succeeded (s.calls q) = true ∧ ¬ s.AtMostOne) ∧
    (Free "me".toList stale others ∧
      ∃ s, runOn step (start "me".toList stale others)
          [.step p true 0, .step p true 0, .step q true 0, .step q true 0,
            .step p true 0, .step p true 0, .step q true 0, .step q true 0] = some s ∧
        succeeded (s.calls p) = true ∧ succeeded (s.calls q) = true ∧ ¬ s.AtMostOne) ∧
    ∃ s, runOn step (start "me".toList (fun _ => none) others)
        [.step p true 0, .step p true 0, .step q true 0, .step q true 0, .step q true 0, .vanish q,
          .step r true 0, .step r true 0] = some s ∧
      succeeded (s.calls p) = true ∧ succeeded (s.calls r) = true ∧ ¬ s.AtMostOne := by
  intro p q r stale others
  have hboth : ∀ {s : Race} {t : Pid}, t ≠ p → succeeded (s.calls p) = true →
      succeeded (s.calls t) = true → ¬ s.AtMostOne := fun hne hp ht h => hne (h _ p ht hp)
  have hq : q ≠ p := by decide
  have hr : r ≠ p := by decide
  refine ⟨⟨nofun, _, rfl, rfl, rfl, hboth hq rfl rfl⟩, ⟨?_, _, rfl, rfl, rfl, hboth hq rfl rfl⟩,
    _, rfl, rfl, rfl, hboth hr rfl rfl⟩
  intro text htext
  obtain rfl := Option.some.inj htext
  exact ⟨7, by decide, by decide⟩

end Race

end Photonbar
