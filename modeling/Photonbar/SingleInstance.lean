import Mathlib.Data.List.TakeWhile
import Photonbar.Instances

/-!
# At most one instance

The purpose of the lock file over every run of process events: `SingleInstance` holds throughout a
run if and only if none of its starts is refused (`singleInstance_iff_notRefused`).

The proof follows one start after another. `World.Wf` is bookkeeping that no event breaks, a
refused start included: pids are distinct, and the file holds a pid that was handed out once. In
such a world the text of the lock file is a number that `readLockFile` reads back, so that a start
that minds the file, under a fresh pid, comes out in one of three ways (`World.Wf.start_cases`): it
finds the way free, it restarts and makes it free, or it is refused. Each has its lemma, found by
running the program on the world (`start_absent`, `start_stale`, `start_restart`, `start_refused`),
and so has the start that does not mind the file (`start_noLock`). `SingleInstance.step_iff` puts
them together for one event, and the exact rule for runs does the rest.
-/

namespace Photonbar

open ProcessManager

/-- A pid written to a file is read back. -/
theorem extract_decimal (pid : Pid) : extract (decimal pid.val) = some pid.val := by
  obtain ⟨val, pos, lt⟩ := pid
  obtain ⟨n, rfl⟩ := Int.eq_ofNat_of_zero_le (Int.le_of_lt pos)
  have hdigit : ∀ c ∈ Nat.toDigits 10 n, c.isDigit = true :=
    fun c hc => Nat.isDigit_of_mem_toDigits (by omega) (by omega) hc
  have hlead : leadingDigits (Nat.toDigits 10 n) = Nat.toDigits 10 n :=
    List.takeWhile_eq_self_iff.mpr hdigit
  have hval : Nat.ofDigitChars 10 (Nat.toDigits 10 n) 0 = n := Nat.ofDigitChars_ten_toDigits
  show extract (Nat.toDigits 10 n) = some (n : Int)
  rcases hd : Nat.toDigits 10 n with _ | ⟨c, cs⟩
  · exact absurd hd Nat.toDigits_ne_nil
  · have hc : c.isDigit = true := hdigit c (by rw [hd]; exact List.mem_cons_self ..)
    obtain ⟨hws, hm, hp⟩ := not_blank_of_isDigit hc
    rw [hd] at hlead hval
    have hdrop : (c :: cs).dropWhile isspace = c :: cs := by
      rw [List.dropWhile_cons_of_neg (by rw [hws]; exact Bool.false_ne_true)]
    have hlt : (n : Int) < 2 ^ 31 := lt
    rw [extract]
    rw [hdrop]
    split
    · rename_i h; cases h
    · rename_i h; exact absurd (List.cons.inj h).1 hm
    · rename_i h; exact absurd (List.cons.inj h).1 hp
    · rw [hlead, hval]
      exact congrArg some (by omega)

/-! ## The programs, run in one step -/

section

variable {pw_name : Text} {w : World}

/-- The manager after `handleExistingInstances` has set its path. -/
abbrev minding (pw_name : Text) : ProcessManager := ⟨some (getLockFilePath pw_name)⟩

@[simp] theorem run_removeLockFile (env : Env) (pm : ProcessManager) :
    pm.removeLockFile.run env w = ((), w.unlink pm.lockFilePath) := rfl

@[simp] theorem run_isProcessRunning (env : Env) (pid : Int) :
    (isProcessRunning pid).run env w = (w.alive pid, w) := rfl

theorem run_readLockFile_absent (env : Env) (h : w.files (getLockFilePath pw_name) = none) :
    (minding pw_name).readLockFile.run env w = (0, w) := by
  simp only [readLockFile, Sys.run, World.open?, h]

theorem run_readLockFile_decimal (env : Env) {pid : Pid}
    (h : w.files (getLockFilePath pw_name) = some (decimal pid.val)) :
    (minding pw_name).readLockFile.run env w = (pid.val, w) := by
  simp only [readLockFile, Sys.run, World.open?, h, extract_decimal]

/-- The two ways `writeLockFile` ends. -/
theorem run_writeLockFile (env : Env) (n : Int) :
    ((minding pw_name).writeLockFile n).run env w =
      if env.writable then
        (true, { w with files := Function.update w.files (getLockFilePath pw_name) (some (decimal n)) })
      else (false, w) := by
  simp only [writeLockFile, Sys.run]

/-- What a start leaves behind, for a process that finds (or makes) the way free
in `w`: it runs and the file holds its pid, or the file could not be opened for
writing and is gone. -/
def Acquired (pw_name : Text) (env : Env) (pid : Int) (running : List Instance) (used : List Pid)
    (r : Started × World) : Prop :=
  r.2.running = running ∧ r.2.used = used ∧
    ((env.writable = true ∧ r.1 = .running (minding pw_name) ∧
        r.2.files (getLockFilePath pw_name) = some (decimal pid)) ∨
      (env.writable = false ∧ r.1 = .returned 1 ∧
        r.2.files (getLockFilePath pw_name) = none))

theorem start_absent (env : Env) (pid : Int) (restart : Bool)
    (h : w.files (getLockFilePath pw_name) = none) :
    Acquired pw_name env pid w.running w.used
      ((mainStart pw_name pid restart false false).run env w) := by
  cases hw : env.writable <;>
    simp [mainStart, handleExistingInstances, Sys.run_bind, run_readLockFile_absent env h,
      run_writeLockFile, hw, Sys.run, cleanup, World.unlink, Acquired]

theorem start_stale (env : Env) (pid : Int) (restart : Bool) {old : Pid}
    (h : w.files (getLockFilePath pw_name) = some (decimal old.val))
    (hdead : w.alive old.val = false) :
    Acquired pw_name env pid w.running w.used
      ((mainStart pw_name pid restart false false).run env w) := by
  have hne : old.val ≠ 0 := by have := old.pos; omega
  cases hw : env.writable <;>
    simp [mainStart, handleExistingInstances, Sys.run_bind, run_readLockFile_decimal env h, hne,
      hdead, run_writeLockFile, hw, Sys.run, cleanup, World.unlink, Acquired]

theorem start_refused (env : Env) (pid : Int) {old : Pid}
    (h : w.files (getLockFilePath pw_name) = some (decimal old.val))
    (halive : w.alive old.val = true) :
    (mainStart pw_name pid false false false).run env w =
      (.returned 1, w.unlink (some (getLockFilePath pw_name))) := by
  have hne : old.val ≠ 0 := by have := old.pos; omega
  simp [mainStart, handleExistingInstances, Sys.run_bind, run_readLockFile_decimal env h, hne,
      halive, Sys.run, cleanup]

theorem World.running_unlink (w : World) (path : Option Text) :
    (w.unlink path).running = w.running := by cases path <;> rfl

theorem World.used_unlink (w : World) (path : Option Text) :
    (w.unlink path).used = w.used := by cases path <;> rfl

/-- Handlers of signalled instances only touch files. -/
theorem World.foldl_unlink (l : List Instance) (w : World) :
    (l.foldl (fun w i => w.unlink i.pm.lockFilePath) w).running = w.running ∧
      (l.foldl (fun w i => w.unlink i.pm.lockFilePath) w).used = w.used := by
  induction l generalizing w with
  | nil => exact ⟨rfl, rfl⟩
  | cons i l ih =>
    obtain ⟨hr, hu⟩ := ih (w.unlink i.pm.lockFilePath)
    exact ⟨hr.trans (w.running_unlink _), hu.trans (w.used_unlink _)⟩

theorem World.running_terminate (w : World) (pid : Int) :
    (w.terminate pid).running = w.running.filter fun i => i.pid.val ≠ pid := by
  simp only [World.terminate, World.without, (World.foldl_unlink _ w).1]

theorem World.used_terminate (w : World) (pid : Int) : (w.terminate pid).used = w.used := by
  simp only [World.terminate, World.without, (World.foldl_unlink _ w).2]

theorem World.alive_of_filter {w : World} {pid : Int}
    (h : w.running.filter (fun i => i.pid.val ≠ pid) = w.running) : w.alive pid = false := by
  rw [World.alive, List.any_eq_false]
  intro i hi
  rw [← h, List.mem_filter] at hi
  simpa using hi.2

/-- Whether the signalled instance ends of SIGTERM or needs SIGKILL, the kill
path leaves no instance under that pid and no lock file. -/
theorem run_killExistingInstance (env : Env) {pid : Int}
    (hread : (minding pw_name).readLockFile.run env w = (pid, w)) (hne : pid ≠ 0)
    (halive : w.alive pid = true) :
    let r := (minding pw_name).killExistingInstance.run env w
    r.1 = true ∧ r.2.running = w.running.filter (fun i => i.pid.val ≠ pid) ∧
      r.2.used = w.used ∧ r.2.files (getLockFilePath pw_name) = none := by
  cases hs : env.stubborn with
  | true =>
    simp [killExistingInstance, Sys.run_bind, hread, hne, halive, Sys.run, World.deliver, hs,
      World.unlink, World.without]
  | false =>
    have hgone : (w.terminate pid).alive pid = false :=
      World.alive_of_filter (by rw [World.running_terminate]; simp)
    simp [killExistingInstance, Sys.run_bind, hread, hne, halive, Sys.run, World.deliver, hs,
      hgone, World.unlink, World.running_terminate, World.used_terminate]

theorem start_restart (env : Env) (pid : Int) {old : Pid}
    (h : w.files (getLockFilePath pw_name) = some (decimal old.val))
    (halive : w.alive old.val = true) :
    Acquired pw_name env pid (w.running.filter fun i => i.pid.val ≠ old.val) w.used
      ((mainStart pw_name pid true false false).run env w) := by
  have hne : old.val ≠ 0 := by have := old.pos; omega
  obtain ⟨hk, hrun, hused, hfile⟩ := run_killExistingInstance env (run_readLockFile_decimal env h) hne halive
  cases hw : env.writable <;>
    simp [mainStart, handleExistingInstances, Sys.run_bind, run_readLockFile_decimal env h, hne,
      halive, hrun, hused, run_writeLockFile, hw, Sys.run, cleanup, World.unlink, Acquired]

theorem start_noLock (env : Env) (pid : Int) (restart : Bool) :
    (mainStart pw_name pid restart true false).run env w = (.running .new, w) := by
  simp [mainStart, Sys.run]

end

/-! ## What every event keeps -/

/-- Bookkeeping that no event breaks, refused starts included. -/
structure World.Wf (pw_name : Text) (w : World) : Prop where
  distinct : w.running.Pairwise fun i j => i.pid.val ≠ j.pid.val
  handed : ∀ i ∈ w.running, i.pid ∈ w.used
  path : ∀ i ∈ w.running,
    i.pm.lockFilePath = if i.noLock then none else some (getLockFilePath pw_name)
  file : ∀ text, w.files (getLockFilePath pw_name) = some text →
    ∃ pid ∈ w.used, text = decimal pid.val
  minded : ∀ i ∈ w.running,
    w.files (getLockFilePath pw_name) = some (decimal i.pid.val) → i.noLock = false

section

variable {pw_name : Text} {w w' : World}

theorem decimal_inj {p q : Pid} (h : decimal p.val = decimal q.val) : p = q := by
  have he : extract (decimal p.val) = extract (decimal q.val) := congrArg extract h
  rw [extract_decimal, extract_decimal] at he
  exact Pid.ext (Option.some.inj he)

/-- Instances end and the file stays or goes. -/
theorem World.Wf.shrink (h : w.Wf pw_name) (hrun : w'.running.Sublist w.running)
    (hused : ∀ p ∈ w.used, p ∈ w'.used)
    (hfile : w'.files (getLockFilePath pw_name) = w.files (getLockFilePath pw_name) ∨
      w'.files (getLockFilePath pw_name) = none) : w'.Wf pw_name where
  distinct := h.distinct.sublist hrun
  handed i hi := hused _ (h.handed i (hrun.subset hi))
  path i hi := h.path i (hrun.subset hi)
  file text ht := by
    rcases hfile with hf | hf
    · obtain ⟨pid, hp, htext⟩ := h.file text (hf.symm.trans ht)
      exact ⟨pid, hused _ hp, htext⟩
    · rw [hf] at ht
      cases ht
  minded i hi ht := by
    rcases hfile with hf | hf
    · exact h.minded i (hrun.subset hi) (hf.symm.trans ht)
    · rw [hf] at ht
      cases ht

/-- An instance starts and the file holds its pid, or it does not mind the file. -/
theorem World.Wf.cons (h : w.Wf pw_name) {i : Instance} (hfresh : i.pid ∉ w.used)
    (hrun : w'.running = i :: w.running) (hused : w'.used = i.pid :: w.used)
    (hpath : i.pm.lockFilePath = if i.noLock then none else some (getLockFilePath pw_name))
    (hfile : w'.files (getLockFilePath pw_name) =
      if i.noLock then w.files (getLockFilePath pw_name) else some (decimal i.pid.val)) :
    w'.Wf pw_name where
  distinct := by
    rw [hrun, List.pairwise_cons]
    refine ⟨fun j hj heq => ?_, h.distinct⟩
    exact hfresh (Pid.ext heq ▸ h.handed j hj)
  handed j hj := by
    rw [hused]
    rw [hrun] at hj
    rcases List.mem_cons.mp hj with rfl | hj
    · exact List.mem_cons_self ..
    · exact List.mem_cons_of_mem _ (h.handed j hj)
  path j hj := by
    rw [hrun] at hj
    rcases List.mem_cons.mp hj with rfl | hj
    · exact hpath
    · exact h.path j hj
  file text ht := by
    rw [hused]
    rw [hfile] at ht
    split at ht
    · obtain ⟨pid, hp, htext⟩ := h.file text ht
      exact ⟨pid, List.mem_cons_of_mem _ hp, htext⟩
    · exact ⟨i.pid, List.mem_cons_self .., (Option.some.inj ht).symm⟩
  minded j hj ht := by
    rw [hrun] at hj
    rw [hfile] at ht
    rcases List.mem_cons.mp hj with rfl | hj
    · by_contra hno
      rw [if_pos (by simpa using hno)] at ht
      obtain ⟨pid, hp, htext⟩ := h.file _ ht
      exact hfresh (decimal_inj htext ▸ hp)
    · split at ht
      · exact h.minded j hj ht
      · exact absurd (h.handed j hj) (decimal_inj (Option.some.inj ht) ▸ hfresh)

/-- What `locked` says in terms of the running instances. -/
theorem World.Wf.locked_iff (h : w.Wf pw_name) :
    w.locked pw_name = true ↔
      ∃ i ∈ w.running, w.files (getLockFilePath pw_name) = some (decimal i.pid.val) := by
  rw [World.locked]
  refine ⟨?_, ?_⟩
  · intro hl
    rcases hf : w.files (getLockFilePath pw_name) with _ | text
    · rw [hf] at hl
      cases hl
    · rw [hf] at hl
      obtain ⟨i, hi, hx⟩ := List.any_eq_true.mp hl
      obtain ⟨pid, -, rfl⟩ := h.file text hf
      rw [extract_decimal, decide_eq_true_eq] at hx
      exact ⟨i, hi, by rw [Option.some.inj hx]⟩
  · rintro ⟨i, hi, hf⟩
    rw [hf]
    exact List.any_eq_true.mpr ⟨i, hi, by rw [extract_decimal]; exact decide_eq_true rfl⟩

/-- A start that minds the file and is not refused. -/
theorem World.start_unlocked (h : w.Wf pw_name) (hl : w.locked pw_name = false) (pid : Int)
    (restart : Bool) (env : Env) :
    Acquired pw_name env pid w.running w.used
      ((mainStart pw_name pid restart false false).run env w) := by
  rcases hf : w.files (getLockFilePath pw_name) with _ | text
  · exact start_absent env pid restart hf
  · obtain ⟨old, -, rfl⟩ := h.file text hf
    refine start_stale env pid restart hf ?_
    by_contra hal
    rw [Bool.not_eq_false] at hal
    obtain ⟨i, hi, hv⟩ := List.any_eq_true.mp hal
    have hval : i.pid.val = old.val := of_decide_eq_true hv
    rw [h.locked_iff.mpr ⟨i, hi, by rw [hf, hval]⟩] at hl
    cases hl

/-- Handlers leave the lock file alone, or the one of an instance that minds it
removes it. -/
theorem World.foldl_unlink_file (path : Text) (l : List Instance) (w : World) :
    (l.foldl (fun w i => w.unlink i.pm.lockFilePath) w).files path = w.files path ∨
      (l.foldl (fun w i => w.unlink i.pm.lockFilePath) w).files path = none ∧
        ∃ i ∈ l, i.pm.lockFilePath = some path := by
  induction l generalizing w with
  | nil => exact Or.inl rfl
  | cons i l ih =>
    have hone : (w.unlink i.pm.lockFilePath).files path = w.files path ∨
        (w.unlink i.pm.lockFilePath).files path = none ∧ i.pm.lockFilePath = some path := by
      rcases hp : i.pm.lockFilePath with _ | p
      · exact Or.inl rfl
      · by_cases hpp : path = p
        · subst hpp
          exact Or.inr ⟨Function.update_self .., rfl⟩
        · exact Or.inl (Function.update_of_ne hpp ..)
    rcases ih (w.unlink i.pm.lockFilePath) with hsame | ⟨hgone, j, hj, hjp⟩
    · rcases hone with h1 | ⟨h1, hip⟩
      · exact Or.inl (hsame.trans h1)
      · exact Or.inr ⟨hsame.trans h1, i, List.mem_cons_self .., hip⟩
    · exact Or.inr ⟨hgone, j, List.mem_cons_of_mem _ hj, hjp⟩

/-- An instance ends with its handler run: the file stays, or the instance minded
it and the file is gone. -/
theorem World.Wf.terminate_file (h : w.Wf pw_name) (pid : Int) :
    (w.terminate pid).files (getLockFilePath pw_name) = w.files (getLockFilePath pw_name) ∨
      (w.terminate pid).files (getLockFilePath pw_name) = none ∧
        ∃ i ∈ w.running, i.pid.val = pid ∧ i.noLock = false := by
  rcases World.foldl_unlink_file (getLockFilePath pw_name)
    (w.running.filter fun i => i.pid.val = pid) w with hf | ⟨hf, i, hi, hp⟩
  · exact Or.inl hf
  · obtain ⟨hi, hpid⟩ := List.mem_filter.mp hi
    refine Or.inr ⟨hf, i, hi, of_decide_eq_true hpid, ?_⟩
    cases hno : i.noLock with
    | false => rfl
    | true =>
      rw [h.path i hi, hno] at hp
      cases hp

/-- The end of `main` does what the signal handler does. -/
theorem World.step_exit (pid : Pid) :
    w.step pw_name (.exit pid) = w.terminate pid.val := by
  have hend : ∀ (l : List Instance) (w : World),
      l.foldl (fun w i => ((mainEnd i.pm).run ⟨true, false, 0⟩ w).2) w =
        l.foldl (fun w i => w.unlink i.pm.lockFilePath) w := by
    intro l
    induction l with
    | nil => intro w; rfl
    | cons i l ih =>
      intro w
      rw [List.foldl_cons, List.foldl_cons, ih]
      congr 1
      cases hp : i.pm.lockFilePath <;>
        simp [mainEnd, cleanup, Sys.run_bind, World.unlink, hp]
  rw [World.step, hend]
  rfl

end

/-! ## One event -/

section

variable {pw_name : Text} {w : World}

/-- A fresh start that acquires the lock file, seen from outside. -/
theorem World.step_acquired {pid : Pid} {restart : Bool} {env : Env} {running : List Instance}
    (hfresh : pid ∉ w.used)
    (ha : Acquired pw_name env pid.val running w.used
      ((mainStart pw_name pid.val restart false false).run env w)) :
    let w' := w.step pw_name (.start pid restart false env)
    w'.used = pid :: w.used ∧
      ((env.writable = true ∧ w'.running = ⟨pid, false, minding pw_name⟩ :: running ∧
          w'.files (getLockFilePath pw_name) = some (decimal pid.val)) ∨
        (env.writable = false ∧ w'.running = running ∧
          w'.files (getLockFilePath pw_name) = none)) := by
  obtain ⟨hrun, hused, hout⟩ := ha
  simp only [World.step, if_neg hfresh]
  rcases hr : (mainStart pw_name pid.val restart false false).run env w with ⟨started, w₁⟩
  rw [hr] at hrun hused hout
  rcases hout with ⟨hw, hs, hf⟩ | ⟨hw, hs, hf⟩ <;> simp only at hs hrun hused hf <;> subst hs
  · exact ⟨by rw [hused], Or.inl ⟨hw, by rw [hrun], hf⟩⟩
  · exact ⟨by rw [hused], Or.inr ⟨hw, hrun, hf⟩⟩

/-- Bookkeeping after a start that acquires the lock file. -/
theorem World.Wf.acquired (h : w.Wf pw_name) {pid : Pid} {restart : Bool} {env : Env}
    {running : List Instance} (hfresh : pid ∉ w.used) (hsub : running.Sublist w.running)
    (ha : Acquired pw_name env pid.val running w.used
      ((mainStart pw_name pid.val restart false false).run env w)) :
    (w.step pw_name (.start pid restart false env)).Wf pw_name := by
  obtain ⟨hused, ⟨-, hrun, hf⟩ | ⟨-, hrun, hf⟩⟩ := World.step_acquired hfresh ha
  · have h₁ : ({ w with running := running } : World).Wf pw_name :=
      h.shrink hsub (fun _ hp => hp) (Or.inl rfl)
    exact h₁.cons (i := ⟨pid, false, minding pw_name⟩) hfresh hrun hused rfl hf
  · exact h.shrink (hrun ▸ hsub) (fun p hp => hused ▸ List.mem_cons_of_mem _ hp) (Or.inr hf)

/-- A start without `--no-lock` under a fresh pid acquires the lock file, taking
the place of the instance that holds it on `--restart`, or is refused. -/
theorem World.Wf.start_cases (h : w.Wf pw_name) (pid : Pid) (restart : Bool) (env : Env) :
    (w.locked pw_name = false ∧
        Acquired pw_name env pid.val w.running w.used
          ((mainStart pw_name pid.val restart false false).run env w)) ∨
      (∃ i ∈ w.running, w.files (getLockFilePath pw_name) = some (decimal i.pid.val) ∧
        i.noLock = false ∧
        ((restart = true ∧
            Acquired pw_name env pid.val (w.running.filter fun j => j.pid.val ≠ i.pid.val) w.used
              ((mainStart pw_name pid.val restart false false).run env w)) ∨
          (restart = false ∧
            (mainStart pw_name pid.val restart false false).run env w =
              (.returned 1, w.unlink (some (getLockFilePath pw_name)))))) := by
  cases hl : w.locked pw_name with
  | false => exact Or.inl ⟨rfl, World.start_unlocked h hl pid.val restart env⟩
  | true =>
    obtain ⟨i, hi, hf⟩ := h.locked_iff.mp hl
    have halive : w.alive i.pid.val = true :=
      List.any_eq_true.mpr ⟨i, hi, decide_eq_true rfl⟩
    refine Or.inr ⟨i, hi, hf, h.minded i hi hf, ?_⟩
    cases restart with
    | true => exact Or.inl ⟨rfl, start_restart env pid.val hf halive⟩
    | false => exact Or.inr ⟨rfl, start_refused env pid.val hf halive⟩

/-- A refused start, seen from outside. -/
theorem World.step_refused {pid : Pid} {restart : Bool} {env : Env} (hfresh : pid ∉ w.used)
    (hr : (mainStart pw_name pid.val restart false false).run env w =
      (.returned 1, w.unlink (some (getLockFilePath pw_name)))) :
    w.step pw_name (.start pid restart false env) =
      { w with
        files := Function.update w.files (getLockFilePath pw_name) none
        used := pid :: w.used } := by
  simp only [World.step, if_neg hfresh, hr]
  rfl

/-- A start with `--no-lock`, seen from outside. -/
theorem World.step_noLock {pid : Pid} {restart : Bool} {env : Env} (hfresh : pid ∉ w.used) :
    w.step pw_name (.start pid restart true env) =
      { w with running := ⟨pid, true, .new⟩ :: w.running, used := pid :: w.used } := by
  simp only [World.step, if_neg hfresh, start_noLock]

/-- No event breaks the bookkeeping. -/
theorem World.Wf.step (h : w.Wf pw_name) (e : ProcEvent) : (w.step pw_name e).Wf pw_name := by
  cases e with
  | start pid restart noLock env =>
    by_cases hfresh : pid ∈ w.used
    · rw [World.step, if_pos hfresh]
      exact h
    · cases noLock with
      | true =>
        rw [World.step_noLock hfresh]
        exact h.cons (i := ⟨pid, true, .new⟩) hfresh rfl rfl rfl rfl
      | false =>
        rcases h.start_cases pid restart env with
          ⟨-, ha⟩ | ⟨i, -, -, -, ⟨-, ha⟩ | ⟨-, hr⟩⟩
        · exact h.acquired hfresh (List.Sublist.refl _) ha
        · exact h.acquired hfresh List.filter_sublist ha
        · rw [World.step_refused hfresh hr]
          exact h.shrink (List.Sublist.refl _) (fun p hp => List.mem_cons_of_mem _ hp)
            (Or.inr (Function.update_self ..))
  | exit pid =>
    rw [World.step_exit]
    exact h.shrink (World.running_terminate w _ ▸ List.filter_sublist)
      (fun p hp => (World.used_terminate w _).symm ▸ hp)
      ((h.terminate_file pid.val).imp_right And.left)
  | sigterm pid =>
    exact h.shrink (World.running_terminate w _ ▸ List.filter_sublist)
      (fun p hp => (World.used_terminate w _).symm ▸ hp)
      ((h.terminate_file pid.val).imp_right And.left)
  | crash pid => exact h.shrink List.filter_sublist (fun p hp => hp) (Or.inl rfl)

end

/-! ## The lock file's purpose -/

section

variable {pw_name : Text} {w w' : World}

/-- Two instances that mind the lock file are one. -/
theorem SingleInstance.eq (h : SingleInstance pw_name w) {i j : Instance}
    (hi : i ∈ w.running) (hj : j ∈ w.running) (hi' : i.noLock = false)
    (hj' : j.noLock = false) : i = j := by
  have hmi : i ∈ w.running.filter fun i => !i.noLock := List.mem_filter.mpr ⟨hi, by simp [hi']⟩
  have hmj : j ∈ w.running.filter fun i => !i.noLock := List.mem_filter.mpr ⟨hj, by simp [hj']⟩
  have hlen := h.atMostOne
  rcases hl : w.running.filter fun i => !i.noLock with _ | ⟨a, _ | ⟨b, rest⟩⟩
  · rw [hl] at hmi
    cases hmi
  · rw [hl] at hmi hmj
    rw [List.mem_singleton.mp hmi, List.mem_singleton.mp hmj]
  · rw [hl] at hlen
    simp at hlen

/-- Where the file names no running instance, none minds it. -/
theorem SingleInstance.unlocked (h : SingleInstance pw_name w) (hwf : w.Wf pw_name)
    (hl : w.locked pw_name = false) : ∀ i ∈ w.running, i.noLock = true := by
  intro i hi
  by_contra hno
  rw [Bool.not_eq_true] at hno
  rw [hwf.locked_iff.mpr ⟨i, hi, h.holdsPid i hi hno⟩] at hl
  cases hl

/-- Without instances that mind the file there is nothing to ask. -/
theorem SingleInstance.of_noLock (h : ∀ i ∈ w.running, i.noLock = true) :
    SingleInstance pw_name w where
  atMostOne := by
    have hnil : (w.running.filter fun i => !i.noLock) = [] :=
      List.filter_eq_nil_iff.mpr fun i hi => by simp [h i hi]
    rw [hnil]
    exact Nat.zero_le _
  holdsPid i hi hno := by
    rw [h i hi] at hno
    cases hno

/-- One that minds it, among others that do not, with its pid in the file. -/
theorem SingleInstance.cons_of_noLock {i : Instance} {running : List Instance}
    (hrun : w.running = i :: running)
    (hfile : w.files (getLockFilePath pw_name) = some (decimal i.pid.val))
    (h : ∀ j ∈ running, j.noLock = true) : SingleInstance pw_name w where
  atMostOne := by
    have hnil : (running.filter fun i => !i.noLock) = [] :=
      List.filter_eq_nil_iff.mpr fun j hj => by simp [h j hj]
    rw [hrun, List.filter_cons, hnil]
    split <;> simp
  holdsPid j hj hno := by
    rw [hrun] at hj
    rcases List.mem_cons.mp hj with rfl | hj
    · exact hfile
    · rw [h j hj] at hno
      cases hno

/-- After a start that acquires the file next to instances that do not mind it. -/
theorem SingleInstance.acquired {pid : Pid} {restart : Bool} {env : Env}
    {running : List Instance} (hfresh : pid ∉ w.used)
    (h : ∀ j ∈ running, j.noLock = true)
    (ha : Acquired pw_name env pid.val running w.used
      ((mainStart pw_name pid.val restart false false).run env w)) :
    SingleInstance pw_name (w.step pw_name (.start pid restart false env)) := by
  obtain ⟨-, ⟨-, hrun, hf⟩ | ⟨-, hrun, -⟩⟩ := World.step_acquired hfresh ha
  · exact .cons_of_noLock hrun hf h
  · exact .of_noLock (hrun ▸ h)

/-- Instances end; the file only goes with one that minded it. -/
theorem SingleInstance.shrink (h : SingleInstance pw_name w) {pid : Int}
    (hrun : w'.running = w.running.filter fun i => i.pid.val ≠ pid)
    (hfile : w'.files (getLockFilePath pw_name) = w.files (getLockFilePath pw_name) ∨
      ∃ i ∈ w.running, i.pid.val = pid ∧ i.noLock = false) : SingleInstance pw_name w' where
  atMostOne := by
    rw [hrun]
    exact Nat.le_trans (List.filter_sublist.filter _).length_le h.atMostOne
  holdsPid j hj hno := by
    rw [hrun] at hj
    obtain ⟨hmem, hpid⟩ := List.mem_filter.mp hj
    rcases hfile with hf | ⟨i, hi, rfl, hi'⟩
    · exact hf.trans (h.holdsPid j hmem hno)
    · rw [h.eq hmem hi hno hi'] at hpid
      simp at hpid

/-- **One event**: in a well-kept world where the lock file serves its purpose, an event keeps it
so exactly when it is no refused start. Instances that end take their own file with them at most,
and a start that is let in writes its pid over a file that nobody holds any more; only a refused
start removes a file that another one needs. -/
theorem SingleInstance.step_iff (h : SingleInstance pw_name w) (hwf : w.Wf pw_name)
    (e : ProcEvent) : NotRefused pw_name w e ↔ SingleInstance pw_name (w.step pw_name e) := by
  cases e with
  | start pid restart noLock env =>
    by_cases hfresh : pid ∈ w.used
    · rw [World.step, if_pos hfresh]
      exact ⟨fun _ => h, fun _ hno => absurd hfresh hno⟩
    cases noLock with
    | true =>
      refine ⟨fun _ => ?_, fun _ _ _ hno => by cases hno⟩
      rw [World.step_noLock hfresh]
      refine ⟨?_, fun i hi hno => ?_⟩
      · rw [List.filter_cons_of_neg (by simp)]
        exact h.atMostOne
      · rcases List.mem_cons.mp hi with rfl | hi
        · cases hno
        · exact h.holdsPid i hi hno
    | false =>
      rcases hwf.start_cases pid restart env with
        ⟨hl, ha⟩ | ⟨i, hi, hf, hno, ⟨hrs, ha⟩ | ⟨hrs, hr⟩⟩
      · exact ⟨fun _ => .acquired hfresh (h.unlocked hwf hl) ha, fun _ _ _ _ => hl⟩
      · refine ⟨fun _ => .acquired hfresh (fun j hj => ?_) ha, fun _ _ hrs' => ?_⟩
        · obtain ⟨hj, hpid⟩ := List.mem_filter.mp hj
          by_contra hjno
          rw [Bool.not_eq_true] at hjno
          rw [h.eq hj hi hjno hno] at hpid
          simp at hpid
        · rw [hrs] at hrs'
          cases hrs'
      · -- the destructor of the refused process removes the file of instance `i`
        refine ⟨fun hok => ?_, fun hs => ?_⟩
        · have hl := hok hfresh hrs rfl
          rw [hwf.locked_iff.mpr ⟨i, hi, hf⟩] at hl
          cases hl
        · rw [World.step_refused hfresh hr] at hs
          have hgone := hs.holdsPid i hi hno
          simp only [Function.update_self, reduceCtorEq] at hgone
  | exit pid =>
    refine ⟨fun _ => ?_, fun _ => trivial⟩
    rw [World.step_exit]
    exact h.shrink (World.running_terminate w _) ((hwf.terminate_file pid.val).imp_right And.right)
  | sigterm pid =>
    exact ⟨fun _ => h.shrink (World.running_terminate w _)
      ((hwf.terminate_file pid.val).imp_right And.right), fun _ => trivial⟩
  | crash pid => exact ⟨fun _ => h.shrink rfl (Or.inl rfl), fun _ => trivial⟩

theorem World.Wf.boot (stale : Option Pid) : (World.boot pw_name stale).Wf pw_name where
  distinct := List.Pairwise.nil
  handed i hi := by cases hi
  path i hi := by cases hi
  file text ht := by
    simp only [World.boot, Function.update_self] at ht
    rcases stale with _ | pid
    · cases ht
    · exact ⟨pid, List.mem_singleton.mpr rfl, (Option.some.inj ht).symm⟩
  minded i hi := by cases hi

/-- **Mutual exclusion over runs**: whatever process events follow one another, at most one
instance started without `--no-lock` runs in every state reached, and the lock file holds its pid,
if and only if no start of the run is refused. The bookkeeping survives every event, so each event
is judged on its own, by `SingleInstance.step_iff`. -/
theorem singleInstance_iff_notRefused (pw_name : Text) (stale : Option Pid)
    (es : List ProcEvent) :
    Always (fun w e => some (w.step pw_name e)) (SingleInstance pw_name)
        (World.boot pw_name stale) es ↔
      AllSteps (fun w e => some (w.step pw_name e)) (NotRefused pw_name)
        (World.boot pw_name stale) es := by
  rw [always_iff_allSteps (Q := World.Wf pw_name) (C := NotRefused pw_name)
    (fun w e w' hwf hs => Option.some.inj hs ▸ hwf.step e)
    (fun w e h hwf => by simp [h.step_iff hwf e]) (World.Wf.boot stale)]
  exact and_iff_right (.of_noLock fun i hi => by cases hi)

/-- Two starts without options: the second is refused, and the first instance goes
on without its lock file. -/
theorem not_always_two_starts (pw_name : Text) {p q : Pid} (hpq : p ≠ q) (env env' : Env)
    (hw : env.writable = true) :
    ¬ Always (fun w e => some (w.step pw_name e)) (SingleInstance pw_name)
      (World.boot pw_name none)
      [.start p false false env, .start q false false env'] := by
  rintro ⟨-, w₁, h₁, hs₁, w₂, h₂, hs₂⟩
  have hwf₁ : w₁.Wf pw_name := Option.some.inj h₁ ▸ (World.Wf.boot none).step _
  have habs : (World.boot pw_name none).files (getLockFilePath pw_name) = none := by
    simp only [World.boot, Function.update_self, Option.map_none]
  obtain ⟨hused, ⟨-, hrun, -⟩ | ⟨hno, -⟩⟩ :=
    World.step_acquired List.not_mem_nil (start_absent env p.val false habs)
  · rw [Option.some.inj h₁] at hused hrun
    have hnot : NotRefused pw_name w₁ (.start q false false env') :=
      (hs₁.step_iff hwf₁ _).mpr (Option.some.inj h₂ ▸ hs₂)
    have hfresh : q ∉ w₁.used := by
      rw [hused]
      exact fun hq => hpq (List.mem_singleton.mp hq).symm
    have hi : (⟨p, false, minding pw_name⟩ : Instance) ∈ w₁.running := by
      rw [hrun]
      exact List.mem_singleton.mpr rfl
    have hl := hnot hfresh rfl rfl
    rw [hwf₁.locked_iff.mpr ⟨_, hi, hs₁.holdsPid _ hi rfl⟩] at hl
    cases hl
  · rw [hw] at hno
    cases hno

theorem refused_start_removes_lock :
    ¬ Always (fun w e => some (w.step ['u'] e)) (SingleInstance ['u']) (World.boot ['u'] none)
      [.start ⟨1, by decide, by decide⟩ false false ⟨true, false, 0⟩,
        .start ⟨2, by decide, by decide⟩ false false ⟨true, false, 0⟩] :=
  not_always_two_starts ['u'] (by decide) _ _ rfl

end

end Photonbar
