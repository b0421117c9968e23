import Mathlib.Data.List.Pairwise
import Photonbar.Run
import Photonbar.ProcessManager

/-!
# Instances over the lock file

Whole process events on one machine and of one user: starts with any options, normal exits,
SIGTERMs and crashes. A start is one step, in which `Sys.run` carries out `mainStart` on the
`World`: the files, the instances that run, and every pid that has been handed out. Pids are never
reused. What the outside decides meanwhile (whether the file opens for writing, whether a process
is stuck and outlives its SIGTERM, what a variable held that was never written) is the `Env` of the
start, so that a theorem about all events is a theorem about all of that.

`SingleInstance` says what the lock file is for: at most one instance that minds it runs, and the
file holds its pid. That goes well as long as no start is refused. A refused start returns from
`main`, the destructor of its `ProcessManager` runs, and with it goes the file of the instance that
refused it.
-/

namespace Photonbar

/-- A pid that the kernel hands out: positive and within `pid_t`. -/
@[ext] structure Pid where
  /-- the number -/
  val : Int
  pos : 0 < val
  lt : val < 2 ^ 31
  deriving DecidableEq

/-- A running instance. `noLock` says that it was started with `--no-lock`. -/
structure Instance where
  pid : Pid
  noLock : Bool
  pm : ProcessManager
  deriving DecidableEq

/-- The files, the running instances, and every pid handed out so far. -/
structure World where
  files : Text → Option Text
  running : List Instance
  used : List Pid

/-- What the outside decides during one start: whether the lock file opens for
writing, whether a signalled instance is still there after SIGTERM, and what an
unwritten variable holds. -/
structure Env where
  writable : Bool
  stubborn : Bool
  garbage : Int
  deriving DecidableEq

namespace World

/-- Open for reading; a null path does not open. -/
def open? (w : World) : Option Text → Option Text
  | none => none
  | some path => w.files path

/-- `unlink`; a null path has no effect. -/
def unlink (w : World) : Option Text → World
  | none => w
  | some path => { w with files := Function.update w.files path none }

/-- An instance has this pid. -/
def alive (w : World) (pid : Int) : Bool := w.running.any fun i => i.pid.val = pid

/-- The instances other than `pid`. -/
def without (w : World) (pid : Int) : World :=
  { w with running := w.running.filter fun i => i.pid.val ≠ pid }

/-- `signalHandler` of every instance with this pid: `cleanup`, then `exit`. -/
def terminate (w : World) (pid : Int) : World :=
  ((w.running.filter fun i => i.pid.val = pid).foldl
    (fun w i => w.unlink i.pm.lockFilePath) w).without pid

/-- Deliver a signal. An instance that is stuck is not ended by SIGTERM. -/
def deliver (env : Env) (w : World) (pid : Int) : Signal → World
  | .SIGTERM => if env.stubborn then w else w.terminate pid
  | .SIGKILL => w.without pid

end World

/-- Carry out a program in one step. -/
def Sys.run {α : Type} (env : Env) : Sys α → World → α × World
  | .ret a, w => (a, w)
  | .read path k, w => (k (w.open? path)).run env w
  | .write none _ k, w => (k false).run env w
  | .write (some path) n k, w =>
    if env.writable then
      (k true).run env { w with files := Function.update w.files path (some (decimal n)) }
    else (k false).run env w
  | .unlink path k, w => k.run env (w.unlink path)
  | .probe pid k, w => (k (w.alive pid)).run env w
  | .kill pid sig k, w => k.run env (w.deliver env pid sig)
  | .sleep _ k, w => k.run env w
  | .unset k, w => (k env.garbage).run env w

/-- Sequencing of programs is sequencing of their runs. -/
theorem Sys.run_bind {α β : Type} (env : Env) (m : Sys α) (f : α → Sys β) (w : World) :
    (m.bind f).run env w = (f (m.run env w).1).run env (m.run env w).2 := by
  induction m generalizing w with
  | ret a => rfl
  | read path k ih => simp only [Sys.bind, Sys.run, ih]
  | write path n k ih =>
    cases path with
    | none => simp only [Sys.bind, Sys.run, ih]
    | some path =>
      simp only [Sys.bind, Sys.run]
      split <;> rw [ih]
  | unlink path k ih => simp only [Sys.bind, Sys.run, ih]
  | probe pid k ih => simp only [Sys.bind, Sys.run, ih]
  | kill pid sig k ih => simp only [Sys.bind, Sys.run, ih]
  | sleep n k ih => simp only [Sys.bind, Sys.run, ih]
  | unset k ih => simp only [Sys.bind, Sys.run, ih]

/-- A process event. -/
inductive ProcEvent where
  /-- a process starts as `pid`; a refused one ends at once -/
  | start (pid : Pid) (restart noLock : Bool) (env : Env)
  /-- the instance `pid` reaches the end of `main` -/
  | exit (pid : Pid)
  /-- the instance `pid` gets a SIGTERM from outside -/
  | sigterm (pid : Pid)
  /-- the instance `pid` ends without cleanup -/
  | crash (pid : Pid)
  deriving DecidableEq

section

variable (pw_name : Text)

/-- One event. An event about a pid that does not run, and a start under a pid
that was handed out before, do not occur and change nothing. -/
def World.step (w : World) : ProcEvent → World
  | .start pid restart noLock env =>
    if pid ∈ w.used then w
    else
      let (started, w') := (mainStart pw_name pid.val restart noLock false).run env w
      match started with
      | .returned _ => { w' with used := pid :: w'.used }
      | .running pm =>
        { w' with running := ⟨pid, noLock, pm⟩ :: w'.running, used := pid :: w'.used }
  | .exit pid =>
    ((w.running.filter fun i => i.pid.val = pid.val).foldl
      (fun w i => ((mainEnd i.pm).run ⟨true, false, 0⟩ w).2) w).without pid.val
  | .sigterm pid => w.terminate pid.val
  | .crash pid => w.without pid.val

/-- No instance runs; the lock file is absent or was left behind by `stale`. -/
def World.boot (stale : Option Pid) : World where
  files := Function.update (fun _ => none) (ProcessManager.getLockFilePath pw_name)
    (stale.map fun pid => decimal pid.val)
  running := []
  used := stale.toList

/-- What the lock file is for: at most one instance that minds it, and it holds
the pid of the one that runs. -/
structure SingleInstance (w : World) : Prop where
  atMostOne : (w.running.filter fun i => !i.noLock).length ≤ 1
  holdsPid : ∀ i ∈ w.running, i.noLock = false →
    w.files (ProcessManager.getLockFilePath pw_name) = some (decimal i.pid.val)

/-- The lock file names a running instance. -/
def World.locked (w : World) : Bool :=
  match w.files (ProcessManager.getLockFilePath pw_name) with
  | none => false
  | some text => w.running.any fun i => extract text = some i.pid.val

/-- The event is no refused start: a start that minds the lock file and does not
ask for a restart finds no instance there. -/
def NotRefused (w : World) : ProcEvent → Prop
  | .start pid restart noLock _ =>
    pid ∉ w.used → restart = false → noLock = false → w.locked pw_name = false
  | _ => True

end

end Photonbar
