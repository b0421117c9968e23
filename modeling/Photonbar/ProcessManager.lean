import Mathlib.Data.List.Basic
import Mathlib.Logic.Function.Basic
import Photonbar.CString

/-!
# The process manager (`process_manager.cpp`) and the start of `main`

`Sys` is the syntax of what `ProcessManager` asks of the system: it opens the lock file for reading
or writing, unlinks it, probes a pid, signals it, and sleeps. A program over it is a tree, a
request with what follows for each answer. The functions of `process_manager.cpp` are such
programs, and so are the start of `main` up to where it has dealt with the lock file (`mainStart`)
and its end (`mainEnd`), both with what the destructor does.

So one translation of the source serves every semantics:

* `Sys.run` carries a program out in one go on the `World` of all instances;
* in `Race` one step is one request of one of the processes that are starting;
* `Sys.paths` only collects the paths that a program touches.

Console output and the debug log are left out; no decision depends on them.
-/

namespace Photonbar

/-- The signals that are sent. -/
inductive Signal where
  | SIGTERM
  | SIGKILL
  deriving DecidableEq

/-- What `ProcessManager` asks of the system. A path is `none` where the source
passes a null `lockFilePath`. -/
inductive Sys (α : Type) : Type where
  /-- return -/
  | ret : α → Sys α
  /-- open for reading: the contents, or `none` when the file does not open -/
  | read : Option Text → (Option Text → Sys α) → Sys α
  /-- open for writing and write a number in decimal: whether the file opened -/
  | write : Option Text → Int → (Bool → Sys α) → Sys α
  /-- `unlink` -/
  | unlink : Option Text → Sys α → Sys α
  /-- `kill(pid, 0) == 0` -/
  | probe : Int → (Bool → Sys α) → Sys α
  /-- `kill(pid, sig)` -/
  | kill : Int → Signal → Sys α → Sys α
  /-- `sleep` -/
  | sleep : Nat → Sys α → Sys α
  /-- the value of a variable that was never written -/
  | unset : (Int → Sys α) → Sys α

namespace Sys

variable {α β : Type}

/-- Sequencing. -/
protected def bind : Sys α → (α → Sys β) → Sys β
  | ret a, f => f a
  | read p k, f => read p fun t => (k t).bind f
  | write p n k, f => write p n fun ok => (k ok).bind f
  | unlink p k, f => unlink p (k.bind f)
  | probe n k, f => probe n fun b => (k b).bind f
  | kill n s k, f => kill n s (k.bind f)
  | sleep n k, f => sleep n (k.bind f)
  | unset k, f => unset fun n => (k n).bind f

instance : Monad Sys where
  pure := ret
  bind := Sys.bind

@[simp] theorem pure_eq (a : α) : (pure a : Sys α) = ret a := rfl

@[simp] theorem bind_eq (m : Sys α) (f : α → Sys β) : m >>= f = m.bind f := rfl

/-- Sequencing is associative. -/
theorem bind_assoc {γ : Type} (m : Sys α) (f : α → Sys β) (g : β → Sys γ) :
    (m.bind f).bind g = m.bind fun a => (f a).bind g := by
  induction m with
  | ret a => rfl
  | read path k ih => exact congrArg (read path) (funext ih)
  | write path n k ih => exact congrArg (write path n) (funext ih)
  | unlink path k ih => exact congrArg (unlink path) ih
  | probe n k ih => exact congrArg (probe n) (funext ih)
  | kill n sig k ih => exact congrArg (kill n sig) ih
  | sleep n k ih => exact congrArg (sleep n) ih
  | unset k ih => exact congrArg unset (funext ih)

end Sys

/-! ## Numbers in a file -/

/-- The digits that a number in a file starts with. -/
def leadingDigits (t : Text) : Text := t.takeWhile Char.isDigit

/-- `lock_file >> pid` for an `int`: leading blanks are skipped, then a sign and
digits are read. A file with nothing but blanks leaves the variable as it was
(`none`), text that is no number stores 0, a number out of range is clamped. -/
def extract (t : Text) : Option Int :=
  match t.dropWhile isspace with
  | [] => none
  | '-' :: ds => some (max (-(Nat.ofDigitChars 10 (leadingDigits ds) 0 : Int)) (-2 ^ 31))
  | '+' :: ds => some (min (Nat.ofDigitChars 10 (leadingDigits ds) 0) (2 ^ 31 - 1))
  | ds => some (min (Nat.ofDigitChars 10 (leadingDigits ds) 0) (2 ^ 31 - 1))

/-! ## The class -/

/-- `ProcessManager`: its one field, null until `handleExistingInstances` sets it. -/
structure ProcessManager where
  /-- `lockFilePath` -/
  lockFilePath : Option Text
  deriving DecidableEq

namespace ProcessManager

/-- The constructor. -/
def new : ProcessManager := ⟨none⟩

/-- `getLockFilePath`, for the user `pw->pw_name`; the buffer holds 511 characters. -/
def getLockFilePath (pw_name : Text) : Text :=
  ("/tmp/myBar_".toList ++ pw_name ++ ".lock".toList).take 511

/-- `isProcessRunning`. -/
def isProcessRunning (pid : Int) : Sys Bool := .probe pid .ret

/-- `readLockFile`. -/
def readLockFile (pm : ProcessManager) : Sys Int :=
  .read pm.lockFilePath fun
    | none => .ret 0
    | some text =>
      match extract text with
      | some pid => .ret pid
      | none => .unset .ret

/-- `writeLockFile`. -/
def writeLockFile (pm : ProcessManager) (pid : Int) : Sys Bool :=
  .write pm.lockFilePath pid .ret

/-- `removeLockFile`. -/
def removeLockFile (pm : ProcessManager) : Sys Unit := .unlink pm.lockFilePath (.ret ())

/-- `cleanup`, which is also the destructor. -/
def cleanup (pm : ProcessManager) : Sys Unit := pm.removeLockFile

/-- `killExistingInstance`. -/
def killExistingInstance (pm : ProcessManager) : Sys Bool := do
  let existingPid ← pm.readLockFile
  if existingPid = 0 then
    return false
  if !(← isProcessRunning existingPid) then
    pm.removeLockFile
    return false
  .kill existingPid .SIGTERM (.sleep 2 (.ret ()))
  if ← isProcessRunning existingPid then
    .kill existingPid .SIGKILL (.sleep 1 (.ret ()))
  pm.removeLockFile
  return true

/-- `handleExistingInstances`, called by the process `getpid` of the user `pw_name`. -/
def handleExistingInstances (pw_name : Text) (getpid : Int) (restartMode : Bool)
    (pm : ProcessManager) : Sys (Bool × ProcessManager) := do
  let pm := { pm with lockFilePath := some (getLockFilePath pw_name) }
  let existingPid ← pm.readLockFile
  if existingPid = 0 then
    if !(← pm.writeLockFile getpid) then
      return (false, pm)
    return (true, pm)
  if !(← isProcessRunning existingPid) then
    pm.removeLockFile
    if !(← pm.writeLockFile getpid) then
      return (false, pm)
    return (true, pm)
  if restartMode then
    let _ ← pm.killExistingInstance
    Sys.sleep 1 (.ret ())
    if !(← pm.writeLockFile getpid) then
      return (false, pm)
    return (true, pm)
  else
    return (false, pm)

end ProcessManager

/-- How `main` goes on after its dealings with the lock file. -/
inductive Started where
  /-- `main` has returned with this code; the destructor has run -/
  | returned (code : Nat)
  /-- the bars are started -/
  | running (pm : ProcessManager)

/-- `main` up to `setupSignalHandlers`. -/
def mainStart (pw_name : Text) (getpid : Int) (restart_mode no_lock kill_only : Bool) :
    Sys Started := do
  let processManager := ProcessManager.new
  if kill_only then
    let killed ← processManager.killExistingInstance
    processManager.cleanup
    return .returned (if killed then 0 else 1)
  if !no_lock then
    let (ok, processManager) ←
      processManager.handleExistingInstances pw_name getpid restart_mode
    if !ok then
      processManager.cleanup
      return .returned 1
    return .running processManager
  return .running processManager

/-- The end of `main`: `cleanup` is called, then the destructor calls it again. -/
def mainEnd (processManager : ProcessManager) : Sys Unit := do
  processManager.cleanup
  processManager.cleanup

end Photonbar
