import Photonbar.SingleInstance

/-!
# The two ways to `killExistingInstance` (`main.cpp`, `process_manager.cpp`)

`main` calls `killExistingInstance` itself for `--kill`, on a manager as it was constructed, and
through `handleExistingInstances` for `--restart`. Only the latter sets `lockFilePath`; the usage
text promises the same of both. `Kills` is what the function is for, on a given manager: it touches
no other file than the lock file, it ends the process that the file names, and the file is gone
afterwards, be that process alive or not.

`kills_restart` has this for the one way, whatever the file holds. On the other way the path is
null: the file does not open, the function returns, and `unlink` of a null path does nothing. So
`kill_only_never` finds the world as it was, for every world and whatever the other options are;
and the path that is tried is never the one of the lock file, so that `KillsAlike` fails
everywhere.
-/

namespace Photonbar

open ProcessManager

/-- The paths of the files that a program opens or unlinks. -/
def Sys.paths {α : Type} (env : Env) : Sys α → World → List (Option Text)
  | .ret _, _ => []
  | .read path k, w => path :: (k (w.open? path)).paths env w
  | .write none _ k, w => none :: (k false).paths env w
  | .write (some path) n k, w =>
    some path :: if env.writable then
      (k true).paths env { w with files := Function.update w.files path (some (decimal n)) }
    else (k false).paths env w
  | .unlink path k, w => path :: k.paths env (w.unlink path)
  | .probe pid k, w => (k (w.alive pid)).paths env w
  | .kill pid sig k, w => k.paths env (w.deliver env pid sig)
  | .sleep _ k, w => k.paths env w
  | .unset k, w => (k env.garbage).paths env w

/-- The accesses of two programs in a row. -/
theorem Sys.paths_bind {α β : Type} (env : Env) (m : Sys α) (f : α → Sys β) (w : World) :
    (m.bind f).paths env w = m.paths env w ++ (f (m.run env w).1).paths env (m.run env w).2 := by
  induction m generalizing w with
  | ret a => rfl
  | read path k ih => simp only [Sys.bind, Sys.paths, Sys.run, ih, List.cons_append]
  | write path n k ih =>
    cases path with
    | none => simp only [Sys.bind, Sys.paths, Sys.run, ih, List.cons_append]
    | some path =>
      simp only [Sys.bind, Sys.paths, Sys.run]
      split <;> rw [ih, List.cons_append]
  | unlink path k ih => simp only [Sys.bind, Sys.paths, Sys.run, ih, List.cons_append]
  | probe pid k ih => simp only [Sys.bind, Sys.paths, Sys.run, ih]
  | kill pid sig k ih => simp only [Sys.bind, Sys.paths, Sys.run, ih]
  | sleep n k ih => simp only [Sys.bind, Sys.paths, Sys.run, ih]
  | unset k ih => simp only [Sys.bind, Sys.paths, Sys.run, ih]

section

variable (pw_name : Text) (env : Env) (w : World)

/-- What `killExistingInstance` is for, called on the manager `pm`: it minds the lock file, it
ends the instance that the file names and removes the file, and it removes a stale file. -/
structure Kills (pm : ProcessManager) : Prop where
  path : ∀ path ∈ pm.killExistingInstance.paths env w, path = some (getLockFilePath pw_name)
  live : ∀ text pid, w.files (getLockFilePath pw_name) = some text → extract text = some pid →
    pid ≠ 0 → w.alive pid = true →
      (pm.killExistingInstance.run env w).2.alive pid = false ∧
        (pm.killExistingInstance.run env w).2.files (getLockFilePath pw_name) = none
  stale : ∀ text pid, w.files (getLockFilePath pw_name) = some text → extract text = some pid →
    pid ≠ 0 → w.alive pid = false →
      (pm.killExistingInstance.run env w).2.files (getLockFilePath pw_name) = none

/-- Both ways do it: for `--kill` the manager is as constructed, for `--restart` it is the one
that `handleExistingInstances` has given its path. -/
structure KillsAlike : Prop where
  direct : Kills pw_name env w .new
  restart : Kills pw_name env w (minding pw_name)

variable {pw_name env w}

theorem paths_readLockFile (pm : ProcessManager) :
    pm.readLockFile.paths env w = [pm.lockFilePath] := by
  simp only [readLockFile, Sys.paths]
  split
  · rfl
  · split <;> rfl

/-- Every access is to the path of the manager, and there is one. -/
theorem paths_killExistingInstance (pm : ProcessManager) :
    pm.lockFilePath ∈ pm.killExistingInstance.paths env w ∧
      ∀ path ∈ pm.killExistingInstance.paths env w, path = pm.lockFilePath := by
  have hpaths : ∃ n, pm.killExistingInstance.paths env w =
      pm.lockFilePath :: List.replicate n pm.lockFilePath := by
    simp only [killExistingInstance, Sys.bind_eq, Sys.paths_bind, paths_readLockFile,
      List.cons_append, List.nil_append]
    generalize (pm.readLockFile.run env w).1 = pid
    generalize (pm.readLockFile.run env w).2 = w'
    -- no instance, a stale file, or one that is signalled once or twice
    split
    · exact ⟨0, rfl⟩
    · simp only [isProcessRunning, Sys.bind, Sys.paths]
      split
      · exact ⟨1, rfl⟩
      · simp only [Sys.paths]
        split <;> exact ⟨1, rfl⟩
  obtain ⟨n, hn⟩ := hpaths
  rw [hn]
  refine ⟨List.mem_cons_self, fun path hpath => ?_⟩
  rcases List.mem_cons.mp hpath with h | h
  · exact h
  · exact List.eq_of_mem_replicate h

/-- **With `--kill`** nothing is read, signalled or removed: the path is null. -/
theorem kill_only_never (pw_name : Text) (getpid : Int) (restart_mode no_lock : Bool) (env : Env)
    (w : World) :
    (mainStart pw_name getpid restart_mode no_lock true).run env w = (.returned 1, w) ∧
      ¬ KillsAlike pw_name env w := by
  refine ⟨rfl, fun h => ?_⟩
  have hnull := h.direct.path _ (paths_killExistingInstance .new).1
  cases hnull

/-- Process 5 runs and the lock file names it. `--kill` leaves both as they are. -/
theorem kill_leaves_running_instance :
    let pid : Pid := ⟨5, by decide, by decide⟩
    let w : World := ⟨fun _ => some ['5'], [⟨pid, false, minding "me".toList⟩], [pid]⟩
    let env : Env := ⟨true, false, 0⟩
    let w' := ((mainStart "me".toList 6 false false true).run env w).2
    w'.alive 5 = true ∧ w'.files (getLockFilePath "me".toList) = some ['5'] ∧
      ¬ KillsAlike "me".toList env w := by
  intro pid w env w'
  refine ⟨rfl, rfl, fun h => ?_⟩
  have hlive := (h.direct.live ['5'] 5 rfl rfl (by decide) rfl).1
  revert hlive
  decide

end

end Photonbar
