import Photonbar.ProcessManager

/-!
# Who is signalled (`process_manager.cpp`)

`Sys.Only P Q` says of a program that, whatever the system answers, every pid that it probes or
signals satisfies `P` and what it returns satisfies `Q`. So a statement about all outcomes of a
program is a lemma for each request and one for sequences (`Sys.only_bind`).

Both users of the lock file hand the number that they read to `kill` after one test, against 0.
`signalsNumber_iff_pidText` says for which contents of the file that is enough: there is something
to read, and a number in it is neither negative nor out of range. Reading an empty file leaves a
variable that was never written, and reading a number that is too large gives the largest or the
least one; `Reads` is what may come of it. On every text that is not a `PidText` that may be a
value which the test lets through, and which is not a positive number that the file has
(`exists_reads_of_not_pidText`).
-/

namespace Photonbar

/-- Whatever the system answers, every call of `kill` satisfies `P` (the signal is `none` for a
probe), and the value returned and the files satisfy `Q`. Only the files are known: a process may
be there or not at each probe, a file may fail to open for writing, others may change the files
in a `sleep` or on a signal, and an unwritten variable holds anything. -/
def Sys.Only {α : Type} (P : Option Signal → Int → Prop) (Q : α → (Text → Option Text) → Prop) :
    Sys α → (Text → Option Text) → Prop
  | .ret a, files => Q a files
  | .read path k, files => (k (path.bind files)).Only P Q files
  | .write path n k, files =>
    (k false).Only P Q files ∧
      ∀ p, path = some p → (k true).Only P Q (Function.update files p (some (decimal n)))
  | .unlink none k, files => k.Only P Q files
  | .unlink (some p) k, files => k.Only P Q (Function.update files p none)
  | .probe pid k, files => P none pid ∧ ∀ running, (k running).Only P Q files
  | .kill pid sig k, _ => P (some sig) pid ∧ ∀ files, k.Only P Q files
  | .sleep _ k, _ => ∀ files, k.Only P Q files
  | .unset k, files => ∀ n, (k n).Only P Q files

section

variable {α β : Type} {P P' : Option Signal → Int → Prop}

/-- Sequencing. -/
theorem Sys.only_bind {Q : β → (Text → Option Text) → Prop} (m : Sys α) (f : α → Sys β)
    (files : Text → Option Text) :
    (m.bind f).Only P Q files ↔ m.Only P (fun a files => (f a).Only P Q files) files := by
  induction m generalizing files with
  | ret a => rfl
  | read path k ih => simp only [Sys.bind, Sys.Only, ih]
  | write path n k ih => simp only [Sys.bind, Sys.Only, ih]
  | unlink path k ih => cases path <;> simp only [Sys.bind, Sys.Only, ih]
  | probe pid k ih => simp only [Sys.bind, Sys.Only, ih]
  | kill pid sig k ih => simp only [Sys.bind, Sys.Only, ih]
  | sleep n k ih => simp only [Sys.bind, Sys.Only, ih]
  | unset k ih => simp only [Sys.bind, Sys.Only, ih]

/-- Weaker demands. -/
theorem Sys.Only.imp {Q Q' : α → (Text → Option Text) → Prop} {m : Sys α}
    {files : Text → Option Text} (hP : ∀ sig pid, P sig pid → P' sig pid)
    (hQ : ∀ a files, Q a files → Q' a files) (h : m.Only P Q files) : m.Only P' Q' files := by
  induction m generalizing files with
  | ret a => exact hQ _ _ h
  | read path k ih => exact ih _ h
  | write path n k ih => exact ⟨ih _ h.1, fun p hp => ih _ (h.2 p hp)⟩
  | unlink path k ih => cases path <;> exact ih h
  | probe pid k ih => exact ⟨hP _ _ h.1, fun b => ih b (h.2 b)⟩
  | kill pid sig k ih => exact ⟨hP _ _ h.1, fun files => ih (h.2 files)⟩
  | sleep n k ih => exact fun files => ih (h files)
  | unset k ih => exact fun n => ih n (h n)

end

/-! ## The number in a file -/

/-- The number that the digits at the start of a text form, if there are any. -/
def unsigned (ds : Text) : Option Nat :=
  if leadingDigits ds = [] then none else some (Nat.ofDigitChars 10 (leadingDigits ds) 0)

/-- The number that a text starts with, after blanks: a sign and digits, of any size. -/
def number (t : Text) : Option Int :=
  match t.dropWhile isspace with
  | '-' :: ds => (unsigned ds).map fun n => -(n : Int)
  | '+' :: ds => (unsigned ds).map fun n => (n : Int)
  | ds => (unsigned ds).map fun n => (n : Int)

/-- There is something to read, and a number is neither negative nor out of range of `pid_t`. -/
def PidText (t : Text) : Prop :=
  t.dropWhile isspace ≠ [] ∧ ∀ n, number t = some n → 0 ≤ n ∧ n < 2 ^ 31

instance (t : Text) : Decidable (PidText t) := by
  rw [PidText]
  cases number t <;> simp only [Option.some.injEq, forall_eq', reduceCtorEq, false_implies,
    implies_true] <;> infer_instance

theorem unsigned_getD (ds : Text) :
    (unsigned ds).getD 0 = Nat.ofDigitChars 10 (leadingDigits ds) 0 := by
  rw [unsigned]
  split
  · next hd => rw [hd]; rfl
  · rfl

/-- An `int` that is read holds the number, moved to the closest one in range; it is 0 if there
is none. -/
theorem extract_eq {t : Text} (ht : t.dropWhile isspace ≠ []) :
    extract t = some (max (-2 ^ 31) (min (2 ^ 31 - 1) ((number t).getD 0))) := by
  have hneg (o : Option Nat) : (o.map fun n => -(n : Int)).getD 0 = -(o.getD 0 : Int) := by
    cases o <;> rfl
  have hpos (o : Option Nat) : (o.map fun n => (n : Int)).getD 0 = (o.getD 0 : Int) := by
    cases o <;> rfl
  rw [extract, number]
  split
  · next h => exact absurd h ht
  · next h =>
      simp only [h, hneg, unsigned_getD, Option.some.injEq]
      omega
  · next h =>
      simp only [h, hpos, unsigned_getD, Option.some.injEq]
      omega
  · simp only [hpos, unsigned_getD, Option.some.injEq]
    omega

/-- The values that `readLockFile` may return on a file with this text. -/
def Reads (t : Text) (pid : Int) : Prop := ∀ n, extract t = some n → pid = n

theorem reads_of_pidText {t : Text} (ht : PidText t) {pid : Int} (hpid : Reads t pid) :
    pid = (number t).getD 0 ∧ 0 ≤ pid := by
  have hread := hpid _ (extract_eq ht.1)
  rcases hn : number t with _ | n
  · rw [hn] at hread
    simp only [Option.getD_none] at hread ⊢
    omega
  · obtain ⟨h0, h1⟩ := ht.2 n hn
    rw [hn] at hread
    simp only [Option.getD_some] at hread ⊢
    omega

/-- On any other text something is read that is not 0 and not the number, or is negative. -/
theorem exists_reads_of_not_pidText {t : Text} (ht : ¬ PidText t) :
    ∃ pid, Reads t pid ∧ pid ≠ 0 ∧ ¬ (0 < pid ∧ number t = some pid) := by
  by_cases hblank : t.dropWhile isspace = []
  · have hnone : extract t = none := by simp only [extract, hblank]
    exact ⟨-1, fun n hn => absurd (hnone.symm.trans hn) nofun, by decide, fun h => by omega⟩
  · obtain ⟨n, hn, hrange⟩ : ∃ n, number t = some n ∧ (n < 0 ∨ 2 ^ 31 ≤ n) := by
      by_contra hall
      refine ht ⟨hblank, fun n hn => ?_⟩
      by_contra hrange
      exact hall ⟨n, hn, by omega⟩
    refine ⟨max (-2 ^ 31) (min (2 ^ 31 - 1) n), ?_, by omega, ?_⟩
    · intro m hm
      rw [extract_eq hblank, hn] at hm
      exact Option.some.inj hm
    · rintro ⟨hpos, hsame⟩
      have := Option.some.inj (hn.symm.trans hsame)
      omega

/-! ## The users of the lock file -/

open ProcessManager

section

variable {P : Option Signal → Int → Prop} {files : Text → Option Text} {path t : Text}

theorem only_readLockFile {Q : Int → (Text → Option Text) → Prop} (h : files path = some t) :
    (⟨some path⟩ : ProcessManager).readLockFile.Only P Q files ↔ ∀ pid, Reads t pid → Q pid files := by
  simp only [readLockFile, Sys.Only, Option.bind_some, h]
  rcases ht : extract t with _ | n
  · simp [Sys.Only, Reads, ht]
  · simp [Sys.Only, Reads, ht]

theorem only_readLockFile_absent {Q : Int → (Text → Option Text) → Prop} (h : files path = none) :
    (⟨some path⟩ : ProcessManager).readLockFile.Only P Q files ↔ Q 0 files := by
  simp only [readLockFile, Sys.Only, Option.bind_some, h]

/-- `killExistingInstance` probes what it reads. -/
theorem probes_killExistingInstance {Q : Bool → (Text → Option Text) → Prop}
    (h : files path = some t)
    (honly : (⟨some path⟩ : ProcessManager).killExistingInstance.Only P Q files) {pid : Int}
    (hpid : Reads t pid) (hne : pid ≠ 0) : P none pid := by
  simp only [killExistingInstance, Sys.bind_eq, Sys.only_bind, only_readLockFile h] at honly
  have hrest := honly pid hpid
  rw [if_neg hne] at hrest
  exact ((Sys.only_bind _ _ _).mp hrest).1

/-- It signals nothing else. -/
theorem only_killExistingInstance (h : files path = some t)
    (hP : ∀ pid, Reads t pid → pid ≠ 0 → ∀ sig, P sig pid) :
    (⟨some path⟩ : ProcessManager).killExistingInstance.Only P (fun _ _ => True) files := by
  simp only [killExistingInstance, Sys.bind_eq, Sys.only_bind, only_readLockFile h]
  intro pid hpid
  by_cases hne : pid = 0
  · rw [if_pos hne]
    trivial
  · have hsig := hP pid hpid hne
    rw [if_neg hne]
    refine ⟨hsig none, fun running => ?_⟩
    cases running with
    | false => trivial
    | true =>
      refine ⟨hsig _, fun _ _ => ⟨hsig none, fun still => ?_⟩⟩
      cases still with
      | false => trivial
      | true => exact ⟨hsig _, fun _ _ => trivial⟩

/-- `handleExistingInstances` probes what it reads. -/
theorem probes_handleExistingInstances {Q : Bool × ProcessManager → (Text → Option Text) → Prop}
    {pw_name : Text} {getpid : Int} {restartMode : Bool} {pm : ProcessManager}
    (h : files (getLockFilePath pw_name) = some t)
    (honly : (pm.handleExistingInstances pw_name getpid restartMode).Only P Q files) {pid : Int}
    (hpid : Reads t pid) (hne : pid ≠ 0) : P none pid := by
  simp only [handleExistingInstances, Sys.bind_eq, Sys.only_bind, only_readLockFile h] at honly
  have hrest := honly pid hpid
  rw [if_neg hne] at hrest
  exact ((Sys.only_bind _ _ _).mp hrest).1

/-- The writing of the lock file, which ends both ways of `handleExistingInstances`. -/
theorem only_writeLockFile (getpid : Int) (pm : ProcessManager) (files : Text → Option Text) :
    (do if !(← pm.writeLockFile getpid) then return (false, pm)
        return (true, pm) : Sys (Bool × ProcessManager)).Only P (fun _ _ => True) files := by
  simp only [Sys.bind_eq, Sys.only_bind, writeLockFile, Sys.Only]
  exact ⟨trivial, fun p _ => trivial⟩

/-- It signals nothing else. -/
theorem only_handleExistingInstances {pw_name : Text} (getpid : Int) (restartMode : Bool)
    (pm : ProcessManager) (h : files (getLockFilePath pw_name) = some t)
    (hP : ∀ pid, Reads t pid → pid ≠ 0 → ∀ sig, P sig pid) :
    (pm.handleExistingInstances pw_name getpid restartMode).Only P (fun _ _ => True) files := by
  simp only [handleExistingInstances, Sys.bind_eq, Sys.only_bind, only_readLockFile h]
  intro pid hpid
  by_cases hne : pid = 0
  · rw [if_pos hne]
    exact only_writeLockFile getpid _ files
  · rw [if_neg hne]
    refine ⟨hP pid hpid hne none, fun running => ?_⟩
    cases running with
    | false => exact only_writeLockFile getpid _ _
    | true =>
      cases restartMode with
      | false => trivial
      | true =>
        simp only [Sys.Only, Bool.not_true, Bool.false_eq_true, if_false, if_true, Sys.only_bind]
        refine (only_killExistingInstance h hP).imp (fun _ _ hsig => hsig) fun _ _ _ => ?_
        exact fun files' => only_writeLockFile (P := P) getpid _ files'

/-! ## The exact rule -/

/-- What the number in the lock file is for: every signal of the program `m` goes to a strictly
positive pid, the number in the file, and on a file without one the program does what it does
when there is no file. -/
structure SignalsNumber {α : Type} (path t : Text) (m : Sys α) (files : Text → Option Text) :
    Prop where
  signals : m.Only (fun _ pid => 0 < pid ∧ number t = some pid) (fun _ _ => True) files
  absent : (∀ pid, 0 < pid → number t ≠ some pid) → ∀ P (Q : α → Prop),
    m.Only P (fun a _ => Q a) files ↔
      m.Only P (fun a _ => Q a) (Function.update files path none)

/-- A program that probes every number it reads, but 0, and signals nothing else, and that goes on
as without a file when it reads 0: the texts that it is right on. -/
theorem signalsNumber_iff {α : Type} {m : Sys α}
    (hprobe : ∀ {P : Option Signal → Int → Prop} {Q : α → (Text → Option Text) → Prop},
      m.Only P Q files → ∀ {pid}, Reads t pid → pid ≠ 0 → P none pid)
    (honly : ∀ {P : Option Signal → Int → Prop},
      (∀ pid, Reads t pid → pid ≠ 0 → ∀ sig, P sig pid) → m.Only P (fun _ _ => True) files)
    (habsent : (∀ pid, Reads t pid ↔ pid = 0) → ∀ P (Q : α → Prop),
      m.Only P (fun a _ => Q a) files ↔
        m.Only P (fun a _ => Q a) (Function.update files path none)) :
    SignalsNumber path t m files ↔ PidText t := by
  refine ⟨?_, ?_⟩
  · intro hm
    by_contra ht
    obtain ⟨pid, hpid, hne, hbad⟩ := exists_reads_of_not_pidText ht
    exact hbad (hprobe hm.signals hpid hne)
  · intro ht
    refine ⟨honly fun pid hpid hne _ => ?_, fun hnone => habsent fun pid => ?_⟩
    · obtain ⟨heq, hpos⟩ := reads_of_pidText ht hpid
      rcases hn : number t with _ | n
      · exact absurd (by rw [heq, hn]; rfl) hne
      · rw [hn, Option.getD_some] at heq
        exact ⟨by omega, by rw [heq]⟩
    · have hzero : (number t).getD 0 = 0 := by
        rcases hn : number t with _ | n
        · rfl
        · obtain ⟨h0, -⟩ := ht.2 n hn
          by_contra hne
          rw [Option.getD_some] at hne
          exact hnone n (by omega) hn
      refine ⟨?_, ?_⟩
      · intro hpid
        rw [(reads_of_pidText ht hpid).1, hzero]
      · rintro rfl n hn
        rw [extract_eq ht.1, hzero] at hn
        exact Option.some.inj hn

theorem killExistingInstance_absent (h : files path = some t) (hzero : ∀ pid, Reads t pid ↔ pid = 0)
    (P : Option Signal → Int → Prop) (Q : Bool → Prop) :
    (⟨some path⟩ : ProcessManager).killExistingInstance.Only P (fun a _ => Q a) files ↔
      (⟨some path⟩ : ProcessManager).killExistingInstance.Only P (fun a _ => Q a)
        (Function.update files path none) := by
  have hgone : Function.update files path none path = none := Function.update_self ..
  simp only [killExistingInstance, Sys.bind_eq, Sys.only_bind, only_readLockFile h,
    only_readLockFile_absent hgone, hzero, forall_eq, if_true]
  rfl

theorem handleExistingInstances_absent {pw_name : Text} (getpid : Int) (restartMode : Bool)
    (pm : ProcessManager) (h : files (getLockFilePath pw_name) = some t)
    (hzero : ∀ pid, Reads t pid ↔ pid = 0) (P : Option Signal → Int → Prop)
    (Q : Bool × ProcessManager → Prop) :
    (pm.handleExistingInstances pw_name getpid restartMode).Only P (fun a _ => Q a) files ↔
      (pm.handleExistingInstances pw_name getpid restartMode).Only P (fun a _ => Q a)
        (Function.update files (getLockFilePath pw_name) none) := by
  have hgone : Function.update files (getLockFilePath pw_name) none (getLockFilePath pw_name) = none :=
    Function.update_self ..
  simp only [handleExistingInstances, Sys.bind_eq, Sys.only_bind, only_readLockFile h,
    only_readLockFile_absent hgone, hzero, forall_eq, if_true, writeLockFile, Sys.Only]
  exact Iff.rfl

/-- **The lock file is minded** on exactly the texts of `PidText`: on those every signal of
`killExistingInstance` and of `handleExistingInstances` goes to the positive number in the file,
and a text without one counts as no instance; on every other text one of their signals goes
elsewhere. Both functions do the same with what `readLockFile` returns, and so this is about the
values that it may return. -/
theorem signalsNumber_iff_pidText (files : Text → Option Text) (t : Text) :
    (∀ path, SignalsNumber path t (⟨some path⟩ : ProcessManager).killExistingInstance
      (Function.update files path (some t)) ↔ PidText t) ∧
    ∀ pw_name getpid restartMode (pm : ProcessManager), SignalsNumber (getLockFilePath pw_name) t
      (pm.handleExistingInstances pw_name getpid restartMode)
      (Function.update files (getLockFilePath pw_name) (some t)) ↔ PidText t := by
  refine ⟨?_, ?_⟩
  · intro path
    have h : Function.update files path (some t) path = some t := Function.update_self ..
    exact signalsNumber_iff (fun honly => probes_killExistingInstance h honly)
      (only_killExistingInstance h) (killExistingInstance_absent h)
  · intro pw_name getpid restartMode pm
    have h : Function.update files (getLockFilePath pw_name) (some t) (getLockFilePath pw_name) =
        some t := Function.update_self ..
    exact signalsNumber_iff (fun honly => probes_handleExistingInstances h honly)
      (only_handleExistingInstances getpid restartMode pm h)
      (handleExistingInstances_absent getpid restartMode pm h)

/-- The file says `-1`: SIGTERM goes to pid −1, which stands for every process. -/
theorem signals_everyone :
    ¬ (⟨some []⟩ : ProcessManager).killExistingInstance.Only
        (fun sig pid => sig = some .SIGTERM → 0 < pid) (fun _ _ => True)
        (Function.update (fun _ => none) [] (some "-1".toList)) ∧
      ¬ SignalsNumber [] "-1".toList (⟨some []⟩ : ProcessManager).killExistingInstance
        (Function.update (fun _ => none) [] (some "-1".toList)) := by
  refine ⟨fun h => ?_, fun h => ?_⟩
  · exact absurd ((h.2 true).1 rfl) (by decide)
  · exact absurd h.signals.1.1 (by decide)

end

end Photonbar
