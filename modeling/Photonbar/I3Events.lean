import Photonbar.Chunks
import Photonbar.Workspace

/-!
# Events of i3 (`WorkspaceModule::handleI3Events`)

The pipe from `i3-msg` delivers a byte stream in pieces, one for each `read`. A call of
`handleI3Events` reads until it meets a change, or until there is nothing to read. `pollEvents` is
the call up to the update of the elements, which happens exactly on a change; it alone decides what
the call returns (`handleI3Events_eq`). So a sequence of calls can be looked at apart from what
they do to the module: `polls` is what they report, and `handlePasses_eq` says that the module is
updated in exactly the passes that report a change.

Each piece is searched on its own, and the loop keeps nothing from one to the next, so a change
that is cut in two is missed. `polls_spec` is the fact about any calls: they report a change
exactly if there is one in a piece that they have read. A `Delivery` is one way of cutting a stream
and of calling, with all of it read in the end; there the search of pieces is that of
`infix_chunk_iff`, and `cutting_irrelevant_iff` says exactly when the cutting does not matter.
-/

namespace Photonbar

/-- The bytes of one `read` into the buffer of 4096 bytes, which keeps one for the NUL. -/
structure Chunk where
  bytes : Bytes
  pos : 0 < bytes.length
  le : bytes.length ≤ 4095

/-- What one `read` gives. -/
inductive ReadResult where
  | data (chunk : Chunk)
  /-- -1: nothing to read now -/
  | again
  /-- 0: the writer has gone -/
  | eof

/-- The changes of `isWorkspaceEvent`. -/
def changePatterns : List Bytes :=
  [ascii "\"change\":\"focus\"".toList, ascii "\"change\":\"init\"".toList,
    ascii "\"change\":\"empty\"".toList, ascii "\"change\":\"urgent\"".toList]

/-- `isWorkspaceEvent`: `strstr` sees the bytes before the first NUL. -/
def isWorkspaceEvent (json_data : Bytes) : Bool :=
  changePatterns.any fun p => p <:+: json_data.takeWhile (· ≠ 0)

/-- The loop of `handleI3Events`: whether a change was met, whether the writer has
gone, and what is left to read. -/
def readLoop : List ReadResult → Bool × Bool × List ReadResult
  | [] => (false, false, [])
  | .data chunk :: reads =>
    if isWorkspaceEvent chunk.bytes then (true, false, reads) else readLoop reads
  | .again :: reads => (false, false, reads)
  | .eof :: reads => (false, true, reads)

/-- What a call is given: the descriptors that are ready, and what `subscribeI3` returns
if it is called. -/
structure PollCall where
  fds : Int → Bool
  subscribeI3 : Int

/-- `handleI3Events` up to the update: the change, the descriptor, and what is left to
read. -/
def pollEvents (i3Fd : Int) (call : PollCall) (reads : List ReadResult) :
    Bool × Int × List ReadResult :=
  if i3Fd ≠ -1 ∧ call.fds i3Fd then
    let (workspace_changed, eof, reads) := readLoop reads
    (workspace_changed, if eof then call.subscribeI3 else i3Fd, reads)
  else (false, i3Fd, reads)

/-- What successive calls return, and what is left to read. -/
def polls (i3Fd : Int) : List PollCall → List ReadResult → List Bool × List ReadResult
  | [], reads => ([], reads)
  | call :: calls, reads =>
    let (changed, i3Fd, reads) := pollEvents i3Fd call reads
    let (results, reads) := polls i3Fd calls reads
    (changed :: results, reads)

/-- The pieces that are read. -/
def chunks : List ReadResult → List Bytes
  | [] => []
  | .data chunk :: reads => chunk.bytes :: chunks reads
  | .again :: reads => chunks reads
  | .eof :: reads => chunks reads

theorem chunks_append (reads reads' : List ReadResult) :
    chunks (reads ++ reads') = chunks reads ++ chunks reads' := by
  induction reads with
  | nil => rfl
  | cons r reads ih => cases r <;> simp [chunks, ih]

/-- The loop meets a change exactly in the pieces that it reads. -/
theorem readLoop_spec (reads : List ReadResult) :
    ∃ consumed, reads = consumed ++ (readLoop reads).2.2 ∧
      ((readLoop reads).1 = true ↔ ∃ c ∈ chunks consumed, isWorkspaceEvent c = true) := by
  induction reads with
  | nil => exact ⟨[], rfl, by simp [readLoop, chunks]⟩
  | cons r reads ih =>
    obtain chunk | _ | _ := r
    · cases hc : isWorkspaceEvent chunk.bytes with
      | true => exact ⟨[.data chunk], by simp [readLoop, hc], by simp [readLoop, chunks, hc]⟩
      | false =>
        obtain ⟨consumed, hreads, hiff⟩ := ih
        refine ⟨.data chunk :: consumed, ?_, ?_⟩
        · rw [readLoop, if_neg (by simp [hc]), List.cons_append, ← hreads]
        · rw [readLoop, if_neg (by simp [hc]), hiff]
          simp [chunks, hc]
    · exact ⟨[.again], rfl, by simp [readLoop, chunks]⟩
    · exact ⟨[.eof], rfl, by simp [readLoop, chunks]⟩

theorem pollEvents_spec (i3Fd : Int) (call : PollCall) (reads : List ReadResult) :
    ∃ consumed, reads = consumed ++ (pollEvents i3Fd call reads).2.2 ∧
      ((pollEvents i3Fd call reads).1 = true ↔
        ∃ c ∈ chunks consumed, isWorkspaceEvent c = true) := by
  rw [pollEvents]
  split
  · exact readLoop_spec reads
  · exact ⟨[], rfl, by simp [chunks]⟩

/-- Calls report a change exactly if there is one in a piece that they read. -/
theorem polls_spec (calls : List PollCall) :
    ∀ (i3Fd : Int) (reads : List ReadResult),
      ∃ consumed, reads = consumed ++ (polls i3Fd calls reads).2 ∧
        (true ∈ (polls i3Fd calls reads).1 ↔
          ∃ c ∈ chunks consumed, isWorkspaceEvent c = true) := by
  induction calls with
  | nil => intro i3Fd reads; exact ⟨[], rfl, by simp [polls, chunks]⟩
  | cons call calls ih =>
    intro i3Fd reads
    obtain ⟨first, hfirst, hchanged⟩ := pollEvents_spec i3Fd call reads
    obtain ⟨later, hlater, hresults⟩ :=
      ih (pollEvents i3Fd call reads).2.1 (pollEvents i3Fd call reads).2.2
    refine ⟨first ++ later, ?_, ?_⟩
    · rw [List.append_assoc]
      exact hfirst.trans (congrArg (first ++ ·) hlater)
    · have hmem : true ∈ (polls i3Fd (call :: calls) reads).1 ↔
          (pollEvents i3Fd call reads).1 = true ∨
            true ∈ (polls (pollEvents i3Fd call reads).2.1 calls
              (pollEvents i3Fd call reads).2.2).1 := by
        rw [polls, List.mem_cons, eq_comm]
      rw [hmem, hchanged, hresults, chunks_append]
      simp only [List.mem_append, or_and_right, exists_or]

/-! ## Cutting a stream -/

/-- One way in which a stream without NULs is delivered: cut into pieces that are read by
some calls, all of it. -/
structure Delivery (stream : CStr) where
  i3Fd : Int
  calls : List PollCall
  reads : List ReadResult
  noEof : .eof ∉ reads
  flatten_eq : (chunks reads).flatten = stream.bytes
  allRead : (polls i3Fd calls reads).2 = []

/-- The stream contains a change. -/
def HasChange (stream : CStr) : Prop := ∃ p ∈ changePatterns, p <:+: stream.bytes

namespace Delivery

variable {stream : CStr}

/-- Some call reports a change. -/
def Reports (d : Delivery stream) : Prop := true ∈ (polls d.i3Fd d.calls d.reads).1

/-- The stream contains a change through which no cut goes. -/
def HasUncutChange (d : Delivery stream) : Prop :=
  ∃ p ∈ changePatterns, ∃ i, OccursAt p stream.bytes i ∧ Uncut (chunks d.reads) i p.length

theorem isWorkspaceEvent_iff {d : Delivery stream} {c : Bytes} (hc : c ∈ chunks d.reads) :
    isWorkspaceEvent c = true ↔ ∃ p ∈ changePatterns, p <:+: c := by
  have hnul : c.takeWhile (· ≠ 0) = c := by
    rw [List.takeWhile_eq_self_iff]
    intro b hb
    have hmem : b ∈ stream.bytes := by
      rw [← d.flatten_eq]
      exact List.mem_flatten.mpr ⟨c, hc, hb⟩
    simpa using ne_of_mem_of_not_mem hmem stream.noNul
  rw [isWorkspaceEvent, hnul]
  simp only [List.any_eq_true, decide_eq_true_eq]

theorem changePatterns_ne_nil : ∀ p ∈ changePatterns, p ≠ [] := by
  decide

/-- Some call reports a change exactly if there is one that is not cut. -/
theorem reports_iff (d : Delivery stream) : d.Reports ↔ d.HasUncutChange := by
  obtain ⟨consumed, hreads, hresults⟩ := polls_spec d.calls d.i3Fd d.reads
  rw [d.allRead, List.append_nil] at hreads
  rw [Reports, hresults, ← hreads]
  refine ⟨?_, ?_⟩
  · rintro ⟨c, hc, hevent⟩
    obtain ⟨p, hp, hpc⟩ := (isWorkspaceEvent_iff hc).mp hevent
    obtain ⟨i, hi, huncut⟩ := (infix_chunk_iff (changePatterns_ne_nil p hp) _).mp ⟨c, hc, hpc⟩
    exact ⟨p, hp, i, d.flatten_eq ▸ hi, huncut⟩
  · rintro ⟨p, hp, i, hi, huncut⟩
    obtain ⟨c, hc, hpc⟩ := (infix_chunk_iff (changePatterns_ne_nil p hp) (chunks d.reads)).mpr
      ⟨i, d.flatten_eq ▸ hi, huncut⟩
    exact ⟨c, hc, (isWorkspaceEvent_iff hc).mpr ⟨p, hp, hpc⟩⟩

theorem HasUncutChange.hasChange {d : Delivery stream} (h : d.HasUncutChange) :
    HasChange stream := by
  obtain ⟨p, hp, i, hi, -⟩ := h
  exact ⟨p, hp, infix_iff_occursAt.mpr ⟨i, hi⟩⟩

/-- **Exactly when the cutting does not matter**: two deliveries of a stream report alike, and
report exactly the streams with a change, if and only if each of them leaves some change of the
stream uncut, should it have one. A delivery reports just when it has an uncut change, which is a
change of the stream; what is left is propositional. -/
theorem cutting_irrelevant_iff (stream : CStr) (d₁ d₂ : Delivery stream) :
    ((d₁.Reports ↔ d₂.Reports) ∧ (d₁.Reports ↔ HasChange stream)) ↔
      (HasChange stream → d₁.HasUncutChange ∧ d₂.HasUncutChange) := by
  rw [d₁.reports_iff, d₂.reports_iff]
  have h₁ : d₁.HasUncutChange → HasChange stream := HasUncutChange.hasChange
  have h₂ : d₂.HasUncutChange → HasChange stream := HasUncutChange.hasChange
  tauto

/-- One call on a descriptor that is ready. -/
def readyCall : PollCall := ⟨fun _ => true, 3⟩

/-- The stream `"change":"focus"` is reported when it is read whole, and missed when it is
read as `"chan` and `ge":"focus"`. -/
theorem cut_change_is_missed :
    ∃ (stream : CStr) (whole cut : Delivery stream),
      HasChange stream ∧ whole.Reports ∧ ¬ cut.Reports := by
  refine ⟨⟨ascii "\"change\":\"focus\"".toList, by decide⟩,
    ⟨3, [readyCall], [.data ⟨ascii "\"change\":\"focus\"".toList, by decide, by decide⟩],
      by simp, by decide, by decide⟩,
    ⟨3, [readyCall], [.data ⟨ascii "\"chan".toList, by decide, by decide⟩,
        .data ⟨ascii "ge\":\"focus\"".toList, by decide, by decide⟩],
      by simp, by decide, by decide⟩, ?_, ?_, ?_⟩
  · exact ⟨ascii "\"change\":\"focus\"".toList, by decide, List.infix_rfl⟩
  · rw [Reports]
    decide
  · rw [Reports]
    decide

end Delivery

end Photonbar
