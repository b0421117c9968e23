import Photonbar.Loops
import Photonbar.CString

/-!
# Sockets (`i3ipc.h`)

A `read` gives what has arrived, up to the size that is asked for, and a `write` takes some of what
it is given; `i3ipc__read_all_try` and `i3ipc__write_all_try` call them until everything is there.
What arrives at a socket is given in advance, piece by piece, and so are the answers to its writes;
waiting for more than that is waiting for ever, which is no result.

`stream` forgets how the bytes have been cut into pieces. What `readAllTry` gives and what it
leaves behind can be said of the stream alone (`readAllTry_stream`). An error of a `read` is a
point in the stream like a byte, and the end of the file is there for ever. For writing,
`writeAllTry_written` says that a success has written all of it, and `writeAllTry_accepted` that
there is one if each `write` takes something.
-/

namespace Photonbar

namespace I3ipc

/-! ## Reading -/

/-- What arrives at a socket. Nothing more ever arrives behind the last one. -/
inductive Arrival where
  /-- bytes, at least one -/
  | data (c : UInt8) (piece : Bytes)
  /-- -1; whether `errno` is `EWOULDBLOCK` or `EAGAIN` -/
  | error (wouldblock : Bool)
  /-- the other side has gone -/
  | eof
  deriving DecidableEq

/-- What one `read` gives. -/
inductive ReadAnswer where
  | bytes (bytes : Bytes)
  | error (wouldblock : Bool)
  | eof

/-- Bytes that are still there, in front of what arrives later. -/
def unread (bytes : Bytes) (arrivals : List Arrival) : List Arrival :=
  match bytes with
  | [] => arrivals
  | c :: piece => .data c piece :: arrivals

/-- `read` of at least one byte; `none` is to wait for ever. -/
def read (buf_size : Nat) : List Arrival → Option (ReadAnswer × List Arrival)
  | [] => none
  | .data c piece :: arrivals =>
    some (.bytes ((c :: piece).take buf_size), unread ((c :: piece).drop buf_size) arrivals)
  | .error wouldblock :: arrivals => some (.error wouldblock, arrivals)
  | .eof :: arrivals => some (.eof, .eof :: arrivals)

/-- `I3ipc_read_all_code`, but for success. -/
inductive ReadAllCode where
  | ERROR
  | EOF
  | WOULDBLOCK
  deriving DecidableEq

/-- The loop of `i3ipc__read_all_try`. The bytes of a read that fails in the end are lost. -/
def readAllLoop : Nat → Nat → List Arrival → Option (Except ReadAllCode Bytes × List Arrival)
  | 0, _, arrivals => some (.ok [], arrivals)
  | n + 1, buf_size, arrivals =>
    if buf_size = 0 then some (.ok [], arrivals)
    else
      match read buf_size arrivals with
      | none => none
      | some (.error wouldblock, arrivals) =>
        some (.error (if wouldblock then .WOULDBLOCK else .ERROR), arrivals)
      | some (.eof, arrivals) => some (.error .EOF, arrivals)
      | some (.bytes bytes, arrivals) =>
        match readAllLoop n (buf_size - bytes.length) arrivals with
        | none => none
        | some (r, arrivals) => some (r.map (bytes ++ ·), arrivals)

/-- `i3ipc__read_all_try`. A `read` gives at least one byte, so `buf_size` of them are enough. -/
def readAllTry (buf_size : Nat) (arrivals : List Arrival) :
    Option (Except ReadAllCode Bytes × List Arrival) :=
  readAllLoop buf_size buf_size arrivals

/-! ## Streams -/

/-- What arrives at a socket, byte for byte. -/
inductive Event where
  | byte (c : UInt8)
  | error (wouldblock : Bool)
  | eof
  deriving DecidableEq

/-- What arrives, without the cuts. Behind the end there is nothing but the end. -/
def stream : List Arrival → List Event
  | [] => []
  | .data c piece :: arrivals => (c :: piece).map .byte ++ stream arrivals
  | .error wouldblock :: arrivals => .error wouldblock :: stream arrivals
  | .eof :: _ => [.eof]

/-- To read a number of bytes of a stream. -/
def readStream : Nat → List Event → Option (Except ReadAllCode Bytes × List Event)
  | 0, events => some (.ok [], events)
  | _ + 1, [] => none
  | n + 1, .byte c :: events =>
    match readStream n events with
    | none => none
    | some (r, events) => some (r.map (c :: ·), events)
  | _ + 1, .error wouldblock :: events =>
    some (.error (if wouldblock then .WOULDBLOCK else .ERROR), events)
  | _ + 1, .eof :: events => some (.error .EOF, .eof :: events)

theorem stream_unread (bytes : Bytes) (arrivals : List Arrival) :
    stream (unread bytes arrivals) = bytes.map .byte ++ stream arrivals := by
  cases bytes with
  | nil => rfl
  | cons c piece => rfl

/-- The bytes at the beginning of a stream are read first. -/
theorem readStream_append {m : Nat} (bytes : Bytes) {n : Nat} (hn : n = bytes.length + m)
    (events : List Event) :
    readStream n (bytes.map .byte ++ events) =
      (readStream m events).map fun r => (r.1.map (bytes ++ ·), r.2) := by
  subst hn
  induction bytes with
  | nil =>
    rw [List.length_nil, Nat.zero_add, List.map_nil, List.nil_append]
    cases readStream m events with
    | none => rfl
    | some r =>
      obtain ⟨r, events⟩ := r
      cases r <;> rfl
  | cons c bytes ih =>
    rw [List.length_cons, Nat.add_right_comm, List.map_cons, List.cons_append, readStream, ih]
    cases readStream m events with
    | none => rfl
    | some r =>
      obtain ⟨r, events⟩ := r
      cases r <;> rfl

theorem readStream_bytes (bytes : Bytes) (events : List Event) :
    readStream bytes.length (bytes.map .byte ++ events) = some (.ok bytes, events) := by
  rw [readStream_append bytes (Nat.add_zero _).symm, readStream]
  show some (Except.ok (bytes ++ []), events) = _
  rw [List.append_nil]

/-- **How the bytes are cut does not matter** for what is read, nor for what is left. -/
theorem readAllTry_stream (buf_size : Nat) (arrivals : List Arrival) :
    (readAllTry buf_size arrivals).map (fun r => (r.1, stream r.2)) =
      readStream buf_size (stream arrivals) := by
  have hloop : ∀ (n buf_size : Nat) (arrivals : List Arrival), buf_size ≤ n →
      (readAllLoop n buf_size arrivals).map (fun r => (r.1, stream r.2)) =
        readStream buf_size (stream arrivals) := by
    intro n
    induction n with
    | zero =>
      intro buf_size arrivals hle
      rw [Nat.le_zero.mp hle]
      rfl
    | succ n ih =>
      intro buf_size arrivals hle
      cases buf_size with
      | zero => rfl
      | succ buf_size =>
        rw [readAllLoop, if_neg (Nat.succ_ne_zero _)]
        cases arrivals with
        | nil => rfl
        | cons arrival arrivals =>
          cases arrival with
          | error wouldblock => rfl
          | eof => rfl
          | data c piece =>
            -- the first piece, or as much of it as is wanted
            have hlen : ((c :: piece).take (buf_size + 1)).length ≤ buf_size + 1 :=
              List.length_take_le _ _
            have hpos : 0 < ((c :: piece).take (buf_size + 1)).length := Nat.succ_pos _
            have hrest := ih (buf_size + 1 - ((c :: piece).take (buf_size + 1)).length)
              (unread ((c :: piece).drop (buf_size + 1)) arrivals) (by omega)
            have hsplit : stream (.data c piece :: arrivals) =
                ((c :: piece).take (buf_size + 1)).map .byte ++
                  stream (unread ((c :: piece).drop (buf_size + 1)) arrivals) := by
              rw [stream_unread, ← List.append_assoc, ← List.map_append, List.take_append_drop]
              rfl
            rw [hsplit, readStream_append _ (Nat.add_sub_cancel' hlen).symm, ← hrest, read]
            dsimp only
            cases readAllLoop n (buf_size + 1 - ((c :: piece).take (buf_size + 1)).length)
              (unread ((c :: piece).drop (buf_size + 1)) arrivals) with
            | none => rfl
            | some r => rfl
  exact hloop buf_size buf_size arrivals le_rfl

/-! ## Writing -/

/-- What one `write` does. -/
inductive WriteAnswer where
  /-- it takes at most `n + 1` bytes -/
  | accept (n : Nat)
  | epipe
  /-- -1; whether `errno` is `EWOULDBLOCK` or `EAGAIN` -/
  | error (wouldblock : Bool)
  deriving DecidableEq

/-- `I3ipc_write_all_code`, but for success. -/
inductive WriteAllCode where
  | ERROR
  | EOF
  | WOULDBLOCK
  deriving DecidableEq

/-- `i3ipc__write_all_try`: the result, and what has been written. `none` is to wait for ever. -/
def writeAllTry : List WriteAnswer → Bytes →
    Option (Except WriteAllCode Unit × Bytes × List WriteAnswer)
  | answers, [] => some (.ok (), [], answers)
  | [], _ :: _ => none
  | .epipe :: answers, _ :: _ => some (.error .EOF, [], answers)
  | .error wouldblock :: answers, _ :: _ =>
    some (.error (if wouldblock then .WOULDBLOCK else .ERROR), [], answers)
  | .accept n :: answers, c :: buf =>
    match writeAllTry answers (buf.drop n) with
    | none => none
    | some (r, written, answers) => some (r, c :: buf.take n ++ written, answers)

/-- What is written is a beginning of the bytes, and all of them exactly in case of success. -/
theorem writeAllTry_written : ∀ {answers answers' : List WriteAnswer} {buf written : Bytes}
    {r : Except WriteAllCode Unit}, writeAllTry answers buf = some (r, written, answers') →
      written <+: buf ∧ (r = .ok () ↔ written = buf) := by
  intro answers
  induction answers with
  | nil =>
    intro answers' buf written r h
    cases buf with
    | nil =>
      cases h
      exact ⟨List.nil_prefix, by simp⟩
    | cons c buf => cases h
  | cons answer answers ih =>
    intro answers' buf written r h
    cases buf with
    | nil =>
      cases answer <;>
      · cases h
        exact ⟨List.nil_prefix, by simp⟩
    | cons c buf =>
      cases answer with
      | epipe =>
        cases h
        exact ⟨List.nil_prefix, by simp⟩
      | error wouldblock =>
        cases h
        exact ⟨List.nil_prefix, by simp⟩
      | accept n =>
        rw [writeAllTry] at h
        cases hrest : writeAllTry answers (buf.drop n) with
        | none =>
          rw [hrest] at h
          cases h
        | some r' =>
          obtain ⟨r', written', answers''⟩ := r'
          rw [hrest] at h
          cases h
          obtain ⟨hpre, hok⟩ := ih hrest
          have hbuf : c :: buf = c :: buf.take n ++ buf.drop n := by
            rw [List.cons_append, List.take_append_drop]
          rw [hbuf, List.prefix_append_right_inj, List.append_cancel_left_eq]
          exact ⟨hpre, hok⟩

/-- A `write` that is accepted again and again. -/
theorem writeAllTry_accepted : ∀ {accepted : List WriteAnswer} {buf : Bytes} (more : List WriteAnswer),
    (∀ answer ∈ accepted, ∃ n, answer = .accept n) → buf.length ≤ accepted.length →
    ∃ left, left <:+ accepted ∧ accepted.length ≤ left.length + buf.length ∧
      writeAllTry (accepted ++ more) buf = some (.ok (), buf, left ++ more) := by
  intro accepted
  induction accepted with
  | nil =>
    intro buf more _ hlen
    rw [List.length_eq_zero_iff.mp (Nat.le_zero.mp hlen)]
    exact ⟨[], List.suffix_rfl, le_rfl, by cases more <;> rfl⟩
  | cons answer accepted ih =>
    intro buf more hall hlen
    obtain ⟨⟨n, rfl⟩, hrest⟩ := List.forall_mem_cons.mp hall
    cases buf with
    | nil => exact ⟨.accept n :: accepted, List.suffix_rfl, le_rfl, rfl⟩
    | cons c buf =>
      have hdrop : (buf.drop n).length ≤ buf.length := by
        rw [List.length_drop]
        exact Nat.sub_le _ _
      obtain ⟨left, hsuffix, hleft, hwrite⟩ :=
        ih more hrest (hdrop.trans (Nat.le_of_succ_le_succ hlen))
      refine ⟨left, hsuffix.trans (List.suffix_cons _ _), ?_, ?_⟩
      · simp only [List.length_cons]
        omega
      · rw [List.cons_append, writeAllTry, hwrite]
        simp only [List.cons_append, List.take_append_drop]

end I3ipc

end Photonbar
