import Photonbar.I3Socket

/-!
# Messages (`i3ipc.h`)

The state of the library, `Context`, and the functions that send and receive a message. They stop
the program, or return zero, or return a code: a `Call` is a computation of this kind, and `do`
passes codes on, as the source does by hand after every call. `errorHandle` notes the code in the
context, and stops the program unless `nopanic` is set.

A message is a header of 14 bytes, of which the first 6 are never looked at by the receiver, and a
payload. Numbers in the header have four bytes, the lowest first, and are read back
(`int32OfBytes_int32Bytes`). A message that arrives is received, and nothing behind it is read
(`messageReceiveTry_frame`); a message that has been sent has put its frame on the wire, however
many bytes each `write` took (`messageSendTry_sent`). Hence two ends that are connected pass on any
list of messages (`receiveAll_sendAll`).
-/

namespace Photonbar

namespace I3ipc

/-! ## The context -/

/-- `I3ipc_error_codes`; `IOERR` is `I3IPC_ERROR_IO`. -/
inductive ErrorCode where
  | CLOSED
  | MALFORMED
  | IOERR
  | FAILED
  | BADSTATE
  deriving DecidableEq

/-- `I3ipc_context_state` -/
inductive ContextState where
  | UNINITIALIZED
  | READY
  | ERROR (code : ErrorCode)
  deriving DecidableEq

/-- `I3ipc_message` with its payload; `message_length` is the length of that. -/
structure Message where
  message_type : Int32
  payload : Bytes
  deriving DecidableEq

/-- A socket: what arrives, what the writes will do, and what has been sent. -/
structure Socket where
  arrivals : List Arrival
  answers : List WriteAnswer
  sent : Bytes
  deriving DecidableEq

/-- `I3ipc_context`, with the answers to the `i3ipc__socket_open_try` to come. Of the buffers there is
that of the reordered messages. -/
structure Context where
  state : ContextState
  sock : Socket
  sock_events : Socket
  nopanic : Bool
  staticalloc : Bool
  debug_do_not_write_messages : Bool
  debug_nodata_is_error : Bool
  reorder : List Message
  connections : List (Option Socket)
  deriving DecidableEq

/-- `i3ipc_error_code`; zero is `none`. -/
def Context.errorCode (context : Context) : Option ErrorCode :=
  match context.state with
  | .ERROR code => some code
  | _ => none

/-- Why a call does not return. -/
inductive Stop where
  | abort
  | assertion
  /-- it waits for ever -/
  | wait
  /-- the loop of the model has run out of fuel -/
  | fuel
  deriving DecidableEq

/-- A call of the library: it may stop the program, and otherwise returns a value or a code. -/
def Call (α : Type) : Type := Context → Except Stop (Except ErrorCode α × Context)

namespace Call

variable {α β : Type}

def pure (a : α) : Call α := fun context => .ok (.ok a, context)

/-- `{int code = x; if (code) return code;}` -/
def bind (x : Call α) (f : α → Call β) : Call β := fun context =>
  match x context with
  | .error stop => .error stop
  | .ok (.error code, context) => .ok (.error code, context)
  | .ok (.ok a, context) => f a context

def stop (stop : Stop) : Call α := fun _ => .error stop

instance : Monad Call where
  pure := pure
  bind := bind

theorem bind_of_ok {x : Call α} {f : α → Call β} {context context' : Context} {a : α}
    (h : x context = .ok (.ok a, context')) : (x >>= f) context = f a context' := by
  show bind x f context = _
  rw [bind, h]

theorem bind_of_code {x : Call α} {f : α → Call β} {context context' : Context} {code : ErrorCode}
    (h : x context = .ok (.error code, context')) :
    (x >>= f) context = .ok (.error code, context') := by
  show bind x f context = _
  rw [bind, h]

theorem bind_of_stop {x : Call α} {f : α → Call β} {context : Context} {stop : Stop}
    (h : x context = .error stop) : (x >>= f) context = .error stop := by
  show bind x f context = _
  rw [bind, h]

/-- What a call that returns has done. -/
theorem bind_eq_ok {x : Call α} {f : α → Call β} {context : Context} {r : Except ErrorCode β × Context}
    (h : (x >>= f) context = .ok r) :
    (∃ code, x context = .ok (.error code, r.2) ∧ r.1 = .error code) ∨
      ∃ a context', x context = .ok (.ok a, context') ∧ f a context' = .ok r := by
  have h : bind x f context = .ok r := h
  rw [bind] at h
  cases hx : x context with
  | error stop =>
    rw [hx] at h
    cases h
  | ok r' =>
    obtain ⟨r', context'⟩ := r'
    rw [hx] at h
    cases r' with
    | error code =>
      cases h
      exact .inl ⟨code, rfl, rfl⟩
    | ok a => exact .inr ⟨a, context', rfl, h⟩

end Call

/-- `assert`. -/
def assert (p : Bool) : Call Unit := fun context =>
  if p then .ok (.ok (), context) else .error .assertion

/-- A flag of the context. -/
def getFlag (flag : Context → Bool) : Call Bool := fun context => .ok (.ok (flag context), context)

/-- `i3ipc__error_handle`. -/
def errorHandle {α : Type} (code : ErrorCode) : Call α := fun context =>
  if context.nopanic then
    .ok (.error code, if code = .BADSTATE then context else { context with state := .ERROR code })
  else .error .abort

/-- `i3ipc_init_try`. It opens two sockets, or fails without `i3ipc__error_handle`. -/
def initTry : Call Unit := fun context =>
  match context.state with
  | .READY => .ok (.ok (), context)
  | .ERROR _ => .ok (.error .BADSTATE, context)
  | .UNINITIALIZED =>
    match context.connections with
    | some sock :: some sock_events :: connections =>
      .ok (.ok (), { context with state := .READY, sock, sock_events, connections })
    | some sock :: connections =>
      .ok (.error .CLOSED,
        { context with state := .ERROR .CLOSED, sock, connections := connections.tail })
    | connections =>
      .ok (.error .CLOSED,
        { context with state := .ERROR .CLOSED, connections := connections.tail })

/-! ## The sockets -/

/-- The sockets of the context. -/
inductive SocketName where
  | sock
  | sock_events
  deriving DecidableEq

def Context.socket (context : Context) : SocketName → Socket
  | .sock => context.sock
  | .sock_events => context.sock_events

def Context.setSocket (context : Context) (name : SocketName) (socket : Socket) : Context :=
  match name with
  | .sock => { context with sock := socket }
  | .sock_events => { context with sock_events := socket }

/-- The types of events, from `I3IPC_EVENT_TYPE_BEGIN` to `I3IPC_EVENT_TYPE_END`. -/
def isEventType (message_type : Int32) : Bool :=
  -2147483648 ≤ message_type && message_type < -2147483640

/-- `I3IPC_EVENT_ANY` -/
def EVENT_ANY : Int32 := -2

/-- `i3ipc__message_type_to_socket`. -/
def messageTypeToSocket (message_type : Int32) : Call SocketName :=
  if message_type = 2 then pure .sock_events
  else if 0 ≤ message_type ∧ message_type < 12 then pure .sock
  else if isEventType message_type then pure .sock_events
  else if message_type = EVENT_ANY then pure .sock_events
  else .stop .assertion

/-- `i3ipc__read_all_try` on a socket. -/
def readSocket (name : SocketName) (buf_size : Nat) : Call (Except ReadAllCode Bytes) :=
  fun context =>
    match readAllTry buf_size (context.socket name).arrivals with
    | none => .error .wait
    | some (r, arrivals) =>
      .ok (.ok r, context.setSocket name { context.socket name with arrivals })

/-- `i3ipc__write_all_try` on a socket. -/
def writeSocket (name : SocketName) (buf : Bytes) : Call (Except WriteAllCode Unit) :=
  fun context =>
    match writeAllTry (context.socket name).answers buf with
    | none => .error .wait
    | some (r, written, answers) =>
      .ok (.ok r, context.setSocket name
        { context.socket name with answers, sent := (context.socket name).sent ++ written })

/-! ## Bytes of a message -/

/-- The lowest bytes of a number, the lowest one first. -/
def le : Nat → Nat → Bytes
  | 0, _ => []
  | width + 1, n => UInt8.ofNat n :: le width (n / 256)

def ofLe : Bytes → Nat
  | [] => 0
  | b :: bytes => b.toNat + 256 * ofLe bytes

@[simp] theorem length_le (width n : Nat) : (le width n).length = width := by
  induction width generalizing n with
  | zero => rfl
  | succ width ih => exact congrArg Nat.succ (ih _)

theorem ofLe_le (width : Nat) : ∀ n, ofLe (le width n) = n % 256 ^ width := by
  induction width with
  | zero => exact fun n => (Nat.mod_one n).symm
  | succ width ih =>
    intro n
    have hbyte : (UInt8.ofNat n).toNat = n % 256 := UInt8.toNat_ofNat'
    rw [le, ofLe, ih, hbyte, Nat.pow_succ', Nat.mod_mul]

/-- An `int32_t` in a message. -/
def int32Bytes (n : Int32) : Bytes := le 4 n.toUInt32.toNat

def int32OfBytes (bytes : Bytes) : Int32 := (UInt32.ofNat (ofLe bytes)).toInt32

theorem int32OfBytes_int32Bytes (n : Int32) : int32OfBytes (int32Bytes n) = n := by
  have hlt : n.toUInt32.toNat < 256 ^ 4 := n.toUInt32.toNat_lt
  rw [int32OfBytes, int32Bytes, ofLe_le, Nat.mod_eq_of_lt hlt, UInt32.ofNat_toNat,
    Int32.toInt32_toUInt32]

/-- The bytes of a message. -/
def frame (msg : Message) : Bytes :=
  ascii "i3-ipc".toList ++ int32Bytes (Int32.ofNat msg.payload.length) ++
    int32Bytes msg.message_type ++ msg.payload

/-! ## Sending and receiving -/

/-- The messages whose payload is sent. -/
def hasPayload (message_type : Int32) : Bool :=
  message_type = 0 || message_type = 2 || message_type = 10 || message_type = 11 || message_type = 6

/-- `i3ipc_message_send_try`; the payload is that of its size, an `int`, or the string for -1. -/
def messageSendTry (message_type : Int32) (payload : Bytes) : Call Unit := do
  assert (0 ≤ message_type && message_type < 12)
  initTry
  let name ← messageTypeToSocket message_type
  assert (hasPayload message_type || payload.length = 0)
  if ← getFlag Context.debug_do_not_write_messages then return
  match ← writeSocket name (frame ⟨message_type, payload⟩) with
  | .ok _ => return
  | .error .EOF => errorHandle .CLOSED
  | .error _ => errorHandle .IOERR

/-- What `i3ipc_message_receive_try` does if it cannot read. -/
def readFailed {α : Type} (code : ReadAllCode) : Call α := do
  let nodata ← getFlag Context.debug_nodata_is_error
  if code = .EOF then errorHandle .CLOSED
  else if code = .WOULDBLOCK && nodata then errorHandle .MALFORMED
  else errorHandle .IOERR

/-- The messages that match what is asked for. -/
def matchesType (message_type : Int32) (msg : Message) : Bool :=
  msg.message_type = message_type ||
    (message_type = EVENT_ANY && (msg.message_type = 2 || isEventType msg.message_type))

/-- The size of a header. -/
def headerSize : Nat := 14

/-- 256 MiB -/
def size_max : Nat := 256 * 1024 * 1024

/-- `i3ipc_message_receive_try`. -/
def messageReceiveTry (message_type : Int32) : Call Message := do
  initTry
  let name ← messageTypeToSocket message_type
  match ← readSocket name headerSize with
  | .error code => readFailed code
  | .ok header =>
    let message_length := int32OfBytes ((header.drop 6).take 4)
    if message_length < 0 then errorHandle .MALFORMED
    else if size_max < headerSize + message_length.toInt.toNat + 1 then errorHandle .MALFORMED
    else
      match ← readSocket name message_length.toInt.toNat with
      | .error code => readFailed code
      | .ok payload =>
        let msg : Message := ⟨int32OfBytes (header.drop 10), payload⟩
        if matchesType message_type msg then return msg else errorHandle .MALFORMED

/-- `i3ipc_message_try`. -/
def messageTry (message_type : Int32) (payload : Bytes) : Call Message := do
  messageSendTry message_type payload
  messageReceiveTry message_type

section Lemmas

variable {context : Context} {name : SocketName} {socket socket' : Socket}

@[simp] theorem Context.socket_setSocket :
    (context.setSocket name socket).socket name = socket := by
  cases name <;> rfl

@[simp] theorem Context.setSocket_setSocket :
    (context.setSocket name socket).setSocket name socket' = context.setSocket name socket' := by
  cases name <;> rfl

@[simp] theorem Context.setSocket_state : (context.setSocket name socket).state = context.state := by
  cases name <;> rfl

theorem initTry_ready (h : context.state = .READY) : initTry context = .ok (.ok (), context) := by
  rw [initTry, h]

/-- What has arrived is read. -/
theorem readSocket_bytes {bytes : Bytes} {events : List Event}
    (h : stream (context.socket name).arrivals = bytes.map .byte ++ events) :
    ∃ arrivals, stream arrivals = events ∧ readSocket name bytes.length context =
      .ok (.ok (.ok bytes), context.setSocket name { context.socket name with arrivals }) := by
  have hread := readAllTry_stream bytes.length (context.socket name).arrivals
  rw [h, readStream_bytes, Option.map_eq_some_iff] at hread
  obtain ⟨⟨r, arrivals⟩, hread, heq⟩ := hread
  cases heq
  exact ⟨arrivals, rfl, by rw [readSocket, hread]⟩

/-- The header of a message, and what is found in it. -/
theorem frame_eq (msg : Message) (hlen : msg.payload.length < 2 ^ 31) :
    ∃ header : Bytes, frame msg = header ++ msg.payload ∧ header.length = headerSize ∧
      (int32OfBytes ((header.drop 6).take 4)).toInt = msg.payload.length ∧
      int32OfBytes (header.drop 10) = msg.message_type := by
  have hmagic : (ascii "i3-ipc".toList).length = 6 := rfl
  have hsize (n : Int32) : (int32Bytes n).length = 4 := length_le 4 _
  refine ⟨ascii "i3-ipc".toList ++ int32Bytes (Int32.ofNat msg.payload.length) ++
    int32Bytes msg.message_type, rfl, ?_, ?_, ?_⟩
  · rw [List.length_append, List.length_append, hmagic, hsize, hsize, headerSize]
  · rw [List.append_assoc, List.drop_left' hmagic, List.take_left' (hsize _),
      int32OfBytes_int32Bytes, Int32.toInt_ofNat_of_lt hlen]
  · rw [List.drop_left' (by rw [List.length_append, hmagic, hsize]), int32OfBytes_int32Bytes]

/-- **A message that arrives is received**, if it is asked for, and nothing behind it is read. If
another type is asked for, it is taken off the socket as well, and the call fails. The header is
read first, and tells how many bytes of payload there are to read. -/
theorem messageReceiveTry_frame {message_type : Int32} (hstate : context.state = .READY)
    (hname : messageTypeToSocket message_type = pure name) {msg : Message}
    (hsize : headerSize + msg.payload.length + 1 ≤ size_max) {events : List Event}
    (h : stream (context.socket name).arrivals = (frame msg).map .byte ++ events) :
    ∃ arrivals, stream arrivals = events ∧ messageReceiveTry message_type context =
      (if matchesType message_type msg then pure msg else errorHandle .MALFORMED)
        (context.setSocket name { context.socket name with arrivals }) := by
  have hlen : msg.payload.length < 2 ^ 31 := by
    rw [headerSize, size_max] at hsize
    omega
  obtain ⟨header, hframe, hheader, hlength, htype⟩ := frame_eq msg hlen
  rw [hframe, List.map_append, List.append_assoc] at h
  obtain ⟨arrivals₁, harrivals₁, hread₁⟩ := readSocket_bytes h
  rw [hheader] at hread₁
  have hpayload : stream ((context.setSocket name
      { context.socket name with arrivals := arrivals₁ }).socket name).arrivals =
        msg.payload.map .byte ++ events := by
    rw [Context.socket_setSocket]
    exact harrivals₁
  obtain ⟨arrivals, harrivals, hread⟩ := readSocket_bytes hpayload
  rw [Context.setSocket_setSocket, Context.socket_setSocket] at hread
  refine ⟨arrivals, harrivals, ?_⟩
  have hpos : ¬ int32OfBytes ((header.drop 6).take 4) < 0 := by
    rw [Int32.lt_iff_toInt_lt, hlength]
    exact not_lt.mpr (Int.natCast_nonneg _)
  rw [messageReceiveTry, Call.bind_of_ok (initTry_ready hstate), hname,
    Call.bind_of_ok (show (pure name : Call SocketName) context = .ok (.ok name, context) from rfl),
    Call.bind_of_ok hread₁]
  dsimp only
  rw [hlength, Int.toNat_natCast, if_neg hpos, if_neg (not_lt.mpr hsize), Call.bind_of_ok hread]
  dsimp only
  rw [htype]

theorem assert_eq_ok {p : Bool} {r : Except ErrorCode Unit × Context} (h : assert p context = .ok r) :
    p = true ∧ r = (.ok (), context) := by
  rw [assert] at h
  split at h
  next hp => exact ⟨hp, (Except.ok.inj h).symm⟩
  next => cases h

theorem assert_true {p : Bool} (hp : p = true) : assert p context = .ok (.ok (), context) :=
  if_pos hp

theorem not_errorHandle_ok {α : Type} {code : ErrorCode} {a : α} {context' : Context} :
    errorHandle code context ≠ .ok (.ok a, context') := by
  rw [errorHandle]
  split <;> simp

/-- **What a message that has been sent has put on the wire.** -/
theorem messageSendTry_sent {message_type : Int32} {payload : Bytes} {context' : Context}
    (hstate : context.state = .READY) (hname : messageTypeToSocket message_type = pure name)
    (hdebug : context.debug_do_not_write_messages = false)
    (h : messageSendTry message_type payload context = .ok (.ok (), context')) :
    ∃ answers, context' = context.setSocket name
      { context.socket name with
        answers, sent := (context.socket name).sent ++ frame ⟨message_type, payload⟩ } := by
  rw [messageSendTry] at h
  obtain ⟨_, -, hcode⟩ | ⟨_, _, hassert, h⟩ := Call.bind_eq_ok h
  · cases hcode
  cases (assert_eq_ok hassert).2
  rw [Call.bind_of_ok (initTry_ready hstate), hname,
    Call.bind_of_ok (show (pure name : Call SocketName) context = .ok (.ok name, context) from rfl)]
    at h
  obtain ⟨_, -, hcode⟩ | ⟨_, _, hassert, h⟩ := Call.bind_eq_ok h
  · cases hcode
  cases (assert_eq_ok hassert).2
  rw [Call.bind_of_ok (show getFlag Context.debug_do_not_write_messages context =
    .ok (.ok false, context) by rw [getFlag, hdebug]), if_neg (by simp)] at h
  obtain ⟨_, -, hcode⟩ | ⟨r, _, hwrite, h⟩ := Call.bind_eq_ok h
  · cases hcode
  rw [writeSocket] at hwrite
  cases hall : writeAllTry (context.socket name).answers (frame ⟨message_type, payload⟩) with
  | none =>
    rw [hall] at hwrite
    cases hwrite
  | some r' =>
    obtain ⟨r', written, answers⟩ := r'
    rw [hall] at hwrite
    cases hwrite
    cases r with
    | error code => cases code <;> exact absurd h not_errorHandle_ok
    | ok _ =>
      cases h
      exact ⟨answers, by rw [(writeAllTry_written hall).2.mp rfl]⟩

/-- A message that can be written is sent. -/
theorem messageSendTry_eq {message_type : Int32} {payload : Bytes} {answers : List WriteAnswer}
    (hrange : (0 ≤ message_type && message_type < 12) = true) (hstate : context.state = .READY)
    (hname : messageTypeToSocket message_type = pure name)
    (hpayload : (hasPayload message_type || payload.length = 0) = true)
    (hdebug : context.debug_do_not_write_messages = false)
    (hwrite : writeAllTry (context.socket name).answers (frame ⟨message_type, payload⟩) =
      some (.ok (), frame ⟨message_type, payload⟩, answers)) :
    messageSendTry message_type payload context = .ok (.ok (), context.setSocket name
      { context.socket name with
        answers, sent := (context.socket name).sent ++ frame ⟨message_type, payload⟩ }) := by
  have hrun : writeSocket name (frame ⟨message_type, payload⟩) context =
      .ok (.ok (.ok ()), context.setSocket name { context.socket name with
        answers, sent := (context.socket name).sent ++ frame ⟨message_type, payload⟩ }) := by
    rw [writeSocket, hwrite]
  rw [messageSendTry, Call.bind_of_ok (assert_true hrange), Call.bind_of_ok (initTry_ready hstate),
    hname,
    Call.bind_of_ok (show (pure name : Call SocketName) context = .ok (.ok name, context) from rfl),
    Call.bind_of_ok (assert_true hpayload),
    Call.bind_of_ok (show getFlag Context.debug_do_not_write_messages context =
      .ok (.ok false, context) by rw [getFlag, hdebug]), if_neg (by simp), Call.bind_of_ok hrun]
  rfl

end Lemmas

/-! ## Many messages -/

/-- A client that sends messages one after another. -/
def sendAll : List Message → Call Unit
  | [] => pure ()
  | msg :: msgs => do
    messageSendTry msg.message_type msg.payload
    sendAll msgs

/-- A client that receives messages of given types one after another. -/
def receiveAll : List Int32 → Call (List Message)
  | [] => pure []
  | message_type :: types => do
    let msg ← messageReceiveTry message_type
    return msg :: (← receiveAll types)

section ManyMessages

variable {name : SocketName}

theorem sendAll_sent : ∀ {msgs : List Message} {context context' : Context},
    context.state = .READY → context.debug_do_not_write_messages = false →
    (∀ msg ∈ msgs, messageTypeToSocket msg.message_type = pure name) →
    sendAll msgs context = .ok (.ok (), context') →
      (context'.socket name).sent = (context.socket name).sent ++ msgs.flatMap frame := by
  intro msgs
  induction msgs with
  | nil =>
    intro context context' _ _ _ h
    cases h
    exact (List.append_nil _).symm
  | cons msg msgs ih =>
    intro context context' hstate hdebug hnames h
    obtain ⟨_, -, hcode⟩ | ⟨_, context₁, hsend, h⟩ := Call.bind_eq_ok h
    · cases hcode
    obtain ⟨answers, rfl⟩ :=
      messageSendTry_sent hstate (hnames msg List.mem_cons_self) hdebug hsend
    have hdebug' : (context.setSocket name { context.socket name with
        answers, sent := (context.socket name).sent ++ frame msg }).debug_do_not_write_messages =
          false := by
      cases name <;> exact hdebug
    rw [ih (by rw [Context.setSocket_state]; exact hstate) hdebug'
      (fun msg hmsg => hnames msg (List.mem_cons_of_mem _ hmsg)) h, Context.socket_setSocket,
      List.append_assoc, List.flatMap_cons]

theorem receiveAll_frames : ∀ {msgs : List Message} {context : Context} {events : List Event},
    context.state = .READY →
    (∀ msg ∈ msgs, messageTypeToSocket msg.message_type = pure name ∧
      headerSize + msg.payload.length + 1 ≤ size_max) →
    stream (context.socket name).arrivals = (msgs.flatMap frame).map .byte ++ events →
      ∃ arrivals, stream arrivals = events ∧ receiveAll (msgs.map (·.message_type)) context =
        .ok (.ok msgs, context.setSocket name { context.socket name with arrivals }) := by
  intro msgs
  induction msgs with
  | nil =>
    intro context events _ _ h
    refine ⟨(context.socket name).arrivals, h, ?_⟩
    cases name <;> rfl
  | cons msg msgs ih =>
    intro context events hstate hall h
    obtain ⟨hname, hsize⟩ := hall msg List.mem_cons_self
    rw [List.flatMap_cons, List.map_append, List.append_assoc] at h
    obtain ⟨arrivals₁, harrivals₁, hreceive⟩ := messageReceiveTry_frame hstate hname hsize h
    rw [if_pos (by rw [matchesType, decide_eq_true rfl, Bool.true_or])] at hreceive
    have hstate₁ : (context.setSocket name
        { context.socket name with arrivals := arrivals₁ }).state = .READY := by
      rw [Context.setSocket_state, hstate]
    obtain ⟨arrivals, harrivals, hreceiveAll⟩ :=
      ih hstate₁ (fun msg hmsg => hall msg (List.mem_cons_of_mem _ hmsg))
        (by rw [Context.socket_setSocket]; exact harrivals₁)
    rw [Context.setSocket_setSocket, Context.socket_setSocket] at hreceiveAll
    refine ⟨arrivals, harrivals, ?_⟩
    rw [List.map_cons, receiveAll, Call.bind_of_ok hreceive, Call.bind_of_ok hreceiveAll]
    rfl

/-- **From one end to the other**: if messages have been sent one after another, however many bytes
each `write` took, then the other end receives exactly these messages, in their order, however many
bytes each `read` gives, and nothing behind them. -/
theorem receiveAll_sendAll {msgs : List Message} {context context' peer : Context}
    (hstate : context.state = .READY) (hdebug : context.debug_do_not_write_messages = false)
    (hsent : (context.socket name).sent = [])
    (hmsgs : ∀ msg ∈ msgs, messageTypeToSocket msg.message_type = pure name ∧
      headerSize + msg.payload.length + 1 ≤ size_max)
    (hsend : sendAll msgs context = .ok (.ok (), context')) (hpeer : peer.state = .READY)
    {events : List Event}
    (hwire : stream (peer.socket name).arrivals =
      (context'.socket name).sent.map .byte ++ events) :
    ∃ arrivals, stream arrivals = events ∧ receiveAll (msgs.map (·.message_type)) peer =
      .ok (.ok msgs, peer.setSocket name { peer.socket name with arrivals }) := by
  rw [sendAll_sent hstate hdebug (fun msg hmsg => (hmsgs msg hmsg).1) hsend, hsent,
    List.nil_append] at hwire
  exact receiveAll_frames hpeer hmsgs hwire

/-- A library that is ready, with the socket of messages. -/
def Context.ready (sock : Socket) : Context :=
  { state := .READY, sock, sock_events := ⟨[], [], []⟩, nopanic := false, staticalloc := false,
    debug_do_not_write_messages := false, debug_nodata_is_error := false, reorder := [],
    connections := [] }

/-- A command and a request for workspaces, written and read in pieces. -/
theorem receiveAll_sendAll_commands :
    let msgs : List Message := [⟨0, [101, 120, 105, 116]⟩, ⟨1, []⟩]
    let wire := msgs.flatMap frame
    let peer := Context.ready
      ⟨[.data 105 ((wire.drop 1).take 6), .data 0 (wire.drop 8), .eof], [], []⟩
    ∃ arrivals, stream arrivals = [.eof] ∧ receiveAll [0, 1] peer =
      .ok (.ok msgs, peer.setSocket .sock { peer.socket .sock with arrivals }) := by
  intro msgs wire peer
  have hmsgs : ∀ msg ∈ msgs, messageTypeToSocket msg.message_type = pure .sock ∧
      headerSize + msg.payload.length + 1 ≤ size_max := by
    simp only [msgs, List.forall_mem_cons]
    exact ⟨⟨rfl, by decide⟩, ⟨rfl, by decide⟩, by simp⟩
  have hsend : sendAll msgs (.ready ⟨[], [.accept 3, .accept 99, .accept 9, .accept 9], []⟩) =
      .ok (.ok (), .ready ⟨[], [], wire⟩) := by decide +kernel
  have hwire : stream (peer.socket .sock).arrivals = wire.map .byte ++ [.eof] := by decide +kernel
  exact receiveAll_sendAll rfl rfl rfl hmsgs hsend rfl hwire

end ManyMessages

end I3ipc

end Photonbar
