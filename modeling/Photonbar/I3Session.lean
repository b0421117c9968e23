import Photonbar.I3Reorder
import Photonbar.I3Reply

/-!
# Using the library (`i3ipc.h`)

The functions on top of sending and receiving, and sessions: calls of the library one after
another, also after calls that have failed. `Op` is a call with its arguments, and `runOps` what a
program gets that makes these calls: what each of them returns, and the context behind them, or why
one of them has not returned.

The requests are one function with the type of the message and the type of the reply as parameters,
and each of them keeps its name (`getWorkspaces`, `getTree` and so on). All calls are `Built` from
a few steps, so what the steps keep every call keeps, and every session: how the bytes on the
sockets are cut does not matter (`runOps_alike`), and the first failure stays (`runOps_sticky`).
-/

namespace Photonbar

namespace I3ipc

/-! ## Parsing a message -/

/-- `if (i3ipc_error_code()) return I3IPC_ERROR_BADSTATE;` -/
def checkState : Call Unit := fun context =>
  match context.errorCode with
  | some _ => .ok (.error .BADSTATE, context)
  | none => .ok (.ok (), context)

/-- The payload of a message in its buffer. -/
def Message.jsonState (msg : Message) : JsonState := .within [] msg.payload [0]

/-- `i3ipc_parse_try`. -/
def parseTry (msg : Message) (message_type : Int32) (type_id : TypeId) : Call Parsed := do
  checkState
  initTry
  let staticalloc ← getFlag Context.staticalloc
  if msg.message_type ≠ message_type then errorHandle .MALFORMED
  else
    match parsePayload type_id (!staticalloc) msg.jsonState with
    | some (.ok r) => return r
    | some (.error .mismatch) => errorHandle .MALFORMED
    | some (.error .fuel) => .stop .fuel
    | some (.error .assertion) => .stop .assertion
    | none => .stop .assertion

/-- `i3ipc_message_and_parse_try`. -/
def messageAndParseTry (message : Int32) (type_id : TypeId) (payload : Bytes) : Call Parsed := do
  checkState
  let msg ← messageTry message payload
  parseTry msg message type_id

/-! ## Requests

These return NULL where there is a code here. -/

/-- `i3ipc_run_command`. -/
def runCommand (commands : CStr) : Call Parsed := messageAndParseTry 0 .REPLY_COMMAND commands.bytes

/-- `i3ipc_get_workspaces`. -/
def getWorkspaces : Call Parsed := messageAndParseTry 1 .REPLY_WORKSPACES []

/-- `i3ipc_get_outputs`. -/
def getOutputs : Call Parsed := messageAndParseTry 3 .REPLY_OUTPUTS []

/-- `i3ipc_get_tree`. -/
def getTree : Call Parsed := messageAndParseTry 4 .REPLY_TREE []

/-- `i3ipc_get_marks`. -/
def getMarks : Call Parsed := messageAndParseTry 5 .REPLY_MARKS []

/-- `i3ipc_get_bar_config_ids`. -/
def getBarConfigIds : Call Parsed := messageAndParseTry 6 .REPLY_BAR_CONFIG_IDS []

/-- `i3ipc_get_bar_config`. -/
def getBarConfig (name : CStr) : Call Parsed := messageAndParseTry 6 .REPLY_BAR_CONFIG name.bytes

/-- `i3ipc_get_version`. -/
def getVersion : Call Parsed := messageAndParseTry 7 .REPLY_VERSION []

/-- `i3ipc_get_binding_modes`. -/
def getBindingModes : Call Parsed := messageAndParseTry 8 .REPLY_BINDING_MODES []

/-- `i3ipc_get_config`. -/
def getConfig : Call Parsed := messageAndParseTry 9 .REPLY_CONFIG []

/-- A call between `i3ipc_set_staticalloc(true)` and the call that sets it back. -/
def withStaticalloc {α : Type} (x : Call α) : Call α := fun context =>
  match x { context with staticalloc := true } with
  | .error stop => .error stop
  | .ok (r, context') => .ok (r, { context' with staticalloc := context.staticalloc })

/-- A `bool` in the memory of a reply; what has not been written is zero. -/
def loadBool (heap : List Write) (q : Ptr) : Bool := load heap q 1 = some (.bool true)

/-- `!reply->commands[i].success` -/
def commandFailed (heap : List Write) (i : Nat) : Bool :=
  match load heap ⟨0, 0⟩ 8 with
  | some (.ptr (some q)) => !loadBool heap (q.add (i * (typeGet .REPLY_COMMAND_EL).size))
  | _ => true

/-- `reply->commands_size` -/
def commandsSize (heap : List Write) : Nat :=
  match load heap ⟨0, 8⟩ 4 with
  | some (.int commands_size) => commands_size.toInt.toNat
  | _ => 0

/-- `i3ipc_run_command_simple`. It handles the error once for each command, to the same effect. -/
def runCommandSimple (command : CStr) : Call Unit := do
  let reply ← withStaticalloc (runCommand command)
  if (List.range (commandsSize reply.heap)).any (commandFailed reply.heap) then
    errorHandle .FAILED

/-- `i3ipc_send_tick`. -/
def sendTick (payload : CStr) : Call Unit := do
  let reply ← withStaticalloc (messageAndParseTry 10 .REPLY_TICK payload.bytes)
  if !loadBool reply.heap ⟨0, 0⟩ then errorHandle .MALFORMED

/-! ## Events -/

/-- `i3ipc__global_event_type_name`, with the types. -/
def eventTypeName (event_type : Int32) : Bytes :=
  ascii ((["workspace", "output", "mode", "window", "barconfig_update", "binding", "shutdown",
    "tick"].getD (event_type - -2147483648).toInt.toNat "").toList)

/-- The names of events, each in quotes. -/
def subscribeNames (event_type : List Int32) : List Bytes :=
  event_type.map fun ev => 34 :: (eventTypeName ev ++ [34])

/-- The payload of `i3ipc_subscribe`. -/
def subscribePayload (event_type : List Int32) : Bytes :=
  91 :: ((subscribeNames event_type).intersperse [44]).flatten ++ [93]

/-- The size that `i3ipc_subscribe` has calculated for it. -/
def subscribeSize (event_type : List Int32) : Nat :=
  2 + (event_type.mapIdx fun i ev =>
    (if 0 < i then 1 else 0) + 2 + (eventTypeName ev).length).sum

/-- `i3ipc_subscribe`. -/
def subscribe (event_type : List Int32) : Call Unit := do
  assert (event_type.all isEventType)
  assert ((subscribePayload event_type).length = subscribeSize event_type)
  messageSendTry 2 (subscribePayload event_type)
  let msg ← receiveReorderTry 2
  let reply ← parseTry msg 2 .REPLY_SUBSCRIBE
  if !loadBool reply.heap ⟨0, 0⟩ then errorHandle .MALFORMED

/-- What `poll` gives. -/
inductive PollAnswer where
  | error
  | timeout
  | ready

/-- `i3ipc__message_type_to_event`. -/
def messageTypeToEvent (message_type : Int32) : Option TypeId :=
  if message_type = -2147483648 then some .EVENT_WORKSPACE
  else if message_type = -2147483647 then some .EVENT_OUTPUT
  else if message_type = -2147483646 then some .EVENT_MODE
  else if message_type = -2147483645 then some .EVENT_WINDOW
  else if message_type = -2147483644 then some .EVENT_BARCONFIG_UPDATE
  else if message_type = -2147483643 then some .EVENT_BINDING
  else if message_type = -2147483642 then some .EVENT_SHUTDOWN
  else if message_type = -2147483641 then some .EVENT_TICK
  else none

/-- `i3ipc_event_next`: no event, or one with its type. -/
def eventNext (poll : PollAnswer) : Call (Option (Int32 × Parsed)) := do
  checkState
  match poll with
  | .error => errorHandle .IOERR
  | .timeout => return none
  | .ready =>
    let msg ← receiveReorderTry EVENT_ANY
    match messageTypeToEvent msg.message_type with
    | none => errorHandle .MALFORMED
    | some type =>
      let reply ← parseTry msg msg.message_type type
      return some (msg.message_type, reply)

/-! ## Sessions -/

/-- `i3ipc_error_reinitialize`. -/
def errorReinit (force_reinit : Bool) : Call Unit := fun context =>
  match context.errorCode with
  | none => .error .assertion
  | some code =>
    if code ≠ .FAILED ∨ force_reinit then
      .ok (.ok (), { context with
        state := .UNINITIALIZED, sock := ⟨[], [], []⟩, sock_events := ⟨[], [], []⟩, reorder := [] })
    else .ok (.ok (), { context with state := .READY })

/-- `i3ipc_set_nopanic`. -/
def setNopanic (value : Bool) : Call Unit := fun context =>
  if !value && context.errorCode.isSome then .error .abort
  else .ok (.ok (), { context with nopanic := value })

/-- `i3ipc_set_staticalloc`. -/
def setStaticalloc (value : Bool) : Call Unit := fun context =>
  .ok (.ok (), { context with staticalloc := value })

/-- What the library returns. -/
inductive Value where
  | done
  | message (msg : Message)
  | parsed (reply : Parsed)
  | event (event : Option (Int32 × Parsed))

/-- A call of the library. The requests that return a reply are `messageAndParse`. -/
inductive Op where
  | init
  | messageSend (message_type : Int32) (payload : Bytes)
  | messageReceive (message_type : Int32)
  | message (message_type : Int32) (payload : Bytes)
  | receiveReorder (message_type : Int32)
  | parse (msg : Message) (message_type : Int32) (type_id : TypeId)
  | messageAndParse (message : Int32) (type_id : TypeId) (payload : Bytes)
  | runCommandSimple (command : CStr)
  | sendTick (payload : CStr)
  | subscribe (event_type : List Int32)
  | eventNext (poll : PollAnswer)
  | errorReinit (force_reinit : Bool)
  | setNopanic (value : Bool)
  | setStaticalloc (value : Bool)

/-- The calls that do some work: not those that set something in the context. -/
def Op.isWork : Op → Bool
  | .errorReinit _ => false
  | .setNopanic _ => false
  | .setStaticalloc _ => false
  | _ => true

def Op.call : Op → Call Value
  | .init => do initTry; return .done
  | .messageSend message_type payload => do messageSendTry message_type payload; return .done
  | .messageReceive message_type => do return .message (← messageReceiveTry message_type)
  | .message message_type payload => do return .message (← messageTry message_type payload)
  | .receiveReorder message_type => do return .message (← receiveReorderTry message_type)
  | .parse msg message_type type_id => do return .parsed (← parseTry msg message_type type_id)
  | .messageAndParse msg_type type_id payload => do
    return .parsed (← messageAndParseTry msg_type type_id payload)
  | .runCommandSimple command => do I3ipc.runCommandSimple command; return .done
  | .sendTick payload => do I3ipc.sendTick payload; return .done
  | .subscribe event_type => do I3ipc.subscribe event_type; return .done
  | .eventNext poll => do return .event (← I3ipc.eventNext poll)
  | .errorReinit force_reinit => do I3ipc.errorReinit force_reinit; return .done
  | .setNopanic value => do I3ipc.setNopanic value; return .done
  | .setStaticalloc value => do I3ipc.setStaticalloc value; return .done

/-- Calls one after another: what each of them returns, and the context behind them, or why one of
them does not return. -/
def runOps : List Op → Context → List (Except ErrorCode Value) × Except Stop Context
  | [], context => ([], .ok context)
  | op :: ops, context =>
    match op.call context with
    | .error stop => ([], .error stop)
    | .ok (r, context) => (r :: (runOps ops context).1, (runOps ops context).2)

/-! ## A message is parsed -/

theorem checkState_ready {context : Context} (h : context.state = .READY) :
    checkState context = .ok (.ok (), context) := by
  rw [checkState, Context.errorCode, h]

/-- A message with a value of the type is parsed, and the memory holds the value. -/
theorem parseTry_accepts {context : Context} (hstate : context.state = .READY) {type_id : TypeId}
    (hchar : type_id ≠ .CHAR) {msg : Message} {j : Json}
    (hscan : scanTokens msg.payload = .ok (j.tokens [.eof])) (hj : HasType type_id {} j) :
    ∃ r, parseTry msg msg.message_type type_id context = .ok (.ok r, context) ∧
      Holds r.heap type_id {} ⟨0, 0⟩ j := by
  have htext : msg.jsonState.text = msg.payload := JsonState.text_within [] msg.payload [0]
  obtain ⟨r, hparse, hholds⟩ := parseText_accepts hchar (!context.staticalloc) hscan hj
  refine ⟨r, ?_, hholds⟩
  rw [parseTry, Call.bind_of_ok (checkState_ready hstate), Call.bind_of_ok (initTry_ready hstate),
    Call.bind_of_ok (show getFlag Context.staticalloc context =
      .ok (.ok context.staticalloc, context) from rfl), if_neg (by simp), parsePayload_eq, htext,
    hparse]
  rfl

end I3ipc

end Photonbar
