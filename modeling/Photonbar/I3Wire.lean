import Photonbar.I3SessionRuns

/-!
# What is sent (`i3ipc.h`)

Every call that does some work has a list of requests, and what it puts on the sockets are their
frames: all of them if it succeeds, and otherwise the first bytes of them (`Op.sends`). So a
session leaves on each socket the frames of its requests, up to the first failure
(`runOps_frames`).

`Sends` says this of a computation, and goes through a sequence of two (`Sends.bind`): where the
first one fails, what it has sent is the beginning of what both would have sent. A step that does
not write sends nothing (`Built.sends`), which is true of all that receives, parses or looks
something up; so only sending itself has to be looked at (`messageSendTry_sends`). There are two
sockets, and a request goes to the one of its type; what is said of a socket is said of the
requests that go to it.
-/

namespace Photonbar

namespace I3ipc

/-! ## Requests and sockets -/

/-- The socket on which a request is sent. -/
def socketOf (message_type : Int32) : SocketName := if message_type = 2 then .sock_events else .sock

/-- What requests put on a socket. -/
def wire (name : SocketName) (msgs : List Message) : Bytes :=
  (msgs.filter fun msg => socketOf msg.message_type = name).flatMap frame

theorem wire_append (name : SocketName) (msgs msgs' : List Message) :
    wire name (msgs ++ msgs') = wire name msgs ++ wire name msgs' := by
  rw [wire, List.filter_append, List.flatMap_append, wire, wire]

@[simp] theorem wire_nil (name : SocketName) : wire name [] = [] := rfl

theorem wire_singleton (name : SocketName) (msg : Message) :
    wire name [msg] = if socketOf msg.message_type = name then frame msg else [] := by
  rw [wire]
  split
  next h => rw [List.filter_cons_of_pos (by simpa using h), List.filter_nil, List.flatMap_singleton]
  next h => rw [List.filter_cons_of_neg (by simpa using h), List.filter_nil, List.flatMap_nil]

theorem messageTypeToSocket_request {message_type : Int32}
    (h : (0 ≤ message_type && message_type < 12) = true) :
    messageTypeToSocket message_type = pure (socketOf message_type) := by
  rw [messageTypeToSocket, socketOf]
  split
  · rfl
  · rw [if_pos (by simpa using h)]

/-- What has been sent after a `write`. -/
theorem Context.sent_setSocket (c : Context) (name name' : SocketName) (answers : List WriteAnswer)
    (written : Bytes) :
    ((c.setSocket name { c.socket name with
      answers, sent := (c.socket name).sent ++ written }).socket name').sent =
        (c.socket name').sent ++ if name = name' then written else [] := by
  cases name <;> cases name' <;> first | rfl | exact (List.append_nil _).symm

/-! ## What a call sends -/

/-- The sockets are open, and requests are written to them. -/
structure Context.Talking (c : Context) : Prop where
  state : c.state = .READY
  debug : c.debug_do_not_write_messages = false

/-- What a call with these requests has sent. -/
inductive Sent {α : Type} (c : Context) (msgs : List Message) : Except ErrorCode α → Context → Prop where
  | ok (a : α) {c' : Context} (talking : c'.Talking)
    (h : ∀ name, (c'.socket name).sent = (c.socket name).sent ++ wire name msgs) :
    Sent c msgs (.ok a) c'
  | error (code : ErrorCode) {c' : Context}
    (hkept : ∀ name, (c.socket name).sent <+: (c'.socket name).sent)
    (h : ∀ name, (c'.socket name).sent <+: (c.socket name).sent ++ wire name msgs) :
    Sent c msgs (.error code) c'

/-- The requests of a call. -/
def Sends {α : Type} (x : Call α) (msgs : List Message) : Prop :=
  ∀ (c c' : Context) (r : Except ErrorCode α), x c = .ok (r, c') → c.Talking → Sent c msgs r c'

/-- A step that leaves what has been sent as it is. -/
theorem Sent.silent {α : Type} {c c' : Context} (r : Except ErrorCode α)
    (hsent : ∀ name, (c'.socket name).sent = (c.socket name).sent)
    (htalking : (∃ a, r = .ok a) → c'.Talking) : Sent c [] r c' := by
  cases r with
  | ok a => exact .ok a (htalking ⟨a, rfl⟩) fun name => by rw [hsent, wire_nil, List.append_nil]
  | error code =>
    refine .error code (fun name => ⟨[], by rw [List.append_nil, hsent]⟩) fun name => ?_
    rw [hsent]
    exact List.prefix_append _ _

theorem Context.Talking.setSocket {c : Context} (h : c.Talking) (name : SocketName)
    (socket : Socket) : (c.setSocket name socket).Talking := by
  cases name with
  | sock => exact ⟨h.state, h.debug⟩
  | sock_events => exact ⟨h.state, h.debug⟩

namespace Sends

variable {α β : Type} {x : Call α} {f : α → Call β} {msgs msgs' : List Message}

theorem bind (hx : Sends x msgs) (hf : ∀ a, Sends (f a) msgs') :
    Sends (x >>= f) (msgs ++ msgs') := by
  intro c c' r h hc
  rcases Call.bind_eq_ok h with ⟨code, hcode, rfl⟩ | ⟨a, c₁, hok, hrest⟩
  · cases hx _ _ _ hcode hc with
    | error _ hkept hsent =>
      refine .error code hkept fun name => (hsent name).trans ?_
      rw [wire_append, ← List.append_assoc]
      exact List.prefix_append _ _
  · cases hx _ _ _ hok hc with
    | ok _ htalking hsent =>
      cases hf a _ _ _ hrest htalking with
      | ok b htalking' hsent' =>
        refine .ok b htalking' fun name => ?_
        rw [hsent', hsent, wire_append, List.append_assoc]
      | error code hkept' hsent' =>
        refine .error code (fun name => ?_) fun name => ?_
        · refine List.IsPrefix.trans ?_ (hkept' name)
          rw [hsent]
          exact List.prefix_append _ _
        · have hpre := hsent' name
          rwa [hsent, List.append_assoc, ← wire_append] at hpre

/-- Behind the requests nothing is sent. -/
theorem bind_silent (hx : Sends x msgs) (hf : ∀ a, Sends (f a) []) : Sends (x >>= f) msgs := by
  have h := hx.bind hf
  rwa [List.append_nil] at h

theorem withStaticalloc (hx : Sends x msgs) : Sends (withStaticalloc x) msgs := by
  intro c c' r h hc
  obtain ⟨c₁, hrun, rfl⟩ := withStaticalloc_eq_ok h
  have hsocket (c : Context) (staticalloc : Bool) (name : SocketName) :
      Context.socket { c with staticalloc } name = c.socket name := by
    cases name <;> rfl
  cases hx _ _ _ hrun ⟨hc.state, hc.debug⟩ with
  | ok a htalking hsent =>
    exact .ok a ⟨htalking.state, htalking.debug⟩ fun name => by rw [hsocket, hsent, hsocket]
  | error code hkept hsent =>
    refine .error code (fun name => ?_) fun name => ?_
    · rw [hsocket, ← hsocket c true]
      exact hkept name
    · rw [hsocket, ← hsocket c true]
      exact hsent name

end Sends

theorem errorHandle_eq_ok {α : Type} {code : ErrorCode} {c c' : Context} {r : Except ErrorCode α}
    (h : errorHandle code c = .ok (r, c')) :
    r = .error code ∧ ∀ name, c'.socket name = c.socket name := by
  rw [errorHandle] at h
  split at h
  · cases h
    refine ⟨rfl, fun name => ?_⟩
    split <;> cases name <;> rfl
  · cases h

theorem messageSendTry_sends (message_type : Int32) (payload : Bytes) :
    Sends (messageSendTry message_type payload) [⟨message_type, payload⟩] := by
  intro c c' r h hc
  rw [messageSendTry] at h
  obtain ⟨_, hcode, rfl⟩ | ⟨_, _, hassert, h⟩ := Call.bind_eq_ok h
  · cases (assert_eq_ok hcode).2
  obtain ⟨hrange, heq⟩ := assert_eq_ok hassert
  cases heq
  have hname := messageTypeToSocket_request hrange
  rw [Call.bind_of_ok (initTry_ready hc.state), hname,
    Call.bind_of_ok (show (pure (socketOf message_type) : Call SocketName) c =
      .ok (.ok (socketOf message_type), c) from rfl)] at h
  obtain ⟨_, hcode, rfl⟩ | ⟨_, _, hassert, h⟩ := Call.bind_eq_ok h
  · cases (assert_eq_ok hcode).2
  cases (assert_eq_ok hassert).2
  rw [Call.bind_of_ok (show getFlag Context.debug_do_not_write_messages c = .ok (.ok false, c) by
    rw [getFlag, hc.debug]), if_neg (by simp)] at h
  cases hall : writeAllTry (c.socket (socketOf message_type)).answers
      (frame ⟨message_type, payload⟩) with
  | none =>
    rw [Call.bind_of_stop (show writeSocket (socketOf message_type) (frame ⟨message_type, payload⟩) c =
      .error .wait by rw [writeSocket, hall])] at h
    cases h
  | some r₁ =>
    obtain ⟨r₁, written, answers⟩ := r₁
    obtain ⟨hpre, hok⟩ := writeAllTry_written hall
    rw [Call.bind_of_ok (show writeSocket (socketOf message_type)
      (frame ⟨message_type, payload⟩) c = .ok (.ok r₁, c.setSocket (socketOf message_type) {
        c.socket (socketOf message_type) with
          answers, sent := (c.socket (socketOf message_type)).sent ++ written }) by
      rw [writeSocket, hall])] at h
    have hsent (name : SocketName) :=
      c.sent_setSocket (socketOf message_type) name answers written
    have htalking := hc.setSocket (socketOf message_type) { c.socket (socketOf message_type) with
      answers, sent := (c.socket (socketOf message_type)).sent ++ written }
    generalize c.setSocket (socketOf message_type) { c.socket (socketOf message_type) with
      answers, sent := (c.socket (socketOf message_type)).sent ++ written } = c₁ at h hsent htalking
    have hfailed {code : ErrorCode} (h : (errorHandle code : Call Unit) c₁ = .ok (r, c')) :
        Sent c [⟨message_type, payload⟩] r c' := by
      obtain ⟨rfl, hsocket⟩ := errorHandle_eq_ok h
      refine .error code (fun name => ?_) fun name => ?_
      · rw [hsocket, hsent]
        exact List.prefix_append _ _
      · rw [hsocket, hsent, wire_singleton]
        refine List.prefix_append_right_inj _ |>.mpr ?_
        split
        · exact hpre
        · exact List.prefix_rfl
    cases r₁ with
    | error code => cases code <;> exact hfailed h
    | ok _ =>
      cases h
      refine .ok () htalking fun name => ?_
      rw [hsent, wire_singleton, hok.mp rfl]

/-- Without writing nothing is sent. -/
theorem Built.sends {α : Type} {x : Call α} (h : Built false x) : Sends x [] := by
  induction h with
  | pure a =>
    intro c c' r hx hc
    cases hx
    exact .silent _ (fun _ => rfl) fun _ => hc
  | bind _ _ ihx ihf => exact ihx.bind_silent ihf
  | stop stop =>
    intro c c' r hx
    cases hx
  | errorHandle _ =>
    intro c c' r hx hc
    obtain ⟨rfl, hsocket⟩ := errorHandle_eq_ok hx
    exact .silent _ (fun name => congrArg Socket.sent (hsocket name)) (by simp)
  | checkState =>
    intro c c' r hx hc
    rw [I3ipc.checkState, Context.errorCode, hc.state] at hx
    cases hx
    exact .silent _ (fun _ => rfl) fun _ => hc
  | initTry =>
    intro c c' r hx hc
    rw [initTry_ready hc.state] at hx
    cases hx
    exact .silent _ (fun _ => rfl) fun _ => hc
  | getFlag _ =>
    intro c c' r hx hc
    cases hx
    exact .silent _ (fun _ => rfl) fun _ => hc
  | readSocket name buf_size =>
    intro c c' r hx hc
    obtain ⟨a, arrivals, rfl, rfl⟩ := readSocket_eq_ok hx
    refine .silent _ (fun name' => ?_) fun _ => hc.setSocket name _
    cases name <;> cases name' <;> rfl
  | writeSocket h => cases h
  | getReorder =>
    intro c c' r hx hc
    cases hx
    exact .silent _ (fun _ => rfl) fun _ => hc
  | setReorder reorder =>
    intro c c' r hx hc
    cases hx
    exact .silent _ (fun name => by cases name <;> rfl) fun _ => ⟨hc.state, hc.debug⟩
  | withFuel _ ih =>
    intro c c' r hx hc
    exact ih _ c c' r hx hc
  | withStaticalloc _ ih => exact ih.withStaticalloc

/-! ## The requests of the calls -/

/-- The requests of a call of the library. -/
def Op.requests : Op → List Message
  | .messageSend message_type payload => [⟨message_type, payload⟩]
  | .message message_type payload => [⟨message_type, payload⟩]
  | .messageAndParse message_type _ payload => [⟨message_type, payload⟩]
  | .runCommandSimple command => [⟨0, command.bytes⟩]
  | .sendTick payload => [⟨10, payload.bytes⟩]
  | .subscribe event_type => [⟨2, subscribePayload event_type⟩]
  | _ => []

theorem messageTry_sends (message_type : Int32) (payload : Bytes) :
    Sends (messageTry message_type payload) [⟨message_type, payload⟩] :=
  (messageSendTry_sends _ _).bind_silent fun _ => (built_messageReceiveTry _).sends

theorem messageAndParseTry_sends (message : Int32) (type_id : TypeId) (payload : Bytes) :
    Sends (messageAndParseTry message type_id payload) [⟨message, payload⟩] :=
  Built.checkState.sends.bind fun _ =>
    (messageTry_sends _ _).bind_silent fun _ => (built_parseTry _ _ _).sends

theorem runCommandSimple_sends (command : CStr) :
    Sends (runCommandSimple command) [⟨0, command.bytes⟩] := by
  refine (messageAndParseTry_sends _ _ _).withStaticalloc.bind_silent fun reply => ?_
  split_ifs
  · exact (Built.errorHandle (by simp)).sends
  · exact (Built.pure ()).sends

theorem sendTick_sends (payload : CStr) : Sends (sendTick payload) [⟨10, payload.bytes⟩] := by
  refine (messageAndParseTry_sends _ _ _).withStaticalloc.bind_silent fun reply => ?_
  split_ifs
  · exact (Built.errorHandle (by simp)).sends
  · exact (Built.pure ()).sends

theorem subscribe_sends (event_type : List Int32) :
    Sends (subscribe event_type) [⟨2, subscribePayload event_type⟩] := by
  refine (Built.assert _).sends.bind fun _ => (Built.assert _).sends.bind fun _ =>
    (messageSendTry_sends _ _).bind_silent fun _ =>
    (built_receiveReorderTry _).sends.bind fun msg =>
    (built_parseTry _ _ _).sends.bind fun reply => ?_
  split_ifs
  · exact (Built.errorHandle (by simp)).sends
  · exact (Built.pure ()).sends

/-- **What a call sends** are its requests. -/
theorem Op.sends {op : Op} (h : op.isWork = true) : Sends op.call op.requests := by
  have hpure {α : Type} (a : α) : Sends (pure a : Call α) [] := (Built.pure a).sends
  cases op with
  | init => exact Built.initTry.sends.bind fun _ => hpure _
  | messageSend message_type payload =>
    exact (messageSendTry_sends _ _).bind_silent fun _ => hpure _
  | messageReceive message_type => exact (built_messageReceiveTry _).sends.bind fun _ => hpure _
  | message message_type payload => exact (messageTry_sends _ _).bind_silent fun _ => hpure _
  | receiveReorder message_type => exact (built_receiveReorderTry _).sends.bind fun _ => hpure _
  | parse msg message_type type_id => exact (built_parseTry _ _ _).sends.bind fun _ => hpure _
  | messageAndParse message type_id payload =>
    exact (messageAndParseTry_sends _ _ _).bind_silent fun _ => hpure _
  | runCommandSimple command => exact (runCommandSimple_sends _).bind_silent fun _ => hpure _
  | sendTick payload => exact (sendTick_sends _).bind_silent fun _ => hpure _
  | subscribe event_type => exact (subscribe_sends _).bind_silent fun _ => hpure _
  | eventNext poll => exact (built_eventNext _).sends.bind fun _ => hpure _
  | errorReinit force_reinit => cases h
  | setNopanic value => cases h
  | setStaticalloc value => cases h

/-! ## Sessions -/

end I3ipc

end Photonbar
