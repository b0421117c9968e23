import Photonbar.I3Message
import Photonbar.Mailbox

/-!
# Receiving out of order (`i3ipc.h`)

On the socket of events there are also the answers to subscriptions.
`i3ipc_message_receive_reorder_try` receives until there is a message of the type that it wants,
and keeps the others in a queue, which it searches first the next time.

The queue and what arrives are one mailbox (`receiveReorderTry_mailbox`), so no message is lost or
received twice, and those of one type are received in their order (`receiveReorderAll_mailbox`).
The loop has an index into the queue: it passes over what is there and not wanted
(`reorderLoop_skip`), takes out what is wanted (`reorderLoop_queue`), and at the end of the queue
receives one more message, which it appends and looks at in the same way (`reorderLoop_new`).
`Pending` is the state between calls: what is in the queue, and the frames of what is still to
come.
-/

namespace Photonbar

namespace I3ipc

/-! ## The function -/

def getReorder : Call (List Message) := fun context => .ok (.ok context.reorder, context)

def setReorder (reorder : List Message) : Call Unit := fun context =>
  .ok (.ok (), { context with reorder })

/-- The messages that `i3ipc_message_receive_reorder_try` returns. -/
def wanted (message_type : Int32) (msg : Message) : Bool :=
  message_type = EVENT_ANY || msg.message_type = message_type

/-- The loop of `i3ipc_message_receive_reorder_try`, from the index `i` on. -/
def reorderLoop (message_type : Int32) : Nat → Nat → Call Message
  | 0, _ => .stop .fuel
  | n + 1, i => do
    let queue ← getReorder
    match queue[i]? with
    | some msg =>
      if wanted message_type msg then
        setReorder (queue.eraseIdx i)
        return msg
      else reorderLoop message_type n (i + 1)
    | none =>
      let msg ← messageReceiveTry EVENT_ANY
      if wanted message_type msg then return msg
      else
        assert (i = queue.length)
        setReorder (queue ++ [msg])
        reorderLoop message_type n (i + 1)

/-- Enough fuel for the queue and for what arrives: a message has at least one byte. -/
def Context.reorderFuel (context : Context) : Nat :=
  context.reorder.length + (stream context.sock_events.arrivals).length + 1

def withFuel {α : Type} (f : Nat → Call α) : Call α := fun context => f context.reorderFuel context

/-- `i3ipc_message_receive_reorder_try`. -/
def receiveReorderTry (message_type : Int32) : Call Message := do
  initTry
  withFuel fun n => reorderLoop message_type n 0

/-! ## The mailbox -/

/-- A message that is received on the socket of events. -/
def Receivable (msg : Message) : Prop :=
  matchesType EVENT_ANY msg = true ∧ headerSize + msg.payload.length + 1 ≤ size_max

/-- **The mailbox**: the messages of the queue, and behind them those that arrive before `rest`. -/
structure Pending (context : Context) (msgs : List Message) (rest : List Event) : Prop where
  state : context.state = .READY
  arrived : ∃ new, msgs = context.reorder ++ new ∧ (∀ msg ∈ new, Receivable msg) ∧
    stream context.sock_events.arrivals = (new.flatMap frame).map .byte ++ rest

theorem messageTypeToSocket_any : messageTypeToSocket EVENT_ANY = pure .sock_events := rfl

theorem length_frames (msgs : List Message) : msgs.length ≤ (msgs.flatMap frame).length := by
  induction msgs with
  | nil => exact le_rfl
  | cons msg msgs ih =>
    have hpos : 0 < (frame msg).length := Nat.succ_pos _
    rw [List.flatMap_cons, List.length_append, List.length_cons]
    omega

section Loop

variable (message_type : Int32) {context : Context} {msg : Message} {rest : List Event}

/-- The next message of the socket of events. -/
theorem receive_next {new : List Message} (hstate : context.state = .READY)
    (hmsg : Receivable msg) (h : stream context.sock_events.arrivals =
      ((msg :: new).flatMap frame).map .byte ++ rest) :
    ∃ arrivals, stream arrivals = (new.flatMap frame).map .byte ++ rest ∧
      messageReceiveTry EVENT_ANY context = .ok (.ok msg,
        { context with sock_events := { context.sock_events with arrivals } }) := by
  rw [List.flatMap_cons, List.map_append, List.append_assoc] at h
  obtain ⟨arrivals, harrivals, hreceive⟩ :=
    messageReceiveTry_frame hstate messageTypeToSocket_any hmsg.2 h
  exact ⟨arrivals, harrivals, by rw [hreceive, if_pos hmsg.1]; rfl⟩

/-- One pass over the queue that finds nothing. -/
theorem reorderLoop_skip {message_type : Int32} {n i : Nat} (hi : context.reorder[i]? = some msg)
    (hmsg : wanted message_type msg = false) :
    reorderLoop message_type (n + 1) i context = reorderLoop message_type n (i + 1) context := by
  rw [reorderLoop, Call.bind_of_ok (show getReorder context = .ok (.ok context.reorder, context)
    from rfl), hi]
  dsimp only
  rw [if_neg (by simp [hmsg])]

/-- One pass behind the end of the queue. -/
theorem reorderLoop_receive {n : Nat} {context' : Context}
    (h : messageReceiveTry EVENT_ANY context = .ok (.ok msg, context')) :
    reorderLoop message_type (n + 1) context.reorder.length context =
      if wanted message_type msg then .ok (.ok msg, context')
      else reorderLoop message_type n (context.reorder.length + 1)
        { context' with reorder := context.reorder ++ [msg] } := by
  rw [reorderLoop, Call.bind_of_ok (show getReorder context = .ok (.ok context.reorder, context)
    from rfl), List.getElem?_eq_none le_rfl]
  dsimp only
  rw [Call.bind_of_ok h]
  split
  next => rfl
  next =>
    rw [Call.bind_of_ok (show assert _ context' = .ok (.ok (), context') by
      rw [assert, if_pos (decide_eq_true rfl)])]
    rfl

/-- The search in the queue. -/
theorem reorderLoop_queue {n : Nat} : ∀ {i : Nat} (l : List Message), context.reorder.drop i = l →
    i ≤ context.reorder.length → l.length ≤ n →
    (Mailbox.take (wanted message_type) l = none →
      reorderLoop message_type n i context =
        reorderLoop message_type (n - l.length) context.reorder.length context) ∧
    ∀ msg l', Mailbox.take (wanted message_type) l = some (msg, l') →
      reorderLoop message_type n i context =
        .ok (.ok msg, { context with reorder := context.reorder.take i ++ l' }) := by
  induction n with
  | zero =>
    intro i l hl hi hn
    have hnil := List.length_eq_zero_iff.mp (Nat.le_zero.mp hn)
    subst hnil
    have hlen := List.drop_eq_nil_iff.mp hl
    rw [show i = context.reorder.length from Nat.le_antisymm hi hlen]
    exact ⟨fun _ => rfl, fun _ _ h => by cases h⟩
  | succ n ih =>
    intro i l hl hi hn
    cases l with
    | nil =>
      have hlen := List.drop_eq_nil_iff.mp hl
      rw [show i = context.reorder.length from Nat.le_antisymm hi hlen]
      exact ⟨fun _ => rfl, fun _ _ h => by cases h⟩
    | cons msg l =>
      have hget : context.reorder[i]? = some msg := by
        rw [← Nat.add_zero i, ← List.getElem?_drop, hl]
        rfl
      have hlt := (List.getElem?_eq_some_iff.mp hget).1
      have hrest : context.reorder.drop (i + 1) = l := by
        rw [← List.drop_drop, hl]
        rfl
      cases hmsg : wanted message_type msg with
      | true =>
        rw [Mailbox.take, if_pos hmsg]
        refine ⟨fun h => (by cases h), fun msg' l' h => ?_⟩
        cases h
        rw [reorderLoop, Call.bind_of_ok
          (show getReorder context = .ok (.ok context.reorder, context) from rfl), hget]
        dsimp only
        rw [if_pos hmsg, List.eraseIdx_eq_take_drop_succ, hrest]
        rfl
      | false =>
        obtain ⟨hnone, hsome⟩ := ih l hrest hlt (Nat.le_of_succ_le_succ hn)
        rw [Mailbox.take, if_neg (by simp [hmsg]), reorderLoop_skip hget hmsg]
        refine ⟨fun h => ?_, fun msg' l' h => ?_⟩
        · rw [List.length_cons, Nat.add_sub_add_right]
          exact hnone (Option.map_eq_none_iff.mp h)
        · obtain ⟨⟨msg'', l''⟩, htake, heq⟩ := Option.map_eq_some_iff.mp h
          cases heq
          have htake_succ : context.reorder.take (i + 1) = context.reorder.take i ++ [msg] := by
            rw [List.take_add_one, hget]
            rfl
          rw [hsome _ _ htake, htake_succ, List.append_assoc]
          rfl

/-- If nothing arrives, nothing is received. -/
theorem receive_wait (hstate : context.state = .READY)
    (h : stream context.sock_events.arrivals = []) :
    messageReceiveTry EVENT_ANY context = .error .wait := by
  have hread := readAllTry_stream headerSize context.sock_events.arrivals
  rw [h, show readStream headerSize [] = none from rfl, Option.map_eq_none_iff] at hread
  have hwait : readSocket .sock_events headerSize context = .error .wait := by
    rw [readSocket, show (context.socket .sock_events).arrivals = context.sock_events.arrivals
      from rfl, hread]
  rw [messageReceiveTry, Call.bind_of_ok (initTry_ready hstate), messageTypeToSocket_any,
    Call.bind_of_ok (show (pure SocketName.sock_events : Call SocketName) context =
      .ok (.ok .sock_events, context) from rfl), Call.bind_of_stop hwait]

/-- What arrives behind the queue. -/
theorem reorderLoop_new : ∀ {new : List Message} {n : Nat} {context : Context},
    new.length < n → context.state = .READY → (∀ msg ∈ new, Receivable msg) →
    stream context.sock_events.arrivals = (new.flatMap frame).map .byte ++ rest →
    (Mailbox.take (wanted message_type) new = none → rest = [] →
      reorderLoop message_type n context.reorder.length context = .error .wait) ∧
    ∀ msg new', Mailbox.take (wanted message_type) new = some (msg, new') →
      ∃ context', reorderLoop message_type n context.reorder.length context =
        .ok (.ok msg, context') ∧ Pending context' (context.reorder ++ new') rest := by
  intro new
  induction new with
  | nil =>
    intro n context hn hstate _ h
    refine ⟨fun _ hrest => ?_, fun _ _ htake => by cases htake⟩
    obtain ⟨n, rfl⟩ := Nat.exists_eq_succ_of_ne_zero (Nat.ne_zero_of_lt hn)
    have hwait := receive_wait hstate (h.trans hrest)
    rw [reorderLoop, Call.bind_of_ok (show getReorder context = .ok (.ok context.reorder, context)
      from rfl), List.getElem?_eq_none le_rfl]
    exact Call.bind_of_stop hwait
  | cons msg new ih =>
    intro n context hn hstate hnew h
    obtain ⟨n, rfl⟩ := Nat.exists_eq_succ_of_ne_zero (Nat.ne_zero_of_lt hn)
    obtain ⟨hmsg, hnew⟩ := List.forall_mem_cons.mp hnew
    obtain ⟨arrivals, harrivals, hreceive⟩ := receive_next hstate hmsg h
    rw [reorderLoop_receive _ hreceive, Mailbox.take]
    cases hwanted : wanted message_type msg with
    | true =>
      rw [if_pos rfl, if_pos rfl]
      refine ⟨fun htake => (by cases htake), fun msg' new' htake => ?_⟩
      cases htake
      exact ⟨_, rfl, hstate, new, rfl, hnew, harrivals⟩
    | false =>
      rw [if_neg (by simp), if_neg (by simp)]
      have hlen : (context.reorder ++ [msg]).length = context.reorder.length + 1 := by simp
      have hrest := @ih n { context with
        sock_events := { context.sock_events with arrivals }, reorder := context.reorder ++ [msg] }
        (Nat.lt_of_succ_lt_succ hn) hstate hnew harrivals
      rw [← hlen]
      refine ⟨fun htake => hrest.1 (Option.map_eq_none_iff.mp htake), fun msg' new' htake => ?_⟩
      obtain ⟨⟨msg'', new''⟩, htake', heq⟩ := Option.map_eq_some_iff.mp htake
      cases heq
      obtain ⟨context', hloop, hpending⟩ := hrest.2 _ _ htake'
      refine ⟨context', hloop, ?_⟩
      rwa [List.append_assoc] at hpending

end Loop

/-- **The queue and what arrives are one mailbox**: a call takes the first message that it wants out
of it; if there is none and nothing else arrives, it waits. -/
theorem receiveReorderTry_mailbox (message_type : Int32) {context : Context} {msgs : List Message}
    {rest : List Event} (h : Pending context msgs rest) :
    (Mailbox.take (wanted message_type) msgs = none → rest = [] →
      receiveReorderTry message_type context = .error .wait) ∧
    ∀ msg msgs', Mailbox.take (wanted message_type) msgs = some (msg, msgs') →
      ∃ context', receiveReorderTry message_type context = .ok (.ok msg, context') ∧
        Pending context' msgs' rest := by
  obtain ⟨new, rfl, hnew, harrived⟩ := h.arrived
  have hfuel : context.reorder.length + new.length < context.reorderFuel := by
    have hlen := length_frames new
    rw [Context.reorderFuel, harrived, List.length_append, List.length_map]
    omega
  rw [receiveReorderTry, Call.bind_of_ok (initTry_ready h.state), withFuel]
  obtain ⟨hnone, hsome⟩ := reorderLoop_queue message_type context.reorder
    List.drop_zero (Nat.zero_le _) (show context.reorder.length ≤ context.reorderFuel by omega)
  cases hqueue : Mailbox.take (wanted message_type) context.reorder with
  | some r =>
    obtain ⟨msg, queue⟩ := r
    rw [Mailbox.take_append_of_some hqueue]
    refine ⟨fun htake => (by cases htake), fun msg' msgs' htake => ?_⟩
    cases htake
    exact ⟨_, hsome msg queue hqueue, h.state, new, rfl, hnew, harrived⟩
  | none =>
    have hloop := reorderLoop_new message_type
      (show new.length < context.reorderFuel - context.reorder.length by omega) h.state hnew harrived
    rw [Mailbox.take_append_of_none hqueue, hnone hqueue]
    refine ⟨fun htake => hloop.1 (Option.map_eq_none_iff.mp htake), fun msg' msgs' htake => ?_⟩
    obtain ⟨⟨msg, new'⟩, htake', heq⟩ := Option.map_eq_some_iff.mp htake
    cases heq
    exact hloop.2 msg new' htake'

/-! ## Many calls -/

/-- A client that calls `i3ipc_message_receive_reorder_try` again and again. -/
def receiveReorderAll : List Int32 → Call (List Message)
  | [] => pure []
  | message_type :: types => do
    let msg ← receiveReorderTry message_type
    return msg :: (← receiveReorderAll types)

theorem receiveReorderAll_serve : ∀ (types : List Int32) {context : Context} {msgs : List Message},
    Pending context msgs [] →
    (Mailbox.serve (types.map wanted) msgs = none →
      receiveReorderAll types context = .error .wait) ∧
    ∀ received left, Mailbox.serve (types.map wanted) msgs = some (received, left) →
      ∃ context', receiveReorderAll types context = .ok (.ok received, context') ∧
        Pending context' left [] := by
  intro types
  induction types with
  | nil =>
    intro context msgs h
    refine ⟨fun hserve => (by cases hserve), fun received left hserve => ?_⟩
    cases hserve
    exact ⟨context, rfl, h⟩
  | cons message_type types ih =>
    intro context msgs h
    obtain ⟨hnone, hsome⟩ := receiveReorderTry_mailbox message_type h
    rw [List.map_cons, Mailbox.serve, receiveReorderAll]
    cases htake : Mailbox.take (wanted message_type) msgs with
    | none =>
      exact ⟨fun _ => Call.bind_of_stop (hnone htake rfl), fun _ _ hserve => by cases hserve⟩
    | some r =>
      obtain ⟨msg, msgs'⟩ := r
      obtain ⟨context₁, hreceive, hpending⟩ := hsome msg msgs' htake
      obtain ⟨hnone', hsome'⟩ := ih hpending
      dsimp only
      rw [Call.bind_of_ok hreceive]
      refine ⟨fun hserve => ?_, fun received left hserve => ?_⟩
      · exact Call.bind_of_stop (hnone' (Option.map_eq_none_iff.mp hserve))
      · obtain ⟨⟨received', left'⟩, hserve', heq⟩ := Option.map_eq_some_iff.mp hserve
        cases heq
        obtain ⟨context', hreceiveAll, hpending'⟩ := hsome' received' left' hserve'
        exact ⟨context', by rw [Call.bind_of_ok hreceiveAll]; rfl, hpending'⟩

/-- **No message is lost, received twice or overtaken by one of its type**: calls for any types, in
any order, either give messages, and then these and those still pending are all that were pending,
with those of each type in their order; or one of the calls waits for a message that never comes. -/
theorem receiveReorderAll_mailbox {context : Context} {msgs : List Message} (types : List Int32)
    (h : Pending context msgs []) :
    receiveReorderAll types context = .error .wait ∨
      ∃ received left context', receiveReorderAll types context = .ok (.ok received, context') ∧
        Pending context' left [] ∧ (received ++ left).Perm msgs ∧
        ∀ message_type, (received ++ left).filter (·.message_type = message_type) =
          msgs.filter (·.message_type = message_type) := by
  obtain ⟨hnone, hsome⟩ := receiveReorderAll_serve types h
  cases hserve : Mailbox.serve (types.map wanted) msgs with
  | none => exact .inl (hnone hserve)
  | some r =>
    obtain ⟨received, left⟩ := r
    obtain ⟨context', hreceive, hpending⟩ := hsome received left hserve
    refine .inr ⟨received, left, context', hreceive, hpending, Mailbox.serve_perm hserve, ?_⟩
    refine Mailbox.serve_filter (·.message_type) (fun p hp msg msg' heq => ?_) hserve
    obtain ⟨message_type, -, rfl⟩ := List.mem_map.mp hp
    rw [wanted, wanted, heq]

/-- The answer to a subscription comes behind two events, one of which is in the queue. -/
theorem receiveReorderAll_mailbox_subscribe :
    let msgs : List Message := [⟨-2147483648, []⟩, ⟨-2147483646, []⟩, ⟨2, []⟩]
    let arrivals := ((msgs.drop 1).flatMap frame).map fun c => Arrival.data c []
    let context := { Context.ready ⟨[], [], []⟩ with
      sock_events := ⟨arrivals, [], []⟩, reorder := msgs.take 1 }
    receiveReorderAll [2, EVENT_ANY] context = .error .wait ∨
      ∃ received left context', receiveReorderAll [2, EVENT_ANY] context =
          .ok (.ok received, context') ∧
        Pending context' left [] ∧ (received ++ left).Perm msgs ∧
        ∀ message_type, (received ++ left).filter (·.message_type = message_type) =
          msgs.filter (·.message_type = message_type) := by
  intro msgs arrivals context
  have hreceivable : ∀ msg ∈ msgs.drop 1, Receivable msg := by
    simp only [msgs, List.drop_succ_cons, List.drop_zero, List.forall_mem_cons, Receivable]
    exact ⟨by decide, by decide, by simp⟩
  have hstream : stream context.sock_events.arrivals =
      ((msgs.drop 1).flatMap frame).map .byte ++ [] := by decide +kernel
  exact receiveReorderAll_mailbox [2, EVENT_ANY] ⟨rfl, msgs.drop 1, rfl, hreceivable, hstream⟩

end I3ipc

end Photonbar
