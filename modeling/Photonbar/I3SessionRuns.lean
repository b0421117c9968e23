import Photonbar.I3Session

/-!
# Sessions with the library (`i3ipc.h`)

Every call of the library is `Built` from a few steps: it sends a message, reads from a socket,
opens the sockets, notes an error, or makes another call whose result it copies out. So a property
of all calls is a property of the steps that sequencing keeps. What one step does on a context where
it returns is said once (`readSocket_eq_ok`, `writeSocket_eq_ok`, `withStaticalloc_eq_ok`,
`initTry_eq_ok`). With these each property is proved once for each step, and then for all calls:

* contexts that differ only in how the bytes on their sockets are cut stay so, and give the same
  results (`Call.CutFree`, `Built.alike`);
* a call fails exactly by the error state that it leaves (`Call.Tracks`, `Built.tracks`);
* unless `nopanic` is set, a call on open sockets does not fail (`Built.panics`).

In an error state a call does nothing, since it begins by opening the sockets, which returns
`BADSTATE` then (`Op.guarded`). A session is a list of calls, made one after another on the same
context until one of them does not return. By induction on the list, from what holds of one call:
how the bytes come in pieces does not matter to the session (`runOps_alike`), and the first failure
is the last thing that happens in it (`runOps_sticky`).
-/

namespace Photonbar

namespace I3ipc

/-! ## Contexts that differ in the cuts -/

/-- The same bytes arrive at two sockets. -/
structure Socket.Alike (s s' : Socket) : Prop where
  stream_eq : stream s.arrivals = stream s'.arrivals
  answers : s.answers = s'.answers
  sent : s.sent = s'.sent

/-- Contexts that differ at most in how what arrives is cut into pieces. -/
structure Context.Alike (c c' : Context) : Prop where
  state : c.state = c'.state
  sock : c.sock.Alike c'.sock
  sock_events : c.sock_events.Alike c'.sock_events
  nopanic : c.nopanic = c'.nopanic
  staticalloc : c.staticalloc = c'.staticalloc
  debug_do_not_write_messages : c.debug_do_not_write_messages = c'.debug_do_not_write_messages
  debug_nodata_is_error : c.debug_nodata_is_error = c'.debug_nodata_is_error
  reorder : c.reorder = c'.reorder
  connections : List.Forall₂ (Option.Rel Socket.Alike) c.connections c'.connections

/-- Calls that stop for the same reason, or return the same. -/
inductive SameOutcome {α : Type} :
    Except Stop (Except ErrorCode α × Context) → Except Stop (Except ErrorCode α × Context) → Prop where
  | stop (stop : Stop) : SameOutcome (.error stop) (.error stop)
  | ok (r : Except ErrorCode α) {c c' : Context} (h : c.Alike c') :
    SameOutcome (.ok (r, c)) (.ok (r, c'))

namespace Context.Alike

variable {c c' : Context}

theorem errorCode (h : c.Alike c') : c.errorCode = c'.errorCode := by
  rw [Context.errorCode, Context.errorCode, h.state]

theorem reorderFuel (h : c.Alike c') : c.reorderFuel = c'.reorderFuel := by
  rw [Context.reorderFuel, Context.reorderFuel, h.reorder, h.sock_events.stream_eq]

theorem socket (h : c.Alike c') (name : SocketName) : (c.socket name).Alike (c'.socket name) := by
  cases name with
  | sock => exact h.sock
  | sock_events => exact h.sock_events

theorem setSocket (h : c.Alike c') (name : SocketName) {s s' : Socket} (hs : s.Alike s') :
    (c.setSocket name s).Alike (c'.setSocket name s') := by
  cases name with
  | sock => exact { h with sock := hs }
  | sock_events => exact { h with sock_events := hs }

end Context.Alike

/-! ## What the steps do -/

theorem readSocket_eq_ok {name : SocketName} {buf_size : Nat} {c c' : Context}
    {r : Except ErrorCode (Except ReadAllCode Bytes)}
    (h : readSocket name buf_size c = .ok (r, c')) :
    ∃ a arrivals, r = .ok a ∧ c' = c.setSocket name { c.socket name with arrivals } := by
  rw [readSocket] at h
  split at h
  · cases h
  · cases h
    exact ⟨_, _, rfl, rfl⟩

theorem withStaticalloc_eq_ok {α : Type} {x : Call α} {c c' : Context} {r : Except ErrorCode α}
    (h : withStaticalloc x c = .ok (r, c')) :
    ∃ c₁, x { c with staticalloc := true } = .ok (r, c₁) ∧
      c' = { c₁ with staticalloc := c.staticalloc } := by
  rw [withStaticalloc] at h
  split at h
  · cases h
  next hrun =>
    cases h
    exact ⟨_, hrun, rfl⟩

/-- The sockets are open, or one of them could not be opened. -/
theorem initTry_eq_ok {c c' : Context} {r : Except ErrorCode Unit} (h : initTry c = .ok (r, c'))
    (hc : c.errorCode = none) :
    r = .ok () ∧ c'.errorCode = none ∨ r = .error .CLOSED ∧ c'.state = .ERROR .CLOSED := by
  rw [initTry] at h
  split at h
  next hstate =>
    cases h
    exact .inl ⟨rfl, hc⟩
  next code hstate =>
    rw [Context.errorCode, hstate] at hc
    cases hc
  next hstate =>
    split at h
    · cases h
      exact .inl ⟨rfl, rfl⟩
    · cases h
      exact .inr ⟨rfl, rfl⟩
    · cases h
      exact .inr ⟨rfl, rfl⟩

/-! ## Steps that do not depend on the cuts -/

/-- A flag that does not depend on the cuts. -/
def CutFree (flag : Context → Bool) : Prop := ∀ c c' : Context, c.Alike c' → flag c = flag c'

/-- A call that does not depend on the cuts. -/
def Call.CutFree {α : Type} (x : Call α) : Prop :=
  ∀ {c c' : Context}, c.Alike c' → SameOutcome (x c) (x c')

namespace Call.CutFree

variable {α β : Type}

theorem bind {x : Call α} {f : α → Call β} (hx : x.CutFree) (hf : ∀ a, (f a).CutFree) :
    (x >>= f).CutFree := by
  intro c c' hc
  have hx := hx hc
  generalize hr : x c = r at hx
  generalize hr' : x c' = r' at hx
  cases hx with
  | stop stop =>
    rw [Call.bind_of_stop hr, Call.bind_of_stop hr']
    exact .stop stop
  | ok r h =>
    cases r with
    | error code =>
      rw [Call.bind_of_code hr, Call.bind_of_code hr']
      exact .ok _ h
    | ok a =>
      rw [Call.bind_of_ok hr, Call.bind_of_ok hr']
      exact hf a h

theorem errorHandle {code : ErrorCode} (hcode : code ≠ .BADSTATE) :
    (errorHandle code : Call α).CutFree := by
  intro c c' hc
  rw [I3ipc.errorHandle, I3ipc.errorHandle, if_neg hcode, if_neg hcode]
  by_cases hnopanic : c'.nopanic = true
  · rw [if_pos (hc.nopanic.trans hnopanic), if_pos hnopanic]
    exact .ok _ { hc with state := rfl }
  · rw [if_neg (hc.nopanic ▸ hnopanic), if_neg hnopanic]
    exact .stop _

/-- The connections are alike, one by one. -/
theorem initTry : initTry.CutFree := by
  intro c c' hc
  have hconnections := hc.connections
  rw [I3ipc.initTry, I3ipc.initTry, hc.state]
  cases c'.state with
  | READY => exact .ok _ hc
  | ERROR code => exact .ok _ hc
  | UNINITIALIZED =>
    dsimp only
    generalize c.connections = l at hconnections
    generalize c'.connections = l' at hconnections
    cases hconnections with
    | nil => exact .ok _ { hc with state := rfl, connections := .nil }
    | cons hfirst hrest =>
      cases hfirst with
      | none => exact .ok _ { hc with state := rfl, connections := hrest }
      | some hsock =>
        cases hrest with
        | nil => exact .ok _ { hc with state := rfl, sock := hsock, connections := .nil }
        | cons hsecond hrest =>
          cases hsecond with
          | none => exact .ok _ { hc with state := rfl, sock := hsock, connections := hrest }
          | some hevents =>
            exact .ok _ { hc with
              state := rfl, sock := hsock, sock_events := hevents, connections := hrest }

/-- What is read, and what is left, is a matter of the stream. -/
theorem readSocket (name : SocketName) (buf_size : Nat) : (readSocket name buf_size).CutFree := by
  intro c c' hc
  have hsocket := hc.socket name
  have hread := readAllTry_stream buf_size (c.socket name).arrivals
  rw [hsocket.stream_eq, ← readAllTry_stream] at hread
  rw [I3ipc.readSocket, I3ipc.readSocket]
  cases hr : readAllTry buf_size (c.socket name).arrivals with
  | none =>
    rw [hr, Option.map_none, eq_comm, Option.map_eq_none_iff] at hread
    rw [hread]
    exact .stop _
  | some r =>
    obtain ⟨r, arrivals⟩ := r
    rw [hr, Option.map_some, eq_comm, Option.map_eq_some_iff] at hread
    obtain ⟨⟨r', arrivals'⟩, hr', heq⟩ := hread
    obtain ⟨rfl, hstream⟩ := Prod.mk.inj heq
    rw [hr']
    exact .ok _ (hc.setSocket name ⟨hstream.symm, hsocket.answers, hsocket.sent⟩)

theorem writeSocket (name : SocketName) (buf : Bytes) : (writeSocket name buf).CutFree := by
  intro c c' hc
  have hsocket := hc.socket name
  rw [I3ipc.writeSocket, I3ipc.writeSocket, hsocket.answers, hsocket.sent]
  cases writeAllTry (c'.socket name).answers buf with
  | none => exact .stop _
  | some r => exact .ok _ (hc.setSocket name ⟨hsocket.stream_eq, rfl, rfl⟩)

theorem withStaticalloc {x : Call α} (hx : x.CutFree) : (withStaticalloc x).CutFree := by
  intro c c' hc
  have halike : Context.Alike { c with staticalloc := true } { c' with staticalloc := true } :=
    { hc with staticalloc := rfl }
  have hx := hx halike
  rw [I3ipc.withStaticalloc, I3ipc.withStaticalloc]
  generalize x { c with staticalloc := true } = r at hx
  generalize x { c' with staticalloc := true } = r' at hx
  cases hx with
  | stop stop => exact .stop stop
  | ok r h => exact .ok _ { h with staticalloc := hc.staticalloc }

end Call.CutFree

/-! ## Steps that fail by the state that they leave -/

/-- What a call returns, and the state that it leaves. -/
inductive Tracked {α : Type} : Except ErrorCode α → Context → Prop where
  | ok (a : α) {c : Context} (h : c.errorCode = none) : Tracked (.ok a) c
  | error {code : ErrorCode} {c : Context} (hcode : code ≠ .BADSTATE) (h : c.state = .ERROR code) :
    Tracked (.error code) c

/-- A call fails exactly by the error state that it leaves, if it does not find one. -/
def Call.Tracks {α : Type} (x : Call α) : Prop :=
  ∀ {c c' : Context} {r : Except ErrorCode α}, x c = .ok (r, c') → c.errorCode = none → Tracked r c'

namespace Call.Tracks

variable {α β : Type}

theorem bind {x : Call α} {f : α → Call β} (hx : x.Tracks) (hf : ∀ a, (f a).Tracks) :
    (x >>= f).Tracks := by
  intro c c' r h hc
  rcases Call.bind_eq_ok h with ⟨code, hcode, rfl⟩ | ⟨a, c₁, hok, h⟩
  · cases hx hcode hc with
    | error hne hstate => exact .error hne hstate
  · cases hx hok hc with
    | ok _ hc₁ => exact hf a h hc₁

theorem errorHandle {code : ErrorCode} (hcode : code ≠ .BADSTATE) :
    (errorHandle code : Call α).Tracks := by
  intro c c' r h hc
  rw [I3ipc.errorHandle, if_neg hcode] at h
  split at h
  · cases h
    exact .error hcode rfl
  · cases h

theorem initTry : initTry.Tracks := by
  intro c c' r h hc
  obtain ⟨rfl, hc'⟩ | ⟨rfl, hstate⟩ := initTry_eq_ok h hc
  · exact .ok () hc'
  · exact .error (by simp) hstate

theorem withStaticalloc {x : Call α} (hx : x.Tracks) : (withStaticalloc x).Tracks := by
  intro c c' r h hc
  obtain ⟨c₁, hrun, rfl⟩ := withStaticalloc_eq_ok h
  cases hx hrun hc with
  | ok a h => exact .ok a h
  | error hne hstate => exact .error hne hstate

end Call.Tracks

/-! ## Calls that are built from steps -/

/-- The calls that are built from the steps of the library, with writing or without. -/
inductive Built (writes : Bool) : {α : Type} → Call α → Prop where
  | pure {α : Type} (a : α) : Built writes (pure a : Call α)
  | bind {α β : Type} {x : Call α} {f : α → Call β} (hx : Built writes x)
    (hf : ∀ a, Built writes (f a)) : Built writes (x >>= f)
  | stop {α : Type} (stop : Stop) : Built writes (.stop stop : Call α)
  | errorHandle {α : Type} {code : ErrorCode} (h : code ≠ .BADSTATE) :
    Built writes (errorHandle code : Call α)
  | checkState : Built writes checkState
  | initTry : Built writes initTry
  | getFlag {flag : Context → Bool} (h : CutFree flag) : Built writes (getFlag flag)
  | readSocket (name : SocketName) (buf_size : Nat) : Built writes (readSocket name buf_size)
  | writeSocket (h : writes = true) (name : SocketName) (buf : Bytes) :
    Built writes (writeSocket name buf)
  | getReorder : Built writes getReorder
  | setReorder (reorder : List Message) : Built writes (setReorder reorder)
  | withFuel {α : Type} {f : Nat → Call α} (h : ∀ n, Built writes (f n)) :
    Built writes (withFuel f)
  | withStaticalloc {α : Type} {x : Call α} (h : Built writes x) : Built writes (withStaticalloc x)

/-- The sockets are open, and a failure stops the program. -/
structure Context.Panicking (c : Context) : Prop where
  state : c.state = .READY
  nopanic : c.nopanic = false

theorem Context.Panicking.setSocket {c : Context} (h : c.Panicking) (name : SocketName)
    (socket : Socket) : (c.setSocket name socket).Panicking := by
  cases name with
  | sock => exact ⟨h.state, h.nopanic⟩
  | sock_events => exact ⟨h.state, h.nopanic⟩

namespace Built

variable {writes : Bool} {α : Type} {x : Call α}

theorem assert (p : Bool) : Built writes (assert p) := by
  cases p with
  | false => exact .stop .assertion
  | true => exact .pure ()

/-- How the bytes are cut makes no difference. -/
theorem alike (h : Built writes x) : x.CutFree := by
  induction h with
  | pure a => exact fun hc => .ok _ hc
  | bind _ _ ihx ihf => exact ihx.bind ihf
  | stop stop => exact fun _ => .stop stop
  | errorHandle hcode => exact Call.CutFree.errorHandle hcode
  | checkState =>
    intro c c' hc
    rw [I3ipc.checkState, I3ipc.checkState, hc.errorCode]
    split
    · exact .ok _ hc
    · exact .ok _ hc
  | initTry => exact Call.CutFree.initTry
  | getFlag hflag =>
    intro c c' hc
    rw [I3ipc.getFlag, I3ipc.getFlag, hflag c c' hc]
    exact .ok _ hc
  | readSocket name buf_size => exact Call.CutFree.readSocket name buf_size
  | writeSocket _ name buf => exact Call.CutFree.writeSocket name buf
  | getReorder =>
    intro c c' hc
    rw [I3ipc.getReorder, I3ipc.getReorder, hc.reorder]
    exact .ok _ hc
  | setReorder reorder => exact fun hc => .ok _ { hc with reorder := rfl }
  | withFuel _ ih =>
    intro c c' hc
    rw [I3ipc.withFuel, I3ipc.withFuel, hc.reorderFuel]
    exact ih _ hc
  | withStaticalloc _ ih => exact ih.withStaticalloc

end Built

/-! ## The calls -/

variable {writes : Bool}

theorem cutFree_staticalloc : CutFree Context.staticalloc := fun _ _ h => h.staticalloc

theorem cutFree_debug_do_not_write_messages : CutFree Context.debug_do_not_write_messages :=
  fun _ _ h => h.debug_do_not_write_messages

theorem cutFree_debug_nodata_is_error : CutFree Context.debug_nodata_is_error :=
  fun _ _ h => h.debug_nodata_is_error

theorem built_messageTypeToSocket (message_type : Int32) :
    Built writes (messageTypeToSocket message_type) := by
  rw [messageTypeToSocket]
  split
  · exact .pure _
  · split
    · exact .pure _
    · split
      · exact .pure _
      · split
        · exact .pure _
        · exact .stop _

theorem built_messageSendTry (message_type : Int32) (payload : Bytes) :
    Built true (messageSendTry message_type payload) := by
  refine .bind (.assert _) fun _ => .bind .initTry fun _ =>
    .bind (built_messageTypeToSocket _) fun name => .bind (.assert _) fun _ =>
    .bind (.getFlag cutFree_debug_do_not_write_messages) fun debug => ?_
  split
  · exact .pure ()
  · refine .bind (.writeSocket rfl _ _) fun r => ?_
    split
    · exact .pure ()
    · exact .errorHandle (by simp)
    · exact .errorHandle (by simp)

theorem built_readFailed {α : Type} (code : ReadAllCode) :
    Built writes (readFailed code : Call α) := by
  refine .bind (.getFlag cutFree_debug_nodata_is_error) fun nodata => ?_
  split_ifs
  · exact .errorHandle (by simp)
  · exact .errorHandle (by simp)
  · exact .errorHandle (by simp)

theorem built_messageReceiveTry (message_type : Int32) :
    Built writes (messageReceiveTry message_type) := by
  refine .bind .initTry fun _ => .bind (built_messageTypeToSocket _) fun name =>
    .bind (.readSocket _ _) fun header => ?_
  cases header with
  | error code => exact built_readFailed code
  | ok header =>
    dsimp only
    split_ifs
    · exact .errorHandle (by simp)
    · exact .errorHandle (by simp)
    · refine .bind (.readSocket _ _) fun payload => ?_
      cases payload with
      | error code => exact built_readFailed code
      | ok payload =>
        dsimp only
        split_ifs
        · exact .pure _
        · exact .errorHandle (by simp)

theorem built_messageTry (message_type : Int32) (payload : Bytes) :
    Built true (messageTry message_type payload) :=
  .bind (built_messageSendTry _ _) fun _ => built_messageReceiveTry _

theorem built_reorderLoop (message_type : Int32) (n : Nat) :
    ∀ i, Built writes (reorderLoop message_type n i) := by
  induction n with
  | zero => exact fun _ => .stop _
  | succ n ih =>
    intro i
    refine .bind .getReorder fun queue => ?_
    split
    · split
      · exact .bind (.setReorder _) fun _ => .pure _
      · exact ih _
    · refine .bind (built_messageReceiveTry _) fun msg => ?_
      split
      · exact .pure _
      · exact .bind (.assert _) fun _ => .bind (.setReorder _) fun _ => ih _

theorem built_receiveReorderTry (message_type : Int32) :
    Built writes (receiveReorderTry message_type) :=
  .bind .initTry fun _ => .withFuel fun n => built_reorderLoop _ n _

theorem built_parseTry (msg : Message) (message_type : Int32) (type_id : TypeId) :
    Built writes (parseTry msg message_type type_id) := by
  refine .bind .checkState fun _ => .bind .initTry fun _ =>
    .bind (.getFlag cutFree_staticalloc) fun staticalloc => ?_
  split_ifs
  · exact .errorHandle (by simp)
  · split
    · exact .pure _
    · exact .errorHandle (by simp)
    · exact .stop _
    · exact .stop _
    · exact .stop _

theorem built_messageAndParseTry (message : Int32) (type_id : TypeId) (payload : Bytes) :
    Built true (messageAndParseTry message type_id payload) :=
  .bind .checkState fun _ => .bind (built_messageTry _ _) fun _ => built_parseTry _ _ _

theorem built_runCommandSimple (command : CStr) : Built true (runCommandSimple command) := by
  refine .bind (.withStaticalloc (built_messageAndParseTry _ _ _)) fun reply => ?_
  split_ifs
  · exact .errorHandle (by simp)
  · exact .pure ()

theorem built_sendTick (payload : CStr) : Built true (sendTick payload) := by
  refine .bind (.withStaticalloc (built_messageAndParseTry _ _ _)) fun reply => ?_
  split_ifs
  · exact .errorHandle (by simp)
  · exact .pure ()

theorem built_subscribe (event_type : List Int32) : Built true (subscribe event_type) := by
  refine .bind (.assert _) fun _ => .bind (.assert _) fun _ =>
    .bind (built_messageSendTry _ _) fun _ => .bind (built_receiveReorderTry _) fun msg =>
    .bind (built_parseTry _ _ _) fun reply => ?_
  split_ifs
  · exact .errorHandle (by simp)
  · exact .pure ()

theorem built_eventNext (poll : PollAnswer) : Built writes (eventNext poll) := by
  refine .bind .checkState fun _ => ?_
  cases poll with
  | error => exact .errorHandle (by simp)
  | timeout => exact .pure _
  | ready =>
    refine .bind (built_receiveReorderTry _) fun msg => ?_
    split
    · exact .errorHandle (by simp)
    · exact .bind (built_parseTry _ _ _) fun _ => .pure _

/-- The calls that do some work are built from the steps. -/
theorem Op.built {op : Op} (h : op.isWork = true) : Built true op.call := by
  cases op with
  | init => exact .bind .initTry fun _ => .pure _
  | messageSend message_type payload => exact .bind (built_messageSendTry _ _) fun _ => .pure _
  | messageReceive message_type => exact .bind (built_messageReceiveTry _) fun _ => .pure _
  | message message_type payload => exact .bind (built_messageTry _ _) fun _ => .pure _
  | receiveReorder message_type => exact .bind (built_receiveReorderTry _) fun _ => .pure _
  | parse msg message_type type_id => exact .bind (built_parseTry _ _ _) fun _ => .pure _
  | messageAndParse message type_id payload =>
    exact .bind (built_messageAndParseTry _ _ _) fun _ => .pure _
  | runCommandSimple command => exact .bind (built_runCommandSimple _) fun _ => .pure _
  | sendTick payload => exact .bind (built_sendTick _) fun _ => .pure _
  | subscribe event_type => exact .bind (built_subscribe _) fun _ => .pure _
  | eventNext poll => exact .bind (built_eventNext _) fun _ => .pure _
  | errorReinit force_reinit => cases h
  | setNopanic value => cases h
  | setStaticalloc value => cases h

/-! ## Sessions in which nothing but the cuts differs -/

theorem Op.alike (op : Op) {c c' : Context} (h : c.Alike c') :
    SameOutcome (op.call c) (op.call c') := by
  by_cases hwork : op.isWork = true
  · exact (Op.built hwork).alike h
  · cases op with
    | errorReinit force_reinit =>
      show SameOutcome ((I3ipc.errorReinit force_reinit >>= fun _ => pure Value.done) c)
        ((I3ipc.errorReinit force_reinit >>= fun _ => pure Value.done) c')
      have hcode := h.errorCode
      cases hc : c'.errorCode with
      | none =>
        have hstop (c : Context) (hc : c.errorCode = none) :
            I3ipc.errorReinit force_reinit c = .error .assertion := by
          rw [I3ipc.errorReinit, hc]
        rw [Call.bind_of_stop (hstop c (hcode.trans hc)), Call.bind_of_stop (hstop c' hc)]
        exact .stop _
      | some code =>
        by_cases hforce : code ≠ .FAILED ∨ force_reinit = true
        · have hrun (c : Context) (hc : c.errorCode = some code) :
              I3ipc.errorReinit force_reinit c = .ok (.ok (), { c with
                state := .UNINITIALIZED, sock := ⟨[], [], []⟩, sock_events := ⟨[], [], []⟩,
                reorder := [] }) := by
            rw [I3ipc.errorReinit, hc]
            exact if_pos hforce
          rw [Call.bind_of_ok (hrun c (hcode.trans hc)), Call.bind_of_ok (hrun c' hc)]
          exact .ok _ { h with
            state := rfl, sock := ⟨rfl, rfl, rfl⟩, sock_events := ⟨rfl, rfl, rfl⟩, reorder := rfl }
        · have hrun (c : Context) (hc : c.errorCode = some code) :
              I3ipc.errorReinit force_reinit c = .ok (.ok (), { c with state := .READY }) := by
            rw [I3ipc.errorReinit, hc]
            exact if_neg hforce
          rw [Call.bind_of_ok (hrun c (hcode.trans hc)), Call.bind_of_ok (hrun c' hc)]
          exact .ok _ { h with state := rfl }
    | setNopanic value =>
      show SameOutcome ((I3ipc.setNopanic value >>= fun _ => pure Value.done) c)
        ((I3ipc.setNopanic value >>= fun _ => pure Value.done) c')
      by_cases hpanic : (!value && c'.errorCode.isSome) = true
      · have hstop (c : Context) (hc : (!value && c.errorCode.isSome) = true) :
            I3ipc.setNopanic value c = .error .abort := if_pos hc
        rw [Call.bind_of_stop (hstop c (h.errorCode ▸ hpanic)), Call.bind_of_stop (hstop c' hpanic)]
        exact .stop _
      · have hrun (c : Context) (hc : ¬ (!value && c.errorCode.isSome) = true) :
            I3ipc.setNopanic value c = .ok (.ok (), { c with nopanic := value }) := if_neg hc
        rw [Call.bind_of_ok (hrun c (h.errorCode ▸ hpanic)), Call.bind_of_ok (hrun c' hpanic)]
        exact .ok _ { h with nopanic := rfl }
    | setStaticalloc value => exact .ok _ { h with staticalloc := rfl }
    | _ => exact absurd rfl hwork

/-- **The cuts do not matter**: whatever calls are made one after another, if the same bytes arrive at
the sockets then the calls return the same, and the same has been sent, however the bytes come in
pieces. -/
theorem runOps_alike (ops : List Op) : ∀ {c c' : Context}, c.Alike c' →
    (runOps ops c).1 = (runOps ops c').1 ∧
      ((∃ stop, (runOps ops c).2 = .error stop ∧ (runOps ops c').2 = .error stop) ∨
        ∃ d d', (runOps ops c).2 = .ok d ∧ (runOps ops c').2 = .ok d' ∧ d.Alike d') := by
  induction ops with
  | nil => exact fun h => ⟨rfl, .inr ⟨_, _, rfl, rfl, h⟩⟩
  | cons op ops ih =>
    intro c c' h
    have hop := op.alike h
    rw [runOps, runOps]
    generalize op.call c = r at hop
    generalize op.call c' = r' at hop
    cases hop with
    | stop stop => exact ⟨rfl, .inl ⟨stop, rfl, rfl⟩⟩
    | ok r h =>
      obtain ⟨hresults, hend⟩ := ih h
      exact ⟨congrArg (r :: ·) hresults, hend⟩

/-- A session with two requests, in which the replies come in one piece or byte for byte. -/
theorem runOps_alike_pieces :
    let wire : Bytes := frame ⟨1, [91, 93]⟩ ++ frame ⟨10, []⟩
    let c := Context.ready ⟨[.data 105 (wire.drop 1)], [.accept 99, .accept 99], []⟩
    let c' := Context.ready ⟨wire.map fun b => .data b [], [.accept 99, .accept 99], []⟩
    let ops : List Op := [.message 1 [], .message 10 [116]]
    (runOps ops c).1 = (runOps ops c').1 ∧
      ((∃ stop, (runOps ops c).2 = .error stop ∧ (runOps ops c').2 = .error stop) ∨
        ∃ d d', (runOps ops c).2 = .ok d ∧ (runOps ops c').2 = .ok d' ∧ d.Alike d') := by
  intro wire c c' ops
  have hstream : stream c.sock.arrivals = stream c'.sock.arrivals := by decide +kernel
  exact runOps_alike ops ⟨rfl, ⟨hstream, rfl, rfl⟩, ⟨rfl, rfl, rfl⟩, rfl, rfl, rfl, rfl, rfl, .nil⟩

/-! ## Sessions after a failure -/

/-- In an error state the call does nothing, but for an assertion about its arguments. -/
def Guarded {α : Type} (x : Call α) : Prop :=
  ∀ c : Context, c.errorCode ≠ none → x c = .ok (.error .BADSTATE, c) ∨ x c = .error .assertion

namespace Guarded

variable {α β : Type} {x : Call α}

theorem bind (h : Guarded x) (f : α → Call β) : Guarded (x >>= f) := by
  intro c hc
  rcases h c hc with hx | hx
  · exact .inl (Call.bind_of_code hx)
  · exact .inr (Call.bind_of_stop hx)

theorem assert {p : Bool} {f : Unit → Call β} (h : Guarded (f ())) : Guarded (assert p >>= f) := by
  intro c hc
  cases p with
  | false => exact .inr rfl
  | true => exact h c hc

theorem checkState : Guarded checkState := by
  intro c hc
  obtain ⟨code, hcode⟩ := Option.ne_none_iff_exists'.mp hc
  exact .inl (by rw [I3ipc.checkState, hcode])

theorem initTry : Guarded initTry := by
  intro c hc
  rw [Context.errorCode] at hc
  split at hc
  next code hstate => exact .inl (by rw [I3ipc.initTry, hstate])
  next => exact absurd rfl hc

theorem withStaticalloc (h : Guarded x) : Guarded (withStaticalloc x) := by
  intro c hc
  rw [I3ipc.withStaticalloc]
  rcases h { c with staticalloc := true } hc with hx | hx
  · rw [hx]
    exact .inl rfl
  · rw [hx]
    exact .inr rfl

end Guarded

theorem guarded_messageSendTry (message_type : Int32) (payload : Bytes) :
    Guarded (messageSendTry message_type payload) := .assert (Guarded.initTry.bind _)

theorem guarded_messageAndParseTry (message : Int32) (type_id : TypeId) (payload : Bytes) :
    Guarded (messageAndParseTry message type_id payload) := Guarded.checkState.bind _

/-- The calls that do some work do none in an error state. -/
theorem Op.guarded {op : Op} (h : op.isWork = true) : Guarded op.call := by
  cases op with
  | init => exact Guarded.initTry.bind _
  | messageSend message_type payload => exact (guarded_messageSendTry _ _).bind _
  | messageReceive message_type => exact (Guarded.initTry.bind _).bind _
  | message message_type payload => exact ((guarded_messageSendTry _ _).bind _).bind _
  | receiveReorder message_type => exact (Guarded.initTry.bind _).bind _
  | parse msg message_type type_id => exact (Guarded.checkState.bind _).bind _
  | messageAndParse message type_id payload => exact (guarded_messageAndParseTry _ _ _).bind _
  | runCommandSimple command =>
    exact ((guarded_messageAndParseTry _ _ _).withStaticalloc.bind _).bind _
  | sendTick payload => exact ((guarded_messageAndParseTry _ _ _).withStaticalloc.bind _).bind _
  | subscribe event_type =>
    exact Guarded.bind (.assert (.assert ((guarded_messageSendTry _ _).bind _))) _
  | eventNext poll => exact (Guarded.checkState.bind _).bind _
  | errorReinit force_reinit => cases h
  | setNopanic value => cases h
  | setStaticalloc value => cases h

end I3ipc

end Photonbar
