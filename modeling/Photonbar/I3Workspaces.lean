import Photonbar.I3SessionRuns

/-!
# The workspaces of i3 on the bar (`workspace.h`, `i3ipc.h`)

`WorkspaceModule` with the library under it: its functions ask i3 over the socket, and what they print
into the elements are the workspaces that they read from the memory of the reply.

`run_served` goes all the way: if i3 answers with texts that describe workspaces, the elements show
those of the last answer, in whatever pieces the bytes of the answers come, however their JSON is
written. `run_shows` needs nothing of i3: a run that does not stop shows the last reply, or nothing at
all.
-/

namespace Photonbar

namespace I3ipc

/-! ## The module and the library -/

/-- Why a run of the module ends early. -/
inductive Crash where
  | library (stop : Stop)
  | element (fault : Fault)
  /-- the reply has no name to be printed -/
  | reply

/-- `i3ipc_get_workspaces` and what is read of the reply; `none` is NULL. -/
def queryWorkspaces (context : Context) : Except Crash (Option (List Workspace) × Context) :=
  match getWorkspaces context with
  | .error stop => .error (.library stop)
  | .ok (.error _, context) => .ok (none, context)
  | .ok (.ok reply, context) =>
    match readWorkspaces reply.heap with
    | none => .error .reply
    | some workspaces => .ok (some workspaces, context)

/-- What is done with the elements. -/
def inElements {α : Type} : Except Fault α → Except Crash α
  | .error fault => .error (.element fault)
  | .ok a => .ok a

/-- `initializeElements`. -/
def initializeElements (m : WorkspaceModule) (context : Context) :
    Except Crash (WorkspaceModule × Context) := do
  let (reply, context) ← queryWorkspaces context
  let m ← inElements (m.initializeElements reply)
  return (m, context)

/-- `updateElements`. -/
def updateElements (m : WorkspaceModule) (context : Context) :
    Except Crash (WorkspaceModule × Context) := do
  let (reply, context) ← queryWorkspaces context
  match reply with
  | none => return (m, context)
  | some workspaces =>
    let updated ← inElements ((m.elements.zip workspaces).mapM fun p =>
      WorkspaceModule.updateElement p.1 p.2)
    let m : WorkspaceModule := ⟨updated ++ m.elements.drop workspaces.length⟩
    if workspaces.length ≠ m.elements.length then initializeElements m context
    else return (m, context)

/-- Updates, one after another. -/
def updates : Nat → WorkspaceModule → Context → Except Crash (WorkspaceModule × Context)
  | 0, m, context => .ok (m, context)
  | n + 1, m, context => do
    let (m, context) ← updateElements m context
    updates n m context

/-- The constructor of the module, and updates. -/
def run (n : Nat) (context : Context) : Except Crash (WorkspaceModule × Context) := do
  let (m, context) ← initializeElements .new context
  updates n m context

/-- The library before the first call: zero but for the environment. -/
def Context.start (connections : List (Option Socket)) : Context :=
  { state := .UNINITIALIZED, sock := ⟨[], [], []⟩, sock_events := ⟨[], [], []⟩, nopanic := false,
    staticalloc := false, debug_do_not_write_messages := false, debug_nodata_is_error := false,
    reorder := [], connections }

/-! ## Answers of i3 -/

/-- A text that describes workspaces. -/
def Describes (text : Bytes) (workspaces : List Workspace) : Prop :=
  ∃ js, Spells ((Json.arr js).tokens [.eof]) text ∧ HasType .REPLY_WORKSPACES {} (.arr js) ∧
    js.mapM workspaceOf = some workspaces ∧ headerSize + text.length + 1 ≤ size_max

/-- i3 takes requests and has answered them with workspaces. -/
structure Served (context : Context) (replies : List (List Workspace)) : Prop where
  state : context.state = .READY
  debug : context.debug_do_not_write_messages = false
  accepted : ∃ accepted more, context.sock.answers = accepted ++ more ∧
    (∀ answer ∈ accepted, ∃ n, answer = .accept n) ∧ headerSize * replies.length ≤ accepted.length
  arrived : ∃ texts rest, List.Forall₂ Describes texts replies ∧
    stream context.sock.arrivals = ((texts.map (⟨1, ·⟩)).flatMap frame).map .byte ++ rest

/-- A request, and the answer to it. -/
theorem messageTry_served {context : Context} {workspaces : List Workspace}
    {replies : List (List Workspace)} (h : Served context (workspaces :: replies)) :
    ∃ text context', Describes text workspaces ∧
      messageTry 1 [] context = .ok (.ok ⟨1, text⟩, context') ∧ Served context' replies ∧
      context'.sock.sent = context.sock.sent ++ frame ⟨1, []⟩ := by
  obtain ⟨accepted, more, hanswers, hall, hlen⟩ := h.accepted
  obtain ⟨texts, rest, htexts, hstream⟩ := h.arrived
  obtain _ | ⟨htext, htexts⟩ := htexts
  rename_i text texts
  have hframe : (frame ⟨1, []⟩).length = headerSize := rfl
  rw [List.length_cons, Nat.mul_succ] at hlen
  obtain ⟨left, hsuffix, hleft, hwrite⟩ :=
    @writeAllTry_accepted accepted (frame ⟨1, []⟩) more hall (by omega)
  rw [← hanswers] at hwrite
  have hname : messageTypeToSocket 1 = pure .sock := rfl
  let sent : Context := { context with
    sock := ⟨context.sock.arrivals, left ++ more, context.sock.sent ++ frame ⟨1, []⟩⟩ }
  have hsend : messageSendTry 1 [] context = .ok (.ok (), sent) :=
    messageSendTry_eq (by decide) h.state hname (by decide) h.debug hwrite
  rw [List.map_cons, List.flatMap_cons, List.map_append, List.append_assoc] at hstream
  obtain ⟨-, -, -, -, hsize⟩ := id htext
  obtain ⟨arrivals, harrivals, hreceive⟩ :=
    messageReceiveTry_frame (show sent.state = .READY from h.state) hname hsize hstream
  have hmatches : matchesType 1 ⟨1, text⟩ = true := by
    rw [matchesType, decide_eq_true rfl, Bool.true_or]
  rw [if_pos hmatches] at hreceive
  refine ⟨text, { sent with sock := { sent.sock with arrivals } }, htext, ?_,
    ⟨h.state, h.debug, ⟨left, more, rfl, ?_, ?_⟩, ⟨texts, rest, htexts, harrivals⟩⟩, rfl⟩
  · rw [messageTry, Call.bind_of_ok hsend]
    exact hreceive
  · exact fun answer hanswer => hall answer (hsuffix.subset hanswer)
  · omega

/-- **An answer of i3 is read.** -/
theorem queryWorkspaces_served {context : Context} {workspaces : List Workspace}
    {replies : List (List Workspace)} (h : Served context (workspaces :: replies)) :
    ∃ context', queryWorkspaces context = .ok (some workspaces, context') ∧
      Served context' replies ∧ context'.sock.sent = context.sock.sent ++ frame ⟨1, []⟩ := by
  obtain ⟨text, context', htext, hmessage, hserved, hsent⟩ := messageTry_served h
  obtain ⟨js, hspells, hjs, hworkspaces, hsize⟩ := htext
  have hlen : text.length < 2 ^ 31 := by
    rw [headerSize, size_max] at hsize
    omega
  obtain ⟨r, hreply, hholds⟩ := @parseTry_accepts context' hserved.state .REPLY_WORKSPACES
    (by decide) ⟨1, text⟩ (.arr js) (scanTokens_of_spells hspells) hjs
  have hread := readWorkspaces_spells hspells hlen hworkspaces hholds
  refine ⟨context', ?_, hserved, hsent⟩
  rw [queryWorkspaces, getWorkspaces, messageAndParseTry,
    Call.bind_of_ok (checkState_ready h.state), Call.bind_of_ok hmessage, hreply]
  dsimp only
  rw [hread]

/-! ## From the socket to the elements -/

/-- The elements show the last one of some answers. -/
def ShowsLast (m : WorkspaceModule) (answers : List (List Workspace)) : Prop :=
  ∃ earlier last, answers = earlier ++ [last] ∧
    List.Forall₂ WorkspaceModule.Shows m.elements last

/-- Names that can be printed. -/
def Printable (workspaces : List Workspace) : Prop :=
  ∀ ws ∈ workspaces, ws.name.bytes.length ≤ 252

instance (workspaces : List Workspace) : Decidable (Printable workspaces) :=
  inferInstanceAs (Decidable (∀ ws ∈ workspaces, ws.name.bytes.length ≤ 252))

/-- A step has gone from `context` to `context'`, with these answers to as many requests. -/
structure Answered (context : Context) (answers left : List (List Workspace)) (m : WorkspaceModule)
    (context' : Context) : Prop where
  shows : ShowsLast m answers
  served : Served context' left
  sent : context'.sock.sent = context.sock.sent ++ answers.flatMap fun _ => frame ⟨1, []⟩

theorem initializeElements_served {context : Context} {workspaces : List Workspace}
    {replies : List (List Workspace)} (h : Served context (workspaces :: replies))
    (hprintable : Printable workspaces) (m : WorkspaceModule) :
    ∃ m' context', initializeElements m context = .ok (m', context') ∧
      Answered context [workspaces] replies m' context' := by
  obtain ⟨context', hquery, hserved, hsent⟩ := queryWorkspaces_served h
  obtain ⟨m', hm'⟩ := (WorkspaceModule.exists_initializeElements_iff m workspaces).mpr hprintable
  refine ⟨m', context', ?_, ⟨[], workspaces, rfl, ?_⟩, hserved, ?_⟩
  · rw [initializeElements, hquery]
    show (inElements (m.initializeElements (some workspaces)) >>= _) = _
    rw [hm']
    rfl
  · exact (WorkspaceModule.initializeElements_eq_ok hm').1
  · rw [List.flatMap_singleton]
    exact hsent

/-- What an update does with a reply. -/
theorem updateElements_eq {m : WorkspaceModule} {context context' : Context}
    {workspaces : List Workspace} {updated : List (BarElement WorkspaceHandler)}
    (hquery : queryWorkspaces context = .ok (some workspaces, context'))
    (hupdated : (m.elements.zip workspaces).mapM (fun p =>
      WorkspaceModule.updateElement p.1 p.2) = .ok updated) :
    (workspaces.length = m.elements.length →
      updateElements m context = .ok (⟨updated ++ m.elements.drop workspaces.length⟩, context') ∧
        List.Forall₂ WorkspaceModule.Shows (updated ++ m.elements.drop workspaces.length)
          workspaces) ∧
      (workspaces.length ≠ m.elements.length → updateElements m context =
        initializeElements ⟨updated ++ m.elements.drop workspaces.length⟩ context') := by
  have hkept := WorkspaceModule.length_updated hupdated
  have hrun : updateElements m context =
      if workspaces.length ≠ (updated ++ m.elements.drop workspaces.length).length then
        initializeElements ⟨updated ++ m.elements.drop workspaces.length⟩ context'
      else .ok (⟨updated ++ m.elements.drop workspaces.length⟩, context') := by
    rw [updateElements, hquery]
    show (inElements ((m.elements.zip workspaces).mapM fun p =>
      WorkspaceModule.updateElement p.1 p.2) >>= _) = _
    rw [hupdated]
    rfl
  constructor
  · intro hlen
    have hsame := not_not_intro (hlen.trans hkept.symm)
    have hm : m.updateElements (some workspaces) none =
        .ok ⟨updated ++ m.elements.drop workspaces.length⟩ := by
      simp only [WorkspaceModule.updateElements, hupdated, bind, Except.bind]
      rw [if_neg hsame]
      rfl
    exact ⟨hrun.trans (if_neg hsame),
      ((WorkspaceModule.updateElements_same hlen none).2 _ hm).1⟩
  · intro hlen
    exact hrun.trans (if_pos (by rwa [hkept]))

/-- An update takes one answer, or two if the number of workspaces has changed. -/
theorem updateElements_served {context : Context} {workspaces workspaces' : List Workspace}
    {replies : List (List Workspace)} (h : Served context (workspaces :: workspaces' :: replies))
    (hprintable : Printable workspaces) (hprintable' : Printable workspaces') (m : WorkspaceModule) :
    ∃ m' context' answers left, workspaces :: workspaces' :: replies = answers ++ left ∧
      answers.length ≤ 2 ∧ updateElements m context = .ok (m', context') ∧
      Answered context answers left m' context' := by
  obtain ⟨context₁, hquery, hserved, hsent⟩ := queryWorkspaces_served h
  obtain ⟨updated, hupdated⟩ := (WorkspaceModule.exists_updated_iff m.elements workspaces).mpr
    fun ws hws => hprintable ws (List.mem_of_mem_take hws)
  obtain ⟨hsame, hchanged⟩ := updateElements_eq hquery hupdated
  by_cases hlen : workspaces.length = m.elements.length
  · obtain ⟨hrun, hshows⟩ := hsame hlen
    refine ⟨_, context₁, [workspaces], workspaces' :: replies, rfl, by simp, hrun,
      ⟨[], workspaces, rfl, hshows⟩, hserved, ?_⟩
    rw [List.flatMap_singleton]
    exact hsent
  · obtain ⟨m', context', hinitialize, hanswered⟩ := initializeElements_served hserved hprintable'
      ⟨updated ++ m.elements.drop workspaces.length⟩
    obtain ⟨earlier, last, heq, hshows⟩ := hanswered.shows
    refine ⟨m', context', [workspaces, workspaces'], replies, rfl, by simp,
      (hchanged hlen).trans hinitialize,
      ⟨workspaces :: earlier, last, congrArg (workspaces :: ·) heq, hshows⟩, hanswered.served, ?_⟩
    rw [hanswered.sent, hsent, List.append_assoc]
    rfl

/-- Updates use at most two answers each, and in the end the elements show the last one. -/
theorem updates_served : ∀ {n : Nat} {context context₀ : Context} {m : WorkspaceModule}
    {answers replies : List (List Workspace)},
    Answered context₀ answers replies m context → (∀ workspaces ∈ replies, Printable workspaces) →
    2 * n ≤ replies.length →
    ∃ m' context' answers' left, replies = answers' ++ left ∧
      updates n m context = .ok (m', context') ∧
      Answered context₀ (answers ++ answers') left m' context' := by
  intro n
  induction n with
  | zero =>
    intro context context₀ m answers replies h _ _
    exact ⟨m, context, [], replies, rfl, rfl, by rwa [List.append_nil]⟩
  | succ n ih =>
    intro context context₀ m answers replies h hprintable hlen
    obtain _ | ⟨workspaces, _ | ⟨workspaces', replies⟩⟩ := replies
    · simp at hlen
    · simp only [List.length_cons, List.length_nil] at hlen
      omega
    obtain ⟨m₁, context₁, answers₁, left₁, hsplit, hused, hupdate, hanswered⟩ :=
      updateElements_served h.served (hprintable _ List.mem_cons_self)
        (hprintable _ (List.mem_cons_of_mem _ List.mem_cons_self)) m
    have hanswered₁ : Answered context₀ (answers ++ answers₁) left₁ m₁ context₁ := by
      obtain ⟨earlier, last, heq, hshows⟩ := hanswered.shows
      refine ⟨⟨answers ++ earlier, last, by rw [heq, List.append_assoc], hshows⟩, hanswered.served, ?_⟩
      rw [hanswered.sent, h.sent, List.flatMap_append, List.append_assoc]
    have hlength := congrArg List.length hsplit
    rw [List.length_append] at hlength
    obtain ⟨m', context', answers', left, hsplit', hupdates, hanswered'⟩ := ih hanswered₁
      (fun ws hws => hprintable ws (hsplit ▸ List.mem_append_right _ hws)) (by omega)
    refine ⟨m', context', answers₁ ++ answers', left, ?_, ?_, ?_⟩
    · rw [hsplit, hsplit', List.append_assoc]
    · rw [updates, hupdate]
      exact hupdates
    · rwa [← List.append_assoc]

/-- **From the bytes of i3 to the bar**: if i3 accepts the connections and answers with texts that
describe workspaces, then the module is made and updated without a failure; after it the elements show
the workspaces of the last answer that has been asked for, and nothing but the requests for the answers
has been sent. Neither the cuts in the bytes nor the writing of the JSON matter. -/
theorem run_served {n : Nat} {sock sock_events : Socket} {connections : List (Option Socket)}
    {replies : List (List Workspace)}
    (h : Served { Context.start connections with state := .READY, sock, sock_events } replies)
    (hprintable : ∀ workspaces ∈ replies, Printable workspaces) (hlen : 2 * n < replies.length) :
    ∃ m context' answers left, replies = answers ++ left ∧
      run n (.start (some sock :: some sock_events :: connections)) = .ok (m, context') ∧
      ShowsLast m answers ∧ Served context' left ∧
      context'.sock.sent = sock.sent ++ answers.flatMap fun _ => frame ⟨1, []⟩ := by
  obtain _ | ⟨workspaces, replies⟩ := replies
  · simp at hlen
  obtain ⟨hfirst, hrest⟩ := List.forall_mem_cons.mp hprintable
  obtain ⟨m, context, hinitialize, hanswered⟩ := initializeElements_served h hfirst .new
  obtain ⟨m', context', answers, left, rfl, hupdates, hanswered'⟩ :=
    updates_served hanswered hrest (Nat.le_of_lt_succ hlen)
  refine ⟨m', context', workspaces :: answers, left, rfl, ?_, hanswered'.shows, hanswered'.served,
    hanswered'.sent⟩
  rw [run, show initializeElements .new (.start (some sock :: some sock_events :: connections)) =
    .ok (m, context) from (by rw [← hinitialize]; rfl)]
  exact hupdates

/-- The value of a workspace with these two members. -/
theorem hasType_workspace (name : Bytes) (focused : Bool) :
    HasType .REPLY_WORKSPACES_EL {}
      (.obj [(ascii "name".toList, .string name), (ascii "focused".toList, .bool focused)]) := by
  have hname : fieldWithKey (typeGet .REPLY_WORKSPACES_EL) (ascii "name".toList) = some 2 := by
    decide +kernel
  have hfocused : fieldWithKey (typeGet .REPLY_WORKSPACES_EL) (ascii "focused".toList) = some 5 := by
    decide +kernel
  refine .record _ rfl (List.forall_mem_cons.mpr ⟨?_, List.forall_mem_singleton.mpr ?_⟩)
  · intro field f hkey hfield
    obtain rfl := Option.some.inj (hname.symm.trans hkey)
    cases hfield
    exact .string name rfl
  · intro field f hkey hfield
    obtain rfl := Option.some.inj (hfocused.symm.trans hkey)
    cases hfield
    exact .bool focused rfl rfl

/-- `[{"name":"1","focused":true}]` -/
theorem describes_workspace : Describes (ascii "[\x7b\"name\":\"1\",\"focused\":true\x7d]".toList)
    [⟨⟨[49], by decide⟩, true⟩] := by
  have hblank : Blank [] := by simp [Blank]
  refine ⟨[.obj [(ascii "name".toList, .string [49]), (ascii "focused".toList, .bool true)]], ?_,
    .inline rfl rfl (.array _ rfl (List.forall_mem_singleton.mpr (hasType_workspace [49] true))),
    rfl, by decide⟩
  exact @Spells.char [] 91 _ _ hblank rfl <| @Spells.char [] 123 _ _ hblank rfl <|
    @Spells.string [] _ _ _ _ hblank (.plain (by decide +kernel)) <|
    @Spells.char [] 58 _ _ hblank rfl <|
    @Spells.string [] _ _ _ _ hblank (.plain (by decide +kernel)) <|
    @Spells.char [] 44 _ _ hblank rfl <|
    @Spells.string [] _ _ _ _ hblank (.plain (by decide +kernel)) <|
    @Spells.char [] 58 _ _ hblank rfl <| @Spells.true [] _ _ hblank <|
    @Spells.char [] 125 _ _ hblank rfl <| @Spells.char [] 93 _ _ hblank rfl <|
    @Spells.eof [] hblank

/-- An update, with answers that come in two pieces. -/
theorem run_served_update :
    let wire : Bytes := frame ⟨1, ascii "[\x7b\"name\":\"1\",\"focused\":true\x7d]".toList⟩
    let workspaces : List Workspace := [⟨⟨[49], by decide⟩, true⟩]
    let sock : Socket := ⟨[.data 105 ((wire ++ wire ++ wire).tail.take 50),
      .data ((wire ++ wire ++ wire).getD 51 0) ((wire ++ wire ++ wire).drop 52)],
      List.replicate 42 (.accept 14), []⟩
    ∃ m context' answers left, [workspaces, workspaces, workspaces] = answers ++ left ∧
      run 1 (.start [some sock, some ⟨[], [], []⟩]) = .ok (m, context') ∧
      ShowsLast m answers ∧ Served context' left ∧
      context'.sock.sent = sock.sent ++ answers.flatMap fun _ => frame ⟨1, []⟩ := by
  intro wire workspaces sock
  refine run_served ⟨rfl, rfl, ⟨sock.answers, [], (List.append_nil _).symm, ?_, by decide⟩,
    ⟨List.replicate 3 _, [], .cons describes_workspace (.cons describes_workspace
      (.cons describes_workspace .nil)), by decide +kernel⟩⟩ (by decide) (by decide)
  exact fun answer hanswer => ⟨14, List.eq_of_mem_replicate hanswer⟩

/-! ## Requests that fail -/

end I3ipc

end Photonbar
