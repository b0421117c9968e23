import Photonbar.I3Decodes
import Photonbar.JsonText
import Photonbar.Workspace

/-!
# The reply about workspaces (`i3ipc.h`, `workspace.h`)

What `workspace.h` reads of a reply: `workspaces_size`, and of each element `name` and `focused`.
`readWorkspaces` reads the memory that the parser has made, cell by cell, and `workspaceOf` says
what i3 has meant, of a value of JSON; `readWorkspaces_eq` connects them.

Reading is a search in the log for the last write at a place. Where the memory holds a value
(`Holds`), that is the write which holds it, and so the field at an offset is the member with the
key of that field: the last one, if there are several. Members that the type has no field for are
not in the memory, and make no difference. The one thing that memory cannot tell is a string with a
NUL inside from a shorter one; a name is read up to its first NUL, and `workspaceOf` means it so.
-/

namespace Photonbar

namespace I3ipc

/-! ## Reading -/

/-- What is at a place of the memory: the cell that was written there last. -/
def load (heap : List Write) (q : Ptr) (n : Nat) : Option Cell :=
  match heap.reverse.find? fun w => decide (Reaches q n w) with
  | none => none
  | some w => if w.ptr = q ∧ w.size = n then some w.cell else none

/-- The C string at a place. -/
def loadChars (heap : List Write) (q : Ptr) : Option Bytes :=
  match heap.reverse.find? fun w => decide (Reaches q 1 w) with
  | none => none
  | some w =>
    match w.cell with
    | .chars bs => if w.ptr = q then some (cstr bs) else none
    | _ => none

theorem Stored.load_eq {heap : List Write} {q : Ptr} {n : Nat} {cell : Cell}
    (h : Stored heap q n cell) (hn : 0 < n) : load heap q n = some cell := by
  rw [load, Log.Last.find?_eq h ⟨rfl, by simp only; omega, by simp only; omega⟩]
  exact if_pos ⟨rfl, rfl⟩

theorem Stored.loadChars_eq {heap : List Write} {q : Ptr} {n : Nat} {bs : Bytes}
    (h : Stored heap q n (.chars bs)) (hn : 0 < n) : loadChars heap q = some (cstr bs) := by
  obtain ⟨before, after, hheap, hafter⟩ := h
  have hlast : Log.Last (Reaches q 1) ⟨q, n, .chars bs⟩ heap := by
    refine ⟨before, after, hheap, fun w hw hreaches => hafter w hw ?_⟩
    exact ⟨hreaches.1, by have := hreaches.2.1; omega, hreaches.2.2⟩
  rw [loadChars, hlast.find?_eq ⟨rfl, by simp only; omega, by simp only; omega⟩]
  exact if_pos rfl

/-- A C string of bytes: up to the first NUL. -/
def cstring (bs : Bytes) : CStr :=
  ⟨cstr bs, fun h => by
    simpa using List.mem_takeWhile_imp (p := fun c : UInt8 => decide (c ≠ 0)) h⟩

/-- The text that a pointer leads to; `none` is the null pointer. -/
def loadText (heap : List Write) (q : Ptr) : Option CStr :=
  match load heap q 8 with
  | some (.ptr (some s)) => (loadChars heap s).map cstring
  | some (.payload str) => some (cstring str)
  | _ => none

theorem cstr_append_nul (str : Bytes) : cstr (str ++ [0]) = cstr str := by
  induction str with
  | nil => rfl
  | cons c str ih =>
    by_cases hc : c = 0
    · subst hc
      rfl
    · have hpos : decide (c ≠ 0) = true := by simpa using hc
      have hcons (bs : Bytes) : cstr (c :: bs) = c :: cstr bs :=
        List.takeWhile_cons_of_pos (p := fun c : UInt8 => decide (c ≠ 0)) hpos
      rw [List.cons_append, hcons, hcons, ih]

theorem cstr_cstr (str : Bytes) : cstr (cstr str) = cstr str :=
  List.takeWhile_eq_self_iff.mpr fun _ hc =>
    List.mem_takeWhile_imp (p := fun c : UInt8 => decide (c ≠ 0)) hc

theorem TextAt.loadText_eq {heap : List Write} {b : Ptr} {str : Bytes} (h : TextAt heap b str) :
    loadText heap b = some (cstring str) := by
  have hcstr : cstr (cstr (str ++ [0])) = cstr str := by rw [cstr_append_nul, cstr_cstr]
  rcases h with ⟨q, hq, hstr⟩ | hstr
  · rw [loadText, hq.load_eq (by decide)]
    dsimp only
    rw [hstr.loadChars_eq (Nat.succ_pos _), Option.map_some]
    exact congrArg some (CStr.ext hcstr)
  · rw [loadText, hstr.load_eq (by decide)]

/-! ## Workspaces -/

/-- `&reply->workspaces[i]`. -/
def workspaceAt (q : Ptr) (i : Nat) : Ptr := q.add (i * (typeGet .REPLY_WORKSPACES_EL).size)

/-- What `workspace.h` reads of an element. -/
def readWorkspace (heap : List Write) (q : Ptr) : Option Workspace :=
  match loadText heap (q.add 16), load heap (q.add 29) 1 with
  | some name, some (.bool focused) => some ⟨name, focused⟩
  | _, _ => none

/-- What `workspace.h` reads of a reply: `none` is an access that the memory is not made for. -/
def readWorkspaces (heap : List Write) : Option (List Workspace) :=
  match load heap ⟨0, 8⟩ 4 with
  | some (.int workspaces_size) =>
    (List.range workspaces_size.toInt.toNat).mapM fun i =>
      match load heap ⟨0, 0⟩ 8 with
      | some (.ptr (some q)) => readWorkspace heap (workspaceAt q i)
      | _ => none
  | _ => none

/-- The value of the last member with a key. -/
def member (ms : List (Bytes × Json)) (key : String) : Option Json :=
  (ms.reverse.find? fun m => cstr m.1 = ascii key.toList).map (·.2)

/-- The workspace that a value of JSON describes. -/
def workspaceOf : Json → Option Workspace
  | .obj ms =>
    match member ms "name", member ms "focused" with
    | some (.string name), some (.bool focused) => some ⟨cstring name, focused⟩
    | _, _ => none
  | _ => none

theorem fieldWithKey_iff {type : TypeInfo} {key : String} {field : Nat}
    (h : type.fields.findIdx? (fun f => !f.flags.derived && ascii f.json_name = ascii key.toList) =
      some field) (k : Bytes) :
    fieldWithKey type k = some field ↔ cstr k = ascii key.toList := by
  obtain ⟨hlt, hf, -⟩ := List.findIdx?_eq_some_iff_getElem.mp h
  rw [Bool.and_eq_true] at hf
  constructor
  · intro hk
    obtain ⟨f, hf', -, hname⟩ := fieldWithKey_spec hk
    rw [List.getElem?_eq_getElem hlt] at hf'
    cases hf'
    rw [← hname, of_decide_eq_true hf.2]
  · intro hk
    rw [fieldWithKey, hk]
    exact h

theorem lastMember_eq_member {type : TypeInfo} {key : String} {field : Nat}
    (h : type.fields.findIdx? (fun f => !f.flags.derived && ascii f.json_name = ascii key.toList) =
      some field) (ms : List (Bytes × Json)) : lastMember type ms field = member ms key := by
  rw [lastMember, member]
  congr 2
  funext m
  exact decide_eq_decide.mpr (fieldWithKey_iff h m.1)

section Inversion

variable {heap : List Write} {type_id : TypeId} {type_flags : TypeFlags} {b : Ptr} {j : Json}

theorem Holds.record_inv (hshape : shape type_id type_flags = .record)
    (h : Holds heap type_id type_flags b j) :
    ∃ ms, j = .obj ms ∧ ∀ field f v, (typeGet type_id).fields[field]? = some f →
      lastMember (typeGet type_id) ms field = some v →
        Holds heap f.type f.flags (b.add f.offset) v := by
  cases h with
  | record h hfields hderived => exact ⟨_, rfl, hfields⟩
  | _ => simp_all

theorem Holds.string_inv (hshape : shape type_id type_flags = .string)
    (h : Holds heap type_id type_flags b j) : ∃ str, j = .string str ∧ TextAt heap b str := by
  cases h with
  | string h htext hsize => exact ⟨_, rfl, htext⟩
  | _ => simp_all

theorem Holds.bool_inv (h : Holds heap .BOOL {} b j) :
    ∃ flag, j = .bool flag ∧ Stored heap b 1 (.bool flag) := by
  have hshape : shape .BOOL {} = .primitive := rfl
  cases h with
  | bool h htype hcell => exact ⟨_, rfl, hcell⟩
  | _ => simp_all [primitiveCell]

theorem Holds.array_inv (hshape : shape type_id type_flags = .array)
    (h : Holds heap type_id type_flags b j) :
    ∃ js q, j = .arr js ∧ Stored heap b 8 (.ptr (some q)) ∧
      ∀ i j, js[i]? = some j → Holds heap type_id {} (q.add (i * (typeGet type_id).size)) j := by
  cases h with
  | array h hq hjs => exact ⟨_, _, rfl, hq, hjs⟩
  | _ => simp_all

theorem Holds.inline_inv (hshape : shape type_id type_flags = .inline)
    (h : Holds heap type_id type_flags b j) :
    ∃ f, (typeGet type_id).fields.head? = some f ∧
      Holds heap f.type f.flags (b.add f.offset) j ∧
      DerivedAt heap f (derivedFields (typeGet type_id) 0) b j := by
  cases h with
  | inline h hf hj hderived => exact ⟨_, hf, hj, hderived⟩
  | _ => simp_all

end Inversion

/-- An element is read as what it describes. -/
theorem readWorkspace_eq {heap : List Write} {q : Ptr} {j : Json} {ws : Workspace}
    (h : Holds heap .REPLY_WORKSPACES_EL {} q j) (hws : workspaceOf j = some ws) :
    readWorkspace heap q = some ws := by
  obtain ⟨ms, rfl, hfields⟩ := h.record_inv rfl
  rw [workspaceOf] at hws
  split at hws
  next name focused hname hfocused =>
    cases hws
    obtain ⟨str, hstr, htext⟩ := (hfields 2 _ _ rfl
      ((lastMember_eq_member rfl ms).trans hname)).string_inv rfl
    cases hstr
    obtain ⟨flag, hflag, hcell⟩ := (hfields 5 _ _ rfl
      ((lastMember_eq_member rfl ms).trans hfocused)).bool_inv
    cases hflag
    have htext : loadText heap (q.add 16) = some (cstring name) := htext.loadText_eq
    have hcell : load heap (q.add 29) 1 = some (.bool focused) := hcell.load_eq Nat.one_pos
    rw [readWorkspace, htext, hcell]
  next => cases hws

/-- The elements of a list, one index after another. -/
theorem mapM_range {α β : Type} {f : α → Option β} {l : List α} {bs : List β}
    (h : l.mapM f = some bs) : ∀ {g : Nat → Option β},
      (∀ i a b, l[i]? = some a → f a = some b → g i = some b) →
        (List.range l.length).mapM g = some bs := by
  induction l generalizing bs with
  | nil =>
    cases h
    exact fun _ => rfl
  | cons a l ih =>
    intro g hg
    rw [List.mapM_cons, Option.bind_eq_bind, Option.bind_eq_some_iff] at h
    obtain ⟨b, hb, h⟩ := h
    rw [Option.bind_eq_bind, Option.bind_eq_some_iff] at h
    obtain ⟨bs', hbs', h⟩ := h
    cases h
    have hrest := ih hbs' (g := fun i => g (i + 1)) fun i a b hi ha => hg (i + 1) a b hi ha
    rw [List.length_cons, List.range_succ_eq_map, List.mapM_cons, hg 0 a b rfl hb, List.mapM_map]
    show (do let bs ← (List.range l.length).mapM fun i => g (i + 1); pure (b :: bs)) = _
    rw [hrest]
    rfl

/-- **The workspaces that are read are those that i3 has sent**, in their order. -/
theorem readWorkspaces_eq {heap : List Write} {js : List Json} {wss : List Workspace}
    (h : Holds heap .REPLY_WORKSPACES {} ⟨0, 0⟩ (.arr js)) (hlen : js.length < 2 ^ 31)
    (hwss : js.mapM workspaceOf = some wss) : readWorkspaces heap = some wss := by
  obtain ⟨f, hf, hj, hderived⟩ := h.inline_inv rfl
  cases hf
  obtain ⟨js', q, hjs', hq, hjs⟩ := hj.array_inv rfl
  cases hjs'
  have hsize : load heap ⟨0, 8⟩ 4 = some (.int (Int32.ofNat js.length)) :=
    (hderived _ List.mem_cons_self 4 _ rfl).load_eq (by decide)
  have hptr : load heap ⟨0, 0⟩ 8 = some (.ptr (some q)) := hq.load_eq (by decide)
  have hcount : (Int32.ofNat js.length).toInt.toNat = js.length := by
    rw [Int32.toInt_ofNat_of_lt hlen, Int.toNat_natCast]
  rw [readWorkspaces, hsize]
  dsimp only
  rw [hcount]
  simp only [hptr]
  exact mapM_range hwss fun i j ws hi hws => readWorkspace_eq (hjs i j hi) hws

/-- The workspaces of a text are read from the memory that holds them. -/
theorem readWorkspaces_spells {heap : List Write} {text : Bytes} {js : List Json}
    {wss : List Workspace} (hspells : Spells ((Json.arr js).tokens [.eof]) text)
    (hlen : text.length < 2 ^ 31) (hwss : js.mapM workspaceOf = some wss)
    (h : Holds heap .REPLY_WORKSPACES {} ⟨0, 0⟩ (.arr js)) : readWorkspaces heap = some wss := by
  have hsize : js.length + 1 < ((Json.arr js).tokens [.eof]).length :=
    length_arrTokens (fun j _ => Json.length_tokens j) 0 [.eof]
  have hle := hspells.length_le
  exact readWorkspaces_eq h (by omega) hwss

end I3ipc

end Photonbar
