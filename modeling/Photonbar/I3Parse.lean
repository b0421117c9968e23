import Photonbar.I3Types
import Photonbar.JsonScan
import Photonbar.Loops

/-!
# The parser of the messages of i3 (`i3ipc.h`)

`i3ipc__parse_helper` goes through the tokens of a message along the type that is expected. It runs
twice: the first pass has no memory and notes how much is needed, one allocation after another; the
second pass writes. A pointer of the second pass is an allocation and an offset in it, and `heap`
has the writes in their order.

The recursion of the source follows the tokens; here it has fuel, and so have the loops. `err_flag`
and a return value other than 0 are the error `mismatch`; an assertion that fails, or an access
outside an array, is an error of its own, and so is fuel that runs out, so that a theorem can tell
them apart.

The function of the source is one long case distinction. Each case is a definition of its own here,
which is given the parser for the values inside (`parseMaybe`, `parseArray`, `parseRecord` and so
on), and has its lemma in each of the modules about the parser.
-/

namespace Photonbar

namespace I3ipc

/-! ## Tokens -/

/-- `I3ipc_json_token_type`; a character is its own type. -/
inductive JsonType where
  | EOF | BOOL | NULL | STRING | NUMBER
  | char (c : UInt8)
  deriving DecidableEq

/-- The type of a token. -/
def JsonToken.type {σ : Type} : JsonToken σ → JsonType
  | .eof => .EOF
  | .char c => .char c
  | .bool _ => .BOOL
  | .null => .NULL
  | .string _ => .STRING
  | .number _ _ => .NUMBER

/-- Why the parser stops. -/
inductive ParseStop where
  /-- a token of a wrong type -/
  | mismatch
  /-- an assertion of the source, or an access outside an array -/
  | assertion
  /-- not an event of the source -/
  | fuel
  deriving DecidableEq

/-- The tokens from `tokens_cur` on. -/
abbrev Tokens : Type := List (JsonToken Bytes)

/-- `i3ipc__json_matchany`. -/
def jsonMatchany (types : List JsonType) : Tokens → Except ParseStop (JsonToken Bytes × Tokens)
  | [] => .error .assertion
  | tok :: toks => if tok.type ∈ types then .ok (tok, toks) else .error .mismatch

/-- `i3ipc__json_match`. -/
def jsonMatch (type : JsonType) (toks : Tokens) : Except ParseStop (JsonToken Bytes × Tokens) :=
  jsonMatchany [type] toks

theorem jsonMatchany_ok {types : List JsonType} {toks : Tokens} {r : JsonToken Bytes × Tokens}
    (h : jsonMatchany types toks = .ok r) : toks = r.1 :: r.2 ∧ r.1.type ∈ types := by
  cases toks with
  | nil => cases h
  | cons tok toks =>
    rw [jsonMatchany] at h
    split at h
    next hmem =>
      cases h
      exact ⟨rfl, hmem⟩
    next => cases h

theorem jsonMatch_ok {type : JsonType} {toks : Tokens} {r : JsonToken Bytes × Tokens}
    (h : jsonMatch type toks = .ok r) : toks = r.1 :: r.2 ∧ r.1.type = type := by
  obtain ⟨htoks, htype⟩ := jsonMatchany_ok h
  exact ⟨htoks, List.mem_singleton.mp htype⟩

/-- `i3ipc__json_trymatch`: the tokens behind the match, if there is one. -/
def jsonTrymatch (type : JsonType) : Tokens → Except ParseStop (Option Tokens)
  | [] => .error .assertion
  | tok :: toks => .ok (if tok.type = type then some toks else none)

/-- `i3ipc__json_looparr` for the iteration `i`: whether there is another element. -/
def jsonLooparr (i : Nat) (toks : Tokens) : Except ParseStop (Option Unit × Tokens) := do
  if i = 0 then
    let (_, toks) ← jsonMatch (.char 91) toks
    match ← jsonTrymatch (.char 93) toks with
    | some toks => return (none, toks)
    | none => return (some (), toks)
  else
    let (tok, toks) ← jsonMatchany [.char 44, .char 93] toks
    return (if tok.type = .char 44 then some () else none, toks)

/-- The key of a member and its colon. -/
def jsonKey (toks : Tokens) : Except ParseStop (Option Bytes × Tokens) := do
  let (key, toks) ← jsonMatch .STRING toks
  let (_, toks) ← jsonMatch (.char 58) toks
  match key with
  | .string str => return (some str, toks)
  | _ => .error .assertion

/-- `i3ipc__json_loopobj` for the iteration `i`: the key of another member. -/
def jsonLoopobj (i : Nat) (toks : Tokens) : Except ParseStop (Option Bytes × Tokens) := do
  if i = 0 then
    let (_, toks) ← jsonMatch (.char 123) toks
    match ← jsonTrymatch (.char 125) toks with
    | some toks => return (none, toks)
    | none => jsonKey toks
  else
    let (tok, toks) ← jsonMatchany [.char 44, .char 125] toks
    if tok.type = .char 44 then jsonKey toks else return (none, toks)

/-- `i3ipc__json_skip`. A bracket is given back before the loop over what it opens. -/
def jsonSkip : Nat → Tokens → Except ParseStop Tokens
  | 0, _ => .error .fuel
  | n + 1, toks => do
    let (tok, rest) ← jsonMatchany [.char 123, .char 91, .STRING, .NUMBER, .BOOL, .NULL] toks
    if tok.type = .char 123 then
      return (← forLoop .fuel jsonLoopobj (fun _ _ toks => jsonSkip n toks) n 0 toks).2
    else if tok.type = .char 91 then
      return (← forLoop .fuel jsonLooparr (fun _ _ toks => jsonSkip n toks) n 0 toks).2
    else return rest

/-! ## Memory -/

/-- A pointer into the memory of the second pass: an allocation and an offset. -/
structure Ptr where
  block : Nat
  offset : Nat
  deriving DecidableEq

/-- A pointer to `n` bytes further on. -/
def Ptr.add (q : Ptr) (n : Nat) : Ptr := ⟨q.block, q.offset + n⟩

/-- What is written. -/
inductive Cell where
  | bool (flag : Bool)
  | int (n : Int32)
  | sizet (n : UInt64)
  /-- the `float` of the number with this text -/
  | float (c : Bytes)
  | ptr (q : Option Ptr)
  /-- a pointer to a string inside the message -/
  | payload (str : Bytes)
  | chars (bs : Bytes)
  deriving DecidableEq

/-- One write. -/
structure Write where
  ptr : Ptr
  size : Nat
  cell : Cell
  deriving DecidableEq

/-- `I3ipc_parse_state_allocs`. -/
structure Alloc where
  size : Nat
  alignment : Nat
  deriving DecidableEq

/-- `I3ipc_parse_state`. -/
structure ParseState where
  toks : Tokens
  allocs : List Alloc
  allocs_size : Nat
  /-- `memory` is not null: the second pass -/
  memory : Bool
  copy_strings : Bool
  heap : List Write
  next_size : Nat
  next_enum : Option Bytes
  next_set : Bool

namespace ParseState

/-- Write at an offset from `base`, unless `base` is null. -/
def store (p : ParseState) (base : Option Ptr) (offset size : Nat) (cell : Cell) : ParseState :=
  match base with
  | none => p
  | some b => { p with heap := p.heap ++ [⟨b.add offset, size, cell⟩] }

end ParseState

/-- `i3ipc__parse_alloc`. -/
def parseAlloc (p : ParseState) (size alignment : Nat) :
    Except ParseStop (Option Ptr × ParseState) :=
  if p.memory then
    if p.allocs_size < p.allocs.length then
      .ok (some ⟨p.allocs_size, 0⟩, { p with allocs_size := p.allocs_size + 1 })
    else .error .assertion
  else
    .ok (none,
      { p with allocs := p.allocs ++ [⟨size, alignment⟩], allocs_size := p.allocs_size + 1 })

/-! ## Derived fields -/

/-- `i3ipc__global_enums`: the values of the fields that are enumerations; `none` is the null
pointer. -/
def globalEnums : List (Text × List (Option Text)) :=
  let values (names : List String) : List (Option Text) := names.map fun s => some s.toList
  [("I3ipc_node.type".toList,
      values ["root", "output", "con", "floating_con", "workspace", "dockarea"]),
    ("I3ipc_node.border".toList, values ["normal", "none", "pixel"]),
    ("I3ipc_node.layout".toList,
      values ["splith", "splitv", "stacked", "tabbed", "dockarea", "output"]),
    ("I3ipc_node.orientation".toList, values ["none", "horizontal", "vertical"]),
    ("I3ipc_node.window_type".toList,
      none :: values ["normal", "dialog", "utility", "toolbar", "splash", "menu", "dropdown_menu",
        "popup_menu", "tooltip", "notification", "dock", "unknown"]),
    ("I3ipc_bar_config.mode".toList, values ["dock", "hide"]),
    ("I3ipc_bar_config.position".toList, values ["bottom", "top"]),
    ("I3ipc_event_workspace.change".toList,
      values ["focus", "init", "empty", "urgent", "reload", "rename", "restored", "move"]),
    ("I3ipc_event_output.change".toList, values ["unspecified"]),
    ("I3ipc_event_window.change".toList,
      values ["new", "close", "focus", "title", "fullscreen_mode", "move", "floating", "urgent",
        "mark"]),
    ("I3ipc_event_binding.change".toList, values ["run"]),
    ("I3ipc_event_binding.input_type".toList, values ["keyboard", "mouse"]),
    ("I3ipc_event_shutdown.change".toList, values ["restart", "exit"])]

/-- The bytes of a string up to its first NUL, as `strcmp` sees it. -/
def cstr (s : Bytes) : Bytes := s.takeWhile (· ≠ 0)

/-- The number of a value, -1 if it is none of the enumeration. -/
def enumValue (values : List (Option Text)) (next_enum : Option Bytes) : Int32 :=
  match values.findIdx? fun s => s.map ascii = next_enum.map cstr with
  | some i => Int32.ofNat i
  | none => -1

/-- One field in the loop of `i3ipc__parse_doderived`. -/
def doderivedField (f0 : Field) (base : Ptr) (p : ParseState) (f : Field) : ParseState :=
  if f.flags.ISSIZE then p.store base f.offset 4 (.int (Int32.ofNat p.next_size))
  else if f.flags.ISFLAG then p.store base f.offset 1 (.bool p.next_set)
  else
    match globalEnums.lookup f0.full_name with
    | none => p
    | some values => p.store base f.offset 4 (.int (enumValue values p.next_enum))

/-- `i3ipc__parse_doderived`: the size, the flag and the number that belong to a field. -/
def parseDoderived (p : ParseState) (type : TypeInfo) (field : Nat) (base : Option Ptr) :
    ParseState :=
  match base with
  | none => p
  | some b =>
    match type.fields[field]? with
    | none => p
    | some f0 =>
      ((type.fields.drop (field + 1)).takeWhile (·.flags.derived)).foldl (doderivedField f0 b) p

/-! ## The parser -/

/-- The field of a type with this key. -/
def fieldWithKey (type : TypeInfo) (key : Bytes) : Option Nat :=
  type.fields.findIdx? fun f => !f.flags.derived && ascii f.json_name = cstr key

/-- `i3ipc__parse_loopfields` for the iteration `i`: the next field, past the keys that the type does
not have. -/
def parseLoopfields (type : TypeInfo) :
    Nat → Nat → Tokens → Except ParseStop (Option Nat × Tokens)
  | 0, _, _ => .error .fuel
  | n + 1, i, toks => do
    match ← jsonLoopobj i toks with
    | (none, toks) => return (none, toks)
    | (some key, toks) =>
      match fieldWithKey type key with
      | some field => return (some field, toks)
      | none => parseLoopfields type n 1 (← jsonSkip n toks)

/-- Run on the tokens of a state. -/
def onTokens {κ : Type} (next : Tokens → Except ParseStop (Option κ × Tokens)) (p : ParseState) :
    Except ParseStop (Option κ × ParseState) := do
  let (k, toks) ← next p.toks
  return (k, { p with toks })

/-- `is_string_type`. -/
def isStringType (type_id : TypeId) (flags : TypeFlags) : Bool :=
  (type_id = .STRING && flags = {}) || (type_id = .CHAR && flags.ISARRAY)

/-- What is written for a primitive type, and its size. -/
def primitiveCell (type_id : TypeId) (tok : JsonToken Bytes) : Option (Nat × Cell) :=
  match type_id, tok with
  | .BOOL, .bool flag => some (1, .bool flag)
  | .SIZET, .number _ n => some (8, .sizet n)
  | .INT, .number _ n => some (4, .int n.toUInt32.toInt32)
  | .FLOAT, .number c _ => some (4, .float c)
  | _, _ => none

/-- The end of `i3ipc__parse_helper`: `next_set` and `next_enum`. -/
def ParseState.finish (p : ParseState) (next_set : Bool) (next_enum : Option Bytes) : ParseState :=
  { p with next_set, next_enum }

/-- `str_base`: a copy of a string, or the string inside the message. -/
def copyString (str : Bytes) (base : Option Ptr) (p : ParseState) :
    Except ParseStop (Cell × ParseState) :=
  if p.copy_strings then do
    let (str_base, p) ← parseAlloc p (str.length + 1) 1
    let p := if base = none then p else p.store str_base 0 (str.length + 1) (.chars (str ++ [0]))
    return (.ptr str_base, p)
  else return (.payload str, p)

/-- What is written for a string at `base`, an `I3ipc_string` or a `char *`. -/
def storeString (type_id : TypeId) (str : Bytes) (cell : Cell) (base : Option Ptr)
    (p : ParseState) : ParseState :=
  if base = none then p.finish true none
  else if type_id = .STRING then
    ((p.store base 0 8 cell).store base 8 4 (.int (Int32.ofNat str.length))).finish true (some str)
  else { p.store base 0 8 cell with next_size := str.length }.finish true (some str)

/-- The case of a string. -/
def parseString (type_id : TypeId) (base : Option Ptr) (p : ParseState) :
    Except ParseStop ParseState := do
  let (tok, toks) ← jsonMatch .STRING p.toks
  match tok with
  | .string str =>
    let (cell, p) ← copyString str base { p with toks }
    return storeString type_id str cell base p
  | _ => .error .assertion

/-- The case of a primitive type. -/
def parsePrimitive (type_id : TypeId) (base : Option Ptr) (p : ParseState) :
    Except ParseStop ParseState := do
  let (tok, toks) ← jsonMatch (if type_id = .BOOL then .BOOL else .NUMBER) p.toks
  let p : ParseState := { p with toks }
  if base = none then return p.finish true none
  else
    match primitiveCell type_id tok with
    | some (size, cell) => return (p.store base 0 size cell).finish true none
    | none => .error .assertion

section Cases

variable (parse : TypeId → TypeFlags → Option Ptr → ParseState → Except ParseStop ParseState)

/-- `ptr_base`: new memory for a pointer, `base` itself for an optional field. -/
def pointee (type : TypeInfo) (type_flags : TypeFlags) (base : Option Ptr) (p : ParseState) :
    Except ParseStop (Option Ptr × ParseState) :=
  if type_flags.ISPTR then do
    let (ptr_base, p) ← parseAlloc p type.size type.alignment
    return (ptr_base, p.store base 0 8 (.ptr ptr_base))
  else return (base, p)

/-- The case of a pointer or an optional field. -/
def parseMaybe (type_id : TypeId) (type_flags : TypeFlags) (base : Option Ptr) (p : ParseState) :
    Except ParseStop ParseState := do
  match ← jsonTrymatch .NULL p.toks with
  | some toks => return { p with toks, next_size := 0 }.finish false none
  | none =>
    let (ptr_base, p) ← pointee (typeGet type_id) type_flags base p
    let p ← parse type_id type_flags.withoutMaybe ptr_base p
    return p.finish true p.next_enum

/-- `i_arr_base`. -/
def elementBase (base arr_base : Option Ptr) (offset : Nat) : Option Ptr :=
  if base = none then none else arr_base.map (·.add offset)

/-- The case of an array. Its size is known only behind the loop. -/
def parseArray (n : Nat) (type_id : TypeId) (base : Option Ptr) (p : ParseState) :
    Except ParseStop ParseState := do
  let size := (typeGet type_id).size
  let index := p.allocs_size
  let (arr_base, p) ← parseAlloc p (2 ^ 64 - 1) (typeGet type_id).alignment
  let (i, p) ← forLoop .fuel (fun i => onTokens (jsonLooparr i))
    (fun i _ p => parse type_id {} (elementBase base arr_base (i * size)) p)
    n 0 (p.store base 0 8 (.ptr arr_base))
  let allocs :=
    if base = none then p.allocs.modify index fun a => { a with size := i * size } else p.allocs
  return { p with allocs, next_size := i }.finish true none

/-- The case of a type that is stored as its first field. -/
def parseInline (type_id : TypeId) (base : Option Ptr) (p : ParseState) :
    Except ParseStop ParseState :=
  match (typeGet type_id).fields with
  | [] => .error .assertion
  | field :: _ => do
    let p ← parse field.type field.flags (base.map (·.add field.offset)) p
    return (parseDoderived p (typeGet type_id) 0 base).finish true none

/-- One member of an object. -/
def parseField (type_id : TypeId) (base : Option Ptr) (field : Nat) (p : ParseState) :
    Except ParseStop ParseState :=
  match (typeGet type_id).fields[field]? with
  | none => .error .assertion
  | some f => do
    let p ← parse f.type f.flags (base.map (·.add f.offset)) p
    return parseDoderived p (typeGet type_id) field base

/-- The case of an object. -/
def parseRecord (n : Nat) (type_id : TypeId) (base : Option Ptr) (p : ParseState) :
    Except ParseStop ParseState := do
  let (_, p) ← forLoop .fuel (fun i => onTokens (parseLoopfields (typeGet type_id) n i))
    (fun _ field p => parseField parse type_id base field p) n 0 p
  return p.finish true none

end Cases

/-- `i3ipc__parse_helper`. -/
def parseHelper : Nat → TypeId → TypeFlags → Option Ptr → ParseState → Except ParseStop ParseState
  | 0, _, _, _, _ => .error .fuel
  | n + 1, type_id, type_flags, base, p =>
    if type_id = .EVENT then .error .assertion
    else if type_flags.maybe then parseMaybe (parseHelper n) type_id type_flags base p
    else if isStringType type_id type_flags then parseString type_id base p
    else if type_flags.ISARRAY then parseArray (parseHelper n) n type_id base p
    else if (typeGet type_id).is_inline then parseInline (parseHelper n) type_id base p
    else if type_flags = {} then
      if (typeGet type_id).is_primitive then parsePrimitive type_id base p
      else parseRecord (parseHelper n) n type_id base p
    else .error .assertion

end I3ipc

end Photonbar
