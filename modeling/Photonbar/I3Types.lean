import Photonbar.CString

/-!
# The types of the messages of i3 (`i3ipc.h`)

The parser of `i3ipc.h` is driven by a table of the types of C that the messages are stored in:
their fields with type, flags, name and offset. The sizes and offsets of the table are `sizeof` and
`offsetof`; here they are computed from the members by the rules of the ABI (`mkType`), so that
nothing about them is taken on trust but these rules.

A struct is written as the source writes it, by one macro for each member (`DOFIELD`, `DOMAYBE`,
`DOARRAY` and so on), some of which stand for several fields: an array with its size, an
enumeration with its number.

What the parser relies on is that every field lies inside its type (`fields_fit`), that the fields
of a type do not overlap (`fields_apart`), and that no field has flags that no case of the parser
is for (`fields_handled`). The table is finite, and these facts are decided type by type.
-/

namespace Photonbar

namespace I3ipc

/-- `I3ipc_type_values`. -/
inductive TypeId where
  | BOOL | CHAR | INT | FLOAT | SIZET
  | RECT | STRING | NODE | BAR_CONFIG
  | NODE_WINDOW_PROPERTIES | BAR_CONFIG_COLORS | REPLY_COMMAND_EL | REPLY_OUTPUTS_EL
  | REPLY_WORKSPACES_EL | EVENT_BINDING_BINDING
  | REPLY_COMMAND | REPLY_WORKSPACES | REPLY_SUBSCRIBE | REPLY_OUTPUTS | REPLY_TREE | REPLY_MARKS
  | REPLY_BAR_CONFIG_IDS | REPLY_BAR_CONFIG | REPLY_VERSION | REPLY_BINDING_MODES | REPLY_CONFIG
  | REPLY_TICK | REPLY_SYNC
  | EVENT | EVENT_WORKSPACE | EVENT_OUTPUT | EVENT_MODE | EVENT_WINDOW | EVENT_BARCONFIG_UPDATE
  | EVENT_BINDING | EVENT_SHUTDOWN | EVENT_TICK
  deriving DecidableEq

/-- The flags of a field. -/
structure TypeFlags where
  ISARRAY : Bool := false
  ISSIZE : Bool := false
  ISENUM : Bool := false
  ISPTR : Bool := false
  ISOPT : Bool := false
  ISOMIT : Bool := false
  ISFLAG : Bool := false
  deriving DecidableEq

namespace TypeFlags

/-- `type_flags & I3IPC_TYPE_GROUP_DERIVED`. -/
def derived (f : TypeFlags) : Bool := f.ISSIZE || f.ISENUM || f.ISFLAG

/-- `type_flags & I3IPC_TYPE_GROUP_MAYBE`. -/
def maybe (f : TypeFlags) : Bool := f.ISPTR || f.ISOPT

/-- `type_flags & ~I3IPC_TYPE_GROUP_MAYBE`. -/
def withoutMaybe (f : TypeFlags) : TypeFlags := { f with ISPTR := false, ISOPT := false }

end TypeFlags

/-- `I3ipc_field`. -/
structure Field where
  type : TypeId
  flags : TypeFlags
  offset : Nat
  full_name : Text
  json_name : Text
  deriving DecidableEq

/-- `I3ipc_type`. -/
structure TypeInfo where
  type : TypeId
  is_primitive : Bool
  is_inline : Bool
  size : Nat
  alignment : Nat
  fields : List Field

/-! ## Layout -/

/-- A member of a struct, with the size and the alignment of its C type. -/
structure Member where
  type : TypeId
  flags : TypeFlags
  name : Text
  size : Nat
  alignment : Nat

/-- The first multiple of the alignment from `off` on. -/
def alignUp (off alignment : Nat) : Nat := (off + (alignment - 1)) / alignment * alignment

/-- The fields of a struct with this name, and where the last one ends. `window_class` is `class` in
JSON, because of C++. -/
def placeMembers (name : Text) : Nat → List Member → List Field × Nat
  | off, [] => ([], off)
  | off, m :: ms =>
    let offset := alignUp off m.alignment
    let full_name := name ++ '.' :: m.name
    let json_name :=
      if full_name = "I3ipc_node_window_properties.window_class".toList then "class".toList
      else m.name
    let (fields, stop) := placeMembers name (offset + m.size) ms
    (⟨m.type, m.flags, offset, full_name, json_name⟩ :: fields, stop)

/-- A struct whose members start at `first`. -/
def mkType (type : TypeId) (name : String) (members : List Member) (is_inline : Bool := false)
    (first : Nat := 0) : TypeInfo :=
  let (fields, stop) := placeMembers name.toList first members
  let alignment := members.foldl (fun a m => max a m.alignment) (max 1 first)
  { type, is_primitive := false, is_inline, size := alignUp stop alignment, alignment, fields }

/-- A primitive type. -/
def primitive (type : TypeId) (size : Nat) : TypeInfo :=
  { type, is_primitive := true, is_inline := false, size, alignment := size, fields := [] }

def boolType : TypeInfo := primitive .BOOL 1
def charType : TypeInfo := primitive .CHAR 1
def intType : TypeInfo := primitive .INT 4
def floatType : TypeInfo := primitive .FLOAT 4
def sizetType : TypeInfo := primitive .SIZET 8

/-- A member that is stored in the struct itself. -/
def inStruct (T : TypeInfo) (name : Text) (flags : TypeFlags) : Member :=
  ⟨T.type, flags, name, T.size, T.alignment⟩

/-- A member that is a pointer. -/
def pointer (subtype : TypeId) (name : Text) (flags : TypeFlags) : Member :=
  ⟨subtype, flags, name, 8, 8⟩

/-- `I3IPC__DOFIELD`. -/
def DOFIELD (T : TypeInfo) (name : String) : List Member := [inStruct T name.toList {}]

/-- `I3IPC__DOPTR`. -/
def DOPTR (subtype : TypeId) (name : String) : List Member :=
  [pointer subtype name.toList { ISPTR := true }]

/-- `I3IPC__DOMAYBE`. -/
def DOMAYBE (T : TypeInfo) (name : String) : List Member :=
  [inStruct T name.toList { ISOPT := true },
    inStruct boolType (name.toList ++ "_set".toList) { ISFLAG := true }]

/-- `I3IPC__DOARRAY2`. -/
def DOARRAY2 (subtype : TypeId) (name : String) (flags : TypeFlags) : List Member :=
  [pointer subtype name.toList { flags with ISARRAY := true },
    inStruct intType (name.toList ++ "_size".toList) { ISSIZE := true }]

/-- `I3IPC__DOARRAY`. -/
def DOARRAY (subtype : TypeId) (name : String) : List Member := DOARRAY2 subtype name {}

/-- `I3IPC__DOARRAY3`. -/
def DOARRAY3 (subtype : TypeId) (name : String) : List Member :=
  DOARRAY2 subtype name { ISOPT := true, ISOMIT := true }

/-- `I3IPC__DOENUM2`. -/
def DOENUM2 (subtype : TypeId) (name : String) (flags : TypeFlags) : List Member :=
  DOARRAY2 subtype name flags ++
    [inStruct intType (name.toList ++ "_enum".toList) { ISENUM := true }]

/-- `I3IPC__DOENUM`. -/
def DOENUM (subtype : TypeId) (name : String) : List Member := DOENUM2 subtype name {}

/-! ## The table -/

def rectType : TypeInfo := mkType .RECT "I3ipc_rect"
  (DOFIELD intType "x" ++ DOFIELD intType "y" ++ DOFIELD intType "width" ++
    DOFIELD intType "height")

def stringType : TypeInfo := mkType .STRING "I3ipc_string" (DOARRAY .CHAR "str")

def nodeWindowPropertiesType : TypeInfo :=
  mkType .NODE_WINDOW_PROPERTIES "I3ipc_node_window_properties"
    (DOARRAY2 .CHAR "title" { ISOPT := true } ++ DOARRAY2 .CHAR "instance" { ISOPT := true } ++
      DOARRAY2 .CHAR "window_class" { ISOPT := true } ++
      DOARRAY2 .CHAR "window_role" { ISOPT := true } ++ DOMAYBE intType "transient_for")

def nodeType : TypeInfo := mkType .NODE "I3ipc_node"
  (DOFIELD sizetType "id" ++ DOARRAY2 .CHAR "name" { ISOPT := true } ++ DOENUM .CHAR "type" ++
    DOENUM .CHAR "border" ++ DOFIELD intType "current_border_width" ++ DOENUM .CHAR "layout" ++
    DOENUM .CHAR "orientation" ++ DOMAYBE floatType "percent" ++ DOFIELD rectType "rect" ++
    DOFIELD rectType "window_rect" ++ DOFIELD rectType "deco_rect" ++
    DOFIELD rectType "geometry" ++ DOMAYBE intType "window" ++
    DOPTR .NODE_WINDOW_PROPERTIES "window_properties" ++
    DOENUM2 .CHAR "window_type" { ISOPT := true } ++ DOFIELD boolType "urgent" ++
    DOARRAY3 .STRING "marks" ++ DOFIELD boolType "focused" ++ DOARRAY .SIZET "focus" ++
    DOFIELD intType "fullscreen_mode" ++ DOARRAY .NODE "nodes" ++ DOARRAY .NODE "floating_nodes")

def barConfigColorsType : TypeInfo := mkType .BAR_CONFIG_COLORS "I3ipc_bar_config_colors"
  (DOARRAY3 .CHAR "background" ++ DOARRAY3 .CHAR "statusline" ++ DOARRAY3 .CHAR "separator" ++
    DOARRAY3 .CHAR "focused_background" ++ DOARRAY3 .CHAR "focused_statusline" ++
    DOARRAY3 .CHAR "focused_separator" ++ DOARRAY3 .CHAR "focused_workspace_text" ++
    DOARRAY3 .CHAR "focused_workspace_bg" ++ DOARRAY3 .CHAR "focused_workspace_border" ++
    DOARRAY3 .CHAR "active_workspace_text" ++ DOARRAY3 .CHAR "active_workspace_bg" ++
    DOARRAY3 .CHAR "active_workspace_border" ++ DOARRAY3 .CHAR "inactive_workspace_text" ++
    DOARRAY3 .CHAR "inactive_workspace_bg" ++ DOARRAY3 .CHAR "inactive_workspace_border" ++
    DOARRAY3 .CHAR "urgent_workspace_text" ++ DOARRAY3 .CHAR "urgent_workspace_bg" ++
    DOARRAY3 .CHAR "urgent_workspace_border" ++ DOARRAY3 .CHAR "binding_mode_text" ++
    DOARRAY3 .CHAR "binding_mode_bg" ++ DOARRAY3 .CHAR "binding_mode_border")

def barConfigType : TypeInfo := mkType .BAR_CONFIG "I3ipc_bar_config"
  (DOARRAY .CHAR "id" ++ DOENUM .CHAR "mode" ++ DOENUM .CHAR "position" ++
    DOARRAY .CHAR "status_command" ++ DOARRAY .CHAR "font" ++
    DOFIELD boolType "workspace_buttons" ++ DOFIELD boolType "binding_mode_indicator" ++
    DOFIELD boolType "verbose" ++ DOFIELD barConfigColorsType "colors")

def replyCommandElType : TypeInfo := mkType .REPLY_COMMAND_EL "I3ipc_reply_command_el"
  (DOFIELD boolType "success" ++ DOARRAY3 .CHAR "error")

def replyWorkspacesElType : TypeInfo := mkType .REPLY_WORKSPACES_EL "I3ipc_reply_workspaces_el"
  (DOFIELD sizetType "id" ++ DOFIELD intType "num" ++ DOARRAY .CHAR "name" ++
    DOFIELD boolType "visible" ++ DOFIELD boolType "focused" ++ DOFIELD boolType "urgent" ++
    DOFIELD rectType "rect" ++ DOARRAY .CHAR "output")

def replyOutputsElType : TypeInfo := mkType .REPLY_OUTPUTS_EL "I3ipc_reply_outputs_el"
  (DOARRAY .CHAR "name" ++ DOFIELD boolType "active" ++ DOFIELD boolType "primary" ++
    DOARRAY2 .CHAR "current_workspace" { ISOPT := true } ++ DOFIELD rectType "rect")

def eventBindingBindingType : TypeInfo :=
  mkType .EVENT_BINDING_BINDING "I3ipc_event_binding_binding"
    (DOARRAY .CHAR "command" ++ DOARRAY .STRING "event_state_mask" ++
      DOFIELD intType "input_code" ++ DOARRAY2 .CHAR "symbol" { ISOPT := true } ++
      DOENUM .CHAR "input_type")

/-- `i3ipc__type_get`. The events have an `int type` in front, which is no field. -/
def typeGet : TypeId → TypeInfo
  | .BOOL => boolType
  | .CHAR => charType
  | .INT => intType
  | .FLOAT => floatType
  | .SIZET => sizetType
  | .RECT => rectType
  | .STRING => stringType
  | .NODE => nodeType
  | .BAR_CONFIG => barConfigType
  | .NODE_WINDOW_PROPERTIES => nodeWindowPropertiesType
  | .BAR_CONFIG_COLORS => barConfigColorsType
  | .REPLY_COMMAND_EL => replyCommandElType
  | .REPLY_OUTPUTS_EL => replyOutputsElType
  | .REPLY_WORKSPACES_EL => replyWorkspacesElType
  | .EVENT_BINDING_BINDING => eventBindingBindingType
  | .REPLY_COMMAND =>
    mkType .REPLY_COMMAND "I3ipc_reply_command" (DOARRAY .REPLY_COMMAND_EL "commands") true
  | .REPLY_WORKSPACES =>
    mkType .REPLY_WORKSPACES "I3ipc_reply_workspaces" (DOARRAY .REPLY_WORKSPACES_EL "workspaces")
      true
  | .REPLY_SUBSCRIBE =>
    mkType .REPLY_SUBSCRIBE "I3ipc_reply_subscribe" (DOFIELD boolType "success")
  | .REPLY_OUTPUTS =>
    mkType .REPLY_OUTPUTS "I3ipc_reply_outputs" (DOARRAY .REPLY_OUTPUTS_EL "outputs") true
  | .REPLY_TREE => mkType .REPLY_TREE "I3ipc_reply_tree" (DOFIELD nodeType "root") true
  | .REPLY_MARKS => mkType .REPLY_MARKS "I3ipc_reply_marks" (DOARRAY .STRING "marks") true
  | .REPLY_BAR_CONFIG_IDS =>
    mkType .REPLY_BAR_CONFIG_IDS "I3ipc_reply_bar_config_ids" (DOARRAY .STRING "ids") true
  | .REPLY_BAR_CONFIG =>
    mkType .REPLY_BAR_CONFIG "I3ipc_reply_bar_config" (DOFIELD barConfigType "cfg") true
  | .REPLY_VERSION =>
    mkType .REPLY_VERSION "I3ipc_reply_version"
      (DOFIELD intType "major" ++ DOFIELD intType "minor" ++ DOFIELD intType "patch" ++
        DOARRAY .CHAR "human_readable" ++ DOARRAY .CHAR "loaded_config_file_name")
  | .REPLY_BINDING_MODES =>
    mkType .REPLY_BINDING_MODES "I3ipc_reply_binding_modes" (DOARRAY .STRING "modes") true
  | .REPLY_CONFIG => mkType .REPLY_CONFIG "I3ipc_reply_config" (DOARRAY .CHAR "config")
  | .REPLY_TICK => mkType .REPLY_TICK "I3ipc_reply_tick" (DOFIELD boolType "success")
  | .REPLY_SYNC => mkType .REPLY_SYNC "I3ipc_reply_sync" (DOFIELD boolType "success")
  | .EVENT => mkType .EVENT "I3ipc_event" []
  | .EVENT_WORKSPACE =>
    mkType .EVENT_WORKSPACE "I3ipc_event_workspace"
      (DOENUM .CHAR "change" ++ DOPTR .NODE "current" ++ DOPTR .NODE "old") false 4
  | .EVENT_OUTPUT =>
    mkType .EVENT_OUTPUT "I3ipc_event_output" (DOENUM .CHAR "change") false 4
  | .EVENT_MODE =>
    mkType .EVENT_MODE "I3ipc_event_mode"
      (DOARRAY .CHAR "change" ++ DOFIELD boolType "pango_markup") false 4
  | .EVENT_WINDOW =>
    mkType .EVENT_WINDOW "I3ipc_event_window"
      (DOENUM .CHAR "change" ++ DOFIELD nodeType "container") false 4
  | .EVENT_BARCONFIG_UPDATE =>
    mkType .EVENT_BARCONFIG_UPDATE "I3ipc_event_barconfig_update" (DOFIELD barConfigType "cfg")
      true 4
  | .EVENT_BINDING =>
    mkType .EVENT_BINDING "I3ipc_event_binding"
      (DOENUM .CHAR "change" ++ DOFIELD eventBindingBindingType "binding") false 4
  | .EVENT_SHUTDOWN =>
    mkType .EVENT_SHUTDOWN "I3ipc_event_shutdown" (DOENUM .CHAR "change") false 4
  | .EVENT_TICK =>
    mkType .EVENT_TICK "I3ipc_event_tick"
      (DOFIELD boolType "first" ++ DOARRAY .CHAR "payload") false 4

/-! ## What the parser relies on -/

/-- How many bytes a field of this type and with these flags has. -/
def extent (type_id : TypeId) (type_flags : TypeFlags) : Nat :=
  if type_flags.ISPTR || type_flags.ISARRAY then 8 else (typeGet type_id).size

/-- What the parser is called for: characters are parsed only as a string, and a pointer does not
point to an array. -/
def Expected (type_id : TypeId) (type_flags : TypeFlags) : Prop :=
  (type_id = .CHAR → type_flags.ISARRAY = true) ∧
    (type_flags.ISPTR = true → type_flags.ISARRAY = false)

instance (type_id : TypeId) (type_flags : TypeFlags) : Decidable (Expected type_id type_flags) :=
  inferInstanceAs (Decidable (_ ∧ _))

/-- What the first pass is called for: flags that no case of the parser is for do not occur. -/
def Handled (type_id : TypeId) (type_flags : TypeFlags) : Prop :=
  type_id ≠ .EVENT ∧ (type_flags.ISARRAY = true ∨ type_flags.withoutMaybe = {})

instance (type_id : TypeId) (type_flags : TypeFlags) : Decidable (Handled type_id type_flags) :=
  inferInstanceAs (Decidable (_ ∧ _))

/-- A field lies inside its type, and a derived one has the type that the parser asserts. -/
structure Field.Fits (f : Field) (size : Nat) : Prop where
  inside : f.offset + extent f.type f.flags ≤ size
  expected : Expected f.type f.flags
  size_int : f.flags.ISSIZE = true → f.type = .INT
  enum_int : f.flags.ISENUM = true → f.type = .INT
  flag_bool : f.flags.ISFLAG = true → f.type = .BOOL
  stored : f.flags.derived = true → f.flags.ISPTR = false ∧ f.flags.ISARRAY = false

instance (f : Field) (size : Nat) : Decidable (f.Fits size) :=
  decidable_of_iff
    (f.offset + extent f.type f.flags ≤ size ∧ Expected f.type f.flags ∧
      (f.flags.ISSIZE = true → f.type = .INT) ∧ (f.flags.ISENUM = true → f.type = .INT) ∧
      (f.flags.ISFLAG = true → f.type = .BOOL) ∧
      (f.flags.derived = true → f.flags.ISPTR = false ∧ f.flags.ISARRAY = false))
    ⟨fun h => ⟨h.1, h.2.1, h.2.2.1, h.2.2.2.1, h.2.2.2.2.1, h.2.2.2.2.2⟩,
      fun h => ⟨h.inside, h.expected, h.size_int, h.enum_int, h.flag_bool, h.stored⟩⟩

/-- The parser handles every field that can have a key. -/
theorem fields_handled (type_id : TypeId) : ∀ f ∈ (typeGet type_id).fields,
    f.flags.derived = false → Handled f.type f.flags := by
  cases type_id <;> decide +kernel

/-- The field of an inline type is not inline, and neither a pointer nor optional. -/
theorem inline_field {type_id : TypeId} (h : (typeGet type_id).is_inline = true) :
    ∃ f fs, (typeGet type_id).fields = f :: fs ∧ f.flags.derived = false ∧
      f.flags.maybe = false ∧ (typeGet f.type).is_inline = false := by
  cases type_id
  case REPLY_COMMAND => exact ⟨_, _, rfl, rfl, rfl, rfl⟩
  case REPLY_WORKSPACES => exact ⟨_, _, rfl, rfl, rfl, rfl⟩
  case REPLY_OUTPUTS => exact ⟨_, _, rfl, rfl, rfl, rfl⟩
  case REPLY_TREE => exact ⟨_, _, rfl, rfl, rfl, rfl⟩
  case REPLY_MARKS => exact ⟨_, _, rfl, rfl, rfl, rfl⟩
  case REPLY_BAR_CONFIG_IDS => exact ⟨_, _, rfl, rfl, rfl, rfl⟩
  case REPLY_BAR_CONFIG => exact ⟨_, _, rfl, rfl, rfl, rfl⟩
  case REPLY_BINDING_MODES => exact ⟨_, _, rfl, rfl, rfl, rfl⟩
  case EVENT_BARCONFIG_UPDATE => exact ⟨_, _, rfl, rfl, rfl, rfl⟩
  all_goals exact absurd h (by decide)

theorem alignment_pos (type_id : TypeId) : 0 < (typeGet type_id).alignment := by
  cases type_id <;> decide +kernel

/-- The fields of every type of the table fit. -/
theorem fields_fit (type_id : TypeId) : ∀ f ∈ (typeGet type_id).fields,
    f.Fits (typeGet type_id).size := by
  cases type_id <;> decide +kernel

/-- A field starts behind those in front of it. -/
theorem fields_apart (type_id : TypeId) :
    (typeGet type_id).fields.Pairwise fun f g => f.offset + extent f.type f.flags ≤ g.offset := by
  cases type_id <;> decide +kernel

end I3ipc

end Photonbar
