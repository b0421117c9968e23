import Photonbar.BarElement
import Photonbar.Loops
import Photonbar.Run

/-!
# The workspaces (`workspace.h`)

i3 is asked for its workspaces; it answers with a list, or not at all (`none`). The answers are
arguments here. `elements` and `workspaceElements` hold the same pointers in the same order, so one
list stands for both. A write outside `content` is a `Fault`.

`printName` has a sharp edge: `snprintf` is given one byte less than the array, but returns the
length before truncation, which is then used as an index. So a name of more than 252 bytes faults,
and one of 252 bytes is cut but keeps the length of the whole. For each step of the two functions
there is a lemma that says exactly when it succeeds, and one for what it leaves
(`exists_newElement_iff`, `newElement_eq_ok`, and so on); both functions are loops of such steps.
An update with as many workspaces as there are elements works in place and leaves the handlers
alone (`updateElements_same`). With any other number, all is built anew from a second answer of i3
(`updateElements_rebuild`).
-/

namespace Photonbar

/-- One entry of an answer of i3. -/
structure Workspace where
  name : CStr
  focused : Bool
  deriving DecidableEq

/-- What the handlers of the elements do. -/
inductive WorkspaceHandler where
  | switchToWorkspace (ws_name : CStr)
  deriving DecidableEq

namespace WorkspaceModule

/-- `switchToWorkspace`: the arguments of the program that is run. -/
def switchToWorkspace (ws_name : CStr) : List Bytes :=
  [ascii "i3-msg".toList, ascii "workspace".toList, ws_name.bytes]

/-- The text `" %s "`. -/
def nameText (name : CStr) : Bytes := 32 :: (name.bytes ++ [32])

/-- Print a name into an element. -/
def printName (e : BarElement WorkspaceHandler) (name : CStr) :
    Except Fault (BarElement WorkspaceHandler) := do
  let e ← e.snprintf (CONTENT_MAX_LEN - 1) (nameText name)
  let e ← e.setContent e.contentLen 0
  return { e with dirtyContent := true }

/-- The styling. -/
def style (e : BarElement WorkspaceHandler) (focused : Bool) : BarElement WorkspaceHandler :=
  if focused then
    { e with
      foregroundColor := (Color.parseColor (some "#E0AAFF".toList) (.ofBytes 255 170 255 255)).1
      underlineColor := (Color.parseColor (some "#E0AAFF".toList) (.ofBytes 255 170 255 255)).1
      underline := true }
  else
    { e with
      foregroundColor := (Color.parseColor (some "#666666".toList) (.ofBytes 102 102 102 255)).1
      underline := false }

/-- One pass of the loop of `initializeElements`. -/
def newElement (ws : Workspace) : Except Fault (BarElement WorkspaceHandler) := do
  let e ← printName .new ws.name
  let e := e.setEvent .CLICK_LEFT (.switchToWorkspace ws.name)
  return style e ws.focused

/-- One pass of the loop of `updateElements`. -/
def updateElement (e : BarElement WorkspaceHandler) (ws : Workspace) :
    Except Fault (BarElement WorkspaceHandler) := do
  let e ← printName e ws.name
  return style e ws.focused

end WorkspaceModule

/-- `WorkspaceModule`. -/
structure WorkspaceModule where
  elements : List (BarElement WorkspaceHandler)

namespace WorkspaceModule

/-- The module before `initializeElements`. -/
def new : WorkspaceModule := ⟨[]⟩

/-- `clearElements`. -/
def clearElements (_ : WorkspaceModule) : WorkspaceModule := ⟨[]⟩

/-- `initializeElements`, with the answer of i3. -/
def initializeElements (m : WorkspaceModule) (reply : Option (List Workspace)) :
    Except Fault WorkspaceModule := do
  let m := m.clearElements
  match reply with
  | none => return m
  | some workspaces => return ⟨m.elements ++ (← workspaces.mapM newElement)⟩

/-- `updateElements`, with the answer of i3 and the one that `initializeElements` gets
if it is called. -/
def updateElements (m : WorkspaceModule) (reply reply' : Option (List Workspace)) :
    Except Fault WorkspaceModule := do
  match reply with
  | none => return m
  | some workspaces =>
    let updated ← (m.elements.zip workspaces).mapM fun p => updateElement p.1 p.2
    let m : WorkspaceModule := ⟨updated ++ m.elements.drop workspaces.length⟩
    if workspaces.length ≠ m.elements.length then m.initializeElements reply'
    else return m

/-! ## Printing a name -/

theorem length_nameText (name : CStr) : (nameText name).length = name.bytes.length + 2 := by
  simp [nameText]

theorem noNul_nameText (name : CStr) : (0 : UInt8) ∉ nameText name := by
  simp [nameText, name.noNul]

/-- What an element shows of a name, up to 252 bytes. -/
theorem printName_eq_ok (e : BarElement WorkspaceHandler) {name : CStr}
    (h : name.bytes.length ≤ 252) :
    ∃ content : Buffer CONTENT_MAX_LEN, printName e name =
        .ok { e with content, contentLen := name.bytes.length + 2, dirtyContent := true } ∧
      content.cstring = (nameText name).take 253 := by
  have hmax : CONTENT_MAX_LEN = 255 := rfl
  have hlen := length_nameText name
  obtain ⟨content, hprint, hlist⟩ :=
    e.snprintf_eq_ok (show 0 < CONTENT_MAX_LEN - 1 by decide) (by decide) (nameText name)
  have hresult : snprintfResult (nameText name) = (name.bytes.length + 2 : Nat) := by
    rw [snprintfResult, hlen, if_pos (by omega)]
  refine ⟨content.set (name.bytes.length + 2) 0 (by omega), ?_, ?_⟩
  · rw [printName, hprint]
    simp only [hresult, BarElement.setContent, bind, Except.bind]
    rw [Buffer.write_eq_some (by omega)]
    rfl
  · refine Buffer.cstring_set_nul hlist (fun hmem => ?_) _ (by rw [List.length_take]; omega)
    exact noNul_nameText name (List.mem_of_mem_take hmem)

/-- A longer name makes the NUL go outside the array. -/
theorem printName_eq_error (e : BarElement WorkspaceHandler) (name : CStr)
    (h : 252 < name.bytes.length) : ∃ fault, printName e name = .error fault := by
  have hmax : CONTENT_MAX_LEN = 255 := rfl
  have hlen := length_nameText name
  obtain ⟨content, hprint, -⟩ :=
    e.snprintf_eq_ok (show 0 < CONTENT_MAX_LEN - 1 by decide) (by decide) (nameText name)
  have houtside : ¬ (0 ≤ snprintfResult (nameText name) ∧
      snprintfResult (nameText name) < CONTENT_MAX_LEN) := by
    rw [snprintfResult, hlen]
    split <;> omega
  refine ⟨.contentIndex (snprintfResult (nameText name)), ?_⟩
  rw [printName, hprint]
  simp only [BarElement.setContent, Buffer.write, bind, Except.bind, dif_neg houtside]

/-! ## Elements -/

/-- The element shows this workspace. -/
structure Shows (e : BarElement WorkspaceHandler) (ws : Workspace) : Prop where
  length_le : ws.name.bytes.length ≤ 252
  text : e.content.cstring = (nameText ws.name).take 253
  contentLen : e.contentLen = ws.name.bytes.length + 2
  underline : e.underline = ws.focused

/-- The handler of a left click. -/
def click (e : BarElement WorkspaceHandler) : Option WorkspaceHandler := e.events .CLICK_LEFT

/-- The handler that goes to a workspace. -/
def goTo (ws : Workspace) : Option WorkspaceHandler := some (.switchToWorkspace ws.name)

@[simp] theorem click_style (e : BarElement WorkspaceHandler) (focused : Bool) :
    click (style e focused) = click e := by
  cases focused <;> rfl

theorem Shows.of_text {e : BarElement WorkspaceHandler} {ws : Workspace}
    (hlen : ws.name.bytes.length ≤ 252) (htext : e.content.cstring = (nameText ws.name).take 253)
    (hcontentLen : e.contentLen = ws.name.bytes.length + 2) : Shows (style e ws.focused) ws where
  length_le := hlen
  text := by cases ws.focused <;> exact htext
  contentLen := by cases ws.focused <;> exact hcontentLen
  underline := by cases ws.focused <;> rfl

/-- A new element can be made for a name up to 252 bytes. -/
theorem exists_newElement_iff {ws : Workspace} :
    (∃ e, newElement ws = .ok e) ↔ ws.name.bytes.length ≤ 252 := by
  refine ⟨?_, ?_⟩
  · rintro ⟨e, h⟩
    by_contra hlen
    obtain ⟨fault, herror⟩ := printName_eq_error .new ws.name (by omega)
    rw [newElement, herror] at h
    cases h
  · intro hlen
    obtain ⟨content, hprint, -⟩ := printName_eq_ok .new hlen
    exact ⟨_, by rw [newElement, hprint]; rfl⟩

theorem newElement_eq_ok {ws : Workspace} {e : BarElement WorkspaceHandler}
    (h : newElement ws = .ok e) : Shows e ws ∧ click e = goTo ws := by
  have hlen := exists_newElement_iff.mp ⟨e, h⟩
  obtain ⟨content, hprint, htext⟩ := printName_eq_ok .new hlen
  rw [newElement, hprint] at h
  obtain rfl := Except.ok.inj h
  exact ⟨.of_text hlen htext rfl, click_style _ _⟩

/-- An element can be updated for a name up to 252 bytes. -/
theorem exists_updateElement_iff {e : BarElement WorkspaceHandler} {ws : Workspace} :
    (∃ e', updateElement e ws = .ok e') ↔ ws.name.bytes.length ≤ 252 := by
  refine ⟨?_, ?_⟩
  · rintro ⟨e', h⟩
    by_contra hlen
    obtain ⟨fault, herror⟩ := printName_eq_error e ws.name (by omega)
    rw [updateElement, herror] at h
    cases h
  · intro hlen
    obtain ⟨content, hprint, -⟩ := printName_eq_ok e hlen
    exact ⟨_, by rw [updateElement, hprint]; rfl⟩

/-- An update in place keeps the handler of the element. -/
theorem updateElement_eq_ok {e e' : BarElement WorkspaceHandler} {ws : Workspace}
    (h : updateElement e ws = .ok e') : Shows e' ws ∧ click e = click e' := by
  have hlen := exists_updateElement_iff.mp ⟨e', h⟩
  obtain ⟨content, hprint, htext⟩ := printName_eq_ok e hlen
  rw [updateElement, hprint] at h
  obtain rfl := Except.ok.inj h
  exact ⟨.of_text hlen htext rfl, by rw [click_style]; rfl⟩

/-! ## The two functions -/

/-- `initializeElements` succeeds for names up to 252 bytes, whatever was shown before. -/
theorem exists_initializeElements_iff (m : WorkspaceModule) (workspaces : List Workspace) :
    (∃ m', m.initializeElements (some workspaces) = .ok m') ↔
      ∀ ws ∈ workspaces, ws.name.bytes.length ≤ 252 := by
  have hloop := exists_mapM_iff newElement workspaces
  simp only [exists_newElement_iff] at hloop
  rw [← hloop]
  refine ⟨?_, ?_⟩
  · rintro ⟨m', h⟩
    obtain ⟨es, hes, -⟩ := bind_eq_ok_iff.mp h
    exact ⟨es, hes⟩
  · rintro ⟨es, hes⟩
    exact ⟨⟨es⟩, bind_eq_ok_iff.mpr ⟨es, hes, rfl⟩⟩

theorem initializeElements_eq_ok {m m' : WorkspaceModule} {workspaces : List Workspace}
    (h : m.initializeElements (some workspaces) = .ok m') :
    List.Forall₂ Shows m'.elements workspaces ∧ m'.elements.map click = workspaces.map goTo := by
  obtain ⟨es, hes, hm⟩ := bind_eq_ok_iff.mp h
  obtain rfl := Except.ok.inj hm
  have hpasses := mapM_eq_ok_iff.mp hes
  refine ⟨?_, (map_eq_of_forall₂ ?_).symm⟩
  · exact (hpasses.imp fun ws e he => (newElement_eq_ok he).1).flip
  · exact hpasses.imp fun ws e he => (newElement_eq_ok he).2.symm

/-- The loop of `updateElements` keeps the number of elements. -/
theorem length_updated {es updated : List (BarElement WorkspaceHandler)}
    {workspaces : List Workspace}
    (h : (es.zip workspaces).mapM (fun p => updateElement p.1 p.2) = .ok updated) :
    (updated ++ es.drop workspaces.length).length = es.length := by
  have hlen := (mapM_eq_ok_iff.mp h).length_eq
  rw [List.length_zip] at hlen
  rw [List.length_append, List.length_drop]
  omega

/-- The loop succeeds if the names that it prints have up to 252 bytes. -/
theorem exists_updated_iff (es : List (BarElement WorkspaceHandler)) (workspaces : List Workspace) :
    (∃ updated, (es.zip workspaces).mapM (fun p => updateElement p.1 p.2) = .ok updated) ↔
      ∀ ws ∈ workspaces.take es.length, ws.name.bytes.length ≤ 252 := by
  rw [exists_mapM_iff, ← map_snd_zip_take]
  simp only [exists_updateElement_iff, List.forall_mem_map]

/-- **Update in place**: with as many workspaces as elements, every element shows its
workspace and keeps its handler. -/
theorem updateElements_same {m : WorkspaceModule} {workspaces : List Workspace}
    (hlen : workspaces.length = m.elements.length) (reply' : Option (List Workspace)) :
    ((∃ m', m.updateElements (some workspaces) reply' = .ok m') ↔
      ∀ ws ∈ workspaces, ws.name.bytes.length ≤ 252) ∧
    ∀ m', m.updateElements (some workspaces) reply' = .ok m' →
      List.Forall₂ Shows m'.elements workspaces ∧
        m'.elements.map click = m.elements.map click := by
  have hloop := exists_updated_iff m.elements workspaces
  rw [← hlen, List.take_length] at hloop
  have hbody {updated} (h : (m.elements.zip workspaces).mapM (fun p => updateElement p.1 p.2) =
      .ok updated) : m.updateElements (some workspaces) reply' = .ok ⟨updated⟩ := by
    have hkept := length_updated h
    have hdrop : m.elements.drop workspaces.length = [] := by rw [hlen, List.drop_length]
    simp only [updateElements, h, bind, Except.bind]
    rw [if_neg (not_not_intro (hlen.trans hkept.symm)), hdrop, List.append_nil]
    rfl
  have hinv {m'} (h : m.updateElements (some workspaces) reply' = .ok m') :
      ∃ updated, (m.elements.zip workspaces).mapM (fun p => updateElement p.1 p.2) = .ok updated ∧
        m' = ⟨updated⟩ := by
    obtain ⟨updated, hupdated, -⟩ := bind_eq_ok_iff.mp h
    exact ⟨updated, hupdated, (Except.ok.inj ((hbody hupdated).symm.trans h)).symm⟩
  refine ⟨?_, fun m' h => ?_⟩
  · rw [← hloop]
    refine ⟨?_, ?_⟩
    · rintro ⟨m', h⟩
      obtain ⟨updated, hupdated, -⟩ := hinv h
      exact ⟨updated, hupdated⟩
    · rintro ⟨updated, h⟩
      exact ⟨⟨updated⟩, hbody h⟩
  · obtain ⟨updated, hupdated, rfl⟩ := hinv h
    obtain ⟨hshows, hclicks⟩ := forall₂_zip (S := Shows) (T := fun e e' => click e = click e')
      (fun _ _ _ he => updateElement_eq_ok he) hlen.symm (mapM_eq_ok_iff.mp hupdated)
    exact ⟨hshows, (map_eq_of_forall₂ hclicks).symm⟩

/-- **Rebuild**: with another number of workspaces, all that remains of the update in
place is whether it fails. -/
theorem updateElements_rebuild {m : WorkspaceModule} {workspaces : List Workspace}
    (hlen : workspaces.length ≠ m.elements.length) (reply' : Option (List Workspace)) :
    ((∀ ws ∈ workspaces.take m.elements.length, ws.name.bytes.length ≤ 252) →
      m.updateElements (some workspaces) reply' = m.initializeElements reply') ∧
    ∀ m', m.updateElements (some workspaces) reply' = .ok m' →
      ∀ ws ∈ workspaces.take m.elements.length, ws.name.bytes.length ≤ 252 := by
  rw [← exists_updated_iff]
  refine ⟨?_, ?_⟩
  · rintro ⟨updated, h⟩
    have hkept := length_updated h
    simp only [updateElements, h, bind, Except.bind, hkept, ne_eq, hlen, not_false_eq_true, if_true]
    rfl
  · intro m' h
    obtain ⟨updated, hupdated, -⟩ := bind_eq_ok_iff.mp h
    exact ⟨updated, hupdated⟩

end WorkspaceModule

end Photonbar
