import Photonbar.Workspace

/-!
# Runs of the workspace module

A run is a list of calls with the answers that i3 gives to them. Two rules are stated about every
state of a run: `Agrees`, that the elements show the last list and lead where they say, and
`SafeContent`, that their texts are strings inside their arrays. For each there is a condition on
single calls that says exactly which runs keep it (`agrees_iff_follows`, `safeContent_iff_fits`).

The run remembers two lists: the last one that was applied, and for each element the workspace it
was last built from, since an update in place moves on the first and not the second. That is the
whole difference between what an element shows and where it leads, and `Follows` is read off it: no
name may change while the number of workspaces does not. `step_same` and `step_rebuild` say what a
call does in terms of these lists, and each rule is then judged for one call (`follows_iff`,
`fits_iff`).
-/

namespace Photonbar

/-- A call, with the answers of i3 to it. -/
inductive WorkspaceOp where
  | initializeElements (reply : Option (List Workspace))
  | updateElements (reply reply' : Option (List Workspace))

/-- A run, with what has to be remembered to speak about it. -/
structure WorkspaceRun where
  module : WorkspaceModule
  /-- the last list that was applied -/
  applied : List Workspace
  /-- for each element, the workspace that its text was last built from -/
  builtFrom : List Workspace

namespace WorkspaceRun

open WorkspaceModule

/-- Before the first call. -/
def start : WorkspaceRun := ⟨.new, [], []⟩

/-- `initializeElements`. -/
def rebuild (s : WorkspaceRun) (reply : Option (List Workspace)) : Option WorkspaceRun :=
  (s.module.initializeElements reply).toOption.map fun m =>
    ⟨m, reply.getD s.applied, reply.getD []⟩

/-- One call; `none` if it writes outside an array. -/
def step (s : WorkspaceRun) : WorkspaceOp → Option WorkspaceRun
  | .initializeElements reply => s.rebuild reply
  | .updateElements none reply' =>
    (s.module.updateElements none reply').toOption.map fun m => { s with module := m }
  | .updateElements (some workspaces) reply' =>
    (s.module.updateElements (some workspaces) reply').toOption.map fun m =>
      if workspaces.length = s.module.elements.length then ⟨m, workspaces, workspaces⟩
      else ⟨m, reply'.getD s.applied, reply'.getD []⟩

/-! ## What a call does -/

theorem rebuild_none (s : WorkspaceRun) : s.rebuild none = some ⟨⟨[]⟩, s.applied, []⟩ := rfl

theorem rebuild_some (s : WorkspaceRun) (workspaces : List Workspace) :
    (s.rebuild (some workspaces) = none ∧
      ¬ ∀ ws ∈ workspaces, ws.name.bytes.length ≤ 252) ∨
    ∃ m, s.rebuild (some workspaces) = some ⟨m, workspaces, workspaces⟩ ∧
      List.Forall₂ Shows m.elements workspaces ∧ m.elements.map click = workspaces.map goTo := by
  cases h : s.module.initializeElements (some workspaces) with
  | error fault =>
    refine .inl ⟨by rw [rebuild, h]; rfl, fun hall => ?_⟩
    obtain ⟨m, hm⟩ := (exists_initializeElements_iff s.module workspaces).mpr hall
    rw [h] at hm
    cases hm
  | ok m => exact .inr ⟨m, by rw [rebuild, h]; rfl, initializeElements_eq_ok h⟩

theorem step_same (s : WorkspaceRun) {workspaces : List Workspace}
    (hlen : workspaces.length = s.module.elements.length) (reply' : Option (List Workspace)) :
    (s.step (.updateElements (some workspaces) reply') = none ∧
      ¬ ∀ ws ∈ workspaces, ws.name.bytes.length ≤ 252) ∨
    ∃ m, s.step (.updateElements (some workspaces) reply') = some ⟨m, workspaces, workspaces⟩ ∧
      List.Forall₂ Shows m.elements workspaces ∧
        m.elements.map click = s.module.elements.map click := by
  obtain ⟨hiff, hspec⟩ := updateElements_same hlen reply'
  cases h : s.module.updateElements (some workspaces) reply' with
  | error fault =>
    refine .inl ⟨by rw [step, h]; rfl, fun hall => ?_⟩
    obtain ⟨m, hm⟩ := hiff.mpr hall
    rw [h] at hm
    cases hm
  | ok m => exact .inr ⟨m, by rw [step, h]; simp [Except.toOption, hlen], hspec m h⟩

theorem step_rebuild (s : WorkspaceRun) {workspaces : List Workspace}
    (hlen : workspaces.length ≠ s.module.elements.length) (reply' : Option (List Workspace))
    (P : WorkspaceRun → Prop) :
    (∃ s', s.step (.updateElements (some workspaces) reply') = some s' ∧ P s') ↔
      (∀ ws ∈ workspaces.take s.module.elements.length, ws.name.bytes.length ≤ 252) ∧
        ∃ s', s.rebuild reply' = some s' ∧ P s' := by
  obtain ⟨hrebuild, hinplace⟩ := updateElements_rebuild hlen reply'
  have hstep (h : ∀ ws ∈ workspaces.take s.module.elements.length, ws.name.bytes.length ≤ 252) :
      s.step (.updateElements (some workspaces) reply') = s.rebuild reply' := by
    rw [step, hrebuild h, rebuild]
    simp only [hlen, if_false]
  refine ⟨?_, ?_⟩
  · rintro ⟨s', hs, hP⟩
    have hall : ∀ ws ∈ workspaces.take s.module.elements.length, ws.name.bytes.length ≤ 252 := by
      cases h : s.module.updateElements (some workspaces) reply' with
      | error fault =>
        rw [step, h] at hs
        cases hs
      | ok m => exact hinplace m h
    exact ⟨hall, s', (hstep hall).symm.trans hs, hP⟩
  · rintro ⟨hall, s', hs, hP⟩
    exact ⟨s', (hstep hall).trans hs, hP⟩

/-- A name that is shown in full. -/
def Short (ws : Workspace) : Prop := ws.name.bytes.length ≤ 251

/-! ## What the elements show, and where they lead -/

/-- The element shows the name between blanks, and is underlined if it is focused. -/
structure Mirrors (e : BarElement WorkspaceHandler) (ws : Workspace) : Prop where
  text : e.content.cstring = nameText ws.name
  underline : e.underline = ws.focused

/-- **Agreement**: the elements mirror the last list that was applied, and a left click
on an element goes to the workspace that its text was built from. -/
structure Agrees (s : WorkspaceRun) : Prop where
  mirrors : List.Forall₂ Mirrors s.module.elements s.applied
  clicks : s.module.elements.map click = s.builtFrom.map goTo

theorem Shows.mirrors_iff {e : BarElement WorkspaceHandler} {ws : Workspace} (h : Shows e ws) :
    Mirrors e ws ↔ Short ws := by
  have hlen := length_nameText ws.name
  refine ⟨?_, ?_⟩
  · intro hm
    have htake := congrArg List.length (h.text.symm.trans hm.text)
    rw [List.length_take] at htake
    rw [Short]
    omega
  · intro hshort
    refine ⟨h.text.trans (List.take_of_length_le ?_), h.underline⟩
    rw [Short] at hshort
    omega

/-- A rebuild that keeps the agreement: of names that are shown in full; or without an
answer when nothing is shown. -/
def Rebuilds (s : WorkspaceRun) : Option (List Workspace) → Prop
  | none => s.module.elements = []
  | some workspaces => ∀ ws ∈ workspaces, Short ws

/-- A call that keeps the agreement: no name changes unless the number of workspaces
does, names that are shown have up to 251 bytes, and names that are printed before a
rebuild up to 252. -/
def Follows (s : WorkspaceRun) : WorkspaceOp → Prop
  | .initializeElements reply => s.Rebuilds reply
  | .updateElements none _ => True
  | .updateElements (some workspaces) reply' =>
    if workspaces.length = s.module.elements.length then
      workspaces.map (·.name) = s.builtFrom.map (·.name) ∧ ∀ ws ∈ workspaces, Short ws
    else
      (∀ ws ∈ workspaces.take s.module.elements.length, ws.name.bytes.length ≤ 252) ∧
        s.Rebuilds reply'

theorem map_goTo_eq_iff {xs ys : List Workspace} :
    xs.map goTo = ys.map goTo ↔ xs.map (·.name) = ys.map (·.name) := by
  have hgoTo : goTo = (fun name => some (WorkspaceHandler.switchToWorkspace name)) ∘
      Workspace.name := rfl
  have hinj : Function.Injective fun name => some (WorkspaceHandler.switchToWorkspace name) := by
    intro x y h
    cases h
    rfl
  rw [hgoTo, ← List.map_map, ← List.map_map]
  exact hinj.list_map.eq_iff

theorem rebuild_iff {s : WorkspaceRun} (h : s.Agrees) (reply : Option (List Workspace)) :
    s.Rebuilds reply ↔ ∃ s', s.rebuild reply = some s' ∧ s'.Agrees := by
  cases reply with
  | none =>
    -- nothing is shown after it, so nothing may have been applied before
    rw [rebuild_none, Rebuilds]
    refine ⟨?_, ?_⟩
    · intro hempty
      have happlied := h.mirrors
      rw [hempty, List.forall₂_nil_left_iff] at happlied
      exact ⟨_, rfl, by rw [happlied]; exact .nil, rfl⟩
    · rintro ⟨s', hs, hagrees⟩
      obtain rfl := Option.some.inj hs
      have hmirrors := h.mirrors
      rwa [List.forall₂_nil_left_iff.mp hagrees.mirrors, List.forall₂_nil_right_iff] at hmirrors
  | some workspaces =>
    rcases s.rebuild_some workspaces with ⟨hnone, hlong⟩ | ⟨m, hsome, hshows, hclicks⟩
    · rw [hnone]
      refine ⟨fun hshort => (hlong fun ws hws => ?_).elim, by rintro ⟨_, ⟨⟩, _⟩⟩
      exact (hshort ws hws).trans (by decide)
    · have hiff := forall₂_iff_forall hshows fun e ws => Shows.mirrors_iff
      rw [hsome, Rebuilds, ← hiff]
      refine ⟨?_, ?_⟩
      · intro hmirrors
        exact ⟨_, rfl, hmirrors, hclicks⟩
      · rintro ⟨s', hs, hagrees⟩
        obtain rfl := Option.some.inj hs
        exact hagrees.mirrors

/-- **One call** keeps the agreement exactly under `Follows`. -/
theorem follows_iff {s : WorkspaceRun} (h : s.Agrees) (op : WorkspaceOp) :
    s.Follows op ↔ ∃ s', s.step op = some s' ∧ s'.Agrees := by
  obtain reply | ⟨_ | workspaces, reply'⟩ := op
  · exact rebuild_iff h reply
  · exact iff_of_true trivial ⟨s, rfl, h⟩
  · by_cases hlen : workspaces.length = s.module.elements.length
    · rw [Follows, if_pos hlen]
      rcases s.step_same hlen reply' with ⟨hnone, hlong⟩ | ⟨m, hsome, hshows, hclicks⟩
      · rw [hnone]
        refine ⟨fun hnames => (hlong fun ws hws => ?_).elim, by rintro ⟨_, ⟨⟩, _⟩⟩
        exact (hnames.2 ws hws).trans (by decide)
      · have hiff := forall₂_iff_forall hshows fun e ws => Shows.mirrors_iff
        have htargets : m.elements.map click = workspaces.map goTo ↔
            workspaces.map (·.name) = s.builtFrom.map (·.name) := by
          rw [hclicks, h.clicks, eq_comm, map_goTo_eq_iff]
        rw [hsome, ← hiff, ← htargets]
        refine ⟨?_, ?_⟩
        · rintro ⟨htargets, hmirrors⟩
          exact ⟨_, rfl, hmirrors, htargets⟩
        · rintro ⟨s', hs, hagrees⟩
          obtain rfl := Option.some.inj hs
          exact ⟨hagrees.clicks, hagrees.mirrors⟩
    · rw [Follows, if_neg hlen, rebuild_iff h, step_rebuild s hlen]

/-- **Exactly when elements lead where they say**: in every run, after every call, if and only if
each call is of the kind that keeps it. An update in place prints a new name into an element and
leaves its handler, so it has to leave the name as well; a rebuild makes both from one answer,
which only has to come, with names short enough to be shown in full. -/
theorem agrees_iff_follows (ops : List WorkspaceOp) :
    Always step Agrees start ops ↔ AllSteps step Follows start ops := by
  have hstart : start.Agrees := ⟨.nil, rfl⟩
  rw [always_iff_allSteps (Q := fun _ => True) (fun _ _ _ _ _ => trivial)
    (fun s op h _ => follows_iff h op) trivial]
  exact and_iff_right hstart

/-- Workspace 1 gives way to workspace 2: the element reads " 2 ", but still leads to 1. -/
theorem renamed_element_keeps_its_target :
    let one : Workspace := ⟨⟨[49], by decide⟩, true⟩
    let two : Workspace := ⟨⟨[50], by decide⟩, true⟩
    (∃ s₁ s₂, start.step (.initializeElements (some [one])) = some s₁ ∧
      s₁.step (.updateElements (some [two]) none) = some s₂ ∧
      s₂.module.elements.map (·.content.cstring) = [nameText two.name] ∧
      s₂.module.elements.map click = [some (.switchToWorkspace one.name)]) ∧
    ¬ Always step Agrees start
      [.initializeElements (some [one]), .updateElements (some [two]) none] := by
  intro one two
  rcases start.rebuild_some [one] with ⟨-, hlong⟩ | ⟨m₁, hs₁, hshows₁, hclicks₁⟩
  · exact (hlong (by decide)).elim
  have hlen : [two].length = m₁.elements.length := hshows₁.length_eq.symm
  rcases step_same ⟨m₁, [one], [one]⟩ hlen none with ⟨-, hlong⟩ | ⟨m₂, hs₂, hshows₂, hclicks₂⟩
  · exact (hlong (by decide)).elim
  have hclicks : m₂.elements.map click = [goTo one] := hclicks₂.trans hclicks₁
  refine ⟨?_, ?_⟩
  · refine ⟨_, _, hs₁, hs₂, ?_, hclicks⟩
    exact map_eq_of_forall₂ (hshows₂.imp fun e ws h =>
      (h.text : e.content.cstring = (nameText ws.name).take 253)) |>.trans rfl
  · rintro ⟨-, s₁, hs₁', -, s₂, hs₂', hagrees⟩
    obtain rfl := Option.some.inj (hs₁.symm.trans hs₁')
    obtain rfl := Option.some.inj (hs₂.symm.trans hs₂')
    have htargets : [goTo one] = [goTo two] := hclicks.symm.trans hagrees.clicks
    exact absurd htargets (by decide)

/-! ## Texts inside their arrays -/

/-- The content of the element is a string inside its array, of the length that is
stored, and it is the name between blanks or a truncation of that. -/
structure SafeText (e : BarElement WorkspaceHandler) (ws : Workspace) : Prop where
  contentLen_lt : e.contentLen < CONTENT_MAX_LEN
  contentLen_eq : e.contentLen = e.content.cstring.length
  text : e.content.cstring <+: nameText ws.name

/-- **Safety**: every element holds a safe text of the name it was last built from. -/
def SafeContent (s : WorkspaceRun) : Prop :=
  List.Forall₂ SafeText s.module.elements s.builtFrom

theorem Shows.safeText_iff {e : BarElement WorkspaceHandler} {ws : Workspace} (h : Shows e ws) :
    SafeText e ws ↔ Short ws := by
  have hmax : CONTENT_MAX_LEN = 255 := rfl
  have hlen := length_nameText ws.name
  have htake : e.content.cstring.length = min 253 (ws.name.bytes.length + 2) := by
    rw [h.text, List.length_take, hlen]
  have hcontentLen := h.contentLen
  rw [Short]
  refine ⟨?_, ?_⟩
  · intro hsafe
    have := hsafe.contentLen_eq
    omega
  · intro hshort
    refine ⟨by omega, by omega, ?_⟩
    rw [h.text]
    exact List.take_prefix _ _

/-- A call whose texts are safe: names that are shown have up to 251 bytes, and names
that are printed before a rebuild up to 252. -/
def Fits (s : WorkspaceRun) : WorkspaceOp → Prop
  | .initializeElements reply => ∀ ws ∈ reply.getD [], Short ws
  | .updateElements none _ => True
  | .updateElements (some workspaces) reply' =>
    if workspaces.length = s.module.elements.length then ∀ ws ∈ workspaces, Short ws
    else
      (∀ ws ∈ workspaces.take s.module.elements.length, ws.name.bytes.length ≤ 252) ∧
        ∀ ws ∈ reply'.getD [], Short ws

theorem rebuild_safe_iff (s : WorkspaceRun) (reply : Option (List Workspace)) :
    (∀ ws ∈ reply.getD [], Short ws) ↔ ∃ s', s.rebuild reply = some s' ∧ s'.SafeContent := by
  cases reply with
  | none => exact iff_of_true nofun ⟨_, rfl, .nil⟩
  | some workspaces =>
    rw [Option.getD_some]
    rcases s.rebuild_some workspaces with ⟨hnone, hlong⟩ | ⟨m, hsome, hshows, -⟩
    · rw [hnone]
      refine ⟨fun hshort => (hlong fun ws hws => ?_).elim, by rintro ⟨_, ⟨⟩, _⟩⟩
      exact (hshort ws hws).trans (by decide)
    · rw [hsome, ← forall₂_iff_forall hshows fun e ws => Shows.safeText_iff]
      refine ⟨?_, ?_⟩
      · intro hsafe
        exact ⟨_, rfl, hsafe⟩
      · rintro ⟨s', hs, hsafe⟩
        obtain rfl := Option.some.inj hs
        exact hsafe

/-- **One call** keeps safety exactly under `Fits`. -/
theorem fits_iff {s : WorkspaceRun} (h : s.SafeContent) (op : WorkspaceOp) :
    s.Fits op ↔ ∃ s', s.step op = some s' ∧ s'.SafeContent := by
  obtain reply | ⟨_ | workspaces, reply'⟩ := op
  · exact s.rebuild_safe_iff reply
  · exact iff_of_true trivial ⟨s, rfl, h⟩
  · by_cases hlen : workspaces.length = s.module.elements.length
    · rw [Fits, if_pos hlen]
      rcases s.step_same hlen reply' with ⟨hnone, hlong⟩ | ⟨m, hsome, hshows, -⟩
      · rw [hnone]
        refine ⟨fun hshort => (hlong fun ws hws => ?_).elim, by rintro ⟨_, ⟨⟩, _⟩⟩
        exact (hshort ws hws).trans (by decide)
      · rw [hsome, ← forall₂_iff_forall hshows fun e ws => Shows.safeText_iff]
        refine ⟨?_, ?_⟩
        · intro hsafe
          exact ⟨_, rfl, hsafe⟩
        · rintro ⟨s', hs, hsafe⟩
          obtain rfl := Option.some.inj hs
          exact hsafe
    · rw [Fits, if_neg hlen, s.rebuild_safe_iff, step_rebuild s hlen]

/-- **Exactly when texts stay inside their arrays**: in every run, after every call, if and only if
each call is of the kind that keeps it. A name of up to 251 bytes is printed in full; one of 252 is
cut, but the length of the whole is stored; and from 253 on that length is an index outside the
array. Names that are only printed on the way to a rebuild may be of the second kind, as their
elements are thrown away. -/
theorem safeContent_iff_fits (ops : List WorkspaceOp) :
    Always step SafeContent start ops ↔ AllSteps step Fits start ops := by
  have hstart : start.SafeContent := .nil
  rw [always_iff_allSteps (Q := fun _ => True) (fun _ _ _ _ _ => trivial)
    (fun s op h _ => fits_iff h op) trivial]
  exact and_iff_right hstart

/-- A name of 253 bytes makes `initializeElements` write outside the array. -/
theorem long_name_writes_outside :
    let long : Workspace :=
      ⟨⟨List.replicate 253 97, fun h => absurd (List.eq_of_mem_replicate h) (by decide)⟩, false⟩
    (∃ fault, newElement long = .error fault) ∧
      ¬ Always step SafeContent start [.initializeElements (some [long])] := by
  intro long
  have hlen : long.name.bytes.length = 253 := List.length_replicate
  refine ⟨?_, ?_⟩
  · obtain ⟨fault, herror⟩ := printName_eq_error .new long.name (by omega)
    exact ⟨fault, by rw [newElement, herror]; rfl⟩
  · rintro ⟨-, s, hs, hsafe⟩
    have hshort := (start.rebuild_safe_iff (some [long])).mpr ⟨s, hs, hsafe.head⟩ long
      List.mem_cons_self
    rw [Short] at hshort
    omega

end WorkspaceRun

end Photonbar
