import Photonbar.FrameColours
import Photonbar.Modules

/-!
# A bar and its modules (`bar.h`)

A `Panel` is a bar with its modules, and remembers for every element the content that was parsed
last. Its operations are those of the modules, and `feed`, which parses the contents that are
marked by `dirtyContent`. `clean_asParsed` is why it may leave out the others.

Each module with its memory is a group of values behind flags, in the sense of `Group`: an
operation of the module is a writer (`step_group`), by `step_marked`, and a feed is a reader
(`passed_group`). That a feed parses exactly the contents that are marked, and clears their marks,
is read off the code of the bar (`parseModules_read`). So `Fresh.step` is the invariant of any
operations in any order. A module knows nothing of the bar, and the bar of the module no more than
its elements.
-/

namespace Photonbar

variable {json : JsonC}

/-- The content of a new element. -/
def emptyContent : Buffer CONTENT_MAX_LEN := (BarElement.new : BarElement Unit).content

/-- A module, with what was parsed of it. -/
structure Slot (json : JsonC) where
  module : AnyModule json
  /-- for each element the content that was parsed last; `none` if none was -/
  parsed : List (Option (Buffer CONTENT_MAX_LEN))

namespace Slot

/-- A module of which nothing was parsed. -/
def new (m : AnyModule json) : Slot json := ⟨m, m.elements.map fun _ => none⟩

/-- One operation of the module. -/
def step (ops : DoubleOps json.Double) (s : Slot json) (op : AnyOp) : Option (Slot json) :=
  (s.module.step ops op).map fun m =>
    ⟨m, if s.module.rebuilds op then m.elements.map fun _ => none else s.parsed⟩

/-- After a pass of the bar, which has left `es` of the elements: those that were marked have been
parsed. -/
def passed (s : Slot json) (es : List (BarElement Unit)) : Slot json where
  module := s.module.passed es
  parsed := List.zipWith (contentFlag Unit).see s.module.elements s.parsed

/-- The elements, with what was parsed. -/
def group (s : Slot json) : Flagged.Group (BarElement Unit) (Buffer CONTENT_MAX_LEN) :=
  ⟨s.module.elements, s.parsed⟩

/-- Every content without a mark is the one that was parsed last. -/
def Fresh (s : Slot json) : Prop := s.group.Fresh (contentFlag Unit) emptyContent

variable {s s' : Slot json}

theorem fresh_new {m : AnyModule json} (h : m.New) : (new m).Fresh :=
  Flagged.Group.fresh_new h.content

/-- An operation of the module writes, or rebuilds. -/
theorem step_group {ops : DoubleOps json.Double} {op : AnyOp} (h : s.step ops op = some s') :
    Flagged.Group.Step (contentFlag Unit) s.group s'.group := by
  obtain ⟨m, hm, rfl⟩ := Option.map_eq_some_iff.mp h
  obtain ⟨hnew, hsame⟩ := AnyModule.step_marked hm
  cases hr : s.module.rebuilds op with
  | true =>
    simp only [group, if_true]
    exact .rebuild (hnew hr)
  | false =>
    simp only [group, Bool.false_eq_true, if_false]
    obtain ⟨hmarked, hlen⟩ := hsame hr
    exact .write (hmarked.wrote hlen)

/-- A pass reads. -/
theorem passed_group {es : List (BarElement Unit)}
    (h : List.Forall₂ (contentFlag Unit).Read s.module.elements es) :
    Flagged.Group.Step (contentFlag Unit) s.group (s.passed es).group := by
  rw [group, group, passed, AnyModule.elements_passed _ h.length_eq.symm]
  refine .read (List.forall₂_map_right_iff.mpr ?_)
  exact h.imp fun _ _ he => he

end Slot

namespace Bar

/-- Parsing takes the mark, and leaves the content. -/
theorem parseElementContent_read {b b' : Bar} {H : Type} {e e' : BarElement H}
    (h : b.parseElementContent e = .ok (b', e')) : (contentFlag H).Read e e' := by
  refine ⟨?_, (parseElementContent_parsed h).1.clean⟩
  rw [parseElementContent] at h
  split at h
  · obtain ⟨-, rfl⟩ := Prod.mk.inj (Except.ok.inj h)
    rfl
  · obtain ⟨⟨b₁, e₁, total⟩, hloop, h⟩ := bind_eq_ok_iff.mp h
    obtain ⟨-, rfl⟩ := Prod.mk.inj (Except.ok.inj h)
    obtain ⟨_, _, _, rfl⟩ := parseLoop_same hloop
    rfl

/-- A whole pass reads every content. -/
theorem parseModules_read {b : Bar} {H : Type} {L R : List (List (BarElement H))} {f : Frame H}
    (h : b.parseModules L R = .ok f) :
    List.Forall₂ (List.Forall₂ (contentFlag H).Read) L f.leftModules ∧
      List.Forall₂ (List.Forall₂ (contentFlag H).Read) R f.rightModules := by
  refine parseModules_forall₂ parseElementContent_read ?_ h
  rintro e e' _ hread ⟨x, rfl⟩
  exact hread

end Bar

/-- A bar with its modules. -/
structure Panel (json : JsonC) where
  bar : Bar
  leftModules : List (Slot json)
  rightModules : List (Slot json)

/-- One operation: of a left or a right module, by its place, or of the bar. -/
inductive PanelOp where
  | left (i : Nat) (op : AnyOp)
  | right (i : Nat) (op : AnyOp)
  | feed

namespace Panel

/-- New modules on a bar. -/
def new (bar : Bar) (leftModules rightModules : List (AnyModule json)) : Panel json :=
  ⟨bar, leftModules.map .new, rightModules.map .new⟩

/-- An operation of the module at place `i`. -/
def stepAt (ops : DoubleOps json.Double) (slots : List (Slot json)) (i : Nat) (op : AnyOp) :
    Option (List (Slot json)) := do
  let s ← slots[i]?
  let s ← s.step ops op
  return slots.set i s

/-- `feed`, as far as the elements go. -/
def feed (p : Panel json) : Except Fault (Panel json) := do
  let f ← p.bar.parseModules (p.leftModules.map fun s => s.module.elements)
    (p.rightModules.map fun s => s.module.elements)
  return {
    bar := f.bar
    leftModules := List.zipWith Slot.passed p.leftModules f.leftModules
    rightModules := List.zipWith Slot.passed p.rightModules f.rightModules }

/-- One operation; `none` if there is no such module, or it goes wrong. -/
def step (ops : DoubleOps json.Double) (p : Panel json) : PanelOp → Option (Panel json)
  | .left i op => (stepAt ops p.leftModules i op).map fun slots => { p with leftModules := slots }
  | .right i op => (stepAt ops p.rightModules i op).map fun slots => { p with rightModules := slots }
  | .feed => p.feed.toOption

/-- What holds of all modules. -/
structure Fresh (p : Panel json) : Prop where
  left : ∀ s ∈ p.leftModules, s.Fresh
  right : ∀ s ∈ p.rightModules, s.Fresh

theorem fresh_new (bar : Bar) {leftModules rightModules : List (AnyModule json)}
    (hleft : ∀ m ∈ leftModules, m.New) (hright : ∀ m ∈ rightModules, m.New) :
    (new bar leftModules rightModules).Fresh where
  left := List.forall_mem_map.mpr fun m hm => Slot.fresh_new (hleft m hm)
  right := List.forall_mem_map.mpr fun m hm => Slot.fresh_new (hright m hm)

theorem stepAt_fresh {ops : DoubleOps json.Double} {slots slots' : List (Slot json)} {i : Nat}
    {op : AnyOp} (hslots : ∀ s ∈ slots, s.Fresh) (h : stepAt ops slots i op = some slots') :
    ∀ s ∈ slots', s.Fresh := by
  obtain ⟨s, hs, h⟩ := Option.bind_eq_some_iff.mp h
  obtain ⟨s', hs', h⟩ := Option.bind_eq_some_iff.mp h
  obtain rfl := Option.some.inj h
  intro t ht
  rcases List.mem_or_eq_of_mem_set ht with ht | rfl
  · exact hslots t ht
  · exact (Slot.step_group hs').fresh (hslots s (List.mem_of_getElem? hs))

theorem passed_fresh (slots : List (Slot json)) (hslots : ∀ s ∈ slots, s.Fresh) :
    ∀ {ms : List (List (BarElement Unit))},
      List.Forall₂ (List.Forall₂ (contentFlag Unit).Read)
        (slots.map fun s => s.module.elements) ms →
      ∀ s ∈ List.zipWith Slot.passed slots ms, s.Fresh := by
  induction slots with
  | nil =>
    intro ms _ s hs
    rw [List.zipWith_nil_left] at hs
    cases hs
  | cons s slots ih =>
    rintro (_ | ⟨es, ms⟩) h
    · cases h
    · obtain _ | ⟨hes, hms⟩ := h
      obtain ⟨hs, hslots⟩ := List.forall_mem_cons.mp hslots
      exact List.forall_mem_cons.mpr ⟨(Slot.passed_group hes).fresh hs, ih hslots hms⟩

/-- **Every operation keeps the contents fresh.** -/
theorem Fresh.step {ops : DoubleOps json.Double} {p q : Panel json} {op : PanelOp} (h : p.Fresh)
    (hq : p.step ops op = some q) : q.Fresh := by
  cases op with
  | left i op =>
    obtain ⟨slots, hslots, rfl⟩ := Option.map_eq_some_iff.mp hq
    exact ⟨stepAt_fresh h.left hslots, h.right⟩
  | right i op =>
    obtain ⟨slots, hslots, rfl⟩ := Option.map_eq_some_iff.mp hq
    exact ⟨h.left, stepAt_fresh h.right hslots⟩
  | feed =>
    cases hfeed : p.feed with
    | error fault =>
      rw [Panel.step, hfeed] at hq
      cases hq
    | ok q' =>
      rw [Panel.step, hfeed] at hq
      obtain rfl := Option.some.inj hq
      obtain ⟨f, hf, hfeed⟩ := bind_eq_ok_iff.mp hfeed
      obtain rfl := Except.ok.inj hfeed
      obtain ⟨hleft, hright⟩ := Bar.parseModules_read hf
      exact ⟨passed_fresh _ h.left hleft, passed_fresh _ h.right hright⟩

/-- The text of an element is what it was when the element was parsed last; one that was never
parsed holds what a new one holds. -/
def AsParsed (e : BarElement Unit) : Option (Buffer CONTENT_MAX_LEN) → Prop
  | some parsed => e.content.cstring = parsed.cstring
  | none => e.content = emptyContent

/-- **No parse that is left out is missed**: after any operations of new modules and of their bar,
in any order, a content without `dirtyContent` is the one that was parsed last. New contents are
all marked or empty; from then on whoever writes a content marks it, and only the parse takes the
mark away. -/
theorem clean_asParsed (ops : DoubleOps json.Double) (bar : Bar)
    {leftModules rightModules : List (AnyModule json)} (hleft : ∀ m ∈ leftModules, m.New)
    (hright : ∀ m ∈ rightModules, m.New) {panelOps : List PanelOp} {p : Panel json}
    (h : runOn (step ops) (new bar leftModules rightModules) panelOps = some p) :
    ∀ s ∈ p.leftModules ++ p.rightModules,
      List.Forall₂ (fun e parsed => e.dirtyContent = false → AsParsed e parsed)
        s.module.elements s.parsed := by
  have hfresh : p.Fresh :=
    runOn_keeps (fun _ _ _ hp hq => hp.step hq) (fresh_new bar hleft hright) h
  intro s hs
  have hs : s.Fresh := (List.mem_append.mp hs).elim (hfresh.left s) (hfresh.right s)
  refine hs.imp fun e parsed he hclean => ?_
  have hcontent : e.content = parsed.getD emptyContent := he hclean
  cases parsed with
  | none => exact hcontent
  | some parsed => exact congrArg Buffer.cstring hcontent

/-- The stopwatch is started after a frame that shows it, beside a workspace. -/
theorem clean_asParsed_stopwatch :
    let panelOps : List PanelOp :=
      [.left 0 (.workspace (.initializeElements (some [⟨⟨ascii ['1'], by decide⟩, true⟩]))),
        .right 0 (.stopwatch ⟨.epoch, 0⟩ .update), .feed,
        .right 0 (.stopwatch ⟨.epoch, 1⟩ (.handle .playPause))]
    let start : Panel WeatherRun.malformed :=
      new (asciiBar 8 1920) [.workspace .new] [.stopwatch .new]
    ∃ p, runOn (step RequestRun.intOps) start panelOps = some p ∧
      ∀ s ∈ p.leftModules ++ p.rightModules,
        List.Forall₂ (fun e parsed => e.dirtyContent = false → AsParsed e parsed)
          s.module.elements s.parsed := by
  intro panelOps start
  have hrun : (runOn (step RequestRun.intOps) start panelOps).isSome = true := by decide +kernel
  obtain ⟨p, hp⟩ := Option.isSome_iff_exists.mp hrun
  refine ⟨p, hp, clean_asParsed _ _ ?_ ?_ hp⟩
  · exact List.forall_mem_singleton.mpr .workspace
  · exact List.forall_mem_singleton.mpr .stopwatch

end Panel

end Photonbar
