import Photonbar.Layout

/-!
# Button presses (`bar.h`)

The part of `processXEvents` that finds the handler for a button press, loop by loop. What it runs
is noted with the place of the element among all elements, so that two elements with the same
handler can be told apart.

The three loops are nested, over modules, elements and the events of an element, and the two outer
ones test `eventHandled` before each pass. `processButtonPress_eq` says what they come to: the
first element that answers, and no other. An element answers if it has a handler for the button,
its module is on the monitor whose window was pressed, and its interval contains the position.
`first` is the search in a list of answers, and each loop is read as that search, from the inside
out (`eventLoop_eq_answer`, `elementLoop_eq`, `moduleLoop_eq`).
-/

namespace Photonbar

/-- A module, as `processXEvents` sees it. -/
structure BarModule (H : Type) where
  window : Nat
  elements : List (BarElement H)

/-- `xcb_button_press_event_t`. -/
structure ButtonPress where
  event : Nat
  detail : Nat
  event_x : Int16

variable {H : Type}

namespace BarElement

/-- The test of `processXEvents` for one element of a module with this window. -/
def hit (window : Nat) (press_ev : ButtonPress) (e : BarElement H) : Bool :=
  window = press_ev.event ∧ press_ev.event_x.toInt ≥ e.beginX.toNat ∧
    press_ev.event_x.toInt < e.beginX.toNat + e.width.toNat

/-- The loop over the `events` of an element: the handler that is run. -/
def eventLoop (window : Nat) (press_ev : ButtonPress) (e : BarElement H) :
    List EventType → Option H
  | [] => none
  | type :: types =>
    match e.events type with
    | none => eventLoop window press_ev e types
    | some handler =>
      if type.code ≠ press_ev.detail then eventLoop window press_ev e types
      else if e.hit window press_ev then some handler
      else eventLoop window press_ev e types

/-- The loop over the elements of a module, the first of which has place `i`: `eventHandled`
afterwards, and what was run. -/
def elementLoop (window : Nat) (press_ev : ButtonPress) :
    Bool → Nat → List (BarElement H) → Bool × List (Nat × H)
  | eventHandled, _, [] => (eventHandled, [])
  | eventHandled, i, e :: es =>
    if eventHandled then (eventHandled, [])
    else
      let ran := e.eventLoop window press_ev EventType.all
      let (eventHandled, rest) := elementLoop window press_ev ran.isSome (i + 1) es
      (eventHandled, (ran.toList.map fun handler => (i, handler)) ++ rest)

end BarElement

/-- The loop over the modules. -/
def moduleLoop (press_ev : ButtonPress) : Bool → Nat → List (BarModule H) → List (Nat × H)
  | _, _, [] => []
  | eventHandled, i, m :: ms =>
    if eventHandled then []
    else
      let (eventHandled, ran) := BarElement.elementLoop m.window press_ev eventHandled i m.elements
      ran ++ moduleLoop press_ev eventHandled (i + m.elements.length) ms

/-- What `processXEvents` runs for a button press. -/
def processButtonPress (modules : List (BarModule H)) (press_ev : ButtonPress) :
    List (Nat × H) :=
  moduleLoop press_ev false 0 modules

/-! ## The first that answers -/

/-- The first of a list of answers, with its place. -/
def first : Nat → List (Option H) → List (Nat × H)
  | _, [] => []
  | i, some handler :: _ => [(i, handler)]
  | i, none :: rest => first (i + 1) rest

theorem first_length_le (as : List (Option H)) : ∀ i, (first i as).length ≤ 1 := by
  induction as with
  | nil => intro i; exact Nat.zero_le 1
  | cons a as ih =>
    intro i
    cases a with
    | none => exact ih (i + 1)
    | some handler => exact le_refl 1

/-- The first answer is the one before which there is none. -/
theorem mem_first_iff (as : List (Option H)) : ∀ {i k : Nat} {handler : H},
    (k, handler) ∈ first i as ↔
      ∃ j, k = i + j ∧ as[j]? = some (some handler) ∧ ∀ j' < j, as[j']? = some none := by
  induction as with
  | nil =>
    intro i k handler
    simp [first]
  | cons a as ih =>
    intro i k handler
    cases a with
    | none =>
      rw [first, ih]
      refine ⟨?_, ?_⟩
      · rintro ⟨j, rfl, hj, hbefore⟩
        refine ⟨j + 1, by omega, hj, ?_⟩
        rintro (_ | j') hj'
        · rfl
        · exact hbefore j' (Nat.lt_of_succ_lt_succ hj')
      · rintro ⟨_ | j, rfl, hj, hbefore⟩
        · cases hj
        · exact ⟨j, by omega, hj, fun j' hj' => hbefore (j' + 1) (Nat.succ_lt_succ hj')⟩
    | some a =>
      rw [first, List.mem_singleton, Prod.mk.injEq]
      refine ⟨?_, ?_⟩
      · rintro ⟨rfl, rfl⟩
        exact ⟨0, rfl, rfl, nofun⟩
      · rintro ⟨_ | j, rfl, hj, hbefore⟩
        · exact ⟨rfl, (Option.some.inj (Option.some.inj hj)).symm⟩
        · exact absurd (hbefore 0 (Nat.succ_pos j)) nofun

/-- When something answers, it or something before it is the first. -/
theorem exists_mem_first (as : List (Option H)) : ∀ {i j : Nat} {handler : H},
    as[j]? = some (some handler) → ∃ q ∈ first i as, q.1 ≤ i + j := by
  induction as with
  | nil => intro i j handler h; cases h
  | cons a as ih =>
    intro i j handler h
    cases a with
    | some a => exact ⟨(i, a), List.mem_singleton_self _, Nat.le_add_right i j⟩
    | none =>
      rcases j with _ | j
      · cases h
      · obtain ⟨q, hq, hle⟩ := ih (i := i + 1) h
        exact ⟨q, hq, by omega⟩

theorem first_append (as as' : List (Option H)) : ∀ i,
    first i (as ++ as') =
      first i as ++ if (first i as).isEmpty then first (i + as.length) as' else [] := by
  induction as with
  | nil => intro i; rfl
  | cons a as ih =>
    intro i
    cases a with
    | none =>
      rw [List.cons_append, first, first, ih, List.length_cons, Nat.add_assoc,
        Nat.add_comm 1 as.length]
    | some handler => rfl

/-! ## What the loops come to -/

namespace BarElement

/-- The handler of an element for a button. -/
def handler (e : BarElement H) (detail : Nat) : Option H :=
  EventType.all.findSome? fun type => if type.code = detail then e.events type else none

/-- What an element in a module with this window answers. -/
def answer (window : Nat) (press_ev : ButtonPress) (e : BarElement H) : Option H :=
  if e.hit window press_ev then e.handler press_ev.detail else none

theorem eventLoop_eq_answer (window : Nat) (press_ev : ButtonPress) (e : BarElement H) :
    e.eventLoop window press_ev EventType.all = e.answer window press_ev := by
  rw [answer, handler]
  induction EventType.all with
  | nil => rw [eventLoop, List.findSome?_nil, ite_self]
  | cons type types ih =>
    rw [eventLoop, List.findSome?_cons]
    cases hevent : e.events type with
    | none => simp only [ite_self]; exact ih
    | some handler =>
      by_cases hcode : type.code = press_ev.detail
      · simp only [hcode, ne_eq, not_true_eq_false, if_false, if_true]
        split
        · rfl
        · next hmiss => rw [ih, if_neg hmiss]
      · simp only [hcode, ne_eq, not_false_eq_true, if_true, if_false]
        exact ih

theorem elementLoop_eq (window : Nat) (press_ev : ButtonPress) (es : List (BarElement H)) :
    ∀ i, elementLoop window press_ev false i es =
      (!(first i (es.map (answer window press_ev))).isEmpty,
        first i (es.map (answer window press_ev))) := by
  induction es with
  | nil => intro i; rfl
  | cons e es ih =>
    intro i
    rw [elementLoop, if_neg (by decide), eventLoop_eq_answer, List.map_cons]
    cases hanswer : e.answer window press_ev with
    | none => simp only [Option.isSome_none, ih]; rfl
    | some handler => cases es <;> rfl

end BarElement

/-- What the elements of all modules answer, one after the other. -/
def answers (press_ev : ButtonPress) (modules : List (BarModule H)) : List (Option H) :=
  modules.flatMap fun m => m.elements.map (BarElement.answer m.window press_ev)

theorem moduleLoop_eq (press_ev : ButtonPress) (modules : List (BarModule H)) :
    ∀ i, moduleLoop press_ev false i modules = first i (answers press_ev modules) := by
  induction modules with
  | nil => intro i; rfl
  | cons m ms ih =>
    intro i
    rw [moduleLoop, if_neg (by decide), BarElement.elementLoop_eq, answers, List.flatMap_cons,
      first_append, List.length_map]
    cases hfirst : first i (m.elements.map (BarElement.answer m.window press_ev)) with
    | nil => exact ih _
    | cons q qs => cases ms <;> rfl

/-- **What is run for a button press**: the first element that answers. -/
theorem processButtonPress_eq (modules : List (BarModule H)) (press_ev : ButtonPress) :
    processButtonPress modules press_ev = first 0 (answers press_ev modules) :=
  moduleLoop_eq press_ev modules 0

end Photonbar
