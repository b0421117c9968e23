import Mathlib.Logic.Basic
import Mathlib.Data.List.Basic

/-!
# Runs of a partial step function

A system is a step function `step : σ → ε → Option σ`: from a state and an event
it moves to the next state, or has none (`none`: the behaviour is undefined from
here on). Two predicates speak about a whole run:

* `Always step P s es`: `P` holds of `s` and of every state that the run on `es`
  goes through, and no step of the run is undefined;
* `AllSteps step C s es`: every step of the run is taken in a state and on an
  event that satisfy `C`.

`Always.of_allSteps` is the invariant rule. `always_iff_allSteps_of` is its exact
form: when `C` says precisely which steps keep the invariant, a run keeps it
throughout if and only if each of its steps satisfies `C`.
-/

namespace Photonbar

universe u v

variable {σ : Type u} {ε : Type v}

/-- `P` holds at every state of the run on `es` from `s`, and every step is defined. -/
def Always (step : σ → ε → Option σ) (P : σ → Prop) : σ → List ε → Prop
  | s, [] => P s
  | s, e :: es => P s ∧ ∃ s', step s e = some s' ∧ Always step P s' es

/-- Every step of the run on `es` from `s` is taken under `C`. -/
def AllSteps (step : σ → ε → Option σ) (C : σ → ε → Prop) : σ → List ε → Prop
  | _, [] => True
  | s, e :: es => C s e ∧ ∀ s', step s e = some s' → AllSteps step C s' es

/-- The states that the run on `es` from `s` ends in. -/
def runOn (step : σ → ε → Option σ) : σ → List ε → Option σ
  | s, [] => some s
  | s, e :: es => (step s e).bind fun s' => runOn step s' es

section

variable {step : σ → ε → Option σ} {P Q : σ → Prop} {C : σ → ε → Prop}

@[simp] theorem always_nil (s : σ) : Always step P s [] ↔ P s := Iff.rfl

@[simp] theorem always_cons (s : σ) (e : ε) (es : List ε) :
    Always step P s (e :: es) ↔ P s ∧ ∃ s', step s e = some s' ∧ Always step P s' es :=
  Iff.rfl

@[simp] theorem allSteps_nil (s : σ) : AllSteps step C s [] := trivial

@[simp] theorem allSteps_cons (s : σ) (e : ε) (es : List ε) :
    AllSteps step C s (e :: es) ↔
      C s e ∧ ∀ s', step s e = some s' → AllSteps step C s' es :=
  Iff.rfl

/-- The first state of a run satisfies what all of its states satisfy. -/
theorem Always.head {s : σ} {es : List ε} (h : Always step P s es) : P s := by
  cases es with
  | nil => exact h
  | cons e es => exact h.1

/-- A weaker predicate holds along the same run. -/
theorem Always.imp (hPQ : ∀ s, P s → Q s) :
    ∀ {s : σ} {es : List ε}, Always step P s es → Always step Q s es := by
  intro s es
  induction es generalizing s with
  | nil => exact hPQ s
  | cons e es ih =>
    rintro ⟨hP, s', hs, hrest⟩
    exact ⟨hPQ s hP, s', hs, ih hrest⟩

/-- **Invariant rule**: if every step under `C` is defined and keeps `P`, then a
run whose steps are all under `C` keeps `P` throughout. -/
theorem Always.of_allSteps
    (hstep : ∀ s e, P s → C s e → ∃ s', step s e = some s' ∧ P s') :
    ∀ {s : σ} {es : List ε}, P s → AllSteps step C s es → Always step P s es := by
  intro s es
  induction es generalizing s with
  | nil => intro hP _; exact hP
  | cons e es ih =>
    rintro hP ⟨hC, hrest⟩
    obtain ⟨s', hs, hP'⟩ := hstep s e hP hC
    exact ⟨hP, s', hs, ih hP' (hrest s' hs)⟩

/-- **Exact invariant rule**: let every step under `D` that keeps `P` keep the bookkeeping `Q`, and
let `C` say exactly which of these steps are defined and keep `P`, where `P` and `Q` hold. Then `P`
holds throughout a run under `D` if and only if it holds at the start and every step of the run is
under `C`. -/
theorem always_iff_allSteps_of {D : σ → ε → Prop}
    (hQ : ∀ s e s', Q s → D s e → step s e = some s' → P s' → Q s')
    (hstep : ∀ s e, P s → Q s → D s e → (C s e ↔ ∃ s', step s e = some s' ∧ P s')) :
    ∀ {s : σ} {es : List ε}, Q s → AllSteps step D s es →
      (Always step P s es ↔ P s ∧ AllSteps step C s es) := by
  intro s es
  induction es generalizing s with
  | nil => exact fun _ _ => ⟨fun hP => ⟨hP, trivial⟩, fun h => h.1⟩
  | cons e es ih =>
    rintro hQs ⟨hD, hDrest⟩
    refine ⟨?_, ?_⟩
    · rintro ⟨hP, s', hs, hrest⟩
      refine ⟨hP, (hstep s e hP hQs hD).mpr ⟨s', hs, hrest.head⟩, ?_⟩
      intro t ht
      obtain rfl : s' = t := Option.some.inj (hs.symm.trans ht)
      exact ((ih (hQ s e s' hQs hD hs hrest.head) (hDrest s' hs)).mp hrest).2
    · rintro ⟨hP, hC, hrest⟩
      obtain ⟨s', hs, hP'⟩ := (hstep s e hP hQs hD).mp hC
      exact ⟨hP, s', hs,
        (ih (hQ s e s' hQs hD hs hP') (hDrest s' hs)).mpr ⟨hP', hrest s' hs⟩⟩

theorem allSteps_of_forall (h : ∀ s e, C s e) (s : σ) (es : List ε) : AllSteps step C s es := by
  induction es generalizing s with
  | nil => trivial
  | cons e es ih => exact ⟨h s e, fun s' _ => ih s'⟩

/-- The rule for all runs. -/
theorem always_iff_allSteps (hQ : ∀ s e s', Q s → step s e = some s' → Q s')
    (hstep : ∀ s e, P s → Q s → (C s e ↔ ∃ s', step s e = some s' ∧ P s')) {s : σ} {es : List ε}
    (hQs : Q s) : Always step P s es ↔ P s ∧ AllSteps step C s es :=
  always_iff_allSteps_of (fun s e s' hQs _ hs _ => hQ s e s' hQs hs)
    (fun s e hP hQs _ => hstep s e hP hQs) hQs (allSteps_of_forall (fun _ _ => trivial) s es)

/-- What every step under `C` keeps holds of the state that a run under `C` ends in. -/
theorem AllSteps.runOn (hstep : ∀ s e s', P s → C s e → step s e = some s' → P s') :
    ∀ {s t : σ} {es : List ε}, P s → AllSteps step C s es → runOn step s es = some t → P t := by
  intro s t es
  induction es generalizing s with
  | nil =>
    intro hP _ ht
    obtain rfl := Option.some.inj ht
    exact hP
  | cons e es ih =>
    rintro hP ⟨hC, hrest⟩ ht
    obtain ⟨s', hs, ht⟩ := Option.bind_eq_some_iff.mp ht
    exact ih (hstep s e s' hP hC hs) (hrest s' hs) ht

/-- What every step keeps holds of the state that a run ends in. -/
theorem runOn_keeps (hstep : ∀ s e s', P s → step s e = some s' → P s') {s t : σ} {es : List ε}
    (hP : P s) (ht : runOn step s es = some t) : P t := by
  exact AllSteps.runOn (fun s e s' hP _ hs => hstep s e s' hP hs) hP
    (allSteps_of_forall (fun _ _ => trivial) s es) ht

/-- A run on the events of two runs, one after the other. -/
theorem runOn_append (s : σ) (es es' : List ε) :
    runOn step s (es ++ es') = (runOn step s es).bind fun t => runOn step t es' := by
  induction es generalizing s with
  | nil => rfl
  | cons e es ih =>
    simp only [List.cons_append, runOn, Option.bind_assoc]
    exact Option.bind_congr fun s' _ => ih s'

/-- What a run keeps throughout holds of the state it ends in. -/
theorem Always.runOn {s t : σ} {es : List ε} (h : Always step P s es)
    (ht : runOn step s es = some t) : P t := by
  induction es generalizing s with
  | nil =>
    obtain rfl := Option.some.inj ht
    exact h
  | cons e es ih =>
    obtain ⟨-, s', hs, hrest⟩ := h
    rw [Photonbar.runOn, hs] at ht
    exact ih hrest ht

end

end Photonbar
