import Mathlib.Data.List.Forall2

/-!
# Loops that may fail

A loop of the source over a list, whose body may fail, is `List.mapM` in `Except`. Such a loop
succeeds if and only if every pass does (`mapM_eq_ok_iff`), and what it gives is related to its
input element by element. Two predicates say in what a computation ends:

* `FailsOnly S x`: if `x` fails, then with an error of `S`; where `S` has none, it succeeds;
* `Meets S P x`: the same, and if it succeeds, then with a result of `P`.

Both go through a sequence of two steps (`Meets.bind`, `FailsOnly.bind`), so that a computation is
judged by its parts, one lemma for each.

`forLoop` is a loop of another kind, whose guard has effects of its own. It is given fuel.
`forLoop_meets` is the rule for it, with an invariant and with a measure that shows that the fuel
is enough.
-/

namespace Photonbar

universe u v

variable {α : Type u} {β : Type v} {ε : Type}

/-- A sequence of two steps succeeds if and only if both do. -/
theorem bind_eq_ok_iff {α β : Type u} {x : Except ε α} {f : α → Except ε β} {b : β} :
    x >>= f = .ok b ↔ ∃ a, x = .ok a ∧ f a = .ok b := by
  cases x with
  | error e => simp [bind, Except.bind]
  | ok a => simp [bind, Except.bind]

/-! ## Errors that are allowed -/

section

variable {S : ε → Prop} {α β : Type u}

/-- If `x` fails, then with an error of `S`. -/
def FailsOnly (S : ε → Prop) (x : Except ε α) : Prop := ∀ e, x = .error e → S e

/-- If `x` succeeds then with a result of `P`, and if it fails then with an error of `S`. -/
def Meets (S : ε → Prop) (P : α → Prop) : Except ε α → Prop
  | .ok a => P a
  | .error e => S e

section

variable {P : α → Prop} {x : Except ε α}

theorem FailsOnly.meets (hx : FailsOnly S x) (hP : ∀ a, x = .ok a → P a) : Meets S P x := by
  cases x with
  | error e => exact hx e rfl
  | ok a => exact hP a rfl

theorem Meets.of_ok {a : α} (hx : Meets S P x) (ha : x = .ok a) : P a := by
  rw [ha] at hx
  exact hx

theorem Meets.imp {Q : α → Prop} (hx : Meets S P x) (hPQ : ∀ a, P a → Q a) : Meets S Q x := by
  cases x with
  | error e => exact hx
  | ok a => exact hPQ a hx

/-- What meets nothing wrong succeeds. -/
theorem Meets.exists_ok (hx : Meets S P x) (hS : ∀ e, ¬ S e) : ∃ a, x = .ok a := by
  cases x with
  | error e => exact (hS e hx).elim
  | ok a => exact ⟨a, rfl⟩

/-- Of two steps, the second starts from what the first has met. -/
theorem Meets.bind {Q : β → Prop} {f : α → Except ε β} (hx : Meets S P x)
    (hf : ∀ a, x = .ok a → P a → Meets S Q (f a)) : Meets S Q (x >>= f) := by
  cases x with
  | error e => exact hx
  | ok a => exact hf a rfl hx

end

theorem FailsOnly.ok (a : α) : FailsOnly S (.ok a : Except ε α) := nofun

theorem FailsOnly.error {e : ε} (he : S e) : FailsOnly S (.error e : Except ε α) := by
  rintro e' h
  obtain rfl := Except.error.inj h
  exact he

/-- Of two steps, each is asked by itself. -/
theorem FailsOnly.bind {x : Except ε α} {f : α → Except ε β} (hx : FailsOnly S x)
    (hf : ∀ a, x = .ok a → FailsOnly S (f a)) : FailsOnly S (x >>= f) := by
  cases hxa : x with
  | error e => exact .error (hx e hxa)
  | ok a => exact hf a hxa

/-- What must not fail succeeds. -/
theorem FailsOnly.exists_ok {x : Except ε α} (h : FailsOnly (fun _ => False) x) :
    ∃ a, x = .ok a := by
  cases x with
  | error e => exact (h e rfl).elim
  | ok a => exact ⟨a, rfl⟩

end

/-! ## Loops over lists -/

/-- A loop succeeds if and only if every pass does. -/
theorem mapM_eq_ok_iff {β : Type u} {f : α → Except ε β} {xs : List α} :
    ∀ {ys : List β}, xs.mapM f = .ok ys ↔ List.Forall₂ (fun x y => f x = .ok y) xs ys := by
  induction xs with
  | nil => intro ys; cases ys <;> simp [pure, Except.pure]
  | cons x xs ih =>
    intro ys
    rw [List.mapM_cons, bind_eq_ok_iff]
    refine ⟨?_, ?_⟩
    · rintro ⟨y, hy, hrest⟩
      obtain ⟨zs, hzs, hcons⟩ := bind_eq_ok_iff.mp hrest
      obtain rfl := Except.ok.inj hcons
      exact .cons hy (ih.mp hzs)
    · rintro (_ | ⟨hy, hzs⟩)
      exact ⟨_, hy, bind_eq_ok_iff.mpr ⟨_, ih.mpr hzs, rfl⟩⟩

/-- Whether a loop succeeds, pass by pass. -/
theorem exists_mapM_iff {β : Type u} (f : α → Except ε β) (xs : List α) :
    (∃ ys, xs.mapM f = .ok ys) ↔ ∀ x ∈ xs, ∃ y, f x = .ok y := by
  refine ⟨?_, ?_⟩
  · rintro ⟨ys, hys⟩ x hx
    have hpasses := mapM_eq_ok_iff.mp hys
    clear hys
    induction hpasses with
    | nil => cases hx
    | cons hy _ ih =>
      rcases List.mem_cons.mp hx with rfl | hx
      · exact ⟨_, hy⟩
      · exact ih hx
  · intro h
    induction xs with
    | nil => exact ⟨[], rfl⟩
    | cons x xs ih =>
      obtain ⟨y, hy⟩ := h x List.mem_cons_self
      obtain ⟨ys, hys⟩ := ih fun x hx => h x (List.mem_cons_of_mem _ hx)
      exact ⟨y :: ys, mapM_eq_ok_iff.mpr (.cons hy (mapM_eq_ok_iff.mp hys))⟩

/-- Where `R` holds, one relation says of each pair what a condition on its right
member says. -/
theorem forall₂_iff_forall {R S : α → β → Prop} {C : β → Prop} {xs : List α} {ys : List β}
    (h : List.Forall₂ R xs ys) (hiff : ∀ x y, R x y → (S x y ↔ C y)) :
    List.Forall₂ S xs ys ↔ ∀ y ∈ ys, C y := by
  induction h with
  | nil => simp
  | cons hxy _ ih => rw [List.forall₂_cons, hiff _ _ hxy, ih, List.forall_mem_cons]

/-- Two lists of one length walked together: what each pass says of its result, its
left and its right member. -/
theorem forall₂_zip {γ : Type v} {R : α × β → γ → Prop} {S : γ → β → Prop} {T : α → γ → Prop}
    (hR : ∀ x y z, R (x, y) z → S z y ∧ T x z) {xs : List α} :
    ∀ {ys : List β} {zs : List γ}, xs.length = ys.length → List.Forall₂ R (xs.zip ys) zs →
      List.Forall₂ S zs ys ∧ List.Forall₂ T xs zs := by
  induction xs with
  | nil =>
    intro ys zs hlen h
    obtain rfl := List.length_eq_zero_iff.mp hlen.symm
    cases h
    exact ⟨.nil, .nil⟩
  | cons x xs ih =>
    rintro (_ | ⟨y, ys⟩) zs hlen h
    · cases hlen
    · rw [List.zip_cons_cons] at h
      obtain _ | ⟨hz, hzs⟩ := h
      obtain ⟨hS, hT⟩ := hR x y _ hz
      obtain ⟨hSs, hTs⟩ := ih (Nat.succ.inj hlen) hzs
      exact ⟨.cons hS hSs, .cons hT hTs⟩

/-- Lists whose members agree under two functions have the same images. -/
theorem map_eq_of_forall₂ {γ : Type v} {f : α → γ} {g : β → γ} {xs : List α} {ys : List β}
    (h : List.Forall₂ (fun x y => f x = g y) xs ys) : xs.map f = ys.map g := by
  induction h with
  | nil => rfl
  | cons hxy _ ih => rw [List.map_cons, List.map_cons, hxy, ih]

/-- The right members that are reached when two lists are walked together. -/
theorem map_snd_zip_take (xs : List α) :
    ∀ ys : List β, (xs.zip ys).map Prod.snd = ys.take xs.length := by
  induction xs with
  | nil => intro ys; rfl
  | cons x xs ih =>
    rintro (_ | ⟨y, ys⟩)
    · rfl
    · rw [List.zip_cons_cons, List.map_cons, ih ys, List.length_cons, List.take_succ_cons]

/-! ## Loops with a guard that has effects -/

section

variable {ε σ κ : Type}

/-- `for (i = 0; next(i); ++i) body(i);`, where `next` and `body` change the state and may fail. The
loop runs from `i` on, and gives the number of iterations and the state. It has fuel, and `stuck` is
the failure if it runs out. -/
def forLoop (stuck : ε) (next : Nat → σ → Except ε (Option κ × σ))
    (body : Nat → κ → σ → Except ε σ) : Nat → Nat → σ → Except ε (Nat × σ)
  | 0, _, _ => .error stuck
  | n + 1, i, s =>
    match next i s with
    | .error e => .error e
    | .ok (none, s) => .ok (i, s)
    | .ok (some k, s) =>
      match body i k s with
      | .error e => .error e
      | .ok s => forLoop stuck next body n (i + 1) s

variable {stuck : ε} {next : Nat → σ → Except ε (Option κ × σ)} {body : Nat → κ → σ → Except ε σ}

/-- **A rule for loops**: `I` holds before an iteration, `J` in it and `Q` behind the loop. A measure
that the guard decreases bounds the number of iterations, so that the fuel does not run out. -/
theorem forLoop_meets {S : ε → Prop} {I : Nat → σ → Prop} {J : Nat → κ → σ → Prop}
    {Q : Nat → σ → Prop} (m : σ → Nat)
    (hnext : ∀ i s, I i s → Meets S (fun r : Option κ × σ =>
      (r.1 = none → Q i r.2) ∧ ∀ k, r.1 = some k → J i k r.2 ∧ m r.2 < m s) (next i s))
    (hbody : ∀ i k s, J i k s → Meets S (fun s' => I (i + 1) s' ∧ m s' ≤ m s) (body i k s)) :
    ∀ (n i : Nat) (s : σ), I i s → m s < n →
      Meets S (fun r : Nat × σ => Q r.1 r.2) (forLoop stuck next body n i s) := by
  intro n
  induction n with
  | zero => exact fun _ _ _ h => absurd h (Nat.not_lt_zero _)
  | succ n ih =>
    intro i s hI hm
    have hN := hnext i s hI
    rw [forLoop]
    cases hcase : next i s with
    | error e =>
      rw [hcase] at hN
      exact hN
    | ok r =>
      obtain ⟨k, s₁⟩ := r
      rw [hcase] at hN
      cases k with
      | none => exact hN.1 rfl
      | some k =>
        obtain ⟨hJ, hlt⟩ := hN.2 k rfl
        have hB := hbody i k s₁ hJ
        dsimp only at hlt hB ⊢
        cases hcase' : body i k s₁ with
        | error e =>
          rw [hcase'] at hB
          exact hB
        | ok s₂ =>
          rw [hcase'] at hB
          exact ih (i + 1) s₂ hB.1 (by have := hB.2; omega)

end

end Photonbar
