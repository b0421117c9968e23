import Mathlib.Data.List.TakeWhile
import Photonbar.Loops

/-!
# Scanning a string in memory

A pointer is an index, and the memory may refuse a byte (`Mem`). A loop is given a number of passes
and fails with `endless` if it needs more, so that a result is a proof that the loop has ended and
that every byte it looked at was there.

`At mem stop t p` says that the pointer `p` is in front of the text `t`, whose NUL is at `stop`.
With it, a loop that moves the pointer is a function of the text alone: `At.skip` is the rule, and
it holds whatever else is in memory and however many passes are left, as long as they are more than
the text has bytes. A loop must stop at the NUL by itself, which is a hypothesis of the rule; one
that looks for a byte and does not ask for the NUL is no such loop. The other lemmas read the text
off the pointer: what the byte in front of it is, and when the text is over.
-/

namespace Photonbar

namespace Scan

/-- What goes wrong. -/
inductive Failure where
  /-- there is no byte at this index -/
  | index (i : Nat)
  /-- the loop has not ended yet -/
  | endless
  deriving DecidableEq

/-- A memory: what a pointer points to. -/
abbrev Mem : Type := Nat → Except Failure UInt8

/-- `while (go(*p)) ++p`, for at most `n` passes. -/
def skip (mem : Mem) (go : UInt8 → Bool) : Nat → Nat → Except Failure Nat
  | 0, _ => .error .endless
  | n + 1, p => do
    if go (← mem p) then skip mem go n (p + 1) else return p

/-- `if (go(*p)) ++p`. -/
def skipOne (mem : Mem) (go : UInt8 → Bool) (p : Nat) : Except Failure Nat := do
  return if go (← mem p) then p + 1 else p

/-- The memory holds a text and its NUL from `p` on. -/
def Holds (mem : Mem) : List UInt8 → Nat → Prop
  | [], p => mem p = .ok 0
  | c :: t, p => c ≠ 0 ∧ mem p = .ok c ∧ Holds mem t (p + 1)

/-- The pointer is in front of a text, whose NUL is at `stop`. -/
structure At (mem : Mem) (stop : Nat) (t : List UInt8) (p : Nat) : Prop where
  holds : Holds mem t p
  stop : p + t.length = stop

section

variable {go : UInt8 → Bool} {l r : List UInt8}

/-- A loop passes over what is in front of the byte that it stops at. -/
theorem dropWhile_append (hl : ∀ c ∈ l, go c = true) (hr : go (r.head?.getD 0) = false) :
    (l ++ r).dropWhile go = r := by
  rw [List.dropWhile_append_of_pos hl]
  cases r with
  | nil => rfl
  | cons c r => exact List.dropWhile_cons_of_neg (Bool.not_eq_true _ ▸ hr)

theorem takeWhile_append (hl : ∀ c ∈ l, go c = true) (hr : go (r.head?.getD 0) = false) :
    (l ++ r).takeWhile go = l := by
  rw [List.takeWhile_append_of_pos hl]
  cases r with
  | nil => exact List.append_nil l
  | cons c r => rw [List.takeWhile_cons_of_neg (Bool.not_eq_true _ ▸ hr), List.append_nil]

theorem drop_dropWhile_suffix (go : UInt8 → Bool) (l : List UInt8) :
    (l.dropWhile go).drop 1 <:+ l :=
  (List.drop_suffix _ _).trans (List.dropWhile_suffix _)

/-- What is behind the byte that a loop stops at is shorter. -/
theorem drop_dropWhile_length (go : UInt8 → Bool) (h : l ≠ []) :
    ((l.dropWhile go).drop 1).length < l.length := by
  have hle := (List.dropWhile_suffix (l := l) go).length_le
  have hpos := List.length_pos_iff.mpr h
  rw [List.length_drop]
  omega

end

namespace At

variable {mem : Mem} {stop n p : Nat} {t : List UInt8} {c : UInt8}

/-- At the end there is the NUL. -/
theorem nil_iff : At mem stop [] p ↔ mem p = .ok 0 ∧ p = stop :=
  ⟨fun h => ⟨h.holds, h.stop⟩, fun h => ⟨h.1, h.2⟩⟩

theorem cons_iff : At mem stop (c :: t) p ↔ c ≠ 0 ∧ mem p = .ok c ∧ At mem stop t (p + 1) := by
  refine ⟨?_, ?_⟩
  · rintro ⟨⟨hne, hc, hrest⟩, hstop⟩
    exact ⟨hne, hc, hrest, by rw [List.length_cons] at hstop; omega⟩
  · rintro ⟨hne, hc, hrest, hstop⟩
    exact ⟨⟨hne, hc, hrest⟩, by rw [List.length_cons]; omega⟩

/-- The byte at the pointer. -/
theorem head (h : At mem stop t p) : mem p = .ok (t.head?.getD 0) := by
  cases t with
  | nil => exact (nil_iff.mp h).1
  | cons c t => exact (cons_iff.mp h).2.1

theorem head_eq_zero_iff (h : At mem stop t p) : t.head?.getD 0 = 0 ↔ t = [] := by
  cases t with
  | nil => exact iff_of_true rfl rfl
  | cons c t => exact iff_of_false (cons_iff.mp h).1 nofun

/-- The memory has these bytes and a NUL behind them. -/
theorem of_forall (ht : ∀ i (h : i < t.length), t[i] ≠ 0 ∧ mem (p + i) = .ok t[i])
    (hnul : mem (p + t.length) = .ok 0) : At mem (p + t.length) t p := by
  induction t generalizing p with
  | nil => exact nil_iff.mpr ⟨hnul, rfl⟩
  | cons c t ih =>
    have hshift (i : Nat) : p + (i + 1) = p + 1 + i := by omega
    obtain ⟨hne, hc⟩ := ht 0 (Nat.zero_lt_succ _)
    rw [List.length_cons, hshift] at hnul ⊢
    refine cons_iff.mpr ⟨hne, hc, ih (fun i hi => ?_) hnul⟩
    obtain ⟨hne, hc⟩ := ht (i + 1) (Nat.succ_lt_succ hi)
    rw [hshift] at hc
    exact ⟨hne, hc⟩

/-- There is no NUL in front of the end. -/
theorem ne_zero (h : At mem stop t p) : ∀ c ∈ t, c ≠ 0 := by
  induction t generalizing p with
  | nil => exact nofun
  | cons c t ih =>
    obtain ⟨hne, -, hrest⟩ := cons_iff.mp h
    exact List.forall_mem_cons.mpr ⟨hne, ih hrest⟩

/-- A shorter text is further on. -/
theorem lt_of_length {t' : List UInt8} {p' : Nat} (h : At mem stop t p) (h' : At mem stop t' p')
    (hlt : t'.length < t.length) : p < p' ∧ p' ≤ stop := by
  have := h.stop
  have := h'.stop
  omega

/-- **A loop** that stops at the NUL passes over the bytes it is for. -/
theorem skip (h : At mem stop t p) (go : UInt8 → Bool) (hgo : go 0 = false) (hn : t.length < n) :
    ∃ p', Scan.skip mem go n p = .ok p' ∧ At mem stop (t.dropWhile go) p' := by
  induction t generalizing n p with
  | nil =>
    cases n with
    | zero => cases hn
    | succ n =>
      refine ⟨p, ?_, h⟩
      rw [Scan.skip, h.head]
      exact if_neg (by simp [hgo])
  | cons c t ih =>
    obtain ⟨-, hc, hrest⟩ := cons_iff.mp h
    cases n with
    | zero => cases hn
    | succ n =>
      rw [Scan.skip, hc]
      by_cases hgoc : go c = true
      · rw [List.dropWhile_cons_of_pos hgoc]
        obtain ⟨p', hskip, hat⟩ := ih hrest (n := n) (by rw [List.length_cons] at hn; omega)
        exact ⟨p', (if_pos hgoc).trans hskip, hat⟩
      · rw [List.dropWhile_cons_of_neg hgoc]
        exact ⟨p, if_neg hgoc, h⟩

/-- One byte is passed over, unless the pointer is at the end. -/
theorem skipOne (h : At mem stop t p) {go : UInt8 → Bool} (hgo : ∀ c, t.head? = some c → go c = true)
    (hzero : go 0 = false) :
    ∃ p', Scan.skipOne mem go p = .ok p' ∧ At mem stop (t.drop 1) p' := by
  refine ⟨_, by rw [Scan.skipOne, h.head]; rfl, ?_⟩
  cases t with
  | nil => rwa [List.head?_nil, Option.getD_none, hzero]
  | cons c t =>
    rw [List.head?_cons, Option.getD_some, hgo c rfl]
    exact (cons_iff.mp h).2.2

/-- A loop, and the byte that it stops at. -/
theorem skipPast (h : At mem stop t p) {go one : UInt8 → Bool} (hgo : go 0 = false)
    (hone : one 0 = false) (hstop : ∀ c, c ≠ 0 → go c = false → one c = true) (hn : t.length < n) :
    ∃ p₁ p₂, Scan.skip mem go n p = .ok p₁ ∧ Scan.skipOne mem one p₁ = .ok p₂ ∧
      At mem stop ((t.dropWhile go).drop 1) p₂ := by
  obtain ⟨p₁, hskip, h₁⟩ := h.skip go hgo hn
  have hhead : ∀ c, (t.dropWhile go).head? = some c → one c = true := by
    intro c hc
    have hnot := List.head?_dropWhile_not go t
    rw [hc] at hnot
    exact hstop c (h₁.ne_zero c (List.mem_of_head? hc)) hnot
  obtain ⟨p₂, hskipOne, h₂⟩ := h₁.skipOne hhead hone
  exact ⟨p₁, p₂, hskip, hskipOne, h₂⟩

end At

end Scan

end Photonbar
