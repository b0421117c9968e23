import Mathlib.Data.List.Basic
import Mathlib.Tactic.Cases

/-!
# Rewriting a text in place

A pass looks at the text from a read position on. It either stops, or says how far the read
position moves and what is written at the write position, which moves behind it. If a pass never
writes more than it reads (`Shrinking`), then the write position stays behind the read position,
and the text that is read is the original one: `loop_eq` says that the loop in place writes what
`rewrite` computes without writing.

`Written` is the relation between the buffers before and after: the same in front of the write
position and from the read position on, with the output between them and anything behind that. It
is transitive (`Written.trans`), so that the induction on the text needs one pass only. Writing
outside the buffer is `none`, and `loop_eq` excludes it, as the read position never passes the end
of the text. Buffers and texts are lists over any type.
-/

namespace Photonbar

namespace InPlace

universe u

variable {α : Type u}

/-- A pass moves on, stays inside the text, and writes no more than it reads. -/
def Shrinking (pass : List α → Option (Nat × List α)) : Prop :=
  ∀ t move piece, pass t = some (move, piece) →
    1 ≤ move ∧ move ≤ t.length ∧ piece.length ≤ move

/-- The text between two places of a buffer. -/
def between (buf : List α) (r stop : Nat) : List α := (buf.drop r).take (stop - r)

/-- `buf[p..] = piece`; `none` outside the buffer. -/
def overwrite (buf : List α) (p : Nat) (piece : List α) : Option (List α) :=
  if p + piece.length ≤ buf.length then some (buf.take p ++ piece ++ buf.drop (p + piece.length))
  else none

/-- The loop in place, with the write position `p`, the read position `r` and the end of the text:
the buffer and the positions behind it. `none` is a write outside the buffer, or too few passes. -/
def loop (pass : List α → Option (Nat × List α)) (stop : Nat) :
    Nat → List α → Nat → Nat → Option (List α × Nat × Nat)
  | 0, _, _, _ => none
  | n + 1, buf, p, r =>
    if r < stop then
      match pass (between buf r stop) with
      | none => some (buf, p, r)
      | some (move, piece) =>
        (overwrite buf p piece).bind fun buf =>
          loop pass stop n buf (p + piece.length) (r + move)
    else some (buf, p, r)

/-- What the passes write, and the text at which they stop. -/
def rewrite (pass : List α → Option (Nat × List α)) (hpass : Shrinking pass) (t : List α) :
    List α × List α :=
  match _h : pass t with
  | none => ([], t)
  | some (move, piece) =>
    (piece ++ (rewrite pass hpass (t.drop move)).1, (rewrite pass hpass (t.drop move)).2)
termination_by t.length
decreasing_by all_goals
  have := hpass _ _ _ _h
  rw [List.length_drop]
  omega

/-- `buf'` is `buf` with `out` at `p`, the same before it and from `r` on. -/
structure Written (buf : List α) (p : Nat) (out : List α) (r : Nat) (buf' : List α) : Prop where
  length : buf'.length = buf.length
  upTo : buf'.take (p + out.length) = buf.take p ++ out
  after : buf'.drop r = buf.drop r

variable {buf buf' buf'' out out' : List α} {p r r' : Nat}

theorem Written.refl (buf : List α) (p r : Nat) : Written buf p [] r buf :=
  ⟨rfl, by simp, rfl⟩

theorem Written.mono (h : Written buf p out r buf') (hr : r ≤ r') :
    Written buf p out r' buf' := by
  refine ⟨h.length, h.upTo, ?_⟩
  rw [← Nat.add_sub_cancel' hr, ← List.drop_drop, ← List.drop_drop, h.after]

theorem Written.trans (h : Written buf p out r buf')
    (h' : Written buf' (p + out.length) out' r buf'') :
    Written buf p (out ++ out') r buf'' := by
  refine ⟨h'.length.trans h.length, ?_, h'.after.trans h.after⟩
  rw [List.length_append, ← Nat.add_assoc, h'.upTo, h.upTo, List.append_assoc]

/-- What stands before it stays. -/
theorem Written.before (h : Written buf p out r buf') {q : Nat} (hq : q ≤ p) :
    buf'.take q = buf.take q := by
  have htake := congrArg (List.take q) h.upTo
  rw [List.take_take, Nat.min_eq_left (by omega)] at htake
  rw [htake]
  by_cases hlen : q ≤ buf.length
  · rw [List.take_append_of_le_length (by rw [List.length_take]; omega), List.take_take,
      Nat.min_eq_left hq]
  · -- the buffer ends before `q`, and so does the new one
    rw [← htake, List.take_of_length_le (by rw [h.length]; omega),
      List.take_of_length_le (l := buf) (by omega)]
    have hall := h.upTo
    rw [List.take_of_length_le (by rw [h.length]; omega), List.take_of_length_le (by omega)] at hall
    have hnil := congrArg List.length hall
    rw [h.length, List.length_append] at hnil
    rw [hall, List.length_eq_zero_iff.mp (show out.length = 0 by omega), List.append_nil]

/-- What is written can be read back. -/
theorem Written.read (h : Written buf p out r buf') (hp : p ≤ buf.length) :
    (buf'.drop p).take out.length = out := by
  have hdrop := congrArg (List.drop p) h.upTo
  rwa [List.drop_take, Nat.add_sub_cancel_left, List.drop_left' (by simp [hp])] at hdrop

theorem overwrite_spec (h : p + out.length ≤ buf.length) (hr : p + out.length ≤ r) :
    ∃ buf', overwrite buf p out = some buf' ∧ Written buf p out r buf' := by
  have hlen : (buf.take p ++ out).length = p + out.length := by
    rw [List.length_append, List.length_take]
    omega
  refine ⟨_, if_pos h, ?_, List.take_left' hlen, ?_⟩
  · rw [List.length_append, hlen, List.length_drop]
    omega
  · rw [List.drop_append, hlen, List.drop_eq_nil_of_le (by omega), List.nil_append, List.drop_drop]
    congr 1
    omega

section Loop

variable {pass : List α → Option (Nat × List α)} (hpass : Shrinking pass)

theorem rewrite_none {t : List α} (h : pass t = none) : rewrite pass hpass t = ([], t) := by
  rw [rewrite]
  split
  · rfl
  next h' => cases h.symm.trans h'

theorem rewrite_some {t piece : List α} {move : Nat} (h : pass t = some (move, piece)) :
    rewrite pass hpass t =
      (piece ++ (rewrite pass hpass (t.drop move)).1, (rewrite pass hpass (t.drop move)).2) := by
  conv_lhs => rw [rewrite]
  split
  next h' => cases h.symm.trans h'
  next h' =>
    cases h.symm.trans h'
    rfl

theorem rewrite_suffix (t : List α) : (rewrite pass hpass t).2 <:+ t := by
  fun_induction rewrite pass hpass t with
  | case1 t h => exact List.suffix_refl t
  | case2 t move piece h ih => exact ih.trans (List.drop_suffix _ _)

/-- The passes write no more than they read. -/
theorem rewrite_length (t : List α) :
    (rewrite pass hpass t).1.length + (rewrite pass hpass t).2.length ≤ t.length := by
  fun_induction rewrite pass hpass t with
  | case1 t h => simp
  | case2 t move piece h ih =>
    have hbounds := hpass _ _ _ h
    rw [List.length_drop] at ih
    simp only [List.length_append]
    omega

theorem length_between {stop : Nat} (hstop : stop ≤ buf.length) :
    (between buf r stop).length = stop - r := by
  rw [between, List.length_take, List.length_drop]
  omega

theorem drop_between (buf : List α) (r move stop : Nat) :
    (between buf r stop).drop move = between buf (r + move) stop := by
  rw [between, List.drop_take, List.drop_drop, between, Nat.sub_sub]

/-- The end of a text between two places. -/
theorem eq_between_of_suffix {t : List α} {stop : Nat} (h : t <:+ between buf r stop)
    (hr : r ≤ stop) (hstop : stop ≤ buf.length) : t = between buf (stop - t.length) stop := by
  have hle := h.length_le
  have hdrop := List.suffix_iff_eq_drop.mp h
  rw [length_between hstop] at hle hdrop
  rwa [drop_between, show r + (stop - r - t.length) = stop - t.length by omega] at hdrop

theorem Written.between_eq {stop : Nat} (h : Written buf p out r buf') (hr : r ≤ r') :
    between buf' r' stop = between buf r' stop := by
  rw [between, (h.mono hr).after, between]

/-- **Rewriting in place**: the loop writes what `rewrite` computes from the original text, and the
write position stays behind the read position by at least as much as it was. -/
theorem loop_eq {stop : Nat} {n : Nat} (hpr : p ≤ r) (hr : r ≤ stop)
    (hstop : stop ≤ buf.length) (hn : stop - r < n) :
    ∃ buf', loop pass stop n buf p r = some (buf',
        p + (rewrite pass hpass (between buf r stop)).1.length,
        stop - (rewrite pass hpass (between buf r stop)).2.length) ∧
      Written buf p (rewrite pass hpass (between buf r stop)).1
        (stop - (rewrite pass hpass (between buf r stop)).2.length) buf' := by
  induction n generalizing buf p r with
  | zero => cases hn
  | succ n ih =>
    have hlen : (between buf r stop).length = stop - r := length_between hstop
    cases hcase : pass (between buf r stop) with
    | none =>
      refine ⟨buf, ?_, ?_⟩
      · rw [loop]
        simp only [hcase, rewrite_none hpass hcase, hlen]
        rw [show stop - (stop - r) = r by omega]
        split <;> rfl
      · rw [rewrite_none hpass hcase]
        exact .refl _ _ _
    | some result =>
      obtain ⟨move, piece⟩ := result
      obtain ⟨hmove, hle, hpiece⟩ := hpass _ _ _ hcase
      rw [hlen] at hle
      obtain ⟨buf₁, hwrite, hwritten⟩ :=
        overwrite_spec (show p + piece.length ≤ buf.length by omega)
          (show p + piece.length ≤ r + move by omega)
      obtain ⟨buf', hloop, hwritten'⟩ := ih (show p + piece.length ≤ r + move by omega) (by omega)
        (show stop ≤ buf₁.length by rw [hwritten.length]; exact hstop) (by omega)
      -- what is still to be read is not changed by the write
      rw [hwritten.between_eq (Nat.le_refl _), ← drop_between] at hloop hwritten'
      have hrest := (rewrite_suffix hpass ((between buf r stop).drop move)).length_le
      rw [List.length_drop, hlen] at hrest
      have hafter : r + move ≤
          stop - (rewrite pass hpass ((between buf r stop).drop move)).2.length := by omega
      refine ⟨buf', ?_, ?_⟩
      · rw [loop, if_pos (by omega)]
        simp only [hcase, hwrite, Option.bind_some, hloop]
        rw [rewrite_some hpass hcase, List.length_append, Nat.add_assoc]
      · rw [rewrite_some hpass hcase]
        exact (hwritten.mono hafter).trans hwritten'

end Loop

end InPlace

end Photonbar
