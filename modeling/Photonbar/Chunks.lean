import Mathlib.Data.List.Infix

/-!
# Searching a stream chunk by chunk

A stream arrives as chunks, and each chunk is searched for a word on its own. The word is found
exactly if it occurs in the stream at a place where no cut between two chunks goes through it
(`infix_chunk_iff`). Words, streams and chunks are lists over any type.

A place is a position in the stream, so that it does not depend on how the stream is cut; `cuts`
lists the positions where the chunks end, and `Uncut` says that none of them is inside the word.
The induction is on the chunks: an occurrence is in the first one, or behind it
(`occursAt_append_left`, `occursAt_append_right`), and behind it the positions are shifted by its
length (`uncut_cons`). The word must not be empty: the empty one occurs everywhere, even where
there are no chunks to search.
-/

namespace Photonbar

universe u

variable {α : Type u}

/-- Where the chunks end, as positions in the stream. -/
def cuts : List (List α) → List Nat
  | [] => []
  | c :: cs => c.length :: (cuts cs).map (c.length + ·)

/-- The word `p` occurs in `s` at position `i`. -/
def OccursAt (p s : List α) (i : Nat) : Prop := p <+: s.drop i

/-- No cut goes through the `n` places from `i` on. -/
def Uncut (cs : List (List α)) (i n : Nat) : Prop := ∀ k ∈ cuts cs, ¬ (i < k ∧ k < i + n)

/-- The cuts of a stream: the one after its first chunk, and the later ones. -/
theorem uncut_cons {c : List α} {cs : List (List α)} {i n : Nat} :
    Uncut (c :: cs) i n ↔
      ¬ (i < c.length ∧ c.length < i + n) ∧
        ∀ k ∈ cuts cs, ¬ (i < c.length + k ∧ c.length + k < i + n) := by
  simp only [Uncut, cuts, List.forall_mem_cons, List.forall_mem_map]

theorem infix_iff_occursAt {p s : List α} : p <:+: s ↔ ∃ i, OccursAt p s i := by
  refine ⟨?_, ?_⟩
  · intro h
    obtain ⟨t, hp, hs⟩ := List.infix_iff_prefix_suffix.mp h
    rw [List.suffix_iff_eq_drop] at hs
    exact ⟨_, hs ▸ hp⟩
  · rintro ⟨i, hi⟩
    exact hi.isInfix.trans (List.drop_suffix i s).isInfix

/-- An occurrence ends inside the stream. -/
theorem OccursAt.le {p s : List α} {i : Nat} (h : OccursAt p s i) (hp : p ≠ []) :
    i + p.length ≤ s.length := by
  have hlen := h.length_le
  have hpos := List.length_pos_iff.mpr hp
  rw [List.length_drop] at hlen
  omega

/-- An occurrence that ends inside the first part of a stream is one in that part. -/
theorem occursAt_append_left {p c s : List α} {i : Nat} (hi : i + p.length ≤ c.length) :
    OccursAt p (c ++ s) i ↔ OccursAt p c i := by
  rw [OccursAt]
  rw [List.drop_append_of_le_length (by omega)]
  refine ⟨?_, ?_⟩
  · intro h
    refine List.prefix_of_prefix_length_le h (List.prefix_append _ _) ?_
    rw [List.length_drop]
    omega
  · exact fun h => h.trans (List.prefix_append _ _)

/-- An occurrence behind the first part of a stream is one in the rest. -/
theorem occursAt_append_right (p c s : List α) (i : Nat) :
    OccursAt p (c ++ s) (c.length + i) ↔ OccursAt p s i := by
  unfold OccursAt
  rw [List.drop_append, List.drop_eq_nil_of_le (by omega), List.nil_append, Nat.add_sub_cancel_left]

/-- **Searching chunks**: a word is found in some chunk if and only if it occurs in the
stream at a place that no cut goes through. -/
theorem infix_chunk_iff {p : List α} (hp : p ≠ []) (cs : List (List α)) :
    (∃ c ∈ cs, p <:+: c) ↔ ∃ i, OccursAt p cs.flatten i ∧ Uncut cs i p.length := by
  induction cs with
  | nil =>
    refine iff_of_false (by simp) ?_
    rintro ⟨i, hi, -⟩
    have hle := hi.le hp
    have hpos := List.length_pos_iff.mpr hp
    rw [List.flatten_nil, List.length_nil] at hle
    omega
  | cons c cs ih =>
    rw [List.flatten_cons]
    refine ⟨?_, ?_⟩
    · rintro ⟨d, hd, hpd⟩
      rcases List.mem_cons.mp hd with rfl | hd
      · obtain ⟨i, hi⟩ := infix_iff_occursAt.mp hpd
        have hle := hi.le hp
        refine ⟨i, (occursAt_append_left hle).mpr hi, uncut_cons.mpr ⟨by omega, ?_⟩⟩
        rintro k - hk
        omega
      · obtain ⟨i, hi, huncut⟩ := ih.mp ⟨d, hd, hpd⟩
        refine ⟨c.length + i, (occursAt_append_right p c _ i).mpr hi, uncut_cons.mpr ⟨by omega, ?_⟩⟩
        intro k hk hcut
        exact huncut k hk ⟨by omega, by omega⟩
    · rintro ⟨i, hi, huncut⟩
      obtain ⟨hfirst, hrest⟩ := uncut_cons.mp huncut
      by_cases hin : i + p.length ≤ c.length
      · exact ⟨c, List.mem_cons_self,
          infix_iff_occursAt.mpr ⟨i, (occursAt_append_left hin).mp hi⟩⟩
      · -- the first cut is not inside the occurrence, so the occurrence is behind it
        obtain ⟨j, rfl⟩ : ∃ j, i = c.length + j := ⟨i - c.length, by omega⟩
        obtain ⟨d, hd, hpd⟩ := ih.mpr ⟨j, (occursAt_append_right p c _ j).mp hi, fun k hk hcut =>
          hrest k hk ⟨by omega, by omega⟩⟩
        exact ⟨d, List.mem_cons_of_mem _ hd, hpd⟩

end Photonbar
