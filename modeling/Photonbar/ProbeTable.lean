import Mathlib.Data.Finset.Card
import Mathlib.Data.Finset.Range
import Mathlib.Logic.Function.Basic

/-!
# A hash table with linear probing

The table has `N` slots, each empty or with a key. A key is searched from its home
slot on, slot after slot, until the key or an empty slot is met; a search that meets
neither never ends, which is `none` here. A key is entered in the empty slot that the
search for it ends in, and is never removed.

`Sound` is the invariant: every key is found where it is stored, and the value there
is right. `free` counts the empty slots; while there is one, every search ends. `Stores`
says which keys have been entered, and with that a search is about a set of keys.
-/

namespace Photonbar

namespace ProbeTable

universe u v

variable {κ : Type u} {ν : Type v} [DecidableEq κ] (N : Nat) (empty : κ)

/-- The search for `k`, from slot `s` on, through at most `n` slots. -/
def probe (keys : Nat → κ) (k : κ) : Nat → Nat → Option Nat
  | 0, _ => none
  | n + 1, s =>
    if keys s ≠ empty ∧ keys s ≠ k then probe keys k n ((s + 1) % N) else some s

variable {N empty} {keys : Nat → κ} {k : κ}

theorem probe_succ (keys : Nat → κ) (k : κ) (n s : Nat) :
    probe N empty keys k (n + 1) s =
      if keys s ≠ empty ∧ keys s ≠ k then probe N empty keys k n ((s + 1) % N) else some s :=
  rfl

/-- A search ends at the key or at an empty slot, in the table. -/
theorem probe_eq_some {n : Nat} : ∀ {s t : Nat}, s < N → probe N empty keys k n s = some t →
    t < N ∧ (keys t = empty ∨ keys t = k) := by
  induction n with
  | zero => intro s t _ h; cases h
  | succ n ih =>
    intro s t hs h
    rw [probe_succ] at h
    split at h
    · exact ih (Nat.mod_lt _ (by omega)) h
    · next hstop =>
      obtain rfl := Option.some.inj h
      exact ⟨hs, by tauto⟩

/-- An entry in an empty slot does not disturb a search that ends elsewhere. -/
theorem probe_update_of_ne {n u : Nat} {k' : κ} (hu : keys u = empty) :
    ∀ {s t : Nat}, probe N empty keys k n s = some t → t ≠ u →
      probe N empty (Function.update keys u k') k n s = some t := by
  induction n with
  | zero => intro s t h; cases h
  | succ n ih =>
    intro s t h ht
    rw [probe_succ] at h ⊢
    split at h
    · next hgo =>
      have hsu : s ≠ u := by
        rintro rfl
        exact hgo.1 hu
      rw [Function.update_of_ne hsu, if_pos hgo]
      exact ih h ht
    · next hstop =>
      obtain rfl := Option.some.inj h
      rw [Function.update_of_ne ht, if_neg hstop]

/-- After the entry the search for the key ends in the same slot. -/
theorem probe_update_self {n : Nat} : ∀ {s t : Nat}, probe N empty keys k n s = some t →
    (keys t = empty ∨ keys t = k) → probe N empty (Function.update keys t k) k n s = some t := by
  induction n with
  | zero => intro s t h; cases h
  | succ n ih =>
    intro s t h ht
    rw [probe_succ] at h ⊢
    split at h
    · next hgo =>
      have hst : s ≠ t := by
        rintro rfl
        tauto
      rw [Function.update_of_ne hst, if_pos hgo]
      exact ih h ht
    · obtain rfl := Option.some.inj h
      rw [Function.update_self, if_neg (by tauto)]

/-- A search that does not end has met other keys only. -/
theorem probe_eq_none {n : Nat} : ∀ {s : Nat}, s < N → probe N empty keys k n s = none →
    ∀ d < n, keys ((s + d) % N) ≠ empty ∧ keys ((s + d) % N) ≠ k := by
  induction n with
  | zero => intro s _ _ d hd; omega
  | succ n ih =>
    intro s hs h d hd
    rw [probe_succ] at h
    split at h
    · next hgo =>
      cases d with
      | zero => rwa [Nat.add_zero, Nat.mod_eq_of_lt hs]
      | succ d =>
        have hrest := ih (Nat.mod_lt _ (by omega)) h d (by omega)
        rwa [Nat.mod_add_mod, Nat.add_right_comm, Nat.add_assoc] at hrest
    · cases h

variable (N empty)

/-- The number of empty slots. -/
def free (keys : Nat → κ) : Nat := ((Finset.range N).filter fun s => keys s = empty).card

variable {N empty}

/-- All slots of an empty table are free. -/
theorem free_of_empty (h : ∀ s < N, keys s = empty) : free N empty keys = N := by
  rw [free, Finset.filter_true_of_mem fun s hs => h s (Finset.mem_range.mp hs), Finset.card_range]

theorem free_pos_iff : 0 < free N empty keys ↔ ∃ s < N, keys s = empty := by
  rw [free, Finset.card_pos]
  simp only [Finset.Nonempty, Finset.mem_filter, Finset.mem_range]

/-- While there is an empty slot, every search through the whole table ends. -/
theorem exists_probe_of_free (h : 0 < free N empty keys) {s : Nat} (hs : s < N) (k : κ) :
    ∃ t, probe N empty keys k N s = some t := by
  obtain ⟨e, heN, hempty⟩ := free_pos_iff.mp h
  cases hp : probe N empty keys k N s with
  | some t => exact ⟨t, rfl⟩
  | none =>
    -- the search would have met the empty slot `e`
    have hmet := (probe_eq_none hs hp ((e + (N - s)) % N) (Nat.mod_lt _ (by omega))).1
    rw [Nat.add_mod_mod, show s + (e + (N - s)) = e + N by omega, Nat.add_mod_right,
      Nat.mod_eq_of_lt heN] at hmet
    exact absurd hempty hmet

/-- An entry takes one empty slot at most. -/
theorem free_update (keys : Nat → κ) (t : Nat) (k : κ) :
    free N empty keys ≤ free N empty (Function.update keys t k) + 1 := by
  have hsub : ((Finset.range N).filter fun s => keys s = empty).erase t ⊆
      (Finset.range N).filter fun s => Function.update keys t k s = empty := by
    intro s hs
    obtain ⟨hst, hs⟩ := Finset.mem_erase.mp hs
    rw [Finset.mem_filter, Function.update_of_ne hst]
    exact Finset.mem_filter.mp hs
  have hcard := Finset.card_le_card hsub
  have herase := Finset.pred_card_le_card_erase (a := t)
    (s := (Finset.range N).filter fun s => keys s = empty)
  unfold free
  omega

/-- An entry in an empty slot takes it. -/
theorem free_update_of_empty {t : Nat} (ht : t < N) (hempty : keys t = empty) (hk : k ≠ empty) :
    free N empty (Function.update keys t k) + 1 = free N empty keys := by
  have hmem : t ∈ (Finset.range N).filter fun s => keys s = empty :=
    Finset.mem_filter.mpr ⟨Finset.mem_range.mpr ht, hempty⟩
  have herase : ((Finset.range N).filter fun s => Function.update keys t k s = empty) =
      ((Finset.range N).filter fun s => keys s = empty).erase t := by
    ext s
    by_cases hst : s = t
    · subst hst
      simp [hk]
    · simp [hst]
  rw [free, herase, Finset.card_erase_add_one hmem]
  rfl

variable (N empty)

/-- The invariant: every key is found where it is stored, and its value is right. -/
def Sound (home : κ → Nat) (R : κ → ν → Prop) (keys : Nat → κ) (vals : Nat → ν) : Prop :=
  ∀ s < N, keys s ≠ empty → probe N empty keys (keys s) N (home (keys s)) = some s ∧
    R (keys s) (vals s)

variable {N empty}

/-- An empty table is sound. -/
theorem Sound.of_empty {home : κ → Nat} {R : κ → ν → Prop} {vals : Nat → ν}
    (h : ∀ s < N, keys s = empty) : Sound N empty home R keys vals :=
  fun s hs hne => absurd (h s hs) hne

/-- **A search ends** if and only if there is an empty slot or the key is in the table. -/
theorem Sound.exists_probe_iff {home : κ → Nat} {R : κ → ν → Prop} {vals : Nat → ν}
    (h : Sound N empty home R keys vals) (hhome : home k < N) :
    (∃ t, probe N empty keys k N (home k) = some t) ↔
      0 < free N empty keys ∨ ∃ s < N, keys s = k := by
  refine ⟨?_, ?_⟩
  · rintro ⟨t, ht⟩
    obtain ⟨htN, hstop⟩ := probe_eq_some hhome ht
    exact hstop.imp (fun hempty => free_pos_iff.mpr ⟨t, htN, hempty⟩) fun hkey => ⟨t, htN, hkey⟩
  · rintro (hfree | ⟨s, hs, rfl⟩)
    · exact exists_probe_of_free hfree hhome k
    · by_cases hempty : keys s = empty
      · exact exists_probe_of_free (free_pos_iff.mpr ⟨s, hs, hempty⟩) hhome _
      · exact ⟨s, (h s hs hempty).1⟩

/-- **Entering a key** with a right value where the search for it ends keeps the table
sound. -/
theorem Sound.insert {home : κ → Nat} {R : κ → ν → Prop} {vals : Nat → ν}
    (h : Sound N empty home R keys vals) {t : Nat} {v : ν}
    (hfind : probe N empty keys k N (home k) = some t) (hempty : keys t = empty) (hv : R k v) :
    Sound N empty home R (Function.update keys t k) (Function.update vals t v) := by
  intro s hs hne
  by_cases hst : s = t
  · subst hst
    rw [Function.update_self, Function.update_self]
    exact ⟨probe_update_self hfind (.inl hempty), hv⟩
  · rw [Function.update_of_ne hst] at hne ⊢
    rw [Function.update_of_ne hst]
    obtain ⟨hfound, hR⟩ := h s hs hne
    exact ⟨probe_update_of_ne hempty hfound hst, hR⟩

/-! ## What is stored -/

/-- The slots that a search passes are neither empty nor have the key. -/
theorem probe_path {n : Nat} : ∀ {s t : Nat}, s < N → probe N empty keys k n s = some t →
    ∃ d < n, t = (s + d) % N ∧ ∀ j < d, keys ((s + j) % N) ≠ empty ∧ keys ((s + j) % N) ≠ k := by
  induction n with
  | zero => intro s t _ h; cases h
  | succ n ih =>
    intro s t hs h
    rw [probe_succ] at h
    split at h
    · next hgo =>
      obtain ⟨d, hd, ht, hpath⟩ := ih (Nat.mod_lt _ (by omega)) h
      refine ⟨d + 1, by omega, ?_, fun j hj => ?_⟩
      · rw [ht, Nat.mod_add_mod, Nat.add_assoc, Nat.add_comm 1]
      · cases j with
        | zero => rwa [Nat.add_zero, Nat.mod_eq_of_lt hs]
        | succ j =>
          have hrest := hpath j (by omega)
          rwa [Nat.mod_add_mod, Nat.add_assoc, Nat.add_comm 1] at hrest
    · obtain rfl := Option.some.inj h
      exact ⟨0, by omega, by rw [Nat.add_zero, Nat.mod_eq_of_lt hs], fun j hj => by omega⟩

/-- A search that has not ended after all slots never ends. -/
theorem probe_never {s : Nat} (hs : s < N) (h : probe N empty keys k N s = none) (n : Nat) :
    ∀ {t : Nat}, t < N → probe N empty keys k n t = none := by
  induction n with
  | zero => exact fun _ => rfl
  | succ n ih =>
    intro t ht
    rw [probe_succ, if_pos]
    · exact ih (Nat.mod_lt _ (by omega))
    · have hmet := probe_eq_none hs h ((t + (N - s)) % N) (Nat.mod_lt _ (by omega))
      rwa [Nat.add_mod_mod, show s + (t + (N - s)) = t + N by omega, Nat.add_mod_right,
        Nat.mod_eq_of_lt ht] at hmet

/-- No key is stored twice. -/
theorem Sound.distinct {home : κ → Nat} {R : κ → ν → Prop} {vals : Nat → ν}
    (h : Sound N empty home R keys vals) {s t : Nat} (hs : s < N) (ht : t < N)
    (hne : keys s ≠ empty) (heq : keys s = keys t) : s = t := by
  have hsome := (h s hs hne).1
  rw [heq, (h t ht (heq ▸ hne)).1] at hsome
  exact (Option.some.inj hsome).symm

variable (N empty)

/-- The keys that are stored are those of `S`, and every other slot is free. -/
structure Stores (home : κ → Nat) (R : κ → ν → Prop) (keys : Nat → κ) (vals : Nat → ν)
    (S : Finset κ) : Prop where
  sound : Sound N empty home R keys vals
  mem : ∀ k, k ∈ S ↔ k ≠ empty ∧ ∃ s < N, keys s = k
  free : free N empty keys + S.card = N

variable {N empty}

namespace Stores

variable {home : κ → Nat} {R : κ → ν → Prop} {vals : Nat → ν} {S : Finset κ}

theorem of_empty (h : ∀ s < N, keys s = empty) : Stores N empty home R keys vals ∅ where
  sound := .of_empty h
  mem k := by
    refine iff_of_false (Finset.notMem_empty k) ?_
    rintro ⟨hne, s, hs, rfl⟩
    exact hne (h s hs)
  free := by rw [free_of_empty h, Finset.card_empty, Nat.add_zero]

/-- A key that is stored is found with its value. -/
theorem find (h : Stores N empty home R keys vals S) (hk : k ∈ S) :
    ∃ s < N, probe N empty keys k N (home k) = some s ∧ keys s = k ∧ R k (vals s) := by
  obtain ⟨hne, s, hs, rfl⟩ := (h.mem k).mp hk
  exact ⟨s, hs, (h.sound s hs hne).1, rfl, (h.sound s hs hne).2⟩

/-- **A search ends** if and only if a slot is free or the key is stored. -/
theorem exists_probe_iff (h : Stores N empty home R keys vals S) (hhome : home k < N) :
    (∃ t, probe N empty keys k N (home k) = some t) ↔ S.card < N ∨ k ∈ S := by
  have hfree : 0 < ProbeTable.free N empty keys ↔ S.card < N := by
    have := h.free
    omega
  rw [h.sound.exists_probe_iff hhome, h.mem k]
  by_cases hk : k = empty
  · -- a search for the key for "empty" ends at an empty slot
    rw [hk, ← free_pos_iff, or_self, hfree]
    exact (or_iff_left fun h => h.1 rfl).symm
  · rw [and_iff_right hk, hfree]

/-- **A search** finds the value of a key that is stored, and an empty slot for any other. -/
theorem probe_cases (h : Stores N empty home R keys vals S) (hhome : home k < N) {t : Nat}
    (hfind : probe N empty keys k N (home k) = some t) :
    (k ∈ S ∧ keys t ≠ empty ∧ keys t = k ∧ R k (vals t)) ∨ (k ∉ S ∧ keys t = empty) := by
  by_cases hk : k ∈ S
  · obtain ⟨s, -, hs, hkey, hR⟩ := h.find hk
    obtain rfl := Option.some.inj (hs.symm.trans hfind)
    exact .inl ⟨hk, hkey ▸ ((h.mem k).mp hk).1, hkey, hR⟩
  · refine .inr ⟨hk, ?_⟩
    obtain ⟨htN, hstop⟩ := probe_eq_some hhome hfind
    by_contra hne
    have hkey := hstop.resolve_left hne
    exact hk ((h.mem k).mpr ⟨hkey ▸ hne, t, htN, hkey⟩)

/-- The key for "empty" is stored nowhere. -/
theorem insert_empty (h : Stores N empty home R keys vals S) {t : Nat} {v : ν}
    (hempty : keys t = empty) :
    Stores N empty home R (Function.update keys t empty) (Function.update vals t v) S := by
  have hkeys : Function.update keys t empty = keys := by
    rw [← hempty, Function.update_eq_self]
  rw [hkeys]
  refine ⟨fun s hs hne => ?_, h.mem, h.free⟩
  have hst : s ≠ t := by
    rintro rfl
    exact hne hempty
  rw [Function.update_of_ne hst]
  exact h.sound s hs hne

/-- **Another key is stored.** -/
theorem insert (h : Stores N empty home R keys vals S) (hhome : home k < N) {t : Nat} {v : ν}
    (hfind : probe N empty keys k N (home k) = some t) (hempty : keys t = empty) (hk : k ≠ empty)
    (hnew : k ∉ S) (hv : R k v) :
    Stores N empty home R (Function.update keys t k) (Function.update vals t v) (insert k S) where
  sound := h.sound.insert hfind hempty hv
  mem k' := by
    obtain ⟨htN, -⟩ := probe_eq_some hhome hfind
    rw [Finset.mem_insert, h.mem k']
    refine ⟨?_, ?_⟩
    · rintro (rfl | ⟨hne, s, hs, rfl⟩)
      · exact ⟨hk, t, htN, Function.update_self _ _ _⟩
      · refine ⟨hne, s, hs, Function.update_of_ne ?_ _ _⟩
        rintro rfl
        exact hne hempty
    · rintro ⟨hne, s, hs, rfl⟩
      by_cases hst : s = t
      · subst hst
        exact .inl (Function.update_self _ _ _)
      · rw [Function.update_of_ne hst] at hne ⊢
        exact .inr ⟨hne, s, hs, rfl⟩
  free := by
    obtain ⟨htN, -⟩ := probe_eq_some hhome hfind
    have hfree := h.free
    have htaken := free_update_of_empty htN hempty hk
    rw [Finset.card_insert_of_notMem hnew]
    omega

end Stores

omit [DecidableEq κ] in
/-- The key of a slot stays when another slot is filled. -/
theorem update_eq_of_ne_empty {t : Nat} (hempty : keys t = empty) {s : Nat} {k' : κ}
    (hs : keys s ≠ empty) : Function.update keys t k' s = keys s := by
  refine Function.update_of_ne ?_ _ _
  rintro rfl
  exact hs hempty

end ProbeTable

end Photonbar
