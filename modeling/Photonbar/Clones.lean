import Mathlib.Tactic.FinCases
import Photonbar.Elimination
import Photonbar.Monitors

/-!
# The elimination of clones (`bar.h`)

The rectangles whose width is not 0 are the set that the loops of `getRandrMonitors` remove
elements from (`Shows`), and a rectangle covers those that it contains. What is left, how many, and
what the chain is made of follow from the elimination in place (`passedRects_remaining`).

A rectangle is removed by setting its width to 0, and `valid` is counted down beside it; `Shows`
says that both agree with a set, and `checkClone` keeps it by removing one element or none. The
rectangles of the server are put into the array in a first loop, for the outputs that are on
(`Fetched`); containing is a preorder on rectangles as they stand, so that a clone that equals the
one it is compared with is removed, and not both. In the end what is left is copied into another
array, in the same order.
-/

namespace Photonbar

namespace Rect

instance : Std.Refl Contains := ⟨fun _ => ⟨le_refl _, le_refl _, le_refl _, le_refl _⟩⟩

instance : IsTrans Rect Contains where
  trans _ _ _ := fun ⟨hl, hr, ht, hb⟩ ⟨hl', hr', ht', hb'⟩ =>
    ⟨le_trans hl hl', le_trans hr' hr, le_trans ht ht', le_trans hb' hb⟩

end Rect

variable {num : Nat}

theorem update_zero_width (rects : Fin num → Rect) (i : Fin num) :
    (Function.update rects i { rects i with width := 0 } i).width = 0 := by
  rw [Function.update_self]

/-- The variables show the rectangles of `S` and no others. -/
structure Outputs.Shows (s : Outputs num) (rects : Fin num → Rect) (S : Finset (Fin num)) :
    Prop where
  rects_eq : ∀ i ∈ S, s.rects i = rects i
  zero : ∀ i, i ∉ S → (s.rects i).width = 0
  valid : s.valid = S.card

/-- A rectangle contains another one. -/
def ContainsAt (rects : Fin num → Rect) (i j : Fin num) : Prop := (rects i).Contains (rects j)

instance (rects : Fin num → Rect) : DecidableRel (ContainsAt rects) :=
  fun i j => inferInstanceAs (Decidable ((rects i).Contains (rects j)))

instance (rects : Fin num → Rect) : Std.Refl (ContainsAt rects) :=
  ⟨fun i => Std.Refl.refl (rects i)⟩

instance (rects : Fin num → Rect) : IsTrans (Fin num) (ContainsAt rects) :=
  ⟨fun i j k h h' => IsTrans.trans (rects i) (rects j) (rects k) h h'⟩

namespace Outputs.Shows

variable {s : Outputs num} {rects : Fin num → Rect} {S : Finset (Fin num)}

theorem width_eq_zero_iff (h : s.Shows rects S) (hpos : ∀ i ∈ S, (rects i).width ≠ 0)
    (i : Fin num) : (s.rects i).width = 0 ↔ i ∉ S := by
  refine ⟨fun hzero hi => hpos i hi ?_, h.zero i⟩
  rw [← h.rects_eq i hi]
  exact hzero

/-- A rectangle is removed. -/
theorem erase (h : s.Shows rects S) {j : Fin num} (hj : j ∈ S) :
    Outputs.Shows ⟨Function.update s.rects j { s.rects j with width := 0 }, s.valid - 1⟩ rects
      (S.erase j) where
  rects_eq i hi := by
    obtain ⟨hne, hi⟩ := Finset.mem_erase.mp hi
    exact (Function.update_of_ne hne _ _).trans (h.rects_eq i hi)
  zero i hi := by
    by_cases hij : i = j
    · subst hij
      exact update_zero_width s.rects _
    · have hzero := h.zero i fun hiS => hi (Finset.mem_erase.mpr ⟨hij, hiS⟩)
      exact (congrArg Rect.width (Function.update_of_ne hij _ _)).trans hzero
  valid := by
    have hpos := Finset.card_pos.mpr ⟨j, hj⟩
    have hvalid := h.valid
    rw [Finset.card_erase_of_mem hj]
    dsimp only
    omega

/-- One pass of the inner loop is a test. -/
theorem checkClone (h : s.Shows rects S) (hpos : ∀ i ∈ S, (rects i).width ≠ 0) {i : Fin num}
    (hi : i ∈ S) (j : Fin num) :
    (Photonbar.checkClone i s j).Shows rects (Elimination.test (ContainsAt rects) i S j) := by
  have hj : (s.rects j).width ≠ 0 ↔ j ∈ S := by
    rw [Ne, h.width_eq_zero_iff hpos, not_not]
  rw [Photonbar.checkClone, Elimination.test]
  by_cases hne : i ≠ j ∧ j ∈ S
  · rw [if_pos ⟨hne.1, hj.mpr hne.2⟩, h.rects_eq i hi, h.rects_eq j hne.2]
    by_cases hcontains : (rects i).Contains (rects j)
    · rw [if_pos hcontains, if_pos ⟨hne.1, hne.2, hcontains⟩]
      have herase := h.erase hne.2
      rwa [h.rects_eq j hne.2] at herase
    · rw [if_neg hcontains, if_neg fun h' => hcontains h'.2.2]
      exact h
  · rw [if_neg fun h' => hne ⟨h'.1, hj.mp h'.2⟩, if_neg fun h' => hne ⟨h'.1, h'.2.1⟩]
    exact h

theorem foldl_checkClone (js : List (Fin num)) (h : s.Shows rects S)
    (hpos : ∀ i ∈ S, (rects i).width ≠ 0) {i : Fin num} (hi : i ∈ S) :
    (js.foldl (Photonbar.checkClone i) s).Shows rects
      (js.foldl (Elimination.test (ContainsAt rects) i) S) := by
  induction js generalizing s S with
  | nil => exact h
  | cons j js ih =>
    exact ih (h.checkClone hpos hi j) (fun k hk => hpos k (Elimination.mem_test.mp hk).1)
      (Elimination.self_mem_test.mpr hi)

/-- One pass of the outer loop. -/
theorem checkClones (h : s.Shows rects S) (hpos : ∀ i ∈ S, (rects i).width ≠ 0) (i : Fin num) :
    (Photonbar.checkClones s i).Shows rects
      (Elimination.pass (ContainsAt rects) (List.finRange num) S i) := by
  rw [Photonbar.checkClones, Elimination.pass]
  by_cases hi : i ∈ S
  · rw [if_pos hi, if_neg (mt (h.width_eq_zero_iff hpos i).mp (not_not.mpr hi))]
    exact h.foldl_checkClone _ hpos hi
  · rw [if_neg hi, if_pos (h.zero i hi)]
    exact h

/-- **The loops over the clones** eliminate in place. -/
theorem foldl_checkClones (is : List (Fin num)) (h : s.Shows rects S)
    (hpos : ∀ i ∈ S, (rects i).width ≠ 0) :
    (is.foldl Photonbar.checkClones s).Shows rects
      (Elimination.eliminate (ContainsAt rects) is (List.finRange num) S) := by
  induction is generalizing s S with
  | nil => exact h
  | cons i is ih =>
    exact ih (h.checkClones hpos i) fun k hk => hpos k (Elimination.mem_pass.mp hk).1

end Outputs.Shows

/-! ## What the server says -/

/-- An output that has a rectangle. -/
def Output.isOn : Output → Bool
  | .on _ => true
  | _ => false

/-- The variables hold what the server has said of the outputs in `T`. -/
structure Outputs.Fetched (s : Outputs num) (outputs : Fin num → Output) (T : Finset (Fin num)) :
    Prop where
  on : ∀ i ∈ T, ∀ r, outputs i = .on r → s.rects i = r
  off : ∀ i ∈ T, outputs i = .off → (s.rects i).width = 0
  valid : s.valid = (T.filter fun i => (outputs i).isOn).card

namespace Outputs.Fetched

variable {s : Outputs num} {outputs : Fin num → Output} {T : Finset (Fin num)}

theorem getOutput (h : s.Fetched outputs T) {i : Fin num} (hi : i ∉ T)
    (hcrtc : outputs i ≠ .noCrtc) :
    ∃ s', Photonbar.getOutput outputs s i = some s' ∧ s'.Fetched outputs (insert i T) := by
  have hne {k : Fin num} (hk : k ∈ T) : k ≠ i := fun h => hi (h ▸ hk)
  rw [Photonbar.getOutput]
  cases hout : outputs i with
  | noCrtc => exact absurd hout hcrtc
  | off =>
    refine ⟨_, rfl, ⟨fun k hk r hr => ?_, fun k hk hoff => ?_, ?_⟩⟩
    · rcases Finset.mem_insert.mp hk with rfl | hk
      · rw [hout] at hr
        cases hr
      · exact (Function.update_of_ne (hne hk) _ _).trans (h.on k hk r hr)
    · rcases Finset.mem_insert.mp hk with rfl | hk
      · exact update_zero_width s.rects _
      · exact (congrArg Rect.width (Function.update_of_ne (hne hk) _ _)).trans (h.off k hk hoff)
    · rw [Finset.filter_insert, if_neg (by rw [hout]; nofun)]
      exact h.valid
  | on crtc =>
    refine ⟨_, rfl, ⟨fun k hk r hr => ?_, fun k hk hoff => ?_, ?_⟩⟩
    · rcases Finset.mem_insert.mp hk with rfl | hk
      · rw [hout] at hr
        exact (Function.update_self _ _ _).trans (Output.on.inj hr)
      · exact (Function.update_of_ne (hne hk) _ _).trans (h.on k hk r hr)
    · rcases Finset.mem_insert.mp hk with rfl | hk
      · rw [hout] at hoff
        cases hoff
      · exact (congrArg Rect.width (Function.update_of_ne (hne hk) _ _)).trans (h.off k hk hoff)
    · rw [Finset.filter_insert, if_pos (by rw [hout]; rfl),
        Finset.card_insert_of_notMem fun h => hi (Finset.mem_filter.mp h).1]
      exact congrArg (· + 1) h.valid

/-- The first loop. -/
theorem foldlM_getOutput (hcrtc : ∀ i, outputs i ≠ .noCrtc) (is : List (Fin num)) :
    ∀ {s : Outputs num} {T : Finset (Fin num)}, s.Fetched outputs T → is.Nodup →
      (∀ i ∈ is, i ∉ T) →
      ∃ s', is.foldlM (Photonbar.getOutput outputs) s = some s' ∧
        s'.Fetched outputs (T ∪ is.toFinset) := by
  induction is with
  | nil => exact fun h _ _ => ⟨_, rfl, by rwa [List.toFinset_nil, Finset.union_empty]⟩
  | cons i is ih =>
    intro s T h hnodup hT
    obtain ⟨hi, hnodup⟩ := List.nodup_cons.mp hnodup
    obtain ⟨s₁, hget, h₁⟩ := h.getOutput (hT i List.mem_cons_self) (hcrtc i)
    obtain ⟨s₂, hfold, h₂⟩ := ih h₁ hnodup fun k hk hmem =>
      (Finset.mem_insert.mp hmem).elim (fun heq => hi (heq ▸ hk))
        (hT k (List.mem_cons_of_mem _ hk))
    refine ⟨s₂, ?_, ?_⟩
    · rw [List.foldlM_cons, hget]
      exact hfold
    · rwa [List.toFinset_cons, Finset.union_insert, ← Finset.insert_union]

/-- What all the outputs are together. -/
theorem shows (h : s.Fetched outputs Finset.univ) (hcrtc : ∀ i, outputs i ≠ .noCrtc) :
    s.Shows s.rects (Finset.univ.filter fun i => (outputs i).isOn) where
  rects_eq _ _ := rfl
  zero i hi := by
    refine h.off i (Finset.mem_univ i) ?_
    cases hout : outputs i with
    | off => rfl
    | noCrtc => exact absurd hout (hcrtc i)
    | on r => exact absurd (Finset.mem_filter.mpr ⟨Finset.mem_univ i, by rw [hout]; rfl⟩) hi
  valid := h.valid

end Outputs.Fetched

/-! ## What is passed on -/

theorem copyRects_eq (rects : Fin num → Rect) : ∀ (n : Nat) (is : List (Fin num)),
    copyRects rects n is = ((is.filter fun i => (rects i).width ≠ 0).take n).map rects
  | 0, is => by rw [copyRects, List.take_zero, List.map_nil]
  | _ + 1, [] => rfl
  | n + 1, i :: is => by
    rw [copyRects]
    by_cases hwidth : (rects i).width ≠ 0
    · rw [if_pos hwidth, List.filter_cons_of_pos (by simpa using hwidth), List.take_succ_cons,
        List.map_cons, copyRects_eq rects n is]
    · rw [if_neg hwidth, List.filter_cons_of_neg (by simpa using hwidth),
        copyRects_eq rects (n + 1) is]

/-- The rectangles that are left, in their order. -/
def Outputs.remaining (s : Outputs num) : List Rect :=
  ((List.finRange num).filter fun i => (s.rects i).width ≠ 0).map s.rects

theorem Outputs.remaining_length (s : Outputs num) :
    s.remaining.length = (Finset.univ.filter fun i => (s.rects i).width ≠ 0).card := by
  rw [remaining, List.length_map]
  rfl

/-- What is passed on, if `valid` is right. -/
theorem passedRects_some {rects : Fin num → Rect} {outputs : Fin num → Output} {s : Outputs num}
    (h : remainingOutputs rects outputs = some s) (hvalid : s.valid = s.remaining.length) :
    passedRects rects (some outputs) =
      if s.remaining = [] then none else some (s.remaining, (s.remaining.length : Int)) := by
  have hcopy : copyRects s.rects s.remaining.length (List.finRange num) = s.remaining := by
    rw [copyRects_eq, List.take_of_length_le (by rw [Outputs.remaining, List.length_map])]
    rfl
  rw [passedRects]
  by_cases hnum : num < 1
  · have hnil : s.remaining = [] := by
      obtain rfl : num = 0 := by omega
      rfl
    rw [if_pos hnum, if_pos hnil]
  · rw [if_neg hnum, h]
    dsimp only
    rw [hvalid, Int.toNat_natCast, hcopy]
    by_cases hnil : s.remaining = []
    · rw [if_pos hnil, hnil]
      rfl
    · have hpos := List.length_pos_iff.mpr hnil
      rw [if_neg hnil, if_neg (by omega)]

/-- **The loops** leave what the server has said of the outputs, without the clones. -/
theorem exists_remainingOutputs (rects : Fin num → Rect) {outputs : Fin num → Output}
    (hcrtc : ∀ i, outputs i ≠ .noCrtc) (hpos : ∀ i r, outputs i = .on r → 0 < r.width) :
    ∃ (said : Fin num → Rect) (s : Outputs num), remainingOutputs rects outputs = some s ∧
      (∀ i, (outputs i).isOn → outputs i = .on (said i) ∧ (said i).width ≠ 0) ∧
      s.Shows said (Elimination.eliminate (ContainsAt said) (List.finRange num) (List.finRange num)
        (Finset.univ.filter fun i => (outputs i).isOn)) := by
  have hempty : Outputs.Fetched ⟨rects, 0⟩ outputs ∅ :=
    ⟨fun i hi => absurd hi (Finset.notMem_empty i), fun i hi => absurd hi (Finset.notMem_empty i),
      rfl⟩
  obtain ⟨s, hfetch, hfetched⟩ := hempty.foldlM_getOutput hcrtc (List.finRange num)
    (List.nodup_finRange num) fun i _ => Finset.notMem_empty i
  rw [Finset.empty_union, List.toFinset_finRange] at hfetched
  have hon (i : Fin num) (hi : (outputs i).isOn) :
      outputs i = .on (s.rects i) ∧ (s.rects i).width ≠ 0 := by
    cases hout : outputs i with
    | off => simp [Output.isOn, hout] at hi
    | noCrtc => exact absurd hout (hcrtc i)
    | on r =>
      rw [hfetched.on i (Finset.mem_univ i) r hout]
      exact ⟨rfl, UInt16.pos_iff_ne_zero.mp (hpos i r hout)⟩
  refine ⟨s.rects, (List.finRange num).foldl checkClones s, ?_, hon, ?_⟩
  · rw [remainingOutputs, hfetch, Option.map_some]
  · exact (hfetched.shows hcrtc).foldl_checkClones (List.finRange num) fun i hi =>
      (hon i (Finset.mem_filter.mp hi).2).2

/-- **After the elimination of clones** `valid` is the number of the rectangles that are left, none
of which contains another one; every rectangle of the server is contained in one of them; and the
chain is created from them, in their order. All of it is said of the variables as the loops leave
them, and follows from the set they show. -/
theorem passedRects_remaining (rects : Fin num → Rect) (outputs : Fin num → Output)
    (hcrtc : ∀ i, outputs i ≠ .noCrtc) (hpos : ∀ i r, outputs i = .on r → 0 < r.width) :
    ∃ s, remainingOutputs rects outputs = some s ∧
      s.valid = (Finset.univ.filter fun i => (s.rects i).width ≠ 0).card ∧
      (∀ i, (s.rects i).width ≠ 0 → outputs i = .on (s.rects i)) ∧
      (∀ i j, i ≠ j → (s.rects i).width ≠ 0 → (s.rects j).width ≠ 0 →
        ¬ (s.rects i).Contains (s.rects j)) ∧
      (∀ i r, outputs i = .on r → ∃ j, (s.rects j).width ≠ 0 ∧ (s.rects j).Contains r) ∧
      passedRects rects (some outputs) =
        if s.remaining = [] then none else some (s.remaining, (s.remaining.length : Int)) := by
  obtain ⟨said, s, hresult, hon, hshows⟩ := exists_remainingOutputs rects hcrtc hpos
  have hmem {i : Fin num} : i ∈ Finset.univ.filter (fun i => (outputs i).isOn) ↔ (outputs i).isOn := by
    rw [Finset.mem_filter, and_iff_right (Finset.mem_univ i)]
  have hleft (i : Fin num) : (s.rects i).width ≠ 0 ↔ i ∈ Elimination.eliminate (ContainsAt said)
      (List.finRange num) (List.finRange num) (Finset.univ.filter fun i => (outputs i).isOn) := by
    rw [Ne, hshows.width_eq_zero_iff fun k hk =>
      (hon k (hmem.mp (Elimination.eliminate_subset hk))).2, not_not]
  have heq {i : Fin num} (hi : (s.rects i).width ≠ 0) : s.rects i = said i :=
    hshows.rects_eq i ((hleft i).mp hi)
  have hvalid : s.valid = (Finset.univ.filter fun i => (s.rects i).width ≠ 0).card := by
    rw [hshows.valid]
    congr 2
    exact Finset.ext fun i => by rw [Finset.mem_filter, hleft, and_iff_right (Finset.mem_univ i)]
  refine ⟨s, hresult, hvalid, fun i hi => ?_, fun i j hne hi hj => ?_, fun i r hr => ?_, ?_⟩
  · rw [heq hi]
    exact (hon i (hmem.mp (Elimination.eliminate_subset ((hleft i).mp hi)))).1
  · rw [heq hi, heq hj]
    exact Elimination.not_covers_of_mem_eliminate (R := ContainsAt said) (List.mem_finRange i)
      (List.mem_finRange j) hne ((hleft i).mp hi) ((hleft j).mp hj)
  · have hi : (outputs i).isOn := by
      rw [hr]
      rfl
    obtain ⟨j, hj, hcontains⟩ := Elimination.covers_eliminate (R := ContainsAt said)
      (S := Finset.univ.filter fun i => (outputs i).isOn) i (hmem.mpr hi)
    have hj' := (hleft j).mpr hj
    obtain rfl : said i = r := Output.on.inj ((hon i hi).1.symm.trans hr)
    refine ⟨j, hj', ?_⟩
    rw [heq hj']
    exact hcontains
  · rw [← s.remaining_length] at hvalid
    rw [passedRects_some hresult hvalid]

/-- Two equal monitors, a smaller one inside, one beside them, and one that is not connected. -/
def mirrored : Fin 5 → Output
  | 0 => .on ⟨0, 0, 800, 600⟩
  | 1 => .on ⟨0, 0, 1920, 1080⟩
  | 2 => .off
  | 3 => .on ⟨0, 0, 1920, 1080⟩
  | 4 => .on ⟨1920, 0, 1280, 1024⟩

theorem passedRects_mirrored :
    ∃ s, remainingOutputs (fun _ => ⟨7, 7, 7, 7⟩) mirrored = some s ∧
      s.valid = (Finset.univ.filter fun i => (s.rects i).width ≠ 0).card ∧
      (∀ i, (s.rects i).width ≠ 0 → mirrored i = .on (s.rects i)) ∧
      (∀ i j, i ≠ j → (s.rects i).width ≠ 0 → (s.rects j).width ≠ 0 →
        ¬ (s.rects i).Contains (s.rects j)) ∧
      (∀ i r, mirrored i = .on r → ∃ j, (s.rects j).width ≠ 0 ∧ (s.rects j).Contains r) ∧
      passedRects (fun _ => ⟨7, 7, 7, 7⟩) (some mirrored) =
        if s.remaining = [] then none else some (s.remaining, (s.remaining.length : Int)) := by
  refine passedRects_remaining _ mirrored (by decide) fun i r hr => ?_
  fin_cases i
  all_goals cases hr
  all_goals decide

end Photonbar
