import Photonbar.BarRuns

/-!
# The table of widths, call by call (`bar.h`)

`xftCharWidth` is called with any characters in any fonts. `Caches` connects the table to what it
stands for, a set of characters that have been entered, each with a width that is allowed for it;
one call adds its character (`Caches.xftCharWidth`), and from it what a run of calls returns
(`xftCharWidths_measured`) and when the probe loop ends (`terminates_iff`). All of that is the
general theory of a table with linear probing, at the home slots of the code.

A character is looked up by its number alone. So the widths are right as long as each character
comes with one font, and as long as a width survives the signed byte it is kept in. The 0 stands
for an empty slot: it is never entered, and measured anew at each call, in the slot where its
search ends.
-/

namespace Photonbar

namespace Bar

/-- Calls of `xftCharWidth`, one after the other, and what they return. -/
def xftCharWidths (b : Bar) : List (UInt32 × Font) → Except Fault (Bar × List Int)
  | [] => .ok (b, [])
  | (ch, curFont) :: calls => do
    let (b, w) ← b.xftCharWidth ch (some curFont)
    let (b, ws) ← xftCharWidths b calls
    return (b, w :: ws)

/-- The characters that are entered: 0 stands for an empty slot. -/
def entered (cs : List UInt32) : Finset UInt32 := (cs.filter (· ≠ 0)).toFinset

/-- The table holds the characters of `S`, with widths that `R` allows. -/
def Caches (b : Bar) (R : UInt32 → Int8 → Prop) (S : Finset UInt32) : Prop :=
  ProbeTable.Stores MAX_WIDTHS 0 (fun c => c.toNat % MAX_WIDTHS) R b.xftChar b.xftWidth S

/-- The probe loop of `xftCharWidthSlot` ends after some number of passes. -/
def Terminates (b : Bar) (ch : UInt32) : Prop :=
  ∃ n slot, ProbeTable.probe MAX_WIDTHS 0 b.xftChar ch n (ch.toNat % MAX_WIDTHS) = some slot

theorem terminates_iff_ends {b : Bar} {ch : UInt32} : b.Terminates ch ↔ b.Ends ch := by
  refine ⟨?_, fun ⟨slot, h⟩ => ⟨MAX_WIDTHS, slot, h⟩⟩
  rintro ⟨n, slot, h⟩
  cases hends : b.xftCharWidthSlot ch with
  | some slot' => exact ⟨slot', hends⟩
  | none =>
    have hnever := ProbeTable.probe_never (home_lt ch) hends n (home_lt ch)
    rw [hnever] at h
    cases h

theorem mem_entered {cs : List UInt32} {c : UInt32} : c ∈ entered cs ↔ c ≠ 0 ∧ c ∈ cs := by
  simp [entered, and_comm]

theorem entered_singleton (c : UInt32) : entered [c] = if c = 0 then ∅ else {c} := by
  ext c'
  split
  · next hc => simp [mem_entered, hc]
  · next hc =>
    simp only [mem_entered, List.mem_singleton, Finset.mem_singleton]
    exact ⟨fun h => h.2, fun h => ⟨h ▸ hc, h⟩⟩

theorem entered_cons (c : UInt32) (cs : List UInt32) :
    entered (c :: cs) = entered [c] ∪ entered cs := by
  ext c'
  simp only [mem_entered, List.mem_cons, List.not_mem_nil, or_false, Finset.mem_union]
  tauto

namespace Caches

variable {b b' : Bar} {R : UInt32 → Int8 → Prop} {S : Finset UInt32} {ch : UInt32} {w : Int}

theorem ends_iff (h : b.Caches R S) : b.Ends ch ↔ S.card < MAX_WIDTHS ∨ ch ∈ S :=
  h.exists_probe_iff (home_lt ch)

/-- **One call** returns a width of its character, which is entered from then on. -/
theorem xftCharWidth {f : Font} (h : b.Caches R S)
    (hR : ∀ xft, f.xft_ft = some xft → R ch (xft.measure ch))
    (hw : b.xftCharWidth ch (some f) = .ok (b', w)) :
    b'.Caches R (S ∪ entered [ch]) ∧ ∃ v, R ch v ∧ w = v.toInt := by
  obtain ⟨slot, hslot, hcase⟩ := xftCharWidth_cases hw
  have hentered := entered_singleton ch
  rcases h.probe_cases (home_lt ch) hslot with ⟨hmem, hne, hkey, hv⟩ | ⟨hnew, hempty⟩
  · -- the character is known
    obtain ⟨hempty, -⟩ | ⟨-, rfl, rfl⟩ := hcase
    · exact absurd hempty hne
    · have hch : ch ≠ 0 := hkey ▸ hne
      rw [hentered, if_neg hch, Finset.union_eq_left.mpr (Finset.singleton_subset_iff.mpr hmem)]
      exact ⟨h, _, hv, if_pos hkey⟩
  · obtain ⟨-, f', xft, hf, hxft, rfl, rfl⟩ | ⟨hne, -⟩ := hcase
    · obtain rfl := Option.some.inj hf
      refine ⟨?_, _, hR xft hxft, rfl⟩
      by_cases hch : ch = 0
      · rw [hentered, if_pos hch, Finset.union_empty, hch]
        exact h.insert_empty hempty
      · rw [hentered, if_neg hch, Finset.union_comm, ← Finset.insert_eq]
        exact h.insert (home_lt ch) hslot hempty hch hnew (hR xft hxft)
    · exact absurd hempty hne

/-- A call succeeds if there is room for its character, or the character is known. -/
theorem exists_xftCharWidth {f : Font} (h : b.Caches R S) (hf : f.xft_ft.isSome)
    (hroom : S.card < MAX_WIDTHS ∨ ch ∈ S) : ∃ r, b.xftCharWidth ch (some f) = .ok r := by
  refine (xftCharWidth_fails (S := fun _ => False) (.inr (h.ends_iff.mpr hroom)) (.inr rfl)
    (.inr ?_)).exists_ok
  intro f' hf'
  rwa [← Option.some.inj hf']

/-- **Any calls**: the characters are entered, and every width that is returned is allowed. -/
theorem xftCharWidths {calls : List (UInt32 × Font)} :
    ∀ {b b' : Bar} {S : Finset UInt32} {ws : List Int}, b.Caches R S →
      (∀ call ∈ calls, ∀ xft, call.2.xft_ft = some xft → R call.1 (xft.measure call.1)) →
      b.xftCharWidths calls = .ok (b', ws) →
      b'.Caches R (S ∪ entered (calls.map Prod.fst)) ∧
        List.Forall₂ (fun call w => ∃ v, R call.1 v ∧ w = v.toInt) calls ws := by
  induction calls with
  | nil =>
    intro b b' S ws h _ hrun
    obtain ⟨rfl, rfl⟩ := Prod.mk.inj (Except.ok.inj hrun)
    exact ⟨by simpa [entered] using h, .nil⟩
  | cons call calls ih =>
    intro b b' S ws h hR hrun
    obtain ⟨ch, f⟩ := call
    obtain ⟨⟨b₁, w⟩, hw, hrun⟩ := bind_eq_ok_iff.mp hrun
    obtain ⟨⟨b₂, ws'⟩, hws, hrun⟩ := bind_eq_ok_iff.mp hrun
    obtain ⟨rfl, rfl⟩ := Prod.mk.inj (Except.ok.inj hrun)
    obtain ⟨hR₁, hR⟩ := List.forall_mem_cons.mp hR
    obtain ⟨h₁, hv⟩ := h.xftCharWidth hR₁ hw
    obtain ⟨h₂, hvs⟩ := ih h₁ hR hws
    rw [List.map_cons, entered_cons, ← Finset.union_assoc]
    exact ⟨h₂, .cons hv hvs⟩

/-- Calls succeed while there are slots for their characters, and one more to find for a 0. -/
theorem exists_xftCharWidths (calls : List (UInt32 × Font)) :
    ∀ {b : Bar} {S : Finset UInt32}, b.Caches R S →
      (∀ call ∈ calls, call.2.xft_ft.isSome ∧
        ∀ xft, call.2.xft_ft = some xft → R call.1 (xft.measure call.1)) →
      (S ∪ entered (calls.map Prod.fst)).card ≤ MAX_WIDTHS →
      (0 ∈ calls.map Prod.fst → (S ∪ entered (calls.map Prod.fst)).card < MAX_WIDTHS) →
      ∃ r, b.xftCharWidths calls = .ok r := by
  induction calls with
  | nil => exact fun _ _ _ _ => ⟨_, rfl⟩
  | cons call calls ih =>
    intro b S h hcalls hcard hzero
    obtain ⟨ch, f⟩ := call
    obtain ⟨⟨hf, hR⟩, hcalls⟩ := List.forall_mem_cons.mp hcalls
    rw [List.map_cons, entered_cons, ← Finset.union_assoc] at hcard hzero
    dsimp only at hcard hzero
    have hle : (S ∪ entered [ch]).card ≤
        (S ∪ entered [ch] ∪ entered (calls.map Prod.fst)).card :=
      Finset.card_le_card Finset.subset_union_left
    have hroom : S.card < MAX_WIDTHS ∨ ch ∈ S := by
      by_cases hmem : ch ∈ S
      · exact .inr hmem
      · left
        by_cases hch : ch = 0
        · have hlt := hzero (by rw [hch]; exact List.mem_cons_self)
          have hS : S.card ≤ (S ∪ entered [ch]).card :=
            Finset.card_le_card Finset.subset_union_left
          omega
        · replace hle := hle.trans hcard
          rw [entered_singleton, if_neg hch, Finset.union_comm, ← Finset.insert_eq,
            Finset.card_insert_of_notMem hmem] at hle
          omega
    obtain ⟨⟨b₁, w⟩, hw⟩ := h.exists_xftCharWidth hf hroom
    obtain ⟨⟨b₂, ws⟩, hws⟩ := ih (h.xftCharWidth hR hw).1 hcalls hcard
      fun hmem => hzero (List.mem_cons_of_mem _ hmem)
    exact ⟨(b₂, w :: ws), bind_eq_ok_iff.mpr ⟨_, hw, bind_eq_ok_iff.mpr ⟨_, hws, rfl⟩⟩⟩

end Caches

/-! ## What the calls return -/

/-- No character is in two slots. -/
def KeysDistinct (b : Bar) : Prop :=
  ∀ s < MAX_WIDTHS, ∀ t < MAX_WIDTHS, b.xftChar s ≠ 0 → b.xftChar s = b.xftChar t → s = t

/-- From the home slot of a character on, all slots are taken up to its own. -/
def PathsTaken (b : Bar) : Prop :=
  ∀ s < MAX_WIDTHS, b.xftChar s ≠ 0 → ∃ d < MAX_WIDTHS,
    s = ((b.xftChar s).toNat % MAX_WIDTHS + d) % MAX_WIDTHS ∧
      ∀ j < d, b.xftChar (((b.xftChar s).toNat % MAX_WIDTHS + j) % MAX_WIDTHS) ≠ 0

theorem Caches.keysDistinct {b : Bar} {R : UInt32 → Int8 → Prop} {S : Finset UInt32}
    (h : b.Caches R S) : b.KeysDistinct :=
  fun _ hs _ ht hne heq => h.sound.distinct hs ht hne heq

theorem Caches.pathsTaken {b : Bar} {R : UInt32 → Int8 → Prop} {S : Finset UInt32}
    (h : b.Caches R S) : b.PathsTaken := by
  intro s hs hne
  obtain ⟨d, hd, hsd, hpath⟩ := ProbeTable.probe_path (home_lt _) (h.sound s hs hne).1
  exact ⟨d, hd, hsd, fun j hj => (hpath j hj).1⟩

/-- A width that fits a `char` is stored as it is. -/
theorem measure_toInt {x : XftFont} {c : UInt32}
    (h : 0 ≤ max (x.xOff c) (x.width c) ∧ max (x.xOff c) (x.width c) ≤ 127) :
    (x.measure c).toInt = max (x.xOff c) (x.width c) := by
  have hfits {n : Int} (h₀ : 0 ≤ n) (h : n ≤ 127) : (Int8.ofInt n).toInt = n :=
    Int8.toInt_ofInt_of_le (by omega) (by omega)
  rw [XftFont.measure]
  split
  · next hge => rw [hfits (by omega) (by omega)]; omega
  · next hlt => rw [hfits (by omega) (by omega)]; omega

/-- **Every call returns the width of its own character**, in any order and whatever the home
slots, and the table is as it should be: no character is in two slots, and from the home slot of
each on all slots are taken up to its own. This is the invariant `Caches`, with the width that Xft
gives as the only one that is allowed. -/
theorem xftCharWidths_measured {b : Bar} (hempty : ∀ slot < MAX_WIDTHS, b.xftChar slot = 0)
    (font : UInt32 → Font) (xft : UInt32 → XftFont) (cs : List UInt32)
    (hxft : ∀ c ∈ cs, (font c).xft_ft = some (xft c)) (hfew : (entered cs).card < MAX_WIDTHS)
    (hsmall : ∀ c ∈ cs, 0 ≤ max ((xft c).xOff c) ((xft c).width c) ∧
      max ((xft c).xOff c) ((xft c).width c) ≤ 127) :
    ∃ b', b.xftCharWidths (cs.map fun c => (c, font c)) =
        .ok (b', cs.map fun c => max ((xft c).xOff c) ((xft c).width c)) ∧
      b'.KeysDistinct ∧ b'.PathsTaken := by
  have hstart : b.Caches (fun c w => w = (xft c).measure c) ∅ := .of_empty hempty
  have hfirst : (cs.map fun c => (c, font c)).map Prod.fst = cs := by simp [Function.comp_def]
  have hR : ∀ call ∈ cs.map fun c => (c, font c), ∀ x, call.2.xft_ft = some x →
      x.measure call.1 = (xft call.1).measure call.1 := by
    intro call hcall x hx
    obtain ⟨c, hc, rfl⟩ := List.mem_map.mp hcall
    obtain rfl := Option.some.inj ((hxft c hc).symm.trans hx)
    rfl
  have hsome : ∀ call ∈ cs.map fun c => (c, font c), call.2.xft_ft.isSome := by
    intro call hcall
    obtain ⟨c, hc, rfl⟩ := List.mem_map.mp hcall
    rw [hxft c hc]
    rfl
  obtain ⟨⟨b', ws⟩, hrun⟩ := hstart.exists_xftCharWidths _
    (fun call hcall => ⟨hsome call hcall, hR call hcall⟩)
    (by rw [hfirst, Finset.empty_union]; exact hfew.le)
    (fun _ => by rw [hfirst, Finset.empty_union]; exact hfew)
  obtain ⟨hcaches, hws⟩ := hstart.xftCharWidths hR hrun
  refine ⟨b', ?_, hcaches.keysDistinct, hcaches.pathsTaken⟩
  have hmeasured : cs.map (fun c => ((xft c).measure c).toInt) = ws.map id := by
    refine map_eq_of_forall₂ ((List.forall₂_map_left_iff.mp hws).imp ?_)
    rintro c w ⟨v, rfl, rfl⟩
    rfl
  rw [List.map_id] at hmeasured
  rw [hrun, ← hmeasured, List.map_congr_left fun c hc => measure_toInt (hsmall c hc)]

/-- Two characters with one home slot, and a 0. -/
theorem xftCharWidths_collision :
    let font (c : UInt32) : Font := asciiFont (if c = 65 then 10 else 20)
    ∃ b', (asciiSetup 10 100).xftCharWidths ([65, 65601, 0, 65].map fun c => (c, font c)) =
      .ok (b', [10, 20, 20, 10]) ∧ b'.KeysDistinct ∧ b'.PathsTaken := by
  intro font
  let width (c : UInt32) : Int := if c = 65 then 10 else 20
  have hwidth (c : UInt32) : 0 ≤ max (width c) (width c) ∧ max (width c) (width c) ≤ 127 := by
    by_cases hc : c = 65
    · simp [width, hc]
    · simp [width, hc]
  exact xftCharWidths_measured (fun _ _ => rfl) font
    (fun c => ⟨fun c => (32 ≤ c ∧ c < 127) ∨ c = 0x258F, fun _ => width c, fun _ => width c⟩)
    [65, 65601, 0, 65] (fun _ _ => rfl) (by decide) (fun c _ => hwidth c)

/-! ## When the probe loop ends -/

/-- **The probe loop ends** for a character if and only if fewer characters than slots are entered,
or the character is one of them. A search goes through all slots from the home slot on, and ends at
the character or at an empty slot; how many are empty is known from how many characters were
entered. -/
theorem terminates_iff {b b' : Bar} (hempty : ∀ slot < MAX_WIDTHS, b.xftChar slot = 0)
    {calls : List (UInt32 × Font)} {ws : List Int} (hrun : b.xftCharWidths calls = .ok (b', ws))
    (ch : UInt32) :
    b'.Terminates ch ↔ (entered (calls.map Prod.fst)).card < MAX_WIDTHS ∨
      ch ≠ 0 ∧ ch ∈ calls.map Prod.fst := by
  have hstart : b.Caches (fun _ _ => True) ∅ := .of_empty hempty
  obtain ⟨hcaches, -⟩ := hstart.xftCharWidths (fun _ _ _ _ => trivial) hrun
  rw [terminates_iff_ends, hcaches.ends_iff, Finset.empty_union, mem_entered]

/-- Two characters with one home slot are entered, the first of them asked for again; a third has
their home slot too. -/
theorem terminates_after_collision :
    let calls := [65, 65601, 65].map fun c => (c, asciiFont 10)
    ∃ b' ws, (asciiSetup 10 100).xftCharWidths calls = .ok (b', ws) ∧ b'.Terminates 131137 := by
  intro calls
  obtain ⟨⟨b', ws⟩, hrun⟩ : ∃ r, (asciiSetup 10 100).xftCharWidths calls = .ok r := ⟨_, rfl⟩
  have hcard : (entered (calls.map Prod.fst)).card < MAX_WIDTHS := by decide
  exact ⟨b', ws, hrun, (terminates_iff (fun _ _ => rfl) hrun 131137).mpr (.inl hcard)⟩

/-- The characters from 1 on, as many as there are slots. -/
def allSlots : List UInt32 := (List.range MAX_WIDTHS).map fun i => UInt32.ofNat (i + 1)

theorem toNat_allSlots {i : Nat} (hi : i < MAX_WIDTHS) : (UInt32.ofNat (i + 1)).toNat = i + 1 := by
  have hmax : MAX_WIDTHS = 65536 := rfl
  exact UInt32.toNat_ofNat_of_lt' (by simp only [UInt32.size]; omega)

theorem mem_allSlots {c : UInt32} : c ∈ allSlots ↔ 1 ≤ c.toNat ∧ c.toNat ≤ MAX_WIDTHS := by
  simp only [allSlots, List.mem_map, List.mem_range]
  refine ⟨?_, ?_⟩
  · rintro ⟨i, hi, rfl⟩
    rw [toNat_allSlots hi]
    omega
  · rintro ⟨hpos, hle⟩
    exact ⟨c.toNat - 1, by omega, by rw [Nat.sub_add_cancel hpos, UInt32.ofNat_toNat]⟩

theorem card_allSlots : (entered allSlots).card = MAX_WIDTHS := by
  have hne : ∀ c ∈ allSlots, decide (c ≠ 0) = true := by
    intro c hc
    have hpos := (mem_allSlots.mp hc).1
    refine decide_eq_true ?_
    rintro rfl
    exact absurd hpos (by decide)
  have hnodup : allSlots.Nodup := by
    refine List.nodup_range.map_on fun i hi j hj heq => ?_
    rw [List.mem_range] at hi hj
    have heq := congrArg UInt32.toNat heq
    rw [toNat_allSlots hi, toNat_allSlots hj] at heq
    omega
  rw [entered, List.filter_eq_self.mpr hne, List.toFinset_card_of_nodup hnodup, allSlots,
    List.length_map, List.length_range]

/-- When all slots are taken, the search for another character never ends. All characters are such
as `decodeUtf8Char` produces. -/
theorem never_ends_when_full : ∃ calls b' ws,
    (∀ call ∈ calls, call.1 ≤ 0x1FFFFF) ∧
      (asciiSetup 10 100).xftCharWidths calls = .ok (b', ws) ∧ ¬ b'.Terminates 65537 := by
  have hstart : (asciiSetup 10 100).Caches (fun _ _ => True) ∅ := .of_empty fun _ _ => rfl
  have hfirst : (allSlots.map fun c => (c, asciiFont 10)).map Prod.fst = allSlots := by
    simp [Function.comp_def]
  have hzero : 0 ∉ allSlots := fun h => absurd (mem_allSlots.mp h).1 (by decide)
  obtain ⟨⟨b', ws⟩, hrun⟩ := hstart.exists_xftCharWidths
    (allSlots.map fun c => (c, asciiFont 10))
    (by
      intro call hcall
      obtain ⟨c, -, rfl⟩ := List.mem_map.mp hcall
      exact ⟨rfl, fun _ _ => trivial⟩)
    (by rw [hfirst, Finset.empty_union, card_allSlots])
    (by rw [hfirst]; exact fun h => absurd h hzero)
  obtain ⟨hcaches, -⟩ := hstart.xftCharWidths (fun _ _ _ _ => trivial) hrun
  refine ⟨_, b', ws, ?_, hrun, ?_⟩
  · intro call hcall
    obtain ⟨c, hc, rfl⟩ := List.mem_map.mp hcall
    have hle := (mem_allSlots.mp hc).2
    rw [UInt32.le_iff_toNat_le]
    exact hle.trans (by decide)
  · rw [terminates_iff_ends, hcaches.ends_iff, hfirst, Finset.empty_union, card_allSlots,
      mem_entered, mem_allSlots]
    rintro (hlt | ⟨-, -, hle⟩)
    · exact absurd hlt (lt_irrefl _)
    · exact absurd hle (by decide)

end Bar

end Photonbar
