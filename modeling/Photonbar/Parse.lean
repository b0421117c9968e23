import Photonbar.Widths

/-!
# What parsing an element leaves (`bar.h`)

`codePoints` are the characters of a content, as `parseElementContent` meets them. What it leaves
is said in their terms (`parseElementContent_ok`): for each of them the character shown in its
place and the width measured for it, and for the element the width of all of them together.

The loop fills two arrays side by side, one of characters and one of widths. `slots` puts them
together, so that one pass of the loop is one place that is set (`take_slots_record`), and the
induction is on how many characters may still follow (`parseLoop_ok`). It carries along that the
bar has only learnt widths (`Later`). There is one oddity at the end: a content that fills all
places without a NUL or a newline keeps the count that the element had before, which is what
`parsedLen` is about.
-/

namespace Photonbar

variable {H : Type}

/-- The characters of a content from byte `p` on, at most `n`, and whether they end in a
NUL or a newline. -/
def codePoints (content : Buffer CONTENT_MAX_LEN) : Nat → Nat → Except Fault (List UInt32 × Bool)
  | 0, _ => .ok ([], false)
  | n + 1, p => do
    let u ← Bar.contentByte content p
    if u = 0 ∨ u = 10 then
      return ([], true)
    else
      let result ← decodeUtf8Char fun j => Bar.contentByte content (p + j)
      let (cs, stopped) ← codePoints content n (p + result.bytesConsumed)
      return (result.ucs :: cs, stopped)

/-- The width that is recorded for `c`: what is measured, as a `uint8_t`. -/
def BarConfig.recorded (cfg : BarConfig) (c : UInt32) : UInt8 := UInt8.ofInt (cfg.measured c)

/-- The widths of characters together, as they are recorded. -/
def BarConfig.recordedSum (cfg : BarConfig) (cs : List UInt32) : Nat :=
  (cs.map fun c => (cfg.recorded c).toNat).sum

/-- What is recorded for characters. -/
def BarConfig.records (cfg : BarConfig) (cs : List UInt32) : List (UInt32 × UInt8) :=
  cs.map fun c => (cfg.shown c, cfg.recorded c)

/-- All places for characters, each with the place for its width. -/
def BarElement.slots (e : BarElement H) : List (UInt32 × UInt8) :=
  e.ucsContent.toList.zip e.ucsContentCharWidths.toList

/-- A number that fits in 16 bits survives them. -/
theorem toNat_uint16_ofInt {x : Int} (h₀ : 0 ≤ x) (h : x < 65536) :
    ((UInt16.ofInt x).toNat : Int) = x := by
  rw [UInt16.ofInt, UInt16.toNat_ofNat']
  omega

/-- A number that fits in 8 bits survives them. -/
theorem toNat_uint8_ofInt {x : Int} (h₀ : 0 ≤ x) (h : x < 256) :
    ((UInt8.ofInt x).toNat : Int) = x := by
  rw [UInt8.ofInt, UInt8.toNat_ofNat']
  omega

theorem recordedSum_le (cfg : BarConfig) (cs : List UInt32) :
    cfg.recordedSum cs ≤ 255 * cs.length := by
  induction cs with
  | nil => exact le_refl 0
  | cons c cs ih =>
    have hlt := (cfg.recorded c).toNat_lt
    simp only [BarConfig.recordedSum, List.map_cons, List.sum_cons, List.length_cons] at ih ⊢
    omega

/-! ## Filling the places -/

theorem take_zip {α β : Type} (xs : List α) (ys : List β) (i : Nat) :
    (xs.zip ys).take i = (xs.take i).zip (ys.take i) := by
  rw [List.zip_eq_zipWith, List.take_zipWith, ← List.zip_eq_zipWith]

theorem take_set_self {α : Type} {xs : List α} {i : Nat} (h : i < xs.length) (a : α) :
    (xs.set i a).take (i + 1) = xs.take i ++ [a] := by
  rw [List.take_set, ← List.take_append_getElem h, List.set_append_right _ _ (by simp),
    List.length_take, Nat.min_eq_left h.le, Nat.sub_self, List.set_cons_zero]

namespace BarElement

/-- Recording a character fills the next place. -/
theorem take_slots_record (e : BarElement H) {i : Nat} (h : i < CONTENT_MAX_LEN) (u : UInt32)
    (w : UInt8) :
    ({ e with
        ucsContent := e.ucsContent.setIfInBounds i u
        ucsContentCharWidths := e.ucsContentCharWidths.setIfInBounds i w } : BarElement H).slots.take
      (i + 1) = e.slots.take i ++ [(u, w)] := by
  simp only [slots, take_zip, Vector.toList_setIfInBounds]
  rw [take_set_self (by simpa using h), take_set_self (by simpa using h),
    List.zip_append (by simp), List.zip_cons_cons, List.zip_nil_left]

/-- The NUL behind the characters leaves them. -/
theorem take_slots_stop (e : BarElement H) (i n : Nat) :
    ({ e with
        ucsContent := e.ucsContent.setIfInBounds i 0
        ucsContentLen := n } : BarElement H).slots.take i = e.slots.take i := by
  simp only [slots, take_zip, Vector.toList_setIfInBounds]
  rw [List.take_set_of_le (le_refl i)]

end BarElement

/-! ## The loop -/

/-- `e'` is `e` after the characters `cs` were parsed into it, from place `i` on. -/
structure Parsed (cfg : BarConfig) (e e' : BarElement H) (i : Nat) (cs : List UInt32)
    (stopped : Bool) : Prop where
  slots : e'.slots.take (i + cs.length) = e.slots.take i ++ cfg.records cs
  len : e'.ucsContentLen = if stopped then i + cs.length else e.ucsContentLen
  same : ∃ us ws n,
    e' = { e with ucsContent := us, ucsContentCharWidths := ws, ucsContentLen := n }

namespace Bar

/-- **The loop of `parseElementContent`**, from character `i` on: by induction on how many
characters may follow. -/
theorem parseLoop_ok {b b' : Bar} {e e' : BarElement H} {n i p : Nat} {total total' : Int}
    (hle : i + n ≤ CONTENT_MAX_LEN) (hb : b.Coherent)
    (h : b.parseLoop e n i p total = .ok (b', e', total')) :
    ∃ cs stopped, codePoints e.content n p = .ok (cs, stopped) ∧
      cs.length ≤ n ∧ (stopped = false → cs.length = n) ∧ Later cs.length b b' ∧
      Parsed b.toBarConfig e e' i cs stopped ∧ total' = total + b.recordedSum cs ∧
      ∀ c ∈ cs, (b.fontFor c).isSome → (b.fontUsed c).xft_ft.isSome → c ≠ 0 → b'.Known c := by
  replace h := parseLoop_eq_ok h
  induction h with
  | full b e i p total =>
    refine ⟨[], false, rfl, le_refl 0, fun _ => rfl, .refl b, ⟨?_, rfl, _, _, _, rfl⟩, ?_, nofun⟩
    · exact (List.append_nil _).symm
    · exact (Int.add_zero _).symm
  | @stop b e n i p total u hu hstop =>
    refine ⟨[], true, bind_eq_ok_iff.mpr ⟨u, hu, by rw [if_pos hstop]; rfl⟩, Nat.zero_le _,
      nofun, .refl b, ⟨?_, rfl, _, _, _, rfl⟩, (Int.add_zero _).symm, nofun⟩
    exact (e.take_slots_stop i i).trans (List.append_nil _).symm
  | @char b b₁ b' e e' n i p j total total' w u result hu hgo hresult hw _ ih =>
    -- the character is measured, then the loop goes on
    have hsel : Later 0 b { b with offsetYIndex := j } := .of_eq rfl rfl rfl rfl
    obtain ⟨hlater, hmeasured, hknown⟩ :=
      getUtf8CharWidth_ok (b := { b with offsetYIndex := j }) (c := result.ucs) hw
    have hlater := hsel.trans hlater
    obtain rfl := hmeasured (hsel.coherent hb)
    obtain ⟨cs, stopped, hcs, hlen, hall, hrest, hparsed, htotal, hknowns⟩ :=
      ih (by omega) (hlater.coherent hb)
    rw [hlater.config] at hparsed htotal hknowns
    refine ⟨result.ucs :: cs, stopped, ?_, Nat.succ_le_succ hlen,
      fun hs => congrArg Nat.succ (hall hs), ?_, ?_, ?_, ?_⟩
    · refine bind_eq_ok_iff.mpr ⟨u, hu, ?_⟩
      rw [if_neg hgo]
      exact bind_eq_ok_iff.mpr ⟨result, hresult, bind_eq_ok_iff.mpr ⟨_, hcs, rfl⟩⟩
    · exact (hlater.trans hrest).mono (by simp; omega)
    · obtain ⟨us, ws, n', hsame⟩ := hparsed.same
      refine ⟨?_, ?_, us, ws, n', hsame⟩
      · have hslots := hparsed.slots
        rw [BarElement.take_slots_record _ (by omega), List.append_assoc] at hslots
        rw [List.length_cons, Nat.add_comm cs.length 1, ← Nat.add_assoc, hslots]
        rfl
      · rw [hparsed.len, List.length_cons, Nat.add_comm cs.length 1, Nat.add_assoc]
    · rw [htotal, BarConfig.recordedSum, BarConfig.recordedSum, List.map_cons, List.sum_cons,
        Int.natCast_add, Int.add_assoc]
      rfl
    · rintro c hc hfont hxft hne
      rcases List.mem_cons.mp hc with rfl | hc
      · exact hrest.known _ hne (hknown hfont hxft hne)
      · exact hknowns c hc hfont hxft hne

/-- How many of the characters `cs` count afterwards: all of them, unless no NUL and no
newline was met, which leaves the length as it was. -/
def parsedLen (e : BarElement H) (cs : List UInt32) (stopped : Bool) : Nat :=
  if stopped then cs.length else e.ucsContentLen

/-- **What `parseElementContent` leaves** of an element whose content is new: the characters that
count, each with its recorded width; the sum of all recorded widths; and a table that knows the
widths of the characters that were measured in a font of Xft. -/
theorem parseElementContent_ok {b b' : Bar} {e e' : BarElement H} (hb : b.Coherent)
    (hdirty : e.dirtyContent = true) (h : b.parseElementContent e = .ok (b', e')) :
    ∃ cs stopped, codePoints e.content CONTENT_MAX_LEN 0 = .ok (cs, stopped) ∧
      Later cs.length b b' ∧ chars e' = (b.records cs).take (parsedLen e cs stopped) ∧
      e'.width.toNat = b.recordedSum cs ∧ e'.offsetPixels = e.offsetPixels ∧
      ∀ c ∈ cs, (b.fontFor c).isSome → (b.fontUsed c).xft_ft.isSome → c ≠ 0 → b'.Known c := by
  rw [parseElementContent, hdirty] at h
  obtain ⟨⟨b₁, e₁, total⟩, hloop, h⟩ := bind_eq_ok_iff.mp h
  obtain ⟨rfl, rfl⟩ := Prod.mk.inj (Except.ok.inj h)
  obtain ⟨cs, stopped, hcs, hlen, hall, hlater, hparsed, rfl, hknown⟩ :=
    parseLoop_ok (Nat.zero_add CONTENT_MAX_LEN).le hb hloop
  have hmax : CONTENT_MAX_LEN = 255 := rfl
  refine ⟨cs, stopped, hcs, hlater, ?_, ?_, ?_, hknown⟩
  · have hslots := hparsed.slots
    have hchars : chars e₁ = e₁.slots.take e₁.ucsContentLen := rfl
    rw [Nat.zero_add, List.take_zero, List.nil_append] at hslots
    show chars e₁ = _
    rw [hchars, hparsed.len, Nat.zero_add, parsedLen]
    cases stopped with
    | true =>
      rw [if_pos rfl, hslots, List.take_of_length_le]
      exact (List.length_map _).le
    | false =>
      -- all places are filled
      rw [hall rfl, List.take_of_length_le] at hslots
      · rw [hslots]
      · simp [BarElement.slots]
  · have hle := recordedSum_le b.toBarConfig cs
    have hwidth := toNat_uint16_ofInt (x := (b.recordedSum cs : Int)) (by omega) (by omega)
    rw [Int.zero_add]
    exact Int.ofNat_inj.mp hwidth
  · obtain ⟨us, ws, n, rfl⟩ := hparsed.same
    rfl

/-- An element whose content is not new stays as it is. -/
theorem parseElementContent_later {b b' : Bar} {e e' : BarElement H} (hb : b.Coherent)
    (h : b.parseElementContent e = .ok (b', e')) : Later CONTENT_MAX_LEN b b' := by
  cases hdirty : e.dirtyContent with
  | false =>
    rw [parseElementContent, hdirty] at h
    obtain ⟨rfl, -⟩ := Prod.mk.inj (Except.ok.inj h)
    exact (Later.refl b).mono (Nat.zero_le _)
  | true =>
    rw [parseElementContent, hdirty] at h
    obtain ⟨⟨b₁, e₁, total⟩, hloop, h⟩ := bind_eq_ok_iff.mp h
    obtain ⟨rfl, -⟩ := Prod.mk.inj (Except.ok.inj h)
    obtain ⟨cs, stopped, -, hlen, -, hlater, -⟩ :=
      parseLoop_ok (Nat.zero_add CONTENT_MAX_LEN).le hb hloop
    exact hlater.mono hlen

end Bar

end Photonbar
