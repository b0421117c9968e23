import Mathlib.Data.List.Induction
import Photonbar.Color

/-!
# The strings that are colours (`color.h`)

`parse_color` decides by the number of characters that `strtoul` has read, and this counts blanks,
a sign and `0x` as well as digits. `strtoul16_eq` says what is read, for any text: what is in
front, and the digits behind it. `Color.handles_iff` says for which strings the count deceives.

The language is that of `colorDigits`: a `#` and a run of 3, 6, 7 or 8 digits that goes no further.
A string is handled rightly if it is accepted just when it is of this language, if the colour is
then that of its digits, opaque, and if the default is returned otherwise. A string is `Disguised`
if there is something in front of its digits and the sum of both is one of these numbers; then it
is read as a colour although it is none (`parseColor_read`). In all other cases the code is right:
nothing in front, and so the digits are the count (`handles_digits`), or another number, and so the
default (`handles_of_default`).
-/

namespace Photonbar

/-! ## What `strtoul` reads -/

/-- The hexadecimal digits that a text starts with. -/
def hexDigits (t : Text) : Text := t.takeWhile fun c => (hexDigit c).isSome

/-- The number that hexadecimal digits form. -/
def hexValue (ds : Text) : Nat := ds.foldl (fun n d => n * 16 + (hexDigit d).getD 0) 0

/-- A text starts with `0x` and a digit. -/
def hasHexPrefix : Text → Bool
  | '0' :: x :: c :: _ => (x = 'x' ∨ x = 'X') ∧ (hexDigit c).isSome
  | _ => false

/-- How much is in front of the digits: blanks, a sign and `0x`. -/
def inFront (t : Text) : Nat :=
  let s := t.dropWhile isspace
  let sign := if s.head? = some '-' ∨ s.head? = some '+' then 1 else 0
  (t.takeWhile isspace).length + sign + if hasHexPrefix (s.drop sign) then 2 else 0

/-- The digits behind. -/
def digitsRead (t : Text) : Text := hexDigits (t.drop (inFront t))

theorem hexDigit_lt {c : Char} {d : Nat} (h : hexDigit c = some d) : d < 16 := by
  simp only [hexDigit, Char.isDigit, Bool.and_eq_true, decide_eq_true_eq] at h
  split at h
  · next hc =>
    have hle : c.toNat ≤ 57 := hc.2
    obtain rfl := Option.some.inj h
    have : '0'.toNat = 48 := rfl
    omega
  · split at h
    · next hc =>
      have hle : c.toNat ≤ 102 := hc.2
      obtain rfl := Option.some.inj h
      have : 'a'.toNat = 97 := rfl
      omega
    · split at h
      · next hc =>
        have hle : c.toNat ≤ 70 := hc.2
        obtain rfl := Option.some.inj h
        have : 'A'.toNat = 65 := rfl
        omega
      · cases h

theorem hexValue_lt (ds : Text) : hexValue ds < 16 ^ ds.length := by
  induction ds using List.reverseRecOn with
  | nil => simp [hexValue]
  | append_singleton ds d ih =>
    have hd : (hexDigit d).getD 0 < 16 := by
      cases h : hexDigit d with
      | none => simp
      | some n => exact hexDigit_lt h
    have happend : hexValue (ds ++ [d]) = hexValue ds * 16 + (hexDigit d).getD 0 := by
      simp [hexValue]
    rw [happend, List.length_append, List.length_singleton, Nat.pow_succ]
    omega

theorem hexRun_eq (s : Text) : ∀ acc k, hexRun s acc k =
    ((hexDigits s).foldl (fun n d => n * 16 + (hexDigit d).getD 0) acc,
      k + (hexDigits s).length) := by
  induction s with
  | nil => intro acc k; rfl
  | cons c s ih =>
    intro acc k
    cases h : hexDigit c with
    | none => simp [hexRun, hexDigits, h]
    | some d =>
      simp only [hexRun, h]
      rw [ih]
      simp [hexDigits, h, Nat.add_assoc, Nat.add_comm 1]

/-- The digits after an optional `0x`. -/
theorem hexNumber_eq (s : Text) (k : Nat) :
    let m := if hasHexPrefix s then 2 else 0
    let ds := hexDigits (s.drop m)
    hexNumber s k = (hexValue ds, if ds = [] then 0 else k + m + ds.length) := by
  intro m ds
  have hplain (hm : hasHexPrefix s = false) : (hexValue ds, if ds = [] then 0 else k + m + ds.length) =
      ((hexRun s 0 0).1, if (hexRun s 0 0).2 = 0 then 0 else k + (hexRun s 0 0).2) := by
    have hds : ds = hexDigits s := by simp [ds, m, hm]
    rw [hexRun_eq, hds]
    simp [m, hm, hexValue]
  unfold hexNumber
  split
  · next x c cs =>
    split
    · next hx =>
      have hprefix : hasHexPrefix ('0' :: x :: c :: cs) = true := by simpa [hasHexPrefix] using hx
      have hds : ds = hexDigits (c :: cs) := by simp [ds, m, hprefix]
      have hne : hexDigits (c :: cs) ≠ [] := by simp [hexDigits, hx.2]
      simp only [hexRun_eq, hds, if_neg hne, m, hprefix, if_true, Nat.zero_add]
      rfl
    · next hx =>
      have hprefix : hasHexPrefix ('0' :: x :: c :: cs) = false := by simpa [hasHexPrefix] using hx
      exact (hplain hprefix).symm
  · next hno =>
    refine (hplain ?_).symm
    unfold hasHexPrefix
    split
    · next x c cs => exact absurd rfl (hno x c cs)
    · rfl

/-- The number that is returned, for the digits `v`. -/
theorem strtoul_number (neg : Bool) (v consumed : Nat) : ∃ value,
    (if v ≥ 2 ^ 64 then (⟨2 ^ 64 - 1, consumed, true⟩ : Strtoul)
      else if neg then ⟨(2 ^ 64 - v) % 2 ^ 64, consumed, false⟩
      else ⟨v, consumed, false⟩) = ⟨value, consumed, decide (2 ^ 64 ≤ v)⟩ ∧
    (neg = false → v < 2 ^ 64 → value = v) := by
  by_cases hv : v ≥ 2 ^ 64
  · refine ⟨_, by rw [if_pos hv, decide_eq_true hv], fun _ hlt => ?_⟩
    omega
  · rw [if_neg hv, decide_eq_false hv]
    cases neg with
    | true => exact ⟨_, rfl, nofun⟩
    | false => exact ⟨_, rfl, fun _ _ => rfl⟩

/-- **What `strtoul` reads.** -/
theorem strtoul16_eq (t : Text) : ∃ value, strtoul16 t =
      ⟨value, if digitsRead t = [] then 0 else inFront t + (digitsRead t).length,
        decide (2 ^ 64 ≤ hexValue (digitsRead t))⟩ ∧
    (inFront t = 0 → hexValue (digitsRead t) < 2 ^ 64 → value = hexValue (digitsRead t)) := by
  have hblanks : t.drop (t.takeWhile isspace).length = t.dropWhile isspace := by
    have h : (t.takeWhile isspace ++ t.dropWhile isspace).drop (t.takeWhile isspace).length =
        t.dropWhile isspace := List.drop_left
    rwa [List.takeWhile_append_dropWhile] at h
  -- the three cases differ in the sign only
  have hnumber (neg : Bool) (sign : Nat) (rest : Text)
      (hrest : (t.dropWhile isspace).drop sign = rest)
      (hsign : (if (t.dropWhile isspace).head? = some '-' ∨ (t.dropWhile isspace).head? = some '+'
        then 1 else 0) = sign) (hneg : neg = true → 0 < sign) :
      ∃ value, (let r := hexNumber rest ((t.takeWhile isspace).length + sign)
        if r.1 ≥ 2 ^ 64 then (⟨2 ^ 64 - 1, r.2, true⟩ : Strtoul)
        else if neg then ⟨(2 ^ 64 - r.1) % 2 ^ 64, r.2, false⟩
        else ⟨r.1, r.2, false⟩) =
          ⟨value, if digitsRead t = [] then 0 else inFront t + (digitsRead t).length,
            decide (2 ^ 64 ≤ hexValue (digitsRead t))⟩ ∧
        (inFront t = 0 → hexValue (digitsRead t) < 2 ^ 64 → value = hexValue (digitsRead t)) := by
    have hfront : inFront t = (t.takeWhile isspace).length + sign +
        if hasHexPrefix rest then 2 else 0 := by
      simp only [inFront, hsign, hrest]
    have hread : digitsRead t = hexDigits (rest.drop (if hasHexPrefix rest then 2 else 0)) := by
      rw [digitsRead, hfront, ← List.drop_drop, ← List.drop_drop, hblanks, hrest]
    obtain ⟨value, heq, hvalue⟩ := strtoul_number neg (hexValue (digitsRead t))
      (if digitsRead t = [] then 0 else inFront t + (digitsRead t).length)
    refine ⟨value, ?_, fun hzero hlt => hvalue ?_ hlt⟩
    · rw [← heq, hexNumber_eq, ← hread, ← hfront]
    · cases neg with
      | true =>
        have := hneg rfl
        omega
      | false => rfl
  rw [strtoul16, hblanks]
  split
  · next rest hs => exact hnumber true 1 rest (by rw [hs]; rfl) (by simp [hs]) fun _ => Nat.one_pos
  · next rest hs => exact hnumber false 1 rest (by rw [hs]; rfl) (by simp [hs]) (by simp)
  · next hminus hplus =>
    refine hnumber false 0 _ rfl (if_neg ?_) (by simp)
    cases hs : t.dropWhile isspace with
    | nil => simp
    | cons c s =>
      rintro (h | h)
      · exact hminus s (by rw [hs, Option.some.inj h])
      · exact hplus s (by rw [hs, Option.some.inj h])

/-! ## What is read as a colour -/

namespace Color

/-- The number of the digits decides. -/
def lengths : List Nat := [3, 6, 7, 8]

/-- The colour for what `strtoul` has read, opaque. -/
def ofStrtoul (num : Strtoul) : Color :=
  let tmp : Color := ⟨UInt32.ofNat num.value⟩
  let tmp : Color :=
    if num.consumed = 3 then
      ⟨(tmp.v &&& 0xf00) * 0x1100 ||| (tmp.v &&& 0x0f0) * 0x0110 ||| (tmp.v &&& 0x00f) * 0x0011⟩
    else tmp
  ofBytes tmp.b tmp.g tmp.r 255

/-- What `parse_color` does with a string behind its `#`. -/
theorem parseColor_hash (t : Text) (deflt : Color) :
    parseColor (some ('#' :: t)) deflt =
      (if (strtoul16 t).erange = false ∧ (strtoul16 t).consumed ∈ lengths then
        ofStrtoul (strtoul16 t) else deflt, some (1 + (strtoul16 t).consumed)) := by
  simp only [parseColor]
  generalize strtoul16 t = num
  obtain ⟨value, consumed, erange⟩ := num
  cases erange with
  | true => simp
  | false =>
    simp only [Bool.false_eq_true, if_false, true_and]
    split
    · simp [lengths, ofStrtoul, setA]
    · simp [lengths, ofStrtoul, setA]
    · simp [lengths, ofStrtoul, setA]
    · simp [lengths, ofStrtoul, setA]
    · next h₃ h₆ h₇ h₈ =>
      rw [if_neg]
      simp only [lengths, List.mem_cons, List.not_mem_nil, or_false]
      rintro (h | h | h | h)
      · exact h₃ h
      · exact h₆ h
      · exact h₇ h
      · exact h₈ h

theorem ofStrtoul_a (num : Strtoul) : (ofStrtoul num).a = 255 := ofBytes_a _ _ _ _

theorem ne_unset_of_a {c : Color} (h : c.a = 255) : c ≠ unset := by
  rintro rfl
  exact absurd h (by decide)

/-- What a colour shows of its digits: three are doubled, else the lower 24 bits are those of the
number. -/
def Shows (c : Color) : Text → Prop
  | [r, g, b] =>
    c.r.toNat = 17 * (hexDigit r).getD 0 ∧ c.g.toNat = 17 * (hexDigit g).getD 0 ∧
      c.b.toNat = 17 * (hexDigit b).getD 0
  | ds => 65536 * c.r.toNat + 256 * c.g.toNat + c.b.toNat = hexValue ds % 2 ^ 24

/-- Each of three digits is doubled. -/
theorem double_digits : ∀ r g b : Fin 16,
    let n := (r.val * 16 + g.val) * 16 + b.val
    (n &&& 0xf00) * 0x1100 ||| (n &&& 0x0f0) * 0x0110 ||| (n &&& 0x00f) * 0x0011 =
      (17 * r.val * 256 + 17 * g.val) * 256 + 17 * b.val := by
  decide +kernel

/-- What a number of three bytes consists of. -/
theorem bytes_eq {c : Color} {r g b : Nat} (hr : r < 256) (hg : g < 256) (hb : b < 256)
    (h : c.v.toNat = (r * 256 + g) * 256 + b) : c.r.toNat = r ∧ c.g.toNat = g ∧ c.b.toNat = b := by
  simp only [Color.b, Color.g, Color.r, UInt32.toNat_toUInt8, UInt32.toNat_shiftRight, h]
  simp only [UInt32.reduceToNat, Nat.reduceMod, Nat.shiftRight_eq_div_pow]
  omega

/-- Three digits are expanded. -/
theorem expand_digits (r g b : Fin 16) :
    let c := ofStrtoul ⟨(r.val * 16 + g.val) * 16 + b.val, 3, false⟩
    c.r.toNat = 17 * r.val ∧ c.g.toNat = 17 * g.val ∧ c.b.toNat = 17 * b.val := by
  have hdouble := double_digits r g b
  simp only [ofStrtoul, if_true, ofBytes_b, ofBytes_g, ofBytes_r]
  refine bytes_eq (by omega) (by omega) (by omega) ?_
  dsimp only at hdouble ⊢
  rw [← hdouble]
  have hlt : (r.val * 16 + g.val) * 16 + b.val < 2 ^ 32 := by omega
  generalize (r.val * 16 + g.val) * 16 + b.val = n at hlt
  have hr : (n &&& 0xf00) ≤ 0xf00 := Nat.and_le_right
  have hg : (n &&& 0x0f0) ≤ 0x0f0 := Nat.and_le_right
  have hb : (n &&& 0x00f) ≤ 0x00f := Nat.and_le_right
  simp only [UInt32.toNat_or, UInt32.toNat_mul, UInt32.toNat_and, UInt32.toNat_ofNat_of_lt' hlt,
    UInt32.reduceToNat]
  rw [Nat.mod_eq_of_lt (a := _ * 0x1100) (by omega), Nat.mod_eq_of_lt (a := _ * 0x0110) (by omega),
    Nat.mod_eq_of_lt (a := _ * 0x0011) (by omega)]

/-- The lower bytes of a number are kept. -/
theorem ofStrtoul_low {value consumed : Nat} (h : consumed ≠ 3) :
    let c := ofStrtoul ⟨value, consumed, false⟩
    65536 * c.r.toNat + 256 * c.g.toNat + c.b.toNat = value % 2 ^ 24 := by
  simp only [ofStrtoul, if_neg h, ofBytes_b, ofBytes_g, ofBytes_r]
  simp [Color.b, Color.g, Color.r, Nat.shiftRight_eq_div_pow]
  omega

theorem shows_ofStrtoul {ds : Text} (hds : ∀ d ∈ ds, (hexDigit d).isSome) :
    Shows (ofStrtoul ⟨hexValue ds, ds.length, false⟩) ds := by
  unfold Shows
  split
  · next r g b =>
    have hlt : ∀ d ∈ [r, g, b], (hexDigit d).getD 0 < 16 := by
      intro d hd
      obtain ⟨n, hn⟩ := Option.isSome_iff_exists.mp (hds d hd)
      rw [hn]
      exact hexDigit_lt hn
    have hexpand := expand_digits ⟨_, hlt r (by simp)⟩ ⟨_, hlt g (by simp)⟩ ⟨_, hlt b (by simp)⟩
    simpa [hexValue] using hexpand
  · next hthree =>
    refine ofStrtoul_low ?_
    intro hlen
    obtain ⟨r, g, b, rfl⟩ := List.length_eq_three.mp hlen
    exact hthree r g b rfl

/-! ## The language -/

/-- `#` and a run of 3, 6, 7 or 8 digits that goes no further: the digits. -/
def colorDigits : Text → Option Text
  | '#' :: t => if (hexDigits t).length ∈ lengths then some (hexDigits t) else none
  | _ => none

/-- A string is accepted: what is returned does not depend on the default. -/
def Accepts (s : Text) : Prop := ∃ c, ∀ deflt, (parseColor (some s) deflt).1 = c

/-- What `parse_color` is to do with a string. -/
structure Handles (s : Text) : Prop where
  accepts : Accepts s ↔ (colorDigits s).isSome
  color : ∀ ds, colorDigits s = some ds → ∀ deflt, ∃ c,
    parseColor (some s) deflt = (c, some (1 + ds.length)) ∧ c.a = 255 ∧ Shows c ds ∧ c ≠ unset
  default : colorDigits s = none → ∀ deflt, (parseColor (some s) deflt).1 = deflt

/-- There are digits, and with what is in front of them there is one of the numbers of
characters. -/
def Read (t : Text) : Prop := digitsRead t ≠ [] ∧ inFront t + (digitsRead t).length ∈ lengths

/-- Not only digits are counted. -/
def Disguised : Text → Prop
  | '#' :: t => 0 < inFront t ∧ Read t
  | _ => False

theorem hexDigit_eq_none {c : Char} (h : c.toNat < 48) : hexDigit c = none := by
  have hdigit : ¬ c.isDigit := by
    simp only [Char.isDigit, Bool.and_eq_true, decide_eq_true_eq]
    rintro ⟨hle, -⟩
    have : 48 ≤ c.toNat := hle
    omega
  have hlower : ¬ ('a' ≤ c ∧ c ≤ 'f') := by
    rintro ⟨hle, -⟩
    have : 97 ≤ c.toNat := hle
    omega
  have hupper : ¬ ('A' ≤ c ∧ c ≤ 'F') := by
    rintro ⟨hle, -⟩
    have : 65 ≤ c.toNat := hle
    omega
  rw [hexDigit, if_neg hdigit, if_neg hlower, if_neg hupper]

theorem hexDigit_of_isspace {c : Char} (h : isspace c = true) : hexDigit c = none := by
  simp only [isspace, Bool.or_eq_true, Bool.and_eq_true, decide_eq_true_eq] at h
  rcases h with rfl | ⟨-, hle⟩
  · rfl
  · have hle : c.toNat ≤ 13 := hle
    exact hexDigit_eq_none (by omega)

/-- Where something is in front of the digits, no run of digits is at the start, but for the `0` of
`0x`. -/
theorem hexDigits_of_inFront {t : Text} (h : 0 < inFront t) : (hexDigits t).length ≤ 1 := by
  cases t with
  | nil => exact Nat.zero_le 1
  | cons c cs =>
    cases hc : hexDigit c with
    | none => simp [hexDigits, hc]
    | some d =>
      have hblank : isspace c = false := by
        by_contra hblank
        rw [hexDigit_of_isspace (by simpa using hblank)] at hc
        cases hc
      have hsign : ¬ (c = '-' ∨ c = '+') := by
        rintro (rfl | rfl)
        · cases hc
        · cases hc
      have hprefix : hasHexPrefix (c :: cs) = true := by
        by_contra hprefix
        simp [inFront, hblank, hsign, hprefix] at h
      unfold hasHexPrefix at hprefix
      split at hprefix
      · next x y ys heq =>
        obtain ⟨rfl, rfl⟩ := List.cons.inj heq
        obtain ⟨hx, -⟩ := of_decide_eq_true hprefix
        have hx : hexDigit x = none := by rcases hx with rfl | rfl <;> rfl
        simp [hexDigits, hx, hc]
      · cases hprefix

theorem strtoul16_of_read {t : Text} (h : Read t) : ∃ value,
    strtoul16 t = ⟨value, inFront t + (digitsRead t).length, false⟩ ∧
      (inFront t = 0 → value = hexValue (digitsRead t)) := by
  obtain ⟨hne, hlen⟩ := h
  obtain ⟨value, hread, hvalue⟩ := strtoul16_eq t
  -- so few digits are always in range
  have hlt : hexValue (digitsRead t) < 2 ^ 64 := by
    have hle : (digitsRead t).length ≤ 8 := by
      simp only [lengths, List.mem_cons, List.not_mem_nil, or_false] at hlen
      omega
    calc hexValue (digitsRead t) < 16 ^ (digitsRead t).length := hexValue_lt _
      _ ≤ 16 ^ 8 := Nat.pow_le_pow_right (by decide) hle
      _ < 2 ^ 64 := by decide
  rw [if_neg hne, decide_eq_false (by omega)] at hread
  exact ⟨value, hread, fun hfront => hvalue hfront hlt⟩

/-- What is read behind a `#` is taken for a colour. -/
theorem parseColor_read {t : Text} (h : Read t) (deflt : Color) :
    parseColor (some ('#' :: t)) deflt =
      (ofStrtoul (strtoul16 t), some (1 + (inFront t + (digitsRead t).length))) := by
  obtain ⟨value, hread, -⟩ := strtoul16_of_read h
  rw [parseColor_hash, hread, if_pos ⟨rfl, h.2⟩]

/-- Nothing else is. -/
theorem parseColor_unread {t : Text} (h : ¬ Read t) (deflt : Color) :
    (parseColor (some ('#' :: t)) deflt).1 = deflt := by
  obtain ⟨value, hread, -⟩ := strtoul16_eq t
  rw [parseColor_hash, if_neg]
  rintro ⟨-, hlen⟩
  rw [hread] at hlen
  by_cases hne : digitsRead t = []
  · rw [if_pos hne] at hlen
    exact absurd hlen (show ¬ 0 ∈ lengths by decide)
  · rw [if_neg hne] at hlen
    exact h ⟨hne, hlen⟩

/-- Where nothing is in front of the digits, they decide alone. -/
theorem handles_digits {t : Text} (hfront : inFront t = 0) (hlen : (hexDigits t).length ∈ lengths) :
    Handles ('#' :: t) := by
  have hdigits : digitsRead t = hexDigits t := by rw [digitsRead, hfront, List.drop_zero]
  have hcolor : colorDigits ('#' :: t) = some (hexDigits t) := if_pos hlen
  have hne : hexDigits t ≠ [] := by
    intro hnil
    rw [hnil] at hlen
    exact absurd hlen (by decide)
  have hread : Read t := by
    rw [Read, hdigits, hfront, Nat.zero_add]
    exact ⟨hne, hlen⟩
  obtain ⟨value, hnum, hvalue⟩ := strtoul16_of_read hread
  obtain rfl := hvalue hfront
  have hparse := parseColor_read hread
  rw [hdigits, hfront, Nat.zero_add] at hnum hparse
  rw [hnum] at hparse
  refine ⟨?_, ?_, ?_⟩
  · exact iff_of_true ⟨_, fun deflt => congrArg Prod.fst (hparse deflt)⟩ (by rw [hcolor]; rfl)
  · intro ds hds deflt
    obtain rfl := Option.some.inj (hcolor.symm.trans hds)
    refine ⟨_, hparse deflt, ofStrtoul_a _, shows_ofStrtoul fun d hd => ?_,
      ne_unset_of_a (ofStrtoul_a _)⟩
    exact List.mem_takeWhile_imp (p := fun c => (hexDigit c).isSome) hd
  · rw [hcolor]
    exact nofun

/-- A string that is no colour is handled rightly where the default is returned. -/
theorem handles_of_default {s : Text} (h : colorDigits s = none)
    (hdeflt : ∀ deflt, (parseColor (some s) deflt).1 = deflt) : Handles s := by
  refine ⟨⟨?_, ?_⟩, ?_, fun _ => hdeflt⟩
  · rintro ⟨c, hc⟩
    -- two defaults give two colours
    have hsame := (hdeflt ⟨0⟩).symm.trans ((hc ⟨0⟩).trans ((hc ⟨1⟩).symm.trans (hdeflt ⟨1⟩)))
    exact absurd hsame (by decide)
  · rw [h]
    exact nofun
  · rw [h]
    exact nofun

theorem handles_hash_iff (t : Text) : Handles ('#' :: t) ↔ ¬ Disguised ('#' :: t) := by
  by_cases hfront : inFront t = 0
  · have hplain : ¬ Disguised ('#' :: t) := fun h => absurd h.1 (by omega)
    refine iff_of_true ?_ hplain
    by_cases hlen : (hexDigits t).length ∈ lengths
    · exact handles_digits hfront hlen
    · refine handles_of_default (if_neg hlen) (parseColor_unread ?_)
      rintro ⟨-, hread⟩
      rw [digitsRead, hfront, List.drop_zero, Nat.zero_add] at hread
      exact hlen hread
  · have hnone : colorDigits ('#' :: t) = none := by
      refine if_neg fun hlen => ?_
      have hle := hexDigits_of_inFront (Nat.pos_of_ne_zero hfront)
      simp only [lengths, List.mem_cons, List.not_mem_nil, or_false] at hlen
      omega
    refine ⟨?_, ?_⟩
    · rintro h ⟨-, hread⟩
      have hsame := (h.default hnone ⟨0⟩).symm.trans
        ((congrArg Prod.fst (parseColor_read hread ⟨0⟩)).trans
          ((congrArg Prod.fst (parseColor_read hread ⟨1⟩)).symm.trans (h.default hnone ⟨1⟩)))
      exact absurd hsame (by decide)
    · intro h
      exact handles_of_default hnone
        (parseColor_unread fun hread => h ⟨Nat.pos_of_ne_zero hfront, hread⟩)

/-- **A string is handled rightly** if and only if it is not disguised. The digits are followed by
something that is no digit, or by nothing, so that a run of the right length is all that is read;
and a number that is too large for `strtoul` has more digits than any colour. -/
theorem handles_iff (s : Text) : Handles s ↔ ¬ Disguised s := by
  cases s with
  | nil => exact iff_of_true (handles_of_default rfl fun _ => rfl) id
  | cons c t =>
    by_cases hhash : c = '#'
    · subst hhash
      exact handles_hash_iff t
    · have hnone : colorDigits (c :: t) = none := by
        unfold colorDigits
        split
        · next heq => exact absurd (List.cons.inj heq).1 hhash
        · rfl
      have hplain : ¬ Disguised (c :: t) := by
        unfold Disguised
        split
        · next heq => exact absurd (List.cons.inj heq).1 hhash
        · exact id
      refine iff_of_true (handles_of_default hnone fun deflt => ?_) hplain
      unfold parseColor
      split
      · rfl
      · rfl
      · next heq => exact absurd (List.cons.inj (Option.some.inj heq)).1 hhash
      · rfl

/-- A minus sign and five digits are six characters. -/
theorem minus_is_read : ¬ Handles "#-12345".toList ∧
    parseColor (some "#-12345".toList) ⟨0⟩ = (⟨0xFFFEDCBB⟩, some 7) := by
  have hparse : parseColor (some "#-12345".toList) ⟨0⟩ = (⟨0xFFFEDCBB⟩, some 7) := by decide
  refine ⟨fun h => ?_, hparse⟩
  have hsame := h.default (by decide) ⟨0⟩
  rw [hparse] at hsame
  exact absurd hsame (by decide)

end Color

end Photonbar
