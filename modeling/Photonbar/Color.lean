import Photonbar.CString

/-!
# Colours (`color.h`)

A `Color` is the union of four bytes, blue lowest, and one 32-bit number. Colour 0 stands for
"unset" throughout the bar. The components are read and written by shifts and masks of the number,
and `ofBytes_b` to `ofBytes_a` say that a colour made from components has these components.

`parse_color` reads `#rgb`, `#rrggbb` and `#aarrggbb`, makes the colour opaque and premultiplies
it. It leaves the digits to `strtoul`, which does more than read digits: it skips blanks, takes a
sign and an `0x`, and goes on as long as there are digits. `strtoul16` is the function of the C
library for base 16 and a 64-bit `unsigned long`, with the overflow that it reports.
-/

namespace Photonbar

/-- The class `Color`, by its number. -/
structure Color where
  v : UInt32
  deriving DecidableEq

namespace Color

/-- The constructor from components. -/
def ofBytes (b g r a : UInt8) : Color :=
  ⟨b.toUInt32 ||| g.toUInt32 <<< 8 ||| r.toUInt32 <<< 16 ||| a.toUInt32 <<< 24⟩

theorem eq_of_v {c d : Color} (h : c.v = d.v) : c = d := by
  cases c
  cases d
  exact congrArg mk h

/-- The blue component. -/
def b (c : Color) : UInt8 := c.v.toUInt8

/-- The green component. -/
def g (c : Color) : UInt8 := (c.v >>> 8).toUInt8

/-- The red component. -/
def r (c : Color) : UInt8 := (c.v >>> 16).toUInt8

/-- The alpha component. -/
def a (c : Color) : UInt8 := (c.v >>> 24).toUInt8

/-- Write the alpha component. -/
def setA (c : Color) (a : UInt8) : Color := ofBytes c.b c.g c.r a

/-- No colour: `Color(0x00000000U)`. -/
def unset : Color := ⟨0⟩

/-! ## The components -/

variable (b g r a : UInt8)

@[simp] theorem ofBytes_b : (ofBytes b g r a).b = b := by
  apply UInt8.eq_of_toBitVec_eq
  ext i hi
  simp [ofBytes, Color.b]

@[simp] theorem ofBytes_g : (ofBytes b g r a).g = g := by
  apply UInt8.eq_of_toBitVec_eq
  ext i hi
  simp [ofBytes, Color.g, BitVec.getLsbD_eq_getElem hi, show 8 + i < 16 by omega,
    show 8 + i < 24 by omega, show 8 + i < 32 by omega, show i < 32 by omega]

@[simp] theorem ofBytes_r : (ofBytes b g r a).r = r := by
  apply UInt8.eq_of_toBitVec_eq
  ext i hi
  -- the lower bytes end below
  have hb : b.toBitVec.getLsbD (16 + i) = false := BitVec.getLsbD_of_ge _ _ (by omega)
  have hg : g.toBitVec.getLsbD (16 + i - 8) = false := BitVec.getLsbD_of_ge _ _ (by omega)
  simp [ofBytes, Color.r, BitVec.getLsbD_eq_getElem hi, hb, hg, show ¬ 16 + i < 16 by omega,
    show 16 + i < 24 by omega, show 16 + i < 32 by omega, show i < 32 by omega]

@[simp] theorem ofBytes_a : (ofBytes b g r a).a = a := by
  apply UInt8.eq_of_toBitVec_eq
  ext i hi
  have hb : b.toBitVec.getLsbD (24 + i) = false := BitVec.getLsbD_of_ge _ _ (by omega)
  have hg : g.toBitVec.getLsbD (24 + i - 8) = false := BitVec.getLsbD_of_ge _ _ (by omega)
  have hr : r.toBitVec.getLsbD (24 + i - 16) = false := BitVec.getLsbD_of_ge _ _ (by omega)
  simp [ofBytes, Color.a, BitVec.getLsbD_eq_getElem hi, hb, hg, hr, show ¬ 24 + i < 24 by omega,
    show 24 + i < 32 by omega, show i < 32 by omega]

end Color

/-- The value of a hexadecimal digit. -/
def hexDigit (c : Char) : Option Nat :=
  if c.isDigit then some (c.toNat - '0'.toNat)
  else if 'a' ≤ c ∧ c ≤ 'f' then some (c.toNat - 'a'.toNat + 10)
  else if 'A' ≤ c ∧ c ≤ 'F' then some (c.toNat - 'A'.toNat + 10)
  else none

/-- What `strtoul` gives back: the value, how many characters it has read, and
whether it set `errno` to `ERANGE`. -/
structure Strtoul where
  value : Nat
  consumed : Nat
  erange : Bool
  deriving DecidableEq

/-- The hexadecimal digits at the front, and their number. -/
def hexRun : Text → Nat → Nat → Nat × Nat
  | [], acc, k => (acc, k)
  | c :: cs, acc, k =>
    match hexDigit c with
    | some d => hexRun cs (acc * 16 + d) (k + 1)
    | none => (acc, k)

/-- The digits of a hexadecimal number with an optional `0x`, from position `k` on. -/
def hexNumber (s : Text) (k : Nat) : Nat × Nat :=
  match s with
  | '0' :: x :: c :: cs =>
    if (x = 'x' ∨ x = 'X') ∧ (hexDigit c).isSome then
      let (v, n) := hexRun (c :: cs) 0 0
      (v, k + 2 + n)
    else
      let (v, n) := hexRun s 0 0
      (v, if n = 0 then 0 else k + n)
  | _ =>
    let (v, n) := hexRun s 0 0
    (v, if n = 0 then 0 else k + n)

/-- `strtoul(s, &ep, 16)` of the C library, for a 64-bit `unsigned long`: blanks, a
sign and `0x` are accepted, a number out of range is clamped, and without digits
nothing is read. -/
def strtoul16 (s : Text) : Strtoul :=
  let blanks := (s.takeWhile isspace).length
  let number (neg : Bool) (rest : Text) (k : Nat) : Strtoul :=
    let (v, consumed) := hexNumber rest k
    if v ≥ 2 ^ 64 then ⟨2 ^ 64 - 1, consumed, true⟩
    else if neg then ⟨(2 ^ 64 - v) % 2 ^ 64, consumed, false⟩
    else ⟨v, consumed, false⟩
  match s.drop blanks with
  | '-' :: rest => number true rest (blanks + 1)
  | '+' :: rest => number false rest (blanks + 1)
  | rest => number false rest blanks

namespace Color

/-- `parse_color`, with what is stored through `end` (an offset into the string;
nothing is stored for a null string). -/
def parseColor (str : Option Text) (deflt : Color) : Color × Option Nat :=
  match str with
  | none => (deflt, none)
  | some ('-' :: _) => (deflt, some 1)
  | some ('#' :: digits) =>
    let num := strtoul16 digits
    let tmp : Color := ⟨UInt32.ofNat num.value⟩
    let stop := some (1 + num.consumed)
    if num.erange then (deflt, stop)
    else
      let opaqued (tmp : Color) : Color × Option Nat :=
        -- force opacity, then premultiply the alpha in
        let tmp := tmp.setA 255
        (ofBytes (UInt8.ofNat (tmp.b.toNat * tmp.a.toNat / 255))
          (UInt8.ofNat (tmp.g.toNat * tmp.a.toNat / 255))
          (UInt8.ofNat (tmp.r.toNat * tmp.a.toNat / 255)) tmp.a, stop)
      match num.consumed with
      | 3 =>
        -- `#rgb`, falls through to `#rrggbb`
        opaqued (setA ⟨(tmp.v &&& 0xf00) * 0x1100 ||| (tmp.v &&& 0x0f0) * 0x0110 |||
          (tmp.v &&& 0x00f) * 0x0011⟩ 255)
      | 6 => opaqued (tmp.setA 255)
      | 7 => opaqued tmp
      | 8 => opaqued tmp
      | _ => (deflt, stop)
  | some _ => (deflt, some 0)

example : parseColor (some "#E0AAFF".toList) ⟨0⟩ = (ofBytes 0xFF 0xAA 0xE0 255, some 7) := by
  decide

end Color

end Photonbar
