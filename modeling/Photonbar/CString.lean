import Mathlib.Algebra.Order.Field.Rat
import Mathlib.Algebra.Order.Ring.Int
import Mathlib.Data.List.Basic
import Mathlib.Data.List.TakeWhile

/-!
# C strings in fixed buffers

Byte buffers of a fixed size hold C strings: the bytes before the first NUL. Writes go through
`Buffer.write`, which fails outside the buffer, so that a program that writes past the end does not
go unnoticed. `Buffer.snprintf` writes a truncated string and its NUL, and `snprintfResult` is what
`snprintf` returns: the length before truncation, which a program may mistake for the length of
what it has written.

A `CStr` is a name as C has it, without a NUL inside. Numbers are printed as text, of which it
matters that it is printable ASCII and how long it may be (`Printable`, `decimal_length`). Numbers
of type `float` and `double` are taken as exact: they are rationals, and `fixed` is the conversion
`%.nf`, where a half is rounded to even.
-/

namespace Photonbar

/-- Text: characters of a string, of a path, of a file. -/
abbrev Text : Type := List Char

/-- Bytes of a string, without its NUL. -/
abbrev Bytes : Type := List UInt8

/-- The UTF-8 bytes of a string literal. -/
def utf8 (s : String) : Bytes := s.toUTF8.toList

/-- The bytes of ASCII text. -/
def ascii (t : Text) : Bytes := t.map fun c => UInt8.ofNat c.toNat

/-- A number in decimal. -/
def decimal : Int → Text
  | .ofNat n => Nat.toDigits 10 n
  | .negSucc n => '-' :: Nat.toDigits 10 (n + 1)

/-- What `printf("%02d")` prints: at least two characters, filled with a zero. -/
def decimal2 (n : Int) : Text := if 0 ≤ n ∧ n < 10 then '0' :: decimal n else decimal n

/-- `isspace`. -/
def isspace (c : Char) : Bool := c = ' ' || ('\t' ≤ c && c ≤ '\r')

/-- A digit is neither blank nor a sign. -/
theorem not_blank_of_isDigit {c : Char} (h : c.isDigit = true) :
    isspace c = false ∧ c ≠ '-' ∧ c ≠ '+' := by
  refine ⟨?_, ?_, ?_⟩
  · by_contra hblank
    simp only [Char.isDigit, Bool.and_eq_true, decide_eq_true_eq] at h
    simp only [isspace, Bool.not_eq_false, Bool.or_eq_true, Bool.and_eq_true,
      decide_eq_true_eq] at hblank
    rcases hblank with rfl | ⟨-, hlow⟩
    · exact absurd h.1 (by decide)
    · exact absurd (UInt32.le_trans h.1 hlow) (by decide)
  · rintro rfl
    exact absurd h (by decide)
  · rintro rfl
    exact absurd h (by decide)

/-- A printable ASCII character. -/
def Printable (c : Char) : Prop := 32 ≤ c.toNat ∧ c.toNat < 128

theorem zero_notMem_ascii {t : Text} (ht : ∀ c ∈ t, Printable c) : (0 : UInt8) ∉ ascii t := by
  intro h
  obtain ⟨c, hc, h₀⟩ := List.mem_map.mp h
  obtain ⟨hge, hlt⟩ := ht c hc
  have := congrArg UInt8.toNat h₀
  rw [UInt8.toNat_ofNat'] at this
  simp at this
  omega

theorem printable_of_isDigit {c : Char} (h : c.isDigit = true) : Printable c := by
  simp only [Char.isDigit, Bool.and_eq_true, decide_eq_true_eq] at h
  have hge : 48 ≤ c.toNat := h.1
  have hle : c.toNat ≤ 57 := h.2
  exact ⟨by omega, by omega⟩

theorem decimal_printable (n : Int) : ∀ c ∈ decimal n, Printable c := by
  have hdigits (k : Nat) : ∀ c ∈ Nat.toDigits 10 k, Printable c := fun c hc =>
    printable_of_isDigit (Nat.isDigit_of_mem_toDigits (by decide) (by decide) hc)
  cases n with
  | ofNat k => exact hdigits k
  | negSucc k =>
    intro c hc
    rcases List.mem_cons.mp hc with rfl | hc
    · exact ⟨by decide, by decide⟩
    · exact hdigits (k + 1) c hc

theorem decimal2_printable (n : Int) : ∀ c ∈ decimal2 n, Printable c := by
  intro c hc
  rw [decimal2] at hc
  split at hc
  · rcases List.mem_cons.mp hc with rfl | hc
    · exact ⟨by decide, by decide⟩
    · exact decimal_printable n c hc
  · exact decimal_printable n c hc

/-- An `int` has at most ten digits and a sign. -/
theorem decimal_length {n : Int} (h : -2 ^ 31 ≤ n ∧ n < 2 ^ 31) : (decimal n).length ≤ 11 := by
  have hdigits (k : Nat) (hk : k ≤ 2 ^ 31) : (Nat.toDigits 10 k).length ≤ 10 :=
    (Nat.length_toDigits_le_iff (by decide) (by decide)).mpr (by omega)
  cases n with
  | ofNat k =>
    have hlt : (k : Int) < 2 ^ 31 := h.2
    exact (hdigits k (by omega)).trans (by decide)
  | negSucc k =>
    exact Nat.succ_le_succ (hdigits (k + 1) (by omega))

theorem decimal2_length {n : Int} (h : -2 ^ 31 ≤ n ∧ n < 2 ^ 31) : (decimal2 n).length ≤ 12 := by
  have hlen := decimal_length h
  rw [decimal2]
  split
  · exact Nat.succ_le_succ hlen
  · omega

/-- A name as C has it: it ends at its first NUL. -/
@[ext] structure CStr where
  /-- the bytes before the NUL -/
  bytes : Bytes
  noNul : (0 : UInt8) ∉ bytes
  deriving DecidableEq

/-- A `char` array of `n` bytes. -/
abbrev Buffer (n : Nat) : Type := Vector UInt8 n

namespace Buffer

variable {n : Nat}

/-- `buf[i] = b`; `none` outside the array. -/
def write (buf : Buffer n) (i : Int) (b : UInt8) : Option (Buffer n) :=
  if h : 0 ≤ i ∧ i < n then some (buf.set i.toNat b (by omega)) else none

/-- Consecutive writes from `i` on. -/
def writeAll (buf : Buffer n) (i : Int) : Bytes → Option (Buffer n)
  | [] => some buf
  | b :: bs => (buf.write i b).bind fun buf' => writeAll buf' (i + 1) bs

/-- What `snprintf(buf, size, "%s", s)` writes: at most `size - 1` bytes of `s`, then a NUL. -/
def snprintf (buf : Buffer n) (size : Nat) (s : Bytes) : Option (Buffer n) :=
  buf.writeAll 0 (s.take (size - 1) ++ [0])

/-- The C string in the buffer: its bytes before the first NUL. -/
def cstring (buf : Buffer n) : Bytes := buf.toList.takeWhile (· ≠ 0)

end Buffer

/-- What `snprintf` returns: the length of the untruncated text, or -1 where that is
no `int`. -/
def snprintfResult (s : Bytes) : Int := if s.length < 2 ^ 31 then s.length else -1

namespace Buffer

variable {n : Nat}

theorem write_eq_some {buf : Buffer n} {i : Nat} (h : i < n) (b : UInt8) :
    buf.write i b = some (buf.set i b h) := by
  rw [write, dif_pos ⟨by omega, by omega⟩]
  rfl

/-- Writing a stretch that fits replaces just that stretch. -/
theorem writeAll_eq_some (bs : Bytes) : ∀ (buf : Buffer n) (i : Nat), i + bs.length ≤ n →
    ∃ buf', buf.writeAll i bs = some buf' ∧
      buf'.toList = buf.toList.take i ++ bs ++ buf.toList.drop (i + bs.length) := by
  induction bs with
  | nil => intro buf i _; exact ⟨buf, rfl, by simp⟩
  | cons b bs ih =>
    intro buf i h
    rw [List.length_cons] at h
    obtain ⟨buf', hw, hlist⟩ := ih (buf.set i b (by omega)) (i + 1) (by omega)
    refine ⟨buf', ?_, ?_⟩
    · rw [writeAll, write_eq_some (by omega)]
      exact hw
    · have hlen : i < buf.toList.length := by
        rw [Vector.length_toList]
        omega
      rw [hlist, Vector.toList_set, List.take_add_one, List.take_set_of_le (le_refl i),
        List.getElem?_set_self hlen, List.drop_set_of_lt (by omega), List.length_cons]
      simp [Nat.add_comm, Nat.add_left_comm]

/-- `snprintf` with a size that fits never writes outside the buffer. -/
theorem snprintf_eq_some {buf : Buffer n} {size : Nat} (h₀ : 0 < size) (h : size ≤ n) (s : Bytes) :
    ∃ buf', buf.snprintf size s = some buf' ∧
      buf'.toList = s.take (size - 1) ++ 0 :: buf.toList.drop (min s.length (size - 1) + 1) := by
  obtain ⟨buf', hw, hlist⟩ := writeAll_eq_some (s.take (size - 1) ++ [0]) buf 0
    (by simp; omega)
  refine ⟨buf', hw, ?_⟩
  rw [hlist]
  simp [Nat.min_comm]

/-- The string in a buffer that starts with it and a NUL. -/
theorem cstring_eq {buf : Buffer n} {s rest : Bytes} (h : buf.toList = s ++ 0 :: rest)
    (hs : (0 : UInt8) ∉ s) : buf.cstring = s := by
  rw [cstring, h, List.takeWhile_append_of_pos]
  · simp
  · intro b hb
    simp only [ne_eq, decide_not, Bool.not_eq_eq_eq_not, Bool.not_true, decide_eq_false_iff_not]
    rintro rfl
    exact hs hb

/-- A second NUL behind the string does not change it. -/
theorem cstring_set_nul {buf : Buffer n} {s rest : Bytes} (h : buf.toList = s ++ 0 :: rest)
    (hs : (0 : UInt8) ∉ s) {i : Nat} (hi : i < n) (hsi : s.length ≤ i) :
    cstring (buf.set i 0 hi) = s := by
  have hlist : (buf.set i 0 hi).toList = s ++ (0 :: rest).set (i - s.length) 0 := by
    rw [Vector.toList_set, h, List.set_append_right _ _ hsi]
  cases hk : i - s.length with
  | zero => exact cstring_eq (by rw [hlist, hk, List.set_cons_zero]) hs
  | succ k => exact cstring_eq (by rw [hlist, hk, List.set_cons_succ]) hs

end Buffer

/-! ## Fractions -/

/-- The integer closest to a number that is not negative; of two, the even one. -/
def roundHalfEven (x : ℚ) : Nat :=
  let n := x.num.toNat
  let q := n / x.den
  if 2 * (n % x.den) < x.den then q
  else if x.den < 2 * (n % x.den) then q + 1
  else q + q % 2

/-- What `printf("%.nf")` prints, where `digits` is `n`. -/
def fixed (digits : Nat) (x : ℚ) : Text :=
  let n := roundHalfEven ((if x < 0 then -x else x) * 10 ^ digits)
  let fraction : Text :=
    if digits = 0 then [] else '.' :: (Nat.toDigits 10 (n % 10 ^ digits)).leftpad digits '0'
  (if x < 0 then ['-'] else []) ++ Nat.toDigits 10 (n / 10 ^ digits) ++ fraction

theorem fixed_printable (digits : Nat) (x : ℚ) : ∀ c ∈ fixed digits x, Printable c := by
  have hdigits (k : Nat) : ∀ c ∈ Nat.toDigits 10 k, Printable c := fun c hc =>
    printable_of_isDigit (Nat.isDigit_of_mem_toDigits (by decide) (by decide) hc)
  intro c hc
  simp only [fixed, List.mem_append] at hc
  rcases hc with (hc | hc) | hc
  · split at hc
    · obtain rfl := List.mem_singleton.mp hc
      exact ⟨by decide, by decide⟩
    · cases hc
  · exact hdigits _ c hc
  · split at hc
    · cases hc
    · rcases List.mem_cons.mp hc with rfl | hc
      · exact ⟨by decide, by decide⟩
      · rcases List.mem_append.mp hc with hc | hc
        · obtain rfl := List.eq_of_mem_replicate hc
          exact ⟨by decide, by decide⟩
        · exact hdigits _ c hc

example : fixed 1 (25 / 4) = "6.2".toList ∧ fixed 2 (-1 / 3) = "-0.33".toList := by decide +kernel

end Photonbar
