import Photonbar.Parse

/-!
# Decoding UTF-8 (`bar.h`)

`decodeUtf8Char` gives back the character that a well-formed sequence stands for
(`decodeUtf8Char_encode`), and so the characters of a content that holds a UTF-8 text up to its
first NUL are those of the text (`codePoints_encode`). The encoder is the one of the standard
library.

The first section is about bits: a sequence has the bits of a number in groups of six, behind a
lead byte that tells the length. One lemma for each length says that joining the groups gives the
number back, and one that the lead byte is recognised. Decoding a character is then a case split on
its length. The characters of a content follow by induction on the text, one sequence after another
(`codePoints_step`). A sequence that is cut or malformed is not decoded to the character that was
meant, and not covered here.
-/

namespace Photonbar

/-! ## Bits -/

/-- A number in front of `k` bits. -/
theorem ofNat_shiftLeft_or {a b k : Nat} (hk : k < 32) (hb : b < 2 ^ k)
    (h : a * 2 ^ k + b < 2 ^ 32) :
    UInt32.ofNat a <<< UInt32.ofNat k ||| UInt32.ofNat b = UInt32.ofNat (a * 2 ^ k + b) := by
  have ha : a < 2 ^ 32 := lt_of_le_of_lt (Nat.le_mul_of_pos_right a (Nat.two_pow_pos k)) (by omega)
  apply UInt32.toNat_inj.mp
  rw [UInt32.toNat_or, UInt32.toNat_shiftLeft, UInt32.toNat_ofNat_of_lt' ha,
    UInt32.toNat_ofNat_of_lt' (show k < UInt32.size by simp [UInt32.size]; omega),
    UInt32.toNat_ofNat_of_lt' (show b < UInt32.size by simp [UInt32.size]; omega),
    UInt32.toNat_ofNat_of_lt' h, Nat.mod_eq_of_lt hk, Nat.shiftLeft_eq, Nat.mod_eq_of_lt (by omega),
    ← Nat.shiftLeft_eq, ← Nat.shiftLeft_add_eq_or_of_lt hb, Nat.shiftLeft_eq]

/-- A byte that continues a sequence. -/
theorem tail_bits {k : Nat} (hk : k < 64) :
    (UInt8.ofNat (k + 0x80) &&& 0x3f).toUInt32 = UInt32.ofNat k := by
  have h : ∀ k : Fin 64, (UInt8.ofNat (k.val + 0x80) &&& 0x3f).toUInt32 = UInt32.ofNat k.val := by
    decide
  exact h ⟨k, hk⟩

/-- The first byte of a sequence of two. -/
theorem lead_bits₂ {k : Nat} (hk : k < 32) : let u := UInt8.ofNat (k + 0xc0)
    ¬ u < 0x80 ∧ u &&& 0xe0 = 0xc0 ∧ (u &&& 0x1f).toUInt32 = UInt32.ofNat k := by
  have h : ∀ k : Fin 32, let u := UInt8.ofNat (k.val + 0xc0)
      ¬ u < 0x80 ∧ u &&& 0xe0 = 0xc0 ∧ (u &&& 0x1f).toUInt32 = UInt32.ofNat k.val := by decide
  exact h ⟨k, hk⟩

/-- The first byte of a sequence of three. -/
theorem lead_bits₃ {k : Nat} (hk : k < 16) : let u := UInt8.ofNat (k + 0xe0)
    ¬ u < 0x80 ∧ u &&& 0xe0 ≠ 0xc0 ∧ u &&& 0xf0 = 0xe0 ∧
      (u &&& 0xf).toUInt32 = UInt32.ofNat k := by
  have h : ∀ k : Fin 16, let u := UInt8.ofNat (k.val + 0xe0)
      ¬ u < 0x80 ∧ u &&& 0xe0 ≠ 0xc0 ∧ u &&& 0xf0 = 0xe0 ∧
        (u &&& 0xf).toUInt32 = UInt32.ofNat k.val := by decide
  exact h ⟨k, hk⟩

/-- The first byte of a sequence of four. -/
theorem lead_bits₄ {k : Nat} (hk : k < 8) : let u := UInt8.ofNat (k + 0xf0)
    ¬ u < 0x80 ∧ u &&& 0xe0 ≠ 0xc0 ∧ u &&& 0xf0 ≠ 0xe0 ∧ u &&& 0xf8 = 0xf0 ∧
      (u &&& 0x07).toUInt32 = UInt32.ofNat k := by
  have h : ∀ k : Fin 8, let u := UInt8.ofNat (k.val + 0xf0)
      ¬ u < 0x80 ∧ u &&& 0xe0 ≠ 0xc0 ∧ u &&& 0xf0 ≠ 0xe0 ∧ u &&& 0xf8 = 0xf0 ∧
        (u &&& 0x07).toUInt32 = UInt32.ofNat k.val := by decide
  exact h ⟨k, hk⟩

/-- A number of up to 11 bits from its parts. -/
theorem join_bits₂ {v : Nat} (h : v < 0x800) :
    UInt32.ofNat (v / 64 % 32) <<< 6 ||| UInt32.ofNat (v % 64) = UInt32.ofNat v := by
  rw [show (6 : UInt32) = UInt32.ofNat 6 from rfl,
    ofNat_shiftLeft_or (by omega) (by omega) (by omega)]
  congr 1
  omega

/-- A number of up to 16 bits from its parts. -/
theorem join_bits₃ {v : Nat} (h : v < 0x10000) :
    UInt32.ofNat (v / 4096 % 16) <<< 12 ||| UInt32.ofNat (v / 64 % 64) <<< 6 |||
      UInt32.ofNat (v % 64) = UInt32.ofNat v := by
  rw [UInt32.or_assoc, show (6 : UInt32) = UInt32.ofNat 6 from rfl,
    show (12 : UInt32) = UInt32.ofNat 12 from rfl,
    ofNat_shiftLeft_or (by omega) (by omega) (by omega),
    ofNat_shiftLeft_or (by omega) (by omega) (by omega)]
  congr 1
  omega

/-- A number of up to 21 bits from its parts. -/
theorem join_bits₄ {v : Nat} (h : v < 0x200000) :
    UInt32.ofNat (v / 262144 % 8) <<< 18 ||| UInt32.ofNat (v / 4096 % 64) <<< 12 |||
      UInt32.ofNat (v / 64 % 64) <<< 6 ||| UInt32.ofNat (v % 64) = UInt32.ofNat v := by
  rw [UInt32.or_assoc, UInt32.or_assoc, show (6 : UInt32) = UInt32.ofNat 6 from rfl,
    show (12 : UInt32) = UInt32.ofNat 12 from rfl, show (18 : UInt32) = UInt32.ofNat 18 from rfl,
    ofNat_shiftLeft_or (by omega) (by omega) (by omega),
    ofNat_shiftLeft_or (by omega) (by omega) (by omega),
    ofNat_shiftLeft_or (by omega) (by omega) (by omega)]
  congr 1
  omega

/-! ## One character -/

theorem char_toNat_lt (c : Char) : c.val.toNat < 0x110000 := by
  have hvalid := c.valid
  simp only [UInt32.isValidChar, Nat.isValidChar] at hvalid
  omega

/-- **Decoding** gives back a character that was encoded, and the length of its sequence. -/
theorem decodeUtf8Char_encode (c : Char) {utf : Nat → Except Fault UInt8}
    (h : ∀ i (hi : i < (String.utf8EncodeChar c).length),
      utf i = .ok (String.utf8EncodeChar c)[i]) :
    decodeUtf8Char utf = .ok ⟨c.val, (String.utf8EncodeChar c).length⟩ := by
  have hval : c.val = UInt32.ofNat c.val.toNat := (UInt32.ofNat_toNat).symm
  have hmax := char_toNat_lt c
  revert h
  fun_cases String.utf8EncodeChar c with
  | case1 v hv =>
    intro h
    have h0 := h 0 (by simp)
    have hlt : UInt8.ofNat v < 0x80 := by
      rw [UInt8.lt_iff_toNat_lt, UInt8.toNat_ofNat']
      show v % 256 < 128
      omega
    have hsame : (UInt8.ofNat v).toUInt32 = UInt32.ofNat v := by
      apply UInt32.toNat_inj.mp
      rw [UInt8.toNat_toUInt32, UInt8.toNat_ofNat', UInt32.toNat_ofNat']
      omega
    simp only [List.getElem_cons_zero] at h0
    simp only [decodeUtf8Char, h0, bind, Except.bind, pure, Except.pure, if_pos hlt, hsame]
    rw [hval]
    rfl
  | case2 v h₁ h₂ =>
    intro h
    obtain ⟨hge, hlead, hbits⟩ := lead_bits₂ (show v / 64 % 32 < 32 by omega)
    have htail := tail_bits (show v % 64 < 64 by omega)
    have h0 := h 0 (by simp)
    have h1 := h 1 (by simp)
    have hjoin := (join_bits₂ (show v < 0x800 by omega)).trans hval.symm
    simp only [List.getElem_cons_zero, List.getElem_cons_succ] at h0 h1
    simp only [decodeUtf8Char, h0, h1, bind, Except.bind, pure, Except.pure, if_neg hge,
      if_pos hlead, hbits, htail, hjoin]
    rfl
  | case3 v h₁ h₂ h₃ =>
    intro h
    obtain ⟨hge, hnot₂, hlead, hbits⟩ := lead_bits₃ (show v / 4096 % 16 < 16 by omega)
    have htail₁ := tail_bits (show v / 64 % 64 < 64 by omega)
    have htail₂ := tail_bits (show v % 64 < 64 by omega)
    have h0 := h 0 (by simp)
    have h1 := h 1 (by simp)
    have h2 := h 2 (by simp)
    have hjoin := (join_bits₃ (show v < 0x10000 by omega)).trans hval.symm
    simp only [List.getElem_cons_zero, List.getElem_cons_succ] at h0 h1 h2
    simp only [decodeUtf8Char, h0, h1, h2, bind, Except.bind, pure, Except.pure, if_neg hge,
      if_neg hnot₂, if_pos hlead, hbits, htail₁, htail₂, hjoin]
    rfl
  | case4 v h₁ h₂ h₃ =>
    intro h
    obtain ⟨hge, hnot₂, hnot₃, hlead, hbits⟩ := lead_bits₄ (show v / 262144 % 8 < 8 by omega)
    have htail₁ := tail_bits (show v / 4096 % 64 < 64 by omega)
    have htail₂ := tail_bits (show v / 64 % 64 < 64 by omega)
    have htail₃ := tail_bits (show v % 64 < 64 by omega)
    have h0 := h 0 (by simp)
    have h1 := h 1 (by simp)
    have h2 := h 2 (by simp)
    have h3 := h 3 (by simp)
    have hjoin := (join_bits₄ (show v < 0x200000 by omega)).trans hval.symm
    simp only [List.getElem_cons_zero, List.getElem_cons_succ] at h0 h1 h2 h3
    simp only [decodeUtf8Char, h0, h1, h2, h3, bind, Except.bind, pure, Except.pure, if_neg hge,
      if_neg hnot₂, if_neg hnot₃, if_pos hlead, hbits, htail₁, htail₂, htail₃, hjoin]
    rfl

/-! ## A content -/

/-- The bytes of a text. -/
def encode (cs : Text) : Bytes := cs.flatMap String.utf8EncodeChar

theorem contentByte_eq {content : Buffer CONTENT_MAX_LEN} {p : Nat} {b : UInt8}
    (h : content.toList[p]? = some b) : Bar.contentByte content p = .ok b := by
  obtain ⟨hp, hb⟩ := List.getElem?_eq_some_iff.mp h
  have hlt : p < CONTENT_MAX_LEN := by simpa using hp
  rw [Bar.contentByte, dif_pos hlt, ← hb]
  rfl

/-- A first byte below 128 is the character. -/
theorem head_encode {c : Char} {b : UInt8} {bs : Bytes} (h : String.utf8EncodeChar c = b :: bs)
    (hb : b < 0x80) : c.val = b.toUInt32 := by
  have hdecode := @decodeUtf8Char_encode c
    (fun i => match (String.utf8EncodeChar c)[i]? with
      | some b => .ok b
      | none => .error .probeLoop)
    (fun i hi => by simp only [List.getElem?_eq_getElem hi])
  simp only [decodeUtf8Char, h, List.getElem?_cons_zero, bind, Except.bind, pure, Except.pure,
    if_pos hb] at hdecode
  exact (congrArg UTF8Result.ucs (Except.ok.inj hdecode)).symm

/-- One character and the rest. -/
theorem codePoints_step {content : Buffer CONTENT_MAX_LEN} {n p : Nat} {u : UInt8} {r : UTF8Result}
    (hu : Bar.contentByte content p = .ok u) (hgo : ¬ (u = 0 ∨ u = 10))
    (hr : decodeUtf8Char (fun j => Bar.contentByte content (p + j)) = .ok r) :
    codePoints content (n + 1) p =
      (codePoints content n (p + r.bytesConsumed)).map fun q => (r.ucs :: q.1, q.2) := by
  rw [codePoints, hu]
  simp only [bind, Except.bind, if_neg hgo, hr]
  cases codePoints content n (p + r.bytesConsumed) <;> rfl

/-- **The characters of a content** are those of the text that it holds from byte `p` on, up to a
NUL or a newline. None of them may be a NUL or a newline itself, and the loop needs more passes
than there are characters, the last one for the end. -/
theorem codePoints_encode {content : Buffer CONTENT_MAX_LEN} {rest : Bytes} {stop : UInt8}
    (hstop : stop = 0 ∨ stop = 10) :
    ∀ {cs : Text} {n p : Nat}, content.toList.drop p = encode cs ++ stop :: rest →
      (∀ c ∈ cs, c.val ≠ 0 ∧ c.val ≠ 10) → cs.length < n →
        codePoints content n p = .ok (cs.map (·.val), true) := by
  intro cs
  induction cs with
  | nil =>
    intro n p hdrop _ hn
    obtain ⟨n, rfl⟩ := Nat.exists_eq_succ_of_ne_zero (Nat.ne_of_gt hn)
    have hbyte : content.toList[p]? = some stop := by
      rw [← Nat.add_zero p, ← List.getElem?_drop, hdrop]
      rfl
    refine bind_eq_ok_iff.mpr ⟨stop, contentByte_eq hbyte, ?_⟩
    rw [if_pos hstop]
    rfl
  | cons c cs ih =>
    intro n p hdrop hcs hn
    obtain ⟨n, rfl⟩ := Nat.exists_eq_succ_of_ne_zero (Nat.ne_of_gt (Nat.zero_lt_of_lt hn))
    have hsplit : encode (c :: cs) = String.utf8EncodeChar c ++ encode cs := List.flatMap_cons
    rw [hsplit, List.append_assoc] at hdrop
    -- the bytes of the first character
    have hbytes : ∀ i (hi : i < (String.utf8EncodeChar c).length),
        Bar.contentByte content (p + i) = .ok (String.utf8EncodeChar c)[i] := by
      intro i hi
      apply contentByte_eq
      rw [← List.getElem?_drop, hdrop, List.getElem?_append_left hi, List.getElem?_eq_getElem hi]
    obtain ⟨hnul, hnewline⟩ := hcs c List.mem_cons_self
    cases henc : String.utf8EncodeChar c with
    | nil => exact absurd henc String.utf8EncodeChar_ne_nil
    | cons u us =>
      have hu := hbytes 0 (by rw [henc]; exact Nat.zero_lt_succ _)
      have hgo : ¬ (u = 0 ∨ u = 10) := by
        rintro (rfl | rfl)
        · exact hnul (head_encode henc (by decide))
        · exact hnewline (head_encode henc (by decide))
      have hrest := ih (n := n) (p := p + (String.utf8EncodeChar c).length)
        (by rw [← List.drop_drop, hdrop, List.drop_left])
        (fun d hd => hcs d (List.mem_cons_of_mem c hd)) (by simpa using hn)
      simp only [henc, List.getElem_cons_zero, Nat.add_zero] at hu
      rw [codePoints_step hu hgo (decodeUtf8Char_encode c hbytes), hrest]
      rfl

end Photonbar
