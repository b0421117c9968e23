import Photonbar.BarRuns

/-!
# How far parsing reads (`bar.h`)

`decodeUtf8Char` takes as many bytes as the first one announces, whatever they are. A content with
its first NUL or newline at `k` is parsed without a look behind `k` if and only if no character
before `k` announces more bytes than there are before `k` (`staysBefore_iff`). `Whole` says this of
bytes, one after another, with the number of bytes that are still owed.

`scan` is the loop without its fonts and widths: the characters it decodes, and where it ends. It
is given a reader, so that one can be taken that refuses every byte behind `k` (`guarded`). While
the characters are whole, every reader of the bytes gives the same scan, up to the stop
(`scan_of_whole`), and the loop with its fonts reads nothing else (`parseLoopWith_reads`); with the
content itself for a reader it is the loop of the code (`parseLoopWith_contentByte`). Conversely a
scan that ends at `k` has come there character by character (`whole_of_scan`).
-/

namespace Photonbar

variable {H : Type}

/-! ## One character -/

/-- The number of bytes that a first byte announces. -/
def seqLen (u : UInt8) : Nat :=
  if u < 0x80 then 1
  else if u &&& 0xe0 = 0xc0 then 2
  else if u &&& 0xf0 = 0xe0 then 3
  else if u &&& 0xf8 = 0xf0 then 4
  else 1

theorem seqLen_pos (u : UInt8) : 0 < seqLen u := by
  rw [seqLen]
  repeat' split
  all_goals decide

variable {rd rd' : Nat → Except Fault UInt8} {u : UInt8}

/-- What is decoded depends on the announced bytes only. -/
theorem decodeUtf8Char_congr (hu : rd 0 = .ok u) (h : ∀ j < seqLen u, rd j = rd' j) :
    decodeUtf8Char rd = decodeUtf8Char rd' := by
  have hu' : rd' 0 = .ok u := by rw [← h 0 (seqLen_pos u), hu]
  simp only [decodeUtf8Char, hu, hu', bind, Except.bind]
  rw [seqLen] at h
  split at h
  · simp [*]
  · next h₁ =>
    rw [if_neg h₁, if_neg h₁]
    split at h
    · next h₂ => rw [if_pos h₂, if_pos h₂, h 1 (by decide)]
    · next h₂ =>
      rw [if_neg h₂, if_neg h₂]
      split at h
      · next h₃ => rw [if_pos h₃, if_pos h₃, h 1 (by decide), h 2 (by decide)]
      · next h₃ =>
        rw [if_neg h₃, if_neg h₃]
        split at h
        · next h₄ => rw [if_pos h₄, if_pos h₄, h 1 (by decide), h 2 (by decide), h 3 (by decide)]
        · next h₄ => rw [if_neg h₄, if_neg h₄]

/-- Decoding succeeds if the announced bytes can be read, and consumes them. -/
theorem decodeUtf8Char_ok (hu : rd 0 = .ok u) (h : ∀ j < seqLen u, ∃ v, rd j = .ok v) :
    ∃ ucs, decodeUtf8Char rd = .ok ⟨ucs, seqLen u⟩ := by
  rw [seqLen] at h
  simp only [decodeUtf8Char, seqLen, hu, bind, Except.bind, pure, Except.pure]
  by_cases h₁ : u < 0x80
  · simp only [if_pos h₁]
    exact ⟨_, rfl⟩
  · simp only [if_neg h₁] at h ⊢
    by_cases h₂ : u &&& 0xe0 = 0xc0
    · simp only [if_pos h₂] at h ⊢
      obtain ⟨v₁, hv₁⟩ := h 1 (by decide)
      simp only [hv₁]
      exact ⟨_, rfl⟩
    · simp only [if_neg h₂] at h ⊢
      by_cases h₃ : u &&& 0xf0 = 0xe0
      · simp only [if_pos h₃] at h ⊢
        obtain ⟨v₁, hv₁⟩ := h 1 (by decide)
        obtain ⟨v₂, hv₂⟩ := h 2 (by decide)
        simp only [hv₁, hv₂]
        exact ⟨_, rfl⟩
      · simp only [if_neg h₃] at h ⊢
        by_cases h₄ : u &&& 0xf8 = 0xf0
        · simp only [if_pos h₄] at h ⊢
          obtain ⟨v₁, hv₁⟩ := h 1 (by decide)
          obtain ⟨v₂, hv₂⟩ := h 2 (by decide)
          obtain ⟨v₃, hv₃⟩ := h 3 (by decide)
          simp only [hv₁, hv₂, hv₃]
          exact ⟨_, rfl⟩
        · simp only [if_neg h₄]
          exact ⟨_, rfl⟩

/-- What is consumed was announced. -/
theorem decodeUtf8Char_consumed {result : UTF8Result} (hu : rd 0 = .ok u)
    (h : decodeUtf8Char rd = .ok result) : result.bytesConsumed = seqLen u := by
  obtain ⟨u', hu', h⟩ := bind_eq_ok_iff.mp h
  obtain rfl := Except.ok.inj (hu'.symm.trans hu)
  rw [seqLen]
  by_cases h₁ : u' < 0x80
  · rw [if_pos h₁] at h ⊢
    rw [← Except.ok.inj h]
  · rw [if_neg h₁] at h ⊢
    by_cases h₂ : u' &&& 0xe0 = 0xc0
    · rw [if_pos h₂] at h ⊢
      obtain ⟨_, -, h⟩ := bind_eq_ok_iff.mp h
      rw [← Except.ok.inj h]
    · rw [if_neg h₂] at h ⊢
      by_cases h₃ : u' &&& 0xf0 = 0xe0
      · rw [if_pos h₃] at h ⊢
        obtain ⟨_, -, h⟩ := bind_eq_ok_iff.mp h
        obtain ⟨_, -, h⟩ := bind_eq_ok_iff.mp h
        rw [← Except.ok.inj h]
      · rw [if_neg h₃] at h ⊢
        by_cases h₄ : u' &&& 0xf8 = 0xf0
        · rw [if_pos h₄] at h ⊢
          obtain ⟨_, -, h⟩ := bind_eq_ok_iff.mp h
          obtain ⟨_, -, h⟩ := bind_eq_ok_iff.mp h
          obtain ⟨_, -, h⟩ := bind_eq_ok_iff.mp h
          rw [← Except.ok.inj h]
        · rw [if_neg h₄] at h ⊢
          rw [← Except.ok.inj h]

/-! ## The characters of a content, and where they end -/

/-- The characters that the loop of `parseElementContent` decodes from byte `p` on, at most `n`,
and the byte that ends it, where the bytes are read by `rd`. -/
def scan (rd : Nat → Except Fault UInt8) : Nat → Nat → Except Fault (List UInt32 × Option Nat)
  | 0, _ => .ok ([], none)
  | n + 1, p => do
    let u ← rd p
    if u = 0 ∨ u = 10 then
      return ([], some p)
    else
      let result ← decodeUtf8Char fun j => rd (p + j)
      let (cs, stop) ← scan rd n (p + result.bytesConsumed)
      return (result.ucs :: cs, stop)

/-- They are the `codePoints`. -/
theorem codePoints_eq_scan (content : Buffer CONTENT_MAX_LEN) : ∀ n p,
    codePoints content n p =
      (scan (Bar.contentByte content) n p).map fun r => (r.1, r.2.isSome) := by
  intro n
  induction n with
  | zero => exact fun _ => rfl
  | succ n ih =>
    intro p
    rw [codePoints, scan]
    cases Bar.contentByte content p with
    | error f => rfl
    | ok u =>
      simp only [bind, Except.bind]
      by_cases hstop : u = 0 ∨ u = 10
      · simp only [if_pos hstop]
        rfl
      · simp only [if_neg hstop]
        cases decodeUtf8Char fun j => Bar.contentByte content (p + j) with
        | error f => rfl
        | ok result =>
          simp only [ih]
          cases scan (Bar.contentByte content) n (p + result.bytesConsumed) <;> rfl

/-- Byte `k` is the first NUL or newline. -/
structure FirstStop (content : Buffer CONTENT_MAX_LEN) (k : Nat) : Prop where
  stop : ∃ u, content.toList[k]? = some u ∧ (u = 0 ∨ u = 10)
  first : ∀ i < k, ∃ u, content.toList[i]? = some u ∧ ¬ (u = 0 ∨ u = 10)

/-- Of the bytes, `owed` more belong to the character before them, and no character announces more
bytes than there are. -/
def Whole : Nat → Bytes → Prop
  | 0, [] => True
  | _ + 1, [] => False
  | 0, u :: us => Whole (seqLen u - 1) us
  | owed + 1, _ :: us => Whole owed us

instance decidableWhole : ∀ (owed : Nat) (us : Bytes), Decidable (Whole owed us)
  | 0, [] => .isTrue trivial
  | _ + 1, [] => .isFalse id
  | 0, u :: us => decidableWhole (seqLen u - 1) us
  | owed + 1, _ :: us => decidableWhole owed us

theorem whole_iff_drop : ∀ (owed : Nat) (us : Bytes),
    Whole owed us ↔ owed ≤ us.length ∧ Whole 0 (us.drop owed) := by
  intro owed us
  induction us generalizing owed with
  | nil => cases owed <;> simp [Whole]
  | cons u us ih =>
    cases owed with
    | zero => simp
    | succ owed =>
      rw [Whole, ih owed]
      simp

/-- The reader gives these bytes, none of which is a NUL or a newline, and then one of the two. -/
structure Delivers (rd : Nat → Except Fault UInt8) (bytes : Bytes) : Prop where
  byte : ∀ i (hi : i < bytes.length), rd i = .ok bytes[i] ∧ ¬ (bytes[i] = 0 ∨ bytes[i] = 10)
  stop : ∃ u, rd bytes.length = .ok u ∧ (u = 0 ∨ u = 10)

section

variable {bytes : Bytes} {n p : Nat}

/-- At the end of the bytes the loop stops. -/
theorem scan_stop (h : Delivers rd bytes) :
    scan rd (n + 1) bytes.length = .ok ([], some bytes.length) := by
  obtain ⟨u, hu, hstop⟩ := h.stop
  refine bind_eq_ok_iff.mpr ⟨u, hu, ?_⟩
  rw [if_pos hstop]
  rfl

/-- A character that is there as a whole. -/
theorem scan_step (h : Delivers rd bytes) (hp : p < bytes.length)
    (hlen : p + seqLen bytes[p] ≤ bytes.length) :
    ∃ ucs, (∀ rd', Delivers rd' bytes →
        decodeUtf8Char (fun j => rd' (p + j)) = .ok ⟨ucs, seqLen bytes[p]⟩) ∧
      ∀ rd', Delivers rd' bytes → scan rd' (n + 1) p =
        (scan rd' n (p + seqLen bytes[p])).map fun r => (ucs :: r.1, r.2) := by
  have hread : ∀ rd', Delivers rd' bytes → ∀ j < seqLen bytes[p], rd' (p + j) = rd (p + j) := by
    intro rd' h' j hj
    rw [(h.byte (p + j) (by omega)).1, (h'.byte (p + j) (by omega)).1]
  obtain ⟨ucs, hucs⟩ := @decodeUtf8Char_ok (fun j => rd (p + j)) _ (h.byte p hp).1
    fun j hj => ⟨_, (h.byte (p + j) (by omega)).1⟩
  have hdecode : ∀ rd', Delivers rd' bytes →
      decodeUtf8Char (fun j => rd' (p + j)) = .ok ⟨ucs, seqLen bytes[p]⟩ := by
    intro rd' h'
    exact (decodeUtf8Char_congr (h'.byte p hp).1 (hread rd' h')).trans hucs
  refine ⟨ucs, hdecode, fun rd' h' => ?_⟩
  obtain ⟨hbyte, hgo⟩ := h'.byte p hp
  simp only [scan, hbyte, bind, Except.bind, if_neg hgo, hdecode rd' h']
  cases scan rd' n (p + seqLen bytes[p]) <;> rfl

/-- The bytes from a character on are whole if it is there and the rest is whole. -/
theorem whole_drop_iff (hp : p < bytes.length) : Whole 0 (bytes.drop p) ↔
    p + seqLen bytes[p] ≤ bytes.length ∧ Whole 0 (bytes.drop (p + seqLen bytes[p])) := by
  have hpos := seqLen_pos bytes[p]
  rw [List.drop_eq_getElem_cons hp, Whole, whole_iff_drop, List.drop_drop, List.length_drop,
    show p + 1 + (seqLen bytes[p] - 1) = p + seqLen bytes[p] by omega]
  constructor <;> rintro ⟨h, hrest⟩ <;> exact ⟨by omega, hrest⟩

/-- **Whole characters** are scanned up to the stop, the same way by every reader of the bytes. -/
theorem scan_of_whole (h : Delivers rd bytes) : ∀ (n p : Nat), p ≤ bytes.length →
    Whole 0 (bytes.drop p) → bytes.length - p < n →
      ∃ cs : List UInt32, cs.length ≤ bytes.length - p ∧
        ∀ rd', Delivers rd' bytes → scan rd' n p = .ok (cs, some bytes.length) := by
  intro n
  induction n with
  | zero => intro p _ _ hn; omega
  | succ n ih =>
    intro p hp hwhole hn
    rcases Nat.lt_or_eq_of_le hp with hlt | rfl
    · obtain ⟨hlen, hrest⟩ := (whole_drop_iff hlt).mp hwhole
      have hpos := seqLen_pos bytes[p]
      obtain ⟨ucs, -, hstep⟩ := scan_step (n := n) h hlt hlen
      obtain ⟨cs, hcs, hscan⟩ := ih _ hlen hrest (by omega)
      refine ⟨ucs :: cs, by rw [List.length_cons]; omega, fun rd' h' => ?_⟩
      rw [hstep rd' h', hscan rd' h']
      rfl
    · exact ⟨[], Nat.zero_le _, fun rd' h' => scan_stop h'⟩

/-- The stop is not before the start. -/
theorem le_of_scan : ∀ (n p : Nat) {cs : List UInt32} {s : Nat},
    scan rd n p = .ok (cs, some s) → p ≤ s := by
  intro n
  induction n with
  | zero => intro p cs s h; cases h
  | succ n ih =>
    intro p cs s h
    obtain ⟨u, hu, h⟩ := bind_eq_ok_iff.mp h
    by_cases hstop : u = 0 ∨ u = 10
    · rw [if_pos hstop] at h
      obtain ⟨-, hs⟩ := Prod.mk.inj (Except.ok.inj h)
      exact (Option.some.inj hs).le
    · rw [if_neg hstop] at h
      obtain ⟨result, -, h⟩ := bind_eq_ok_iff.mp h
      obtain ⟨⟨cs', stop⟩, hrest, h⟩ := bind_eq_ok_iff.mp h
      obtain ⟨-, rfl⟩ := Prod.mk.inj (Except.ok.inj h)
      exact (Nat.le_add_right _ _).trans (ih _ hrest)

/-- A character that announces more than there is takes the stop with it. -/
theorem whole_of_scan (h : Delivers rd bytes) : ∀ (n p : Nat) {cs : List UInt32},
    p ≤ bytes.length → scan rd n p = .ok (cs, some bytes.length) → Whole 0 (bytes.drop p) := by
  intro n
  induction n with
  | zero => intro p cs _ hscan; cases hscan
  | succ n ih =>
    intro p cs hp hscan
    rcases Nat.lt_or_eq_of_le hp with hlt | rfl
    · obtain ⟨hbyte, hgo⟩ := h.byte p hlt
      obtain ⟨u, hu, hscan⟩ := bind_eq_ok_iff.mp hscan
      obtain rfl := Except.ok.inj (hbyte.symm.trans hu)
      rw [if_neg hgo] at hscan
      obtain ⟨result, hresult, hscan⟩ := bind_eq_ok_iff.mp hscan
      obtain ⟨⟨cs', stop⟩, hrest, hscan⟩ := bind_eq_ok_iff.mp hscan
      obtain ⟨-, rfl⟩ := Prod.mk.inj (Except.ok.inj hscan)
      have hconsumed : result.bytesConsumed = seqLen bytes[p] :=
        decodeUtf8Char_consumed hbyte hresult
      rw [hconsumed] at hrest
      have hlen := le_of_scan n _ hrest
      exact (whole_drop_iff hlt).mpr ⟨hlen, ih _ hlen hrest⟩
    · rw [List.drop_length]
      trivial

end

/-! ## The loop with its fonts -/

namespace Bar

/-- `parseLoop`, where the bytes of the content are read by `rd`. -/
def parseLoopWith (rd : Nat → Except Fault UInt8) (b : Bar) (e : BarElement H) :
    Nat → Nat → Nat → Int → Except Fault (Bar × BarElement H × Int)
  | 0, _, _, total => .ok (b, e, total)
  | n + 1, i, p, total => do
    let u ← rd p
    if u = 0 ∨ u = 10 then
      return (b, { e with ucsContent := e.ucsContent.setIfInBounds i 0, ucsContentLen := i }, total)
    else
      let result ← decodeUtf8Char fun j => rd (p + j)
      let (b, curFont) := b.selectDrawableFont result.ucs
      let ucs := if curFont.isNone then questionMark else result.ucs
      let (b, w) ← b.getUtf8CharWidth ucs curFont
      let char_width := UInt8.ofInt w
      parseLoopWith rd b
        { e with
          ucsContent := e.ucsContent.setIfInBounds i ucs
          ucsContentCharWidths := e.ucsContentCharWidths.setIfInBounds i char_width }
        n (i + 1) (p + result.bytesConsumed) (total + char_width.toNat)

theorem parseLoopWith_contentByte {content : Buffer CONTENT_MAX_LEN} : ∀ (n : Nat) (b : Bar)
    (e : BarElement H) (i p : Nat) (total : Int), e.content = content →
      b.parseLoopWith (contentByte content) e n i p total = b.parseLoop e n i p total := by
  intro n
  induction n with
  | zero => exact fun _ _ _ _ _ _ => rfl
  | succ n ih =>
    rintro b e i p total rfl
    rw [parseLoopWith, parseLoop]
    refine bind_congr fun u => ?_
    split
    · rfl
    · refine bind_congr fun result => ?_
      refine bind_congr ?_
      rintro ⟨b', w⟩
      exact ih b' _ _ _ _ rfl

/-- No error is about the content. -/
theorem getUtf8CharWidth_reads_nothing (b : Bar) (c : UInt32) (font : Option Font) :
    FailsOnly (fun f => ∀ i, f ≠ .contentIndex i) (b.getUtf8CharWidth c font) := by
  unfold getUtf8CharWidth
  split
  · exact .ok _
  · split
    · exact xftCharWidth_fails (.inl nofun) (.inl nofun) (.inl nofun)
    · split
      · split <;> exact .ok _
      · exact .ok _

/-- **No other byte is read** while the characters are whole. -/
theorem parseLoopWith_reads {rd : Nat → Except Fault UInt8} {bytes : Bytes}
    (h : Delivers rd bytes) : ∀ (n : Nat) (b : Bar) (e : BarElement H) (i p : Nat) (total : Int),
      p ≤ bytes.length → Whole 0 (bytes.drop p) →
        FailsOnly (fun f => ∀ i, f ≠ .contentIndex i) (b.parseLoopWith rd e n i p total) := by
  intro n
  induction n with
  | zero => exact fun _ _ _ _ _ _ _ => .ok _
  | succ n ih =>
    intro b e i p total hp hwhole
    rw [parseLoopWith]
    rcases Nat.lt_or_eq_of_le hp with hlt | rfl
    · obtain ⟨hlen, hrest⟩ := (whole_drop_iff hlt).mp hwhole
      obtain ⟨hbyte, hgo⟩ := h.byte p hlt
      obtain ⟨ucs, hdecode, -⟩ := scan_step (n := n) h hlt hlen
      rw [hbyte]
      simp only [bind, Except.bind, if_neg hgo, hdecode rd h]
      refine FailsOnly.bind (getUtf8CharWidth_reads_nothing _ _ _) fun r _ => ?_
      exact ih r.1 _ _ _ _ hlen hrest
    · obtain ⟨u, hu, hstop⟩ := h.stop
      rw [hu]
      simp only [bind, Except.bind, if_pos hstop]
      exact .ok _

end Bar

/-! ## The exact rule -/

/-- The bytes of a content, of which none behind `k` may be read. -/
def guarded (content : Buffer CONTENT_MAX_LEN) (k i : Nat) : Except Fault UInt8 :=
  if i ≤ k then Bar.contentByte content i else .error (.contentIndex i)

/-- Parsing the content ends at its first NUL or newline, byte `k`: it looks at no byte behind it,
stops there, counts at most `k` characters, and decodes what any content does that is the same
before `k` and stops there. -/
structure StaysBefore (H : Type) (content : Buffer CONTENT_MAX_LEN) (k : Nat) : Prop where
  reads : ∀ (b : Bar) (e : BarElement H), e.content = content →
    FailsOnly (fun f => ∀ i, f ≠ .contentIndex i)
      (b.parseLoopWith (guarded content k) e CONTENT_MAX_LEN 0 0 0)
  stops : ∃ cs, scan (Bar.contentByte content) CONTENT_MAX_LEN 0 = .ok (cs, some k)
  len : ∀ (b b' : Bar) (e e' : BarElement H), Bar.Reachable H b → e.content = content →
    e.dirtyContent = true → b.parseElementContent e = .ok (b', e') → e'.ucsContentLen ≤ k
  depends : ∀ content', FirstStop content' k → content'.toList.take k = content.toList.take k →
    scan (Bar.contentByte content') CONTENT_MAX_LEN 0 =
      scan (Bar.contentByte content) CONTENT_MAX_LEN 0

section

variable {content : Buffer CONTENT_MAX_LEN} {k : Nat}

theorem FirstStop.lt (h : FirstStop content k) : k < CONTENT_MAX_LEN := by
  obtain ⟨u, hu, -⟩ := h.stop
  simpa using (List.getElem?_eq_some_iff.mp hu).1

theorem FirstStop.length_take (h : FirstStop content k) : (content.toList.take k).length = k := by
  have hlt := h.lt
  rw [List.length_take, Vector.length_toList]
  omega

/-- The bytes before the stop, by every reader that agrees with the content up to it. -/
theorem FirstStop.delivers (h : FirstStop content k) {rd : Nat → Except Fault UInt8}
    (hrd : ∀ i ≤ k, rd i = Bar.contentByte content i) :
    Delivers rd (content.toList.take k) := by
  have hbyte : ∀ {i u}, i ≤ k → content.toList[i]? = some u → rd i = .ok u := by
    intro i u hi hu
    obtain ⟨hlen, hget⟩ := List.getElem?_eq_some_iff.mp hu
    have hlt : i < CONTENT_MAX_LEN := by simpa using hlen
    rw [hrd i hi, Bar.contentByte, dif_pos hlt, ← hget]
    rfl
  refine ⟨?_, ?_⟩
  · intro i hi
    have hik : i < k := by rwa [h.length_take] at hi
    obtain ⟨u, hu, hgo⟩ := h.first i hik
    have hget : (content.toList.take k)[i] = u := by
      have := (List.getElem?_eq_some_iff.mp hu).2
      rw [List.getElem_take, this]
    rw [hget]
    exact ⟨hbyte hik.le hu, hgo⟩
  · obtain ⟨u, hu, hstop⟩ := h.stop
    rw [h.length_take]
    exact ⟨u, hbyte (le_refl k) hu, hstop⟩

/-- **Parsing stays before the stop** if and only if the characters before it are whole: none of
them announces more bytes than there are. Staying means four things: no byte behind the stop is
read, the loop ends at it, no more characters are counted than there are bytes before it, and what
follows it makes no difference. -/
theorem staysBefore_iff (h : FirstStop content k) :
    StaysBefore H content k ↔ Whole 0 (content.toList.take k) := by
  have hcontent := h.delivers fun i _ => rfl
  refine ⟨?_, ?_⟩
  · intro hstays
    obtain ⟨cs, hscan⟩ := hstays.stops
    rw [← h.length_take] at hscan
    exact whole_of_scan hcontent CONTENT_MAX_LEN 0 (Nat.zero_le _) hscan
  · intro hwhole
    have hlt := h.lt
    obtain ⟨cs, hlen, hscan⟩ := scan_of_whole hcontent CONTENT_MAX_LEN 0 (Nat.zero_le _) hwhole
      (by rw [h.length_take]; omega)
    rw [h.length_take, Nat.sub_zero] at hlen
    have hmine := hscan _ hcontent
    rw [h.length_take] at hmine
    refine ⟨?_, ⟨cs, hmine⟩, ?_, ?_⟩
    · intro b e he
      have hguarded : Delivers (guarded content k) (content.toList.take k) :=
        h.delivers fun i hi => if_pos hi
      exact Bar.parseLoopWith_reads hguarded _ b e 0 0 0 (Nat.zero_le _) hwhole
    · rintro b b' e e' hb rfl hdirty hparse
      rw [Bar.parseElementContent, hdirty] at hparse
      obtain ⟨⟨b₁, e₁, total⟩, hloop, hparse⟩ := bind_eq_ok_iff.mp hparse
      obtain ⟨-, rfl⟩ := Prod.mk.inj (Except.ok.inj hparse)
      obtain ⟨us, stopped, hus, -, -, -, hparsed, -, -⟩ :=
        Bar.parseLoop_ok (Nat.zero_add CONTENT_MAX_LEN).le hb.kept.coherent hloop
      rw [codePoints_eq_scan, hmine] at hus
      obtain ⟨rfl, rfl⟩ := Prod.mk.inj (Except.ok.inj hus)
      show e₁.ucsContentLen ≤ k
      rw [hparsed.len]
      simpa using hlen
    · intro content' h' hsame
      have hother := h'.delivers fun i _ => rfl
      rw [hsame] at hother
      rw [hscan _ hother, hscan _ hcontent]

end

/-- The content `"é"`, cut behind its first byte, in front of what is left of a longer one. -/
def cutContent : Buffer CONTENT_MAX_LEN := ((Vector.replicate _ 0).set 0 0xC3).set 2 0x41

set_option maxRecDepth 20000 in
/-- The NUL is taken for the second byte of the character, and what is behind it is shown. -/
theorem parse_cut_content :
    FirstStop cutContent 1 ∧ ¬ StaysBefore Empty cutContent 1 ∧
      ∃ b' e', (asciiBar 8 100).parseElementContent
          { (BarElement.new : BarElement Empty) with content := cutContent, dirtyContent := true } =
          .ok (b', e') ∧ e'.ucsContentLen = 2 ∧ e'.ucsContent.toList[1]? = some 0x41 := by
  refine ⟨⟨⟨0, rfl, .inl rfl⟩, ?_⟩, fun h => ?_, _, _, rfl, rfl, rfl⟩
  · intro i hi
    obtain rfl : i = 0 := by omega
    exact ⟨0xC3, rfl, by decide⟩
  · obtain ⟨cs, hscan⟩ := h.stops
    have hbehind : scan (Bar.contentByte cutContent) CONTENT_MAX_LEN 0 = .ok ([0xC0, 0x41], some 3) :=
      rfl
    rw [hbehind] at hscan
    cases hscan

/-- The content `"é"` as a whole. -/
theorem parse_whole_content :
    StaysBefore Empty (((Vector.replicate _ 0).set 0 0xC3).set 1 0xA9) 2 := by
  have hstop : FirstStop (((Vector.replicate _ 0).set 0 0xC3).set 1 0xA9) 2 := by
    refine ⟨⟨0, rfl, .inl rfl⟩, fun i hi => ?_⟩
    rcases (by omega : i = 0 ∨ i = 1) with rfl | rfl
    · exact ⟨0xC3, rfl, by decide⟩
    · exact ⟨0xA9, rfl, by decide⟩
  exact (staysBefore_iff hstop).mpr (by decide)

end Photonbar
