import Photonbar.NetDev

/-!
# The parser of `/proc/net/dev` on any text (`ping.h`)

Every loop is a function of the text in front of the pointer: `lineOf` is one iteration of the
outer loop, which shortens the text (`lineOf_length`), and `totals` is the whole loop. `parse_at`
says that the parser computes them and stops at the NUL, and `parse_terminates` that it does so in
any buffer without a look behind the first NUL.

The functions on texts are written down once for each loop, and each has a lemma that ends in
`_at`: in front of a text, the loop gives what the function gives, and leaves the pointer in front
of what the function leaves. That these lemmas hold in every memory that has the text is what makes
the second statement a corollary: a memory that refuses all bytes behind the NUL is one of them. A
text may be anything here, broken off or no table at all.
-/

namespace Photonbar

namespace NetDev

open Scan

variable {mem : Mem} {stop n p : Nat} {t : Bytes}

/-! ## Numbers -/

/-- The number that digits form, after `val`. -/
def appendDigits (val : UInt64) (ds : Bytes) : UInt64 :=
  ds.foldl (fun val c => val * 10 + (c - 48).toUInt64) val

/-- The text without what is in front of its first digit. -/
def toDigit (t : Bytes) : Bytes := t.dropWhile fun c => c ≠ 0 && (c < 48 || c > 57)

/-- The first number in a text, and what follows it. -/
def readNumber (t : Bytes) : UInt64 × Bytes :=
  (appendDigits 0 ((toDigit t).takeWhile isdigit), (toDigit t).dropWhile isdigit)

/-- What follows the first `k` numbers. -/
def afterNumbers : Nat → Bytes → Bytes
  | 0, t => t
  | k + 1, t => afterNumbers k (readNumber t).2

theorem readNumber_suffix (t : Bytes) : (readNumber t).2 <:+ t :=
  (List.dropWhile_suffix _).trans (List.dropWhile_suffix _)

theorem afterNumbers_suffix (k : Nat) : ∀ t : Bytes, afterNumbers k t <:+ t := by
  induction k with
  | zero => exact fun t => List.suffix_refl t
  | succ k ih => exact fun t => (ih _).trans (readNumber_suffix t)

theorem digitLoop_at (h : At mem stop t p) : ∀ {n : Nat} (val : UInt64), t.length < n →
    ∃ p', digitLoop mem n val p = .ok (appendDigits val (t.takeWhile isdigit), p') ∧
      At mem stop (t.dropWhile isdigit) p' := by
  induction t generalizing p with
  | nil =>
    intro n val hn
    cases n with
    | zero => cases hn
    | succ n =>
      refine ⟨p, ?_, h⟩
      rw [digitLoop, h.head]
      rfl
  | cons c t ih =>
    intro n val hn
    obtain ⟨-, hc, hrest⟩ := At.cons_iff.mp h
    cases n with
    | zero => cases hn
    | succ n =>
      rw [digitLoop, hc]
      by_cases hdigit : isdigit c = true
      · rw [List.takeWhile_cons_of_pos hdigit, List.dropWhile_cons_of_pos hdigit]
        obtain ⟨p', hloop, hat⟩ := ih hrest (n := n) (val * 10 + (c - 48).toUInt64)
          (by rw [List.length_cons] at hn; omega)
        exact ⟨p', (if_pos hdigit).trans hloop, hat⟩
      · rw [List.takeWhile_cons_of_neg hdigit, List.dropWhile_cons_of_neg hdigit]
        exact ⟨p, if_neg hdigit, h⟩

/-- `fast_atoull` reads the first number. -/
theorem fast_atoull_at (h : At mem stop t p) (hn : t.length < n) :
    ∃ p', fast_atoull mem n p = .ok ((readNumber t).1, p') ∧ At mem stop (readNumber t).2 p' := by
  obtain ⟨p₁, hskip, h₁⟩ := h.skip (fun c => c ≠ 0 && (c < 48 || c > 57)) (by decide) hn
  have hle := (List.dropWhile_suffix (l := t) fun c => c ≠ 0 && (c < 48 || c > 57)).length_le
  obtain ⟨p₂, hloop, h₂⟩ := digitLoop_at h₁ (n := n) 0 (by omega)
  exact ⟨p₂, bind_eq_ok_iff.mpr ⟨p₁, hskip, hloop⟩, h₂⟩

theorem skipColumns_at (k : Nat) : ∀ {t : Bytes} {p : Nat}, At mem stop t p → t.length < n →
    ∃ p', skipColumns mem n k p = .ok p' ∧ At mem stop (afterNumbers k t) p' := by
  induction k with
  | zero => exact fun h _ => ⟨_, rfl, h⟩
  | succ k ih =>
    intro t p h hn
    obtain ⟨p₁, hread, h₁⟩ := fast_atoull_at h hn
    obtain ⟨p₂, hskip, h₂⟩ := ih h₁ (by have := (readNumber_suffix t).length_le; omega)
    exact ⟨p₂, bind_eq_ok_iff.mpr ⟨_, hread, hskip⟩, h₂⟩

/-! ## Lines -/

/-- What follows the current line. -/
def nextLine (t : Bytes) : Bytes := (t.dropWhile fun c => c ≠ 0 && c ≠ 10).drop 1

/-- What follows the first `k` lines. -/
def afterLines : Nat → Bytes → Bytes
  | 0, t => t
  | k + 1, t => afterLines k (nextLine t)

theorem nextLine_suffix (t : Bytes) : nextLine t <:+ t := drop_dropWhile_suffix _ t

theorem afterLines_suffix (k : Nat) : ∀ t : Bytes, afterLines k t <:+ t := by
  induction k with
  | zero => exact fun t => List.suffix_refl t
  | succ k ih => exact fun t => (ih _).trans (nextLine_suffix t)

theorem nextLine_at (h : At mem stop t p) (hn : t.length < n) :
    ∃ p₁ p₂, skip mem (fun c => c ≠ 0 && c ≠ 10) n p = .ok p₁ ∧
      skipOne mem (fun c => c ≠ 0) p₁ = .ok p₂ ∧ At mem stop (nextLine t) p₂ :=
  h.skipPast rfl rfl (fun _ hne _ => decide_eq_true hne) hn

theorem nextLine_cons (c : UInt8) (t : Bytes) (h : c ≠ 0) :
    nextLine (c :: t) = if c = 10 then t else nextLine t := by
  by_cases hc : c = 10
  · rw [nextLine, List.dropWhile_cons_of_neg (by simp [hc]), if_pos hc, List.drop_one, List.tail_cons]
  · rw [nextLine, List.dropWhile_cons_of_pos (by simp [h, hc]), if_neg hc, nextLine]

theorem afterLines_nil (k : Nat) : afterLines k [] = [] :=
  List.suffix_nil.mp (afterLines_suffix k [])

/-- The loop over the headers. -/
theorem skipHeaders_at (h : At mem stop t p) : ∀ {n k : Nat}, t.length < n → k ≤ 2 →
    ∃ p', skipHeaders mem n (2 - k) p = .ok p' ∧ At mem stop (afterLines k t) p' := by
  induction t generalizing p with
  | nil =>
    intro n k hn hk
    obtain ⟨n, rfl⟩ := Nat.exists_eq_succ_of_ne_zero (Nat.ne_zero_of_lt hn)
    refine ⟨p, ?_, (afterLines_nil k).symm ▸ h⟩
    rw [skipHeaders, h.head]
    exact ite_self _
  | cons c t ih =>
    intro n k hn hk
    obtain ⟨n, rfl⟩ := Nat.exists_eq_succ_of_ne_zero (Nat.ne_zero_of_lt hn)
    obtain ⟨hne, hc, hrest⟩ := At.cons_iff.mp h
    have hn : t.length < n := Nat.lt_of_succ_lt_succ hn
    cases k with
    | zero => exact ⟨p, by rw [skipHeaders, if_neg (by omega)], h⟩
    | succ k =>
      rw [skipHeaders, if_pos (by omega), hc]
      show ∃ p', (if c = 0 then _ else _) = _ ∧ _
      rw [if_neg hne, afterLines, nextLine_cons c t hne]
      by_cases hnl : c = 10
      · rw [if_pos hnl, if_pos hnl, show 2 - (k + 1) + 1 = 2 - k by omega]
        exact ih hrest hn (by omega)
      · rw [if_neg hnl, if_neg hnl]
        exact ih (k := k + 1) hrest hn hk

/-- What one iteration of the outer loop makes of a text. -/
structure Line where
  /-- whether the loop goes on -/
  more : Bool
  /-- the text behind the line -/
  rest : Bytes
  sent : UInt64
  recv : UInt64

/-- What follows the name of an interface. -/
def afterName (t : Bytes) : Bytes := (t.dropWhile fun c => c ≠ 0 && c ≠ 58).drop 1

/-- The first column of an interface. -/
def column₁ (t : Bytes) : UInt64 × Bytes := readNumber (afterName t)

/-- The ninth column of an interface. -/
def column₉ (t : Bytes) : UInt64 × Bytes := readNumber (afterNumbers 7 (column₁ t).2)

/-- An iteration, from the name on. -/
def nameLine (t : Bytes) : Line :=
  if t = [] then ⟨false, [], 0, 0⟩
  else if [108, 111, 58].isPrefixOf t then ⟨true, nextLine t, 0, 0⟩
  else ⟨true, nextLine (column₉ t).2, (column₉ t).1, (column₁ t).1⟩

/-- One iteration of the outer loop. -/
def lineOf (t : Bytes) : Line := nameLine (t.dropWhile fun c => c = 32)

theorem afterName_suffix (t : Bytes) : afterName t <:+ t := drop_dropWhile_suffix _ t

theorem column₉_suffix (t : Bytes) : (column₉ t).2 <:+ afterName t :=
  (readNumber_suffix _).trans ((afterNumbers_suffix 7 _).trans (readNumber_suffix _))

theorem nameLine_length (h : t ≠ []) : (nameLine t).rest.length < t.length := by
  rw [nameLine]
  by_cases hlo : [108, 111, 58].isPrefixOf t = true
  · rw [if_neg h, if_pos hlo]
    exact drop_dropWhile_length _ h
  · rw [if_neg h, if_neg hlo]
    dsimp only
    have hle : (nextLine (column₉ t).2).length ≤ (afterName t).length :=
      ((nextLine_suffix (column₉ t).2).trans (column₉_suffix t)).length_le
    exact hle.trans_lt (drop_dropWhile_length _ h)

/-- An iteration shortens the text. -/
theorem lineOf_length (h : t ≠ []) : (lineOf t).rest.length < t.length := by
  have hle := (List.dropWhile_suffix (l := t) fun c => c = 32).length_le
  by_cases hnil : (t.dropWhile fun c => c = 32) = []
  · rw [lineOf, nameLine, if_pos hnil]
    exact List.length_pos_iff.mpr h
  · exact (nameLine_length hnil).trans_le hle

theorem isLoopback_at (h : At mem stop t p) :
    isLoopback mem p = .ok ([108, 111, 58].isPrefixOf t) := by
  cases t with
  | nil => rw [isLoopback, h.head]; rfl
  | cons a t =>
    obtain ⟨-, ha, h₁⟩ := At.cons_iff.mp h
    rw [isLoopback, ha]
    show (if a = 108 then _ else _) = _
    by_cases hl : a = 108
    · rw [if_pos hl]
      subst hl
      cases t with
      | nil => rw [h₁.head]; rfl
      | cons b t =>
        obtain ⟨-, hb, h₂⟩ := At.cons_iff.mp h₁
        rw [hb]
        show (if b = 111 then _ else _) = _
        by_cases ho : b = 111
        · rw [if_pos ho, h₂.head]
          subst ho
          cases t with
          | nil => rfl
          | cons c t =>
            by_cases hcolon : c = 58
            · subst hcolon
              rfl
            · simp [List.isPrefixOf, hcolon, Ne.symm hcolon, pure, Except.pure, bind, Except.bind]
        · simp [List.isPrefixOf, ho, Ne.symm ho, pure, Except.pure]
    · simp [List.isPrefixOf, hl, Ne.symm hl, pure, Except.pure]

theorem afterName_at (h : At mem stop t p) (hn : t.length < n) :
    ∃ p₁ p₂, skip mem (fun c => c ≠ 0 && c ≠ 58) n p = .ok p₁ ∧
      skipOne mem (fun c => c = 58) p₁ = .ok p₂ ∧ At mem stop (afterName t) p₂ :=
  h.skipPast rfl rfl (fun c hne hstop => by simpa [hne] using hstop) hn

theorem column₁_at (h : At mem stop (afterName t) p) (hn : t.length < n) :
    ∃ p', fast_atoull mem n p = .ok ((column₁ t).1, p') ∧ At mem stop (column₁ t).2 p' :=
  fast_atoull_at h ((afterName_suffix t).length_le.trans_lt hn)

theorem column₁_suffix (t : Bytes) : (column₁ t).2 <:+ t :=
  (readNumber_suffix _).trans (afterName_suffix t)

theorem column₉_at (h : At mem stop (column₁ t).2 p) (hn : t.length < n) :
    ∃ p₁ p₂, skipColumns mem n 7 p = .ok p₁ ∧
      fast_atoull mem n p₁ = .ok ((column₉ t).1, p₂) ∧ At mem stop (column₉ t).2 p₂ := by
  have hlen := (column₁_suffix t).length_le.trans_lt hn
  obtain ⟨p₁, hskip, h₁⟩ := skipColumns_at 7 h hlen
  obtain ⟨p₂, hread, h₂⟩ :=
    fast_atoull_at h₁ ((afterNumbers_suffix 7 (column₁ t).2).length_le.trans_lt hlen)
  exact ⟨p₁, p₂, hskip, hread, h₂⟩

/-- **One iteration** of the outer loop is `lineOf`. -/
theorem iteration_at (h : At mem stop t p) (hn : t.length < n) (sent recv : UInt64) :
    ∃ p', iteration mem n ⟨p, sent, recv⟩ =
        .ok ((lineOf t).more, ⟨p', sent + (lineOf t).sent, recv + (lineOf t).recv⟩) ∧
      At mem stop (lineOf t).rest p' := by
  obtain ⟨p₁, hspaces, h₁⟩ := h.skip (fun c => c = 32) (by decide) hn
  rw [lineOf]
  have hlen := (List.dropWhile_suffix (l := t) fun c => c = 32).length_le
  generalize (t.dropWhile fun c => c = 32) = u at h₁ hlen ⊢
  have hu : u.length < n := by omega
  by_cases hnil : u = []
  · subst hnil
    refine ⟨p₁, bind_eq_ok_iff.mpr ⟨p₁, hspaces, bind_eq_ok_iff.mpr ⟨0, h₁.head, ?_⟩⟩, h₁⟩
    rw [if_pos rfl, nameLine, if_pos rfl]
    dsimp only
    rw [UInt64.add_zero, UInt64.add_zero]
    rfl
  · have hne := mt h₁.head_eq_zero_iff.mp hnil
    by_cases hlo : [108, 111, 58].isPrefixOf u = true
    · obtain ⟨p₂, p₃, hskip, hone, h₃⟩ := nextLine_at h₁ hu
      rw [nameLine, if_neg hnil, if_pos hlo]
      dsimp only
      rw [UInt64.add_zero, UInt64.add_zero]
      refine ⟨p₃, bind_eq_ok_iff.mpr ⟨p₁, hspaces, bind_eq_ok_iff.mpr ⟨_, h₁.head, ?_⟩⟩, h₃⟩
      rw [if_neg hne]
      refine bind_eq_ok_iff.mpr ⟨_, isLoopback_at h₁, ?_⟩
      rw [if_pos hlo]
      exact bind_eq_ok_iff.mpr ⟨p₂, hskip, bind_eq_ok_iff.mpr ⟨p₃, hone, rfl⟩⟩
    · obtain ⟨p₂, p₃, hname, hcolon, h₃⟩ := afterName_at h₁ hu
      obtain ⟨p₄, hrecv, h₄⟩ := column₁_at h₃ hu
      obtain ⟨p₅, p₆, hcolumns, hsent, h₆⟩ := column₉_at h₄ hu
      obtain ⟨p₇, p₈, hskip, hone, h₈⟩ := nextLine_at h₆
        (((column₉_suffix u).trans (afterName_suffix u)).length_le.trans_lt hu)
      rw [nameLine, if_neg hnil, if_neg hlo]
      dsimp only
      refine ⟨p₈, bind_eq_ok_iff.mpr ⟨p₁, hspaces, bind_eq_ok_iff.mpr ⟨_, h₁.head, ?_⟩⟩, h₈⟩
      rw [if_neg hne]
      refine bind_eq_ok_iff.mpr ⟨_, isLoopback_at h₁, ?_⟩
      rw [if_neg hlo]
      refine bind_eq_ok_iff.mpr ⟨p₂, hname, bind_eq_ok_iff.mpr ⟨p₃, hcolon, ?_⟩⟩
      refine bind_eq_ok_iff.mpr ⟨_, hrecv, bind_eq_ok_iff.mpr ⟨p₅, hcolumns, ?_⟩⟩
      refine bind_eq_ok_iff.mpr ⟨_, hsent, bind_eq_ok_iff.mpr ⟨p₇, hskip, ?_⟩⟩
      exact bind_eq_ok_iff.mpr ⟨p₈, hone, rfl⟩

/-! ## The whole text -/

/-- The sums that the outer loop ends with, sent and received. -/
def totals (t : Bytes) (sent recv : UInt64) : UInt64 × UInt64 :=
  if t = [] then (sent, recv)
  else totals (lineOf t).rest (sent + (lineOf t).sent) (recv + (lineOf t).recv)
termination_by t.length
decreasing_by exact lineOf_length ‹_›

theorem totals_nil (sent recv : UInt64) : totals [] sent recv = (sent, recv) := by
  rw [totals, if_pos rfl]

theorem totals_of_ne_nil (h : t ≠ []) (sent recv : UInt64) :
    totals t sent recv =
      totals (lineOf t).rest (sent + (lineOf t).sent) (recv + (lineOf t).recv) := by
  rw [totals, if_neg h]

theorem rest_of_not_more (h : (lineOf t).more = false) : (lineOf t).rest = [] := by
  rw [lineOf] at h ⊢
  rw [nameLine] at h ⊢
  split_ifs at h ⊢
  rfl

/-- **The outer loop** adds up the lines, and stops at the NUL. -/
theorem outerLoop_at (k : Nat) : ∀ {t : Bytes} {p : Nat} (sent recv : UInt64), At mem stop t p →
    t.length < n → t.length < k →
    outerLoop mem n k ⟨p, sent, recv⟩ =
      .ok ⟨stop, (totals t sent recv).1, (totals t sent recv).2⟩ := by
  induction k with
  | zero => exact fun _ _ _ _ hk => absurd hk (Nat.not_lt_zero _)
  | succ k ih =>
    intro t p sent recv h hn hk
    by_cases hnil : t = []
    · subst hnil
      obtain rfl := (At.nil_iff.mp h).2
      rw [totals_nil, outerLoop, h.head]
      rfl
    · have hlen := lineOf_length hnil
      obtain ⟨p', hiter, h'⟩ := iteration_at h hn sent recv
      rw [totals_of_ne_nil hnil]
      refine bind_eq_ok_iff.mpr ⟨_, h.head, ?_⟩
      rw [if_neg (mt h.head_eq_zero_iff.mp hnil)]
      refine bind_eq_ok_iff.mpr ⟨_, hiter, ?_⟩
      cases hmore : (lineOf t).more with
      | false =>
        rw [rest_of_not_more hmore] at h' ⊢
        rw [totals_nil, (At.nil_iff.mp h').2]
        rfl
      | true => exact ih _ _ h' (by omega) (by omega)

/-- **The parser** on a text. -/
theorem parse_at (h : At mem stop t 0) (hn : t.length < n) :
    parse mem n = .ok ⟨stop, (totals (afterLines 2 t) 0 0).1, (totals (afterLines 2 t) 0 0).2⟩ := by
  obtain ⟨p, hheaders, hp⟩ := skipHeaders_at h hn (k := 2) le_rfl
  have hlen := (afterLines_suffix 2 t).length_le
  exact bind_eq_ok_iff.mpr ⟨p, hheaders, outerLoop_at n 0 0 hp (by omega) (by omega)⟩

/-! ## Buffers -/

/-- A buffer whose bytes behind `k` may not be read. -/
def upTo (buf : Nat → UInt8) (k : Nat) : Mem := fun i =>
  if i ≤ k then .ok (buf i) else .error (.index i)

/-- A buffer of which every byte may be read. -/
def whole (buf : Nat → UInt8) : Mem := fun i => .ok (buf i)

/-- The text of a buffer from `p` to `k`. -/
def textFrom (buf : Nat → UInt8) (p k : Nat) : Bytes := (List.range' p (k - p)).map buf

section

variable {buf : Nat → UInt8} {k : Nat}

theorem textFrom_length (p k : Nat) : (textFrom buf p k).length = k - p := by
  rw [textFrom, List.length_map, List.length_range']

/-- Every pointer up to the first NUL is in front of a text that ends there. -/
theorem textFrom_at (hnul : buf k = 0) (hfirst : ∀ i < k, buf i ≠ 0) (hp : p ≤ k)
    (hmem : ∀ i ≤ k, mem i = .ok (buf i)) : At mem k (textFrom buf p k) p := by
  have hstop : p + (textFrom buf p k).length = k := by rw [textFrom_length]; omega
  have hat : At mem (p + (textFrom buf p k).length) (textFrom buf p k) p := by
    refine At.of_forall (fun i hi => ?_) (by rw [hstop, hmem k le_rfl, hnul])
    have hi' : p + i < k := by omega
    have hget : (textFrom buf p k)[i] = buf (p + i) := by simp [textFrom]
    rw [hget]
    exact ⟨hfirst _ hi', hmem _ hi'.le⟩
  rwa [hstop] at hat

theorem upTo_of_le {i : Nat} (h : i ≤ k) : upTo buf k i = .ok (buf i) := if_pos h

/-- **The parser ends and reads no byte behind the first NUL**, in any buffer: it succeeds where
these bytes may not be read, and the bytes there make no difference. An iteration of the outer loop
moves the pointer on, and so does not look behind the NUL either; `fast_atoull` ends anywhere. -/
theorem parse_terminates (buf : Nat → UInt8) (k : Nat) (hnul : buf k = 0)
    (hfirst : ∀ i < k, buf i ≠ 0) :
    (∃ s, ∀ n, k < n → parse (upTo buf k) n = .ok s ∧ parse (whole buf) n = .ok s) ∧
      (∀ s n, s.p ≤ k → buf s.p ≠ 0 → k < n →
        ∃ go s', iteration (upTo buf k) n s = .ok (go, s') ∧ s.p < s'.p ∧ s'.p ≤ k) ∧
      (∀ p n, p ≤ k → k < n →
        ∃ val p', fast_atoull (upTo buf k) n p = .ok (val, p') ∧ p ≤ p' ∧ p' ≤ k) := by
  have hupTo {p : Nat} (hp : p ≤ k) : At (upTo buf k) k (textFrom buf p k) p :=
    textFrom_at hnul hfirst hp fun i hi => upTo_of_le hi
  have hlen (p : Nat) {n : Nat} (hn : k < n) : (textFrom buf p k).length < n := by
    rw [textFrom_length]
    omega
  refine ⟨⟨_, fun n hn => ⟨parse_at (hupTo (Nat.zero_le k)) (hlen 0 hn), ?_⟩⟩, ?_, ?_⟩
  · exact parse_at (textFrom_at hnul hfirst (Nat.zero_le k) fun i _ => rfl) (hlen 0 hn)
  · intro s n hp hne hn
    have hnil : textFrom buf s.p k ≠ [] := by
      have hlt : s.p < k := lt_of_le_of_ne hp fun h => hne (h ▸ hnul)
      exact List.ne_nil_of_length_pos (by rw [textFrom_length]; omega)
    obtain ⟨p', hiter, h'⟩ := iteration_at (hupTo hp) (hlen s.p hn) s.sent s.recv
    exact ⟨_, _, hiter, (hupTo hp).lt_of_length h' (lineOf_length hnil)⟩
  · intro p n hp hn
    obtain ⟨p', hread, h'⟩ := fast_atoull_at (hupTo hp) (hlen p hn)
    have hle := (readNumber_suffix (textFrom buf p k)).length_le
    have := (hupTo hp).stop
    have := h'.stop
    exact ⟨_, p', hread, by omega, by omega⟩

/-- A text that breaks off in a name. -/
def brokenOff : Nat → UInt8
  | 0 => 108
  | 1 => 111
  | _ => 0

theorem parse_terminates_brokenOff :
    (∃ s, ∀ n, 2 < n → parse (upTo brokenOff 2) n = .ok s ∧ parse (whole brokenOff) n = .ok s) ∧
      (∀ s n, s.p ≤ 2 → brokenOff s.p ≠ 0 → 2 < n →
        ∃ go s', iteration (upTo brokenOff 2) n s = .ok (go, s') ∧ s.p < s'.p ∧ s'.p ≤ 2) ∧
      (∀ p n, p ≤ 2 → 2 < n →
        ∃ val p', fast_atoull (upTo brokenOff 2) n p = .ok (val, p') ∧ p ≤ p' ∧ p' ≤ 2) :=
  parse_terminates brokenOff 2 rfl (by decide)

end

/-! ## The function -/

/-- The text in a buffer. -/
def textOf (bytes : Bytes) : Bytes := bytes.takeWhile fun c => c ≠ 0

theorem stored_append {t rest : Bytes} (ht : ∀ c ∈ t, c ≠ 0) (hrest : rest.head?.getD 0 = 0) :
    At (stored (t ++ rest)) t.length t 0 := by
  have hat : At (stored (t ++ rest)) (0 + t.length) t 0 := by
    refine At.of_forall (fun i hi => ⟨ht _ (List.getElem_mem hi), ?_⟩) ?_
    · rw [Nat.zero_add, stored, dif_pos (by rw [List.length_append]; omega),
        List.getElem_append_left hi]
    · cases rest with
      | nil => simp [stored]
      | cons c rest => simpa [stored] using hrest
  rwa [Nat.zero_add] at hat

theorem stored_at (bytes : Bytes) :
    At (stored bytes) (textOf bytes).length (textOf bytes) 0 := by
  have hrest : (bytes.dropWhile fun c => c ≠ 0).head?.getD 0 = 0 := by
    have hstop := List.head?_dropWhile_not (fun c : UInt8 => c ≠ 0) bytes
    cases h : (bytes.dropWhile fun c => c ≠ 0).head? with
    | none => rfl
    | some c =>
      rw [h] at hstop
      exact of_not_not (of_decide_eq_false hstop)
  have hne : ∀ c ∈ textOf bytes, c ≠ 0 := fun c hc =>
    of_decide_eq_true (List.mem_takeWhile_imp (p := fun c : UInt8 => decide (c ≠ 0)) hc)
  have hat := stored_append hne hrest
  rwa [textOf, List.takeWhile_append_dropWhile] at hat

/-- What comes of reading, for what comes of the calls. -/
def io (netDevFd : Int) (calls : Calls) : NetIo :=
  if netDevFd < 0 then .unread
  else if calls.seek < 0 then .unread
  else
    match calls.read.map (List.take (BUF_SIZE - 1)) with
    | none => .unread
    | some [] => .unread
    | some bytes =>
      let (sent, recv) := totals (afterLines 2 (textOf bytes)) 0 0
      .counters sent recv

/-- **The function** fails never: its parameters stay as they are, or are the sums over the
lines. -/
theorem getNetworkIo_eq (netDevFd : Int) (calls : Calls) (sent recv : UInt64) :
    getNetworkIo netDevFd calls sent recv =
      .ok (Photonbar.getNetworkIo (io netDevFd calls) sent recv) := by
  rw [getNetworkIo, io]
  by_cases hfd : netDevFd < 0
  · rw [if_pos hfd, if_pos hfd]
    rfl
  by_cases hseek : calls.seek < 0
  · rw [if_neg hfd, if_pos hseek, if_neg hfd, if_pos hseek]
    rfl
  rw [if_neg hfd, if_neg hseek, if_neg hfd, if_neg hseek]
  have hlen : ∀ bytes ∈ calls.read.map (List.take (BUF_SIZE - 1)), bytes.length < BUF_SIZE := by
    intro bytes hbytes
    obtain ⟨all, -, rfl⟩ := Option.mem_map.mp hbytes
    have := List.length_take_le (BUF_SIZE - 1) all
    have hsize : BUF_SIZE = 4096 := rfl
    omega
  match hread : calls.read.map (List.take (BUF_SIZE - 1)) with
  | none => rfl
  | some [] => rfl
  | some (c :: bytes) =>
    have hle : (textOf (c :: bytes)).length ≤ (c :: bytes).length :=
      (List.takeWhile_prefix _).length_le
    have := hlen (c :: bytes) hread
    exact bind_eq_ok_iff.mpr ⟨_, parse_at (stored_at (c :: bytes)) (by omega), rfl⟩

end NetDev

end Photonbar
