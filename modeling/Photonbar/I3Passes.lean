import Photonbar.I3ParseEnds

/-!
# Two passes over a message (`i3ipc.h`)

The first pass of the parser, without memory, computes the allocations; the second one writes into
them. Nothing ties the two together but that they take the same way through the tokens.
`ParsePasses` says that they do: where the first pass succeeds, the second one succeeds, makes the
same allocations in the same order, and writes only into what it was given and what it has
allocated, up to the sizes that the first pass has noted (`parseHelper_passes`).

A state of the second pass belongs to the state of the first one at the same point (`Second`): the
same tokens are left, and the allocations so far are those that were noted. `Follows` is about a
stretch of both passes, and composes (`Follows.trans`), so that a case of the parser is put
together from its steps. `forLoop_passes` is the rule for the loops; there the size of an array is
known only behind the loop of the first pass, and the second one allocates what that has noted.
-/

namespace Photonbar

namespace I3ipc

/-! ## States of the two passes -/

/-- A state of the first pass. -/
structure First (p : ParseState) : Prop where
  memory : p.memory = false
  size : p.allocs_size = p.allocs.length
  aligned : ∀ a ∈ p.allocs, 0 < a.alignment

/-- A state of the second pass at the point where the first pass was in `p`. -/
structure Second (p q : ParseState) : Prop where
  memory : q.memory = true
  toks : q.toks = p.toks
  size : q.allocs_size = p.allocs_size
  copy : q.copy_strings = p.copy_strings

/-- The first pass has come from `p` to `p'`. -/
structure Grows (p p' : ParseState) : Prop where
  first : First p'
  allocs : p.allocs <+: p'.allocs
  copy : p'.copy_strings = p.copy_strings

/-- A write into what the first pass has allocated between `p` and `p'`. -/
def InNew (p p' : ParseState) (w : Write) : Prop :=
  p.allocs.length ≤ w.ptr.block ∧
    ∃ a, p'.allocs[w.ptr.block]? = some a ∧ w.ptr.offset + w.size ≤ a.size

/-- The second pass has come from `q` to `q'` while the first one came from `p` to `p'`. Its writes
are allowed ones, or go into new memory. -/
structure Follows (Own : Write → Prop) (p p' q q' : ParseState) : Prop where
  second : Second p' q'
  allocs : q'.allocs = q.allocs
  heap : ∃ ws, q'.heap = q.heap ++ ws ∧ ∀ w ∈ ws, Own w ∨ InNew p p' w

variable {Own O : Write → Prop} {p p' p'' q q' q'' : ParseState}

theorem Grows.refl (h : First p) : Grows p p := ⟨h, List.prefix_refl _, rfl⟩

theorem Grows.trans (h : Grows p p') (h' : Grows p' p'') : Grows p p'' :=
  ⟨h'.first, h.allocs.trans h'.allocs, h'.copy.trans h.copy⟩

theorem InNew.grow {w : Write} (h : InNew p p' w) (h' : Grows p' p'') : InNew p p'' w := by
  obtain ⟨hblock, a, ha, hle⟩ := h
  refine ⟨hblock, a, ?_, hle⟩
  obtain ⟨new, hnew⟩ := h'.allocs
  rw [← hnew, List.getElem?_append_left (List.getElem?_eq_some_iff.mp ha).1]
  exact ha

theorem InNew.of_grown {w : Write} (h : InNew p' p'' w) (h' : Grows p p') : InNew p p'' w :=
  ⟨h'.allocs.length_le.trans h.1, h.2⟩

theorem Follows.refl (h : Second p q) : Follows Own p p q q :=
  ⟨h, rfl, [], (List.append_nil _).symm, by simp⟩

theorem Follows.mono (h : Follows Own p p' q q') (hOwn : ∀ w, Own w → O w) :
    Follows O p p' q q' := by
  obtain ⟨ws, hheap, hws⟩ := h.heap
  exact ⟨h.second, h.allocs, ws, hheap, fun w hw => (hws w hw).imp_left (hOwn w)⟩

/-- Writes into new memory need not be allowed. -/
theorem Follows.absorb (h : Follows Own p p' q q')
    (hOwn : ∀ w, Own w → O w ∨ InNew p p' w) : Follows O p p' q q' := by
  obtain ⟨ws, hheap, hws⟩ := h.heap
  exact ⟨h.second, h.allocs, ws, hheap, fun w hw => (hws w hw).elim (hOwn w) .inr⟩

theorem Follows.trans (h : Follows Own p p' q q') (h' : Follows Own p' p'' q' q'')
    (hp : Grows p p') (hp' : Grows p' p'') : Follows Own p p'' q q'' := by
  obtain ⟨ws, hheap, hws⟩ := h.heap
  obtain ⟨ws', hheap', hws'⟩ := h'.heap
  refine ⟨h'.second, h'.allocs.trans h.allocs, ws ++ ws', ?_, ?_⟩
  · rw [hheap', hheap, List.append_assoc]
  · intro w hw
    rcases List.mem_append.mp hw with hw | hw
    · exact (hws w hw).imp_right fun hnew => hnew.grow hp'
    · exact (hws' w hw).imp_right fun hnew => hnew.of_grown hp

/-- One more write. -/
theorem Follows.write (h : Follows Own p p' q q') {b : Ptr} {offset size : Nat} {cell : Cell}
    (hw' : Own ⟨b.add offset, size, cell⟩ ∨ InNew p p' ⟨b.add offset, size, cell⟩) :
    Follows Own p p' q (q'.store (some b) offset size cell) := by
  obtain ⟨ws, hheap, hws⟩ := h.heap
  refine ⟨⟨h.second.memory, h.second.toks, h.second.size, h.second.copy⟩, h.allocs,
    ws ++ [⟨b.add offset, size, cell⟩], ?_, ?_⟩
  · rw [ParseState.store, hheap, List.append_assoc]
  · intro w hw
    rcases List.mem_append.mp hw with hw | hw
    · exact hws w hw
    · rw [List.mem_singleton.mp hw]
      exact hw'

/-- A write that is allowed. -/
theorem Follows.store (h : Follows Own p p' q q') {b : Ptr} {offset size : Nat} {cell : Cell}
    (hOwn : Own ⟨b.add offset, size, cell⟩) :
    Follows Own p p' q (q'.store (some b) offset size cell) :=
  h.write (.inl hOwn)

/-- The notes for the derived fields are not compared. -/
theorem Follows.notes (h : Follows Own p p' q q') (n₁ n₂ : Nat) (e₁ e₂ : Option Bytes)
    (s₁ s₂ : Bool) :
    Follows Own p { p' with next_size := n₁, next_enum := e₁, next_set := s₁ } q
      { q' with next_size := n₂, next_enum := e₂, next_set := s₂ } :=
  ⟨⟨h.second.memory, h.second.toks, h.second.size, h.second.copy⟩, h.allocs, h.heap⟩

theorem Grows.notes (h : Grows p p') (n : Nat) (e : Option Bytes) (s : Bool) :
    Grows p { p' with next_size := n, next_enum := e, next_set := s } :=
  ⟨⟨h.first.memory, h.first.size, h.first.aligned⟩, h.allocs, h.copy⟩

/-- Other tokens on both sides. -/
theorem Grows.toks (h : Grows p p') (toks : Tokens) : Grows p { p' with toks } :=
  ⟨⟨h.first.memory, h.first.size, h.first.aligned⟩, h.allocs, h.copy⟩

theorem Second.toks_eq (h : Second p q) (toks : Tokens) :
    Second { p with toks } { q with toks } :=
  ⟨h.memory, rfl, h.size, h.copy⟩

theorem Second.follows_toks (h : Second p q) (toks : Tokens) :
    Follows Own p { p with toks } q { q with toks } :=
  ⟨h.toks_eq toks, rfl, [], (List.append_nil _).symm, by simp⟩

/-! ## Allocations -/

/-- An allocation of the first pass, and the pointer to it that the second one gets. -/
theorem parseAlloc_passes {base : Option Ptr} {size alignment : Nat} (hp : First p)
    (halign : 0 < alignment) (h : parseAlloc p size alignment = .ok (base, p')) :
    base = none ∧ p' = { p with allocs := p.allocs ++ [⟨size, alignment⟩],
                                allocs_size := p.allocs_size + 1 } ∧ Grows p p' ∧
      ∀ q, Second p q → p'.allocs_size ≤ q.allocs.length → ∀ size' alignment',
        ∃ q', parseAlloc q size' alignment' = .ok (some ⟨p.allocs.length, 0⟩, q') ∧
          q'.heap = q.heap ∧ Follows (fun _ => False) p p' q q' := by
  rw [parseAlloc, if_neg (by rw [hp.memory]; decide)] at h
  cases h
  refine ⟨rfl, rfl, ⟨⟨hp.memory, ?_, ?_⟩, List.prefix_append _ _, rfl⟩, ?_⟩
  · rw [List.length_append, hp.size]
    rfl
  · intro a ha
    rcases List.mem_append.mp ha with ha | ha
    · exact hp.aligned a ha
    · rw [List.mem_singleton.mp ha]
      exact halign
  · intro q hq hlen size' alignment'
    refine ⟨{ q with allocs_size := q.allocs_size + 1 }, ?_, rfl,
      ⟨hq.memory, hq.toks, by rw [hq.size], hq.copy⟩, rfl, [], (List.append_nil _).symm, by simp⟩
    rw [parseAlloc, if_pos hq.memory, if_pos (by rw [hq.size]; exact hlen), hq.size, hp.size]

theorem Grows.size_le (h : Grows p p') (hp : First p) : p.allocs_size ≤ p'.allocs_size := by
  rw [hp.size, h.first.size]
  exact h.allocs.length_le

/-! ## Two passes of one computation -/

/-- `f₁` is what the first pass does and `f₂` what the second one does in its place. -/
def Passes (f₁ f₂ : ParseState → Except ParseStop ParseState) (Own : Write → Prop) : Prop :=
  ∀ p p', First p → f₁ p = .ok p' → Grows p p' ∧
    ∀ q, Second p q → p'.allocs_size ≤ q.allocs.length →
      ∃ q', f₂ q = .ok q' ∧ Follows Own p p' q q'

theorem Passes.mono {f₁ f₂ : ParseState → Except ParseStop ParseState} (h : Passes f₁ f₂ Own)
    (hOwn : ∀ w, Own w → O w) : Passes f₁ f₂ O := by
  intro p p' hp hrun
  obtain ⟨hgrows, hsecond⟩ := h p p' hp hrun
  refine ⟨hgrows, fun q hq hlen => ?_⟩
  obtain ⟨q', hrun', hfollows⟩ := hsecond q hq hlen
  exact ⟨q', hrun', hfollows.mono hOwn⟩

/-- A loop whose guard looks at the tokens. What its body may write can depend on how often it has
run. -/
theorem forLoop_passes {κ : Type} {next : Nat → Tokens → Except ParseStop (Option κ × Tokens)}
    {body₁ body₂ : Nat → κ → ParseState → Except ParseStop ParseState} (Own : Nat → Write → Prop)
    (hmono : ∀ i j, i ≤ j → ∀ w, Own i w → Own j w)
    (hbody : ∀ i k, Passes (body₁ i k) (body₂ i k) (Own (i + 1))) :
    ∀ n i j p p', First p →
      forLoop .fuel (fun i => onTokens (next i)) body₁ n i p = .ok (j, p') →
      i ≤ j ∧ Grows p p' ∧ ∀ q, Second p q → p'.allocs_size ≤ q.allocs.length →
        ∃ q', forLoop .fuel (fun i => onTokens (next i)) body₂ n i q = .ok (j, q') ∧
          Follows (Own j) p p' q q' := by
  intro n
  induction n with
  | zero =>
    intro i j p p' _ h
    cases h
  | succ n ih =>
    intro i j p p' hp h
    rw [forLoop] at h
    cases hnext : next i p.toks with
    | error e =>
      rw [onTokens, hnext] at h
      cases h
    | ok r =>
      obtain ⟨k, toks⟩ := r
      have hguard (q : ParseState) (hq : Second p q) :
          onTokens (next i) q = .ok (k, { q with toks }) := by
        rw [onTokens, hq.toks, hnext]
        rfl
      have hguard₁ : onTokens (next i) p = .ok (k, { p with toks }) := by
        rw [onTokens, hnext]
        rfl
      rw [hguard₁] at h
      cases k with
      | none =>
        cases h
        refine ⟨le_rfl, (Grows.refl hp).toks toks, fun q hq _ => ?_⟩
        exact ⟨{ q with toks }, by rw [forLoop, hguard q hq], hq.follows_toks toks⟩
      | some k =>
        dsimp only at h
        cases hrun : body₁ i k { p with toks } with
        | error e =>
          rw [hrun] at h
          cases h
        | ok p₁ =>
          rw [hrun] at h
          have hp₀ : Grows p { p with toks } := (Grows.refl hp).toks toks
          obtain ⟨hgrows, hsecond⟩ := hbody i k _ p₁ hp₀.first hrun
          obtain ⟨hij, hgrows', hsecond'⟩ := ih (i + 1) j p₁ p' hgrows.first h
          refine ⟨(Nat.le_succ i).trans hij, (hp₀.trans hgrows).trans hgrows', fun q hq hlen => ?_⟩
          obtain ⟨q₁, hq₁, hfollows⟩ := hsecond { q with toks } (hq.toks_eq toks)
            ((hgrows'.size_le hgrows.first).trans hlen)
          obtain ⟨q', hq', hfollows'⟩ := hsecond' q₁ hfollows.second
            (by rw [hfollows.allocs]; exact hlen)
          refine ⟨q', by rw [forLoop, hguard q hq]; dsimp only; rw [hq₁]; exact hq', ?_⟩
          have hall := (hfollows.mono (hmono _ _ hij)).trans hfollows' hgrows hgrows'
          exact ⟨hall.second, hall.allocs, hall.heap⟩

/-! ## Tokens and derived fields -/

/-- A write of `n` bytes from `b` on. -/
def Inside (b : Ptr) (n : Nat) (w : Write) : Prop :=
  w.ptr.block = b.block ∧ b.offset ≤ w.ptr.offset ∧ w.ptr.offset + w.size ≤ b.offset + n

theorem Inside.store (b : Ptr) {offset size n : Nat} (cell : Cell) (h : offset + size ≤ n) :
    Inside b n ⟨b.add offset, size, cell⟩ :=
  ⟨rfl, Nat.le_add_right _ _, by simp only [Ptr.add]; omega⟩

theorem Inside.add {b : Ptr} {offset m n : Nat} {w : Write} (h : Inside (b.add offset) m w)
    (hn : offset + m ≤ n) : Inside b n w := by
  obtain ⟨hblock, hle, hlt⟩ := h
  simp only [Ptr.add] at hblock hle hlt
  exact ⟨hblock, by omega, by omega⟩

/-- The derived fields of a field are inside its type. -/
theorem Follows.doderived {type_id : TypeId} {b : Ptr} (field : Nat)
    (h : Follows (Inside b (typeGet type_id).size) p p' q q') :
    Follows (Inside b (typeGet type_id).size) p p' q
      (parseDoderived q' (typeGet type_id) field (some b)) := by
  rw [parseDoderived.eq_def]
  cases (typeGet type_id).fields[field]? with
  | none => exact h
  | some f0 =>
    dsimp only
    have hfs : ∀ f ∈ ((typeGet type_id).fields.drop (field + 1)).takeWhile (·.flags.derived),
        f.Fits (typeGet type_id).size ∧ f.flags.derived = true := by
      intro f hf
      refine ⟨fields_fit type_id f ?_, List.mem_takeWhile_imp (p := fun f : Field => f.flags.derived) hf⟩
      exact List.mem_of_mem_drop ((List.takeWhile_sublist _).subset hf)
    generalize ((typeGet type_id).fields.drop (field + 1)).takeWhile (·.flags.derived) = fs at hfs
    induction fs generalizing q' with
    | nil => exact h
    | cons f fs ih =>
      obtain ⟨hfit, hderived⟩ := hfs f List.mem_cons_self
      refine ih ?_ fun f hf => hfs f (List.mem_cons_of_mem _ hf)
      have hinside := hfit.inside
      obtain ⟨hptr, harray⟩ := hfit.stored hderived
      rw [extent, hptr, harray] at hinside
      rw [doderivedField]
      split
      next hsize =>
        rw [hfit.size_int hsize] at hinside
        exact h.store (Inside.store b _ hinside)
      next hsize =>
        split
        next hflag =>
          rw [hfit.flag_bool hflag] at hinside
          exact h.store (Inside.store b _ hinside)
        next hflag =>
          split
          · exact h
          · have henum : f.flags.ISENUM = true := by
              rw [TypeFlags.derived] at hderived
              simpa [hsize, hflag] using hderived
            rw [hfit.enum_int henum] at hinside
            exact h.store (Inside.store b _ hinside)

/-! ## The cases of the parser -/

/-- **Two passes**: what is proved of the parser, for everything that it is called for. -/
def ParsePasses
    (parse : TypeId → TypeFlags → Option Ptr → ParseState → Except ParseStop ParseState) : Prop :=
  ∀ type_id type_flags, Expected type_id type_flags → ∀ b,
    Passes (parse type_id type_flags none) (parse type_id type_flags (some b))
      (Inside b (extent type_id type_flags))

theorem jsonMatch_second {type : JsonType} {r : JsonToken Bytes × Tokens} (hq : Second p q)
    (h : jsonMatch type p.toks = .ok r) : jsonMatch type q.toks = .ok r := by
  rw [hq.toks, h]

/-- The copy of a string goes into its own allocation. -/
theorem copyString_passes {str : Bytes} {cell : Cell} (hp : First p)
    (h : copyString str none p = .ok (cell, p')) :
    Grows p p' ∧ ∀ b q, Second p q → p'.allocs_size ≤ q.allocs.length →
      ∃ cell' q', copyString str (some b) q = .ok (cell', q') ∧ Follows Own p p' q q' := by
  rw [copyString] at h
  split at h
  next hcopy =>
    obtain ⟨⟨str_base, p₁⟩, halloc, h⟩ := bind_eq_ok_iff.mp h
    cases h
    obtain ⟨-, rfl, hgrows, hsecond⟩ := parseAlloc_passes hp Nat.one_pos halloc
    refine ⟨hgrows, fun b q hq hlen => ?_⟩
    obtain ⟨q₁, hq₁, -, hfollows⟩ := hsecond q hq hlen (str.length + 1) 1
    refine ⟨.ptr (some ⟨p.allocs.length, 0⟩), q₁.store (some ⟨p.allocs.length, 0⟩) 0
      (str.length + 1) (.chars (str ++ [0])), ?_, ?_⟩
    · rw [copyString, if_pos (hq.copy.trans hcopy), hq₁]
      rfl
    · refine (hfollows.mono fun _ h => h.elim).write (.inr ⟨le_rfl, ⟨str.length + 1, 1⟩, ?_, ?_⟩)
      · exact List.getElem?_concat_length
      · exact (Nat.zero_add _).le
  next hcopy =>
    cases h
    refine ⟨.refl hp, fun b q hq _ => ⟨.payload str, q, ?_, .refl hq⟩⟩
    rw [copyString, if_neg (by rw [hq.copy]; exact hcopy)]
    rfl

theorem parseString_passes {type_id : TypeId} {type_flags : TypeFlags} (b : Ptr)
    (hstring : isStringType type_id type_flags = true) :
    Passes (parseString type_id none) (parseString type_id (some b))
      (Inside b (extent type_id type_flags)) := by
  intro p p' hp h
  obtain ⟨⟨tok, toks⟩, htok, h⟩ := bind_eq_ok_iff.mp h
  have htype := (jsonMatch_ok htok).2
  cases tok with
  | string str =>
    obtain ⟨⟨cell, p₁⟩, hcopy, h⟩ := bind_eq_ok_iff.mp h
    cases h
    have hp₀ := (Grows.refl hp).toks toks
    obtain ⟨hgrows, hsecond⟩ := copyString_passes hp₀.first hcopy
    refine ⟨(hp₀.trans hgrows).notes _ _ _, fun q hq hlen => ?_⟩
    obtain ⟨cell', q₁, hq₁, hfollows⟩ := hsecond b { q with toks } (hq.toks_eq toks) hlen
    refine ⟨storeString type_id str cell' (some b) q₁, ?_, ?_⟩
    · refine bind_eq_ok_iff.mpr ⟨(.string str, toks), jsonMatch_second hq htok, ?_⟩
      exact bind_eq_ok_iff.mpr ⟨(cell', q₁), hq₁, rfl⟩
    · have hall : Follows (Inside b (extent type_id type_flags)) p p₁ q q₁ :=
        (hq.follows_toks toks).trans hfollows hp₀ hgrows
      rw [storeString, storeString, if_pos rfl, if_neg (by simp)]
      rw [isStringType, Bool.or_eq_true, Bool.and_eq_true, Bool.and_eq_true] at hstring
      rcases hstring with ⟨hid, hflags⟩ | ⟨hid, harray⟩
      · -- an `I3ipc_string`: the pointer and the size
        rw [if_pos (of_decide_eq_true hid)]
        have hextent : extent type_id type_flags = 16 := by
          rw [of_decide_eq_true hid, of_decide_eq_true hflags]
          decide
        rw [hextent] at hall ⊢
        exact ((hall.store (Inside.store b _ (by decide))).store
          (Inside.store b _ (by decide))).notes _ _ _ _ _ _
      · have hid' : type_id ≠ .STRING := by
          rw [of_decide_eq_true hid]
          decide
        have hextent : extent type_id type_flags = 8 := by
          rw [extent, harray, Bool.or_true, if_pos rfl]
        rw [if_neg hid']
        rw [hextent] at hall ⊢
        exact (hall.store (Inside.store b _ (by decide))).notes _ _ _ _ _ _
  | _ => cases htype

/-- A token of the right type is stored with the size of the primitive type. -/
theorem primitiveCell_size {type_id : TypeId} {tok : JsonToken Bytes} (hchar : type_id ≠ .CHAR)
    (hprimitive : (typeGet type_id).is_primitive = true)
    (htok : tok.type = if type_id = .BOOL then .BOOL else .NUMBER) :
    ∃ cell, primitiveCell type_id tok = some ((typeGet type_id).size, cell) := by
  cases type_id
  case CHAR => exact absurd rfl hchar
  case BOOL =>
    cases tok with
    | bool flag => exact ⟨_, rfl⟩
    | _ => cases htok
  case INT =>
    cases tok with
    | number c n => exact ⟨_, rfl⟩
    | _ => cases htok
  case FLOAT =>
    cases tok with
    | number c n => exact ⟨_, rfl⟩
    | _ => cases htok
  case SIZET =>
    cases tok with
    | number c n => exact ⟨_, rfl⟩
    | _ => cases htok
  all_goals exact absurd hprimitive (by decide)

theorem parsePrimitive_passes {type_id : TypeId} (b : Ptr) (hchar : type_id ≠ .CHAR)
    (hprimitive : (typeGet type_id).is_primitive = true) :
    Passes (parsePrimitive type_id none) (parsePrimitive type_id (some b))
      (Inside b (typeGet type_id).size) := by
  intro p p' hp h
  obtain ⟨⟨tok, toks⟩, htok, h⟩ := bind_eq_ok_iff.mp h
  cases h
  refine ⟨((Grows.refl hp).toks toks).notes _ _ _, fun q hq _ => ?_⟩
  obtain ⟨cell, hcell⟩ := primitiveCell_size hchar hprimitive
    (jsonMatch_ok htok).2
  refine ⟨(ParseState.store { q with toks } (some b) 0 (typeGet type_id).size cell).finish true none,
    ?_, ?_⟩
  · refine bind_eq_ok_iff.mpr ⟨(tok, toks), jsonMatch_second hq htok, ?_⟩
    simp only [reduceCtorEq, if_false, hcell]
    rfl
  · exact ((hq.follows_toks toks).store (Inside.store b cell (Nat.zero_add _).le)).notes _ _ _ _ _ _

section Cases

variable {parse : TypeId → TypeFlags → Option Ptr → ParseState → Except ParseStop ParseState}
  {type_id : TypeId} {type_flags : TypeFlags} {n : Nat}

theorem Expected.withoutMaybe (h : Expected type_id type_flags) :
    Expected type_id type_flags.withoutMaybe :=
  ⟨h.1, fun hptr => absurd hptr (by simp [TypeFlags.withoutMaybe])⟩

/-- Of what a pointer points to, all is new. -/
theorem parseMaybe_passes (h : ParsePasses parse) (hexp : Expected type_id type_flags) (b : Ptr) :
    Passes (parseMaybe parse type_id type_flags none) (parseMaybe parse type_id type_flags (some b))
      (Inside b (extent type_id type_flags)) := by
  intro p p' hp hrun
  obtain ⟨r, hnull, hrun⟩ := bind_eq_ok_iff.mp hrun
  have hnull' (q : ParseState) (hq : Second p q) : jsonTrymatch .NULL q.toks = .ok r := by
    rw [hq.toks, hnull]
  cases r with
  | some toks =>
    cases hrun
    refine ⟨((Grows.refl hp).toks toks).notes _ _ _, fun q hq _ => ?_⟩
    exact ⟨_, bind_eq_ok_iff.mpr ⟨some toks, hnull' q hq, rfl⟩,
      (hq.follows_toks toks).notes _ _ _ _ _ _⟩
  | none =>
    obtain ⟨⟨ptr_base, p₁⟩, hpointee, hrun⟩ := bind_eq_ok_iff.mp hrun
    obtain ⟨p₂, hparse, hrun⟩ := bind_eq_ok_iff.mp hrun
    cases hrun
    by_cases hptr : type_flags.ISPTR = true
    · rw [pointee, if_pos hptr] at hpointee
      obtain ⟨⟨ptr_base', p₁'⟩, halloc, hpointee⟩ := bind_eq_ok_iff.mp hpointee
      cases hpointee
      obtain ⟨rfl, hp₁, hgrows, hsecond⟩ := parseAlloc_passes hp (alignment_pos _) halloc
      obtain ⟨hgrows', hsecond'⟩ :=
        h type_id _ hexp.withoutMaybe ⟨p.allocs.length, 0⟩ p₁' p₂ hgrows.first hparse
      refine ⟨(hgrows.trans hgrows').notes _ _ _, fun q hq hlen => ?_⟩
      obtain ⟨q₁, hq₁, -, hfollows⟩ := hsecond q hq ((hgrows'.size_le hgrows.first).trans hlen)
        (typeGet type_id).size (typeGet type_id).alignment
      have hextent : extent type_id type_flags = 8 := by
        rw [extent, hptr, Bool.true_or, if_pos rfl]
      have hstore := (hfollows.mono (O := Inside b 8) fun _ h => h.elim).store
        (Inside.store b (.ptr (some ⟨p.allocs.length, 0⟩)) (show 0 + 8 ≤ 8 by decide))
      obtain ⟨q₂, hq₂, hfollows'⟩ := hsecond' _ hstore.second (by rw [hstore.allocs]; exact hlen)
      refine ⟨q₂.finish true q₂.next_enum, ?_, ?_⟩
      · refine bind_eq_ok_iff.mpr ⟨none, hnull' q hq, ?_⟩
        refine bind_eq_ok_iff.mpr ⟨(some ⟨p.allocs.length, 0⟩, q₁.store (some b) 0 8
          (.ptr (some ⟨p.allocs.length, 0⟩))), ?_, bind_eq_ok_iff.mpr ⟨q₂, hq₂, rfl⟩⟩
        rw [pointee, if_pos hptr, hq₁]
        rfl
      · rw [hextent]
        have hall := Follows.trans
          (hstore.mono (O := fun w => Inside b 8 w ∨ Inside ⟨p.allocs.length, 0⟩
            (extent type_id type_flags.withoutMaybe) w) fun _ => .inl)
          (hfollows'.mono fun _ => .inr) hgrows hgrows'
        refine (hall.absorb ?_).notes _ _ _ _ _ _
        rintro w (hw | ⟨hblock, -, hle⟩)
        · exact .inl hw
        · refine .inr ⟨hblock.ge, ⟨(typeGet type_id).size, (typeGet type_id).alignment⟩, ?_, ?_⟩
          · obtain ⟨new, hnew⟩ := hgrows'.allocs
            rw [hblock, ← hnew, hp₁, List.getElem?_append_left (by simp)]
            exact List.getElem?_concat_length
          · have hsize : extent type_id type_flags.withoutMaybe = (typeGet type_id).size := by
              rw [extent, if_neg]
              simp [TypeFlags.withoutMaybe, hexp.2 hptr]
            rw [hsize] at hle
            simpa using hle
    · rw [pointee, if_neg hptr] at hpointee
      cases hpointee
      obtain ⟨hgrows, hsecond⟩ := h type_id _ hexp.withoutMaybe b p p₂ hp hparse
      refine ⟨hgrows.notes _ _ _, fun q hq hlen => ?_⟩
      obtain ⟨q₂, hq₂, hfollows⟩ := hsecond q hq hlen
      refine ⟨q₂.finish true q₂.next_enum, ?_, ?_⟩
      · refine bind_eq_ok_iff.mpr ⟨none, hnull' q hq, ?_⟩
        refine bind_eq_ok_iff.mpr ⟨(some b, q), ?_, bind_eq_ok_iff.mpr ⟨q₂, hq₂, rfl⟩⟩
        rw [pointee, if_neg hptr]
        rfl
      · have hextent : extent type_id type_flags = extent type_id type_flags.withoutMaybe := by
          rw [extent, extent, Bool.eq_false_iff.mpr hptr]
          rfl
        rw [hextent]
        exact hfollows.notes _ _ _ _ _ _

theorem modify_length_append (as bs : List Alloc) (a : Alloc) (f : Alloc → Alloc) :
    (as ++ a :: bs).modify as.length f = as ++ f a :: bs := by
  induction as with
  | nil => rfl
  | cons a' as ih =>
    rw [List.cons_append, List.length_cons, List.modify_succ_cons, ih]
    rfl

/-- The elements of an array lie side by side in one allocation, whose size is noted when all of them
have been parsed. -/
theorem parseArray_passes (h : ParsePasses parse) (hchar : type_id ≠ .CHAR) (b : Ptr) :
    Passes (parseArray parse n type_id none) (parseArray parse n type_id (some b))
      (Inside b 8) := by
  intro p p' hp hrun
  obtain ⟨⟨arr_base, p₁⟩, halloc, hrun⟩ := bind_eq_ok_iff.mp hrun
  obtain ⟨⟨i, p₂⟩, hloop, hrun⟩ := bind_eq_ok_iff.mp hrun
  cases hrun
  obtain ⟨rfl, hp₁, hgrows, hsecond⟩ := parseAlloc_passes hp (alignment_pos _) halloc
  have hbody (i : Nat) (k : Unit) :
      Passes (parse type_id {} (elementBase none none (i * (typeGet type_id).size)))
        (parse type_id {} (elementBase (some b) (some ⟨p.allocs.length, 0⟩)
          (i * (typeGet type_id).size)))
        (fun w => w.ptr.block = p.allocs.length ∧
          w.ptr.offset + w.size ≤ (i + 1) * (typeGet type_id).size) := by
    have hexp : Expected type_id {} := ⟨fun h => absurd h hchar, nofun⟩
    refine (h type_id {} hexp ⟨p.allocs.length, 0 + i * (typeGet type_id).size⟩).mono ?_
    rintro w ⟨hblock, -, hle⟩
    refine ⟨hblock, hle.trans ?_⟩
    rw [show extent type_id {} = (typeGet type_id).size from rfl, Nat.zero_add, Nat.succ_mul]
  obtain ⟨-, hgrows', hsecond'⟩ := forLoop_passes
    (fun i w => w.ptr.block = p.allocs.length ∧
      w.ptr.offset + w.size ≤ i * (typeGet type_id).size)
    (fun i j hij w hw => ⟨hw.1, hw.2.trans (Nat.mul_le_mul_right _ hij)⟩) hbody
    n 0 i p₁ p₂ hgrows.first hloop
  -- the first pass has noted the size of the array in the place of the unknown one
  obtain ⟨new, hnew⟩ := hgrows'.allocs
  have hallocs : p₂.allocs.modify p.allocs_size (fun a => { a with size := i * (typeGet type_id).size }) =
      p.allocs ++ ⟨i * (typeGet type_id).size, (typeGet type_id).alignment⟩ :: new := by
    rw [← hnew, hp₁, hp.size, List.append_assoc]
    exact modify_length_append _ _ _ _
  have hlength : p₂.allocs.length = (p.allocs ++
      ⟨i * (typeGet type_id).size, (typeGet type_id).alignment⟩ :: new).length := by
    rw [← hallocs, List.length_modify]
  refine ⟨⟨⟨hgrows'.first.memory, ?_, ?_⟩, ?_, hgrows'.copy.trans hgrows.copy⟩, fun q hq hlen => ?_⟩
  · show p₂.allocs_size = (p₂.allocs.modify p.allocs_size _).length
    rw [List.length_modify, hgrows'.first.size]
  · show ∀ a ∈ p₂.allocs.modify p.allocs_size _, 0 < a.alignment
    rw [hallocs]
    intro a ha
    rcases List.mem_append.mp ha with ha | ha
    · exact hp.aligned a ha
    · rcases List.mem_cons.mp ha with rfl | ha
      · exact alignment_pos type_id
      · exact hgrows'.first.aligned a (hnew ▸ List.mem_append_right _ ha)
  · show p.allocs <+: p₂.allocs.modify p.allocs_size _
    rw [hallocs]
    exact List.prefix_append _ _
  · have hlen : p₂.allocs_size ≤ q.allocs.length := hlen
    obtain ⟨q₁, hq₁, hheap, hfollows⟩ := hsecond q hq ((hgrows'.size_le hgrows.first).trans hlen)
      (2 ^ 64 - 1) (typeGet type_id).alignment
    have hstore := (hfollows.mono (O := Inside b 8) fun _ h => h.elim).store
      (Inside.store b (.ptr (some ⟨p.allocs.length, 0⟩)) (show 0 + 8 ≤ 8 by decide))
    obtain ⟨q₂, hq₂, hfollows'⟩ := hsecond' _ hstore.second (by rw [hstore.allocs]; exact hlen)
    refine ⟨{ q₂ with next_size := i }.finish true none, ?_, ?_⟩
    · refine bind_eq_ok_iff.mpr ⟨(some ⟨p.allocs.length, 0⟩, q₁), hq₁, ?_⟩
      exact bind_eq_ok_iff.mpr ⟨(i, q₂), hq₂, rfl⟩
    · obtain ⟨ws', hheap', hws'⟩ := hfollows'.heap
      refine ⟨⟨hfollows'.second.memory, hfollows'.second.toks, hfollows'.second.size,
        hfollows'.second.copy⟩, hfollows'.allocs.trans hstore.allocs,
        ⟨b.add 0, 8, .ptr (some ⟨p.allocs.length, 0⟩)⟩ :: ws', ?_, ?_⟩
      · show q₂.heap = _
        rw [hheap', ParseState.store, hheap, List.append_assoc]
        rfl
      · intro w hw
        have hindex (k : Nat) (a : Alloc) (hk : p₁.allocs.length ≤ k) (ha : p₂.allocs[k]? = some a) :
            (p₂.allocs.modify p.allocs_size
              (fun a => { a with size := i * (typeGet type_id).size }))[k]? = some a := by
          have hlen₁ : p₁.allocs.length = p.allocs.length + 1 := by
            rw [hp₁, List.length_append, List.length_singleton]
          rw [hallocs, List.getElem?_append_right (by omega),
            show k - p.allocs.length = k - p₁.allocs.length + 1 by omega, List.getElem?_cons_succ]
          rwa [← hnew, List.getElem?_append_right hk] at ha
        rcases List.mem_cons.mp hw with rfl | hw
        · exact .inl (Inside.store b _ (show 0 + 8 ≤ 8 by decide))
        · rcases hws' w hw with ⟨hblock, hle⟩ | ⟨hblock, a, ha, hle⟩
          · refine .inr ⟨hblock.ge, ⟨i * (typeGet type_id).size, (typeGet type_id).alignment⟩, ?_, hle⟩
            show (p₂.allocs.modify p.allocs_size _)[w.ptr.block]? = _
            rw [hallocs, hblock, List.getElem?_append_right le_rfl, Nat.sub_self]
            rfl
          · exact .inr ⟨hgrows.allocs.length_le.trans hblock, a, hindex _ a hblock ha, hle⟩

theorem parseInline_passes (h : ParsePasses parse) (b : Ptr) :
    Passes (parseInline parse type_id none) (parseInline parse type_id (some b))
      (Inside b (typeGet type_id).size) := by
  intro p p' hp hrun
  rw [parseInline] at hrun
  cases hfields : (typeGet type_id).fields with
  | nil =>
    rw [hfields] at hrun
    cases hrun
  | cons f fs =>
    rw [hfields] at hrun
    obtain ⟨p₁, hparse, hrun⟩ := bind_eq_ok_iff.mp hrun
    cases hrun
    have hfit := fields_fit type_id f (hfields ▸ List.mem_cons_self)
    obtain ⟨hgrows, hsecond⟩ := h f.type f.flags hfit.expected (b.add f.offset) p p₁ hp hparse
    refine ⟨hgrows.notes _ _ _, fun q hq hlen => ?_⟩
    obtain ⟨q₁, hq₁, hfollows⟩ := hsecond q hq hlen
    refine ⟨(parseDoderived q₁ (typeGet type_id) 0 (some b)).finish true none, ?_, ?_⟩
    · rw [parseInline, hfields]
      exact bind_eq_ok_iff.mpr ⟨q₁, hq₁, rfl⟩
    · exact ((hfollows.mono fun w hw => hw.add hfit.inside).doderived 0).notes _ _ _ _ _ _

theorem parseField_passes (h : ParsePasses parse) (b : Ptr) (field : Nat) :
    Passes (parseField parse type_id none field) (parseField parse type_id (some b) field)
      (Inside b (typeGet type_id).size) := by
  intro p p' hp hrun
  rw [parseField] at hrun
  cases hfield : (typeGet type_id).fields[field]? with
  | none =>
    rw [hfield] at hrun
    cases hrun
  | some f =>
    rw [hfield] at hrun
    obtain ⟨p₁, hparse, hrun⟩ := bind_eq_ok_iff.mp hrun
    cases hrun
    have hfit := fields_fit type_id f (List.mem_of_getElem? hfield)
    obtain ⟨hgrows, hsecond⟩ := h f.type f.flags hfit.expected (b.add f.offset) p p₁ hp hparse
    refine ⟨hgrows, fun q hq hlen => ?_⟩
    obtain ⟨q₁, hq₁, hfollows⟩ := hsecond q hq hlen
    refine ⟨parseDoderived q₁ (typeGet type_id) field (some b), ?_, ?_⟩
    · rw [parseField, hfield]
      exact bind_eq_ok_iff.mpr ⟨q₁, hq₁, rfl⟩
    · exact (hfollows.mono fun w hw => hw.add hfit.inside).doderived field

theorem parseRecord_passes (h : ParsePasses parse) (b : Ptr) :
    Passes (parseRecord parse n type_id none) (parseRecord parse n type_id (some b))
      (Inside b (typeGet type_id).size) := by
  intro p p' hp hrun
  obtain ⟨⟨j, p₁⟩, hloop, hrun⟩ := bind_eq_ok_iff.mp hrun
  cases hrun
  obtain ⟨-, hgrows, hsecond⟩ := forLoop_passes (fun _ => Inside b (typeGet type_id).size)
    (fun _ _ _ _ hw => hw) (fun i field => parseField_passes h b field) n 0 j p p₁ hp hloop
  refine ⟨hgrows.notes _ _ _, fun q hq hlen => ?_⟩
  obtain ⟨q₁, hq₁, hfollows⟩ := hsecond q hq hlen
  exact ⟨q₁.finish true none, bind_eq_ok_iff.mpr ⟨(j, q₁), hq₁, rfl⟩,
    hfollows.notes _ _ _ _ _ _⟩

end Cases

/-- **The passes of the parser agree.** -/
theorem parseHelper_passes (n : Nat) : ParsePasses (parseHelper n) := by
  induction n with
  | zero =>
    intro type_id type_flags _ b p p' _ hrun
    cases hrun
  | succ n ih =>
    intro type_id type_flags hexp b p p' hp hrun
    rw [parseHelper] at hrun
    simp only [parseHelper]
    by_cases hevent : type_id = .EVENT
    · rw [if_pos hevent] at hrun
      cases hrun
    rw [if_neg hevent] at hrun
    simp only [if_neg hevent]
    by_cases hmaybe : type_flags.maybe = true
    · rw [if_pos hmaybe] at hrun
      simp only [if_pos hmaybe]
      exact parseMaybe_passes ih hexp b p p' hp hrun
    rw [if_neg hmaybe] at hrun
    simp only [if_neg hmaybe]
    by_cases hstring : isStringType type_id type_flags = true
    · rw [if_pos hstring] at hrun
      simp only [if_pos hstring]
      exact parseString_passes b hstring p p' hp hrun
    rw [if_neg hstring] at hrun
    simp only [if_neg hstring]
    by_cases harray : type_flags.ISARRAY = true
    · have hchar : type_id ≠ .CHAR := by
        rintro rfl
        exact hstring (by simp [isStringType, harray])
      have hextent : extent type_id type_flags = 8 := by
        rw [extent, harray, Bool.or_true, if_pos rfl]
      rw [if_pos harray] at hrun
      simp only [if_pos harray, hextent]
      exact parseArray_passes ih hchar b p p' hp hrun
    have hextent : extent type_id type_flags = (typeGet type_id).size := by
      rw [TypeFlags.maybe, Bool.or_eq_true, not_or] at hmaybe
      rw [extent, if_neg (by simp [hmaybe.1, harray])]
    rw [if_neg harray] at hrun
    simp only [if_neg harray, hextent]
    by_cases hinline : (typeGet type_id).is_inline = true
    · rw [if_pos hinline] at hrun
      simp only [if_pos hinline]
      exact parseInline_passes ih b p p' hp hrun
    rw [if_neg hinline] at hrun
    simp only [if_neg hinline]
    by_cases hflags : type_flags = {}
    · rw [if_pos hflags] at hrun
      simp only [if_pos hflags]
      by_cases hprimitive : (typeGet type_id).is_primitive = true
      · have hchar : type_id ≠ .CHAR := fun hid => by
          have := hexp.1 hid
          rw [hflags] at this
          exact absurd this (by decide)
        rw [if_pos hprimitive] at hrun
        simp only [if_pos hprimitive]
        exact parsePrimitive_passes b hchar hprimitive p p' hp hrun
      · rw [if_neg hprimitive] at hrun
        simp only [if_neg hprimitive]
        exact parseRecord_passes ih b p p' hp hrun
    · rw [if_neg hflags] at hrun
      cases hrun

end I3ipc

end Photonbar
