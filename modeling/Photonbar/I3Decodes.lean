import Photonbar.I3Holds

/-!
# The parser decodes messages (`i3ipc.h`)

Whatever the parser reads is a value of the type that it was called for, and after the second pass
the memory holds it (`parseHelper_decodes`, by induction on the fuel with a lemma for each case of
the parser). Together with the first pass, which reads every value of its type, this says exactly
which messages the parser accepts (`parsePayload_decodes`).

`Decodes` is the statement for one computation: it has read the tokens of a value of the type, and,
where it was given memory, it fills its place so that the value is held. In arrays and objects the
loop has an invariant, what is held of the elements or members so far (`ElementsHold`,
`MembersHold`). Members may come in any order and more than once, and then the last one counts: a
field that is written again disturbs the value it had, with its derived fields, and nothing else of
the struct, since fields do not overlap.
-/

namespace Photonbar

namespace I3ipc

/-! ## The cases of the parser -/

/-- The memory can be written, and `b` is in an allocation. -/
def Ready (p : ParseState) (b : Ptr) : Prop := p.memory = true ∧ b.block < p.allocs_size

/-- A computation reads a value of the type. Where it is given memory, it makes it hold the value. -/
def Decodes (type_id : TypeId) (type_flags : TypeFlags) (base : Option Ptr)
    (f : ParseState → Except ParseStop ParseState) : Prop :=
  ∀ p p', f p = .ok p' → ∃ j : Json, p.toks = j.tokens p'.toks ∧ HasType type_id type_flags j ∧
    ∀ b, base = some b → Ready p b →
      Fills b (extent type_id type_flags) p p' (fun heap => Holds heap type_id type_flags b j) ∧
        Notes type_id type_flags j p'

/-- What is proved of the parser, for everything that it is called for. -/
def ParseDecodes
    (parse : TypeId → TypeFlags → Option Ptr → ParseState → Except ParseStop ParseState) : Prop :=
  ∀ type_id type_flags base, Expected type_id type_flags →
    Decodes type_id type_flags base (parse type_id type_flags base)

/-- A value that is not optional is not null. -/
theorem HasType.isSet {type_id : TypeId} {type_flags : TypeFlags} {j : Json}
    (h : HasType type_id type_flags j) (hshape : shape type_id type_flags ≠ .maybe) :
    j.isSet = true := by
  have hnull (type_id : TypeId) (type_flags : TypeFlags) (j : Json) (h : HasType type_id type_flags j)
      (hshape : shape type_id type_flags ≠ .maybe) (hinline : shape type_id type_flags ≠ .inline) :
      j.isSet = true := by
    cases h with
    | null h => exact absurd h hshape
    | maybe h _ => exact absurd h hshape
    | inline h _ _ => exact absurd h hinline
    | _ => rfl
  by_cases hinline : shape type_id type_flags = .inline
  · cases h with
    | inline h hf hj =>
      obtain ⟨f', fs, hfields, -, hfmaybe, hfinline⟩ := inline_field (inline_of_shape h).2
      rw [hfields] at hf
      cases hf
      refine hnull _ _ _ hj (fun h => ?_) (fun h => ?_)
      · rw [maybe_of_shape h] at hfmaybe
        cases hfmaybe
      · rw [(inline_of_shape h).2] at hfinline
        cases hfinline
    | null h => exact absurd h hshape
    | maybe h _ => exact absurd h hshape
    | string _ h => rw [hinline] at h; cases h
    | array _ h _ => rw [hinline] at h; cases h
    | bool _ h _ => rw [hinline] at h; cases h
    | number _ _ h _ => rw [hinline] at h; cases h
    | record _ h _ => rw [hinline] at h; cases h
  · exact hnull type_id type_flags j h hshape hinline

theorem withoutMaybe_eq {type_flags : TypeFlags} (h : ¬ type_flags.maybe = true) :
    type_flags.withoutMaybe = type_flags := by
  rw [TypeFlags.maybe, Bool.or_eq_true, not_or] at h
  rw [TypeFlags.withoutMaybe]
  cases type_flags
  simp_all

/-- Where the case is none for a string, there is no string. -/
theorem isStringType_of_shape {type_id : TypeId} {type_flags : TypeFlags}
    (h : shape type_id type_flags ≠ .maybe) (h' : shape type_id type_flags ≠ .string)
    (h'' : shape type_id type_flags ≠ .none) :
    isStringType type_id type_flags.withoutMaybe = false := by
  rw [shape] at h h' h''
  by_cases hevent : type_id = .EVENT
  · rw [if_pos hevent] at h''
    exact absurd rfl h''
  · rw [if_neg hevent] at h h'
    by_cases hmaybe : type_flags.maybe = true
    · rw [if_pos hmaybe] at h
      exact absurd rfl h
    · rw [if_neg hmaybe] at h'
      rw [withoutMaybe_eq hmaybe]
      by_cases hstring : isStringType type_id type_flags = true
      · rw [if_pos hstring] at h'
        exact absurd rfl h'
      · simpa using hstring

/-- The two types that are strings. -/
theorem string_of_shape {type_id : TypeId} {type_flags : TypeFlags}
    (h : shape type_id type_flags = .string) :
    (type_id = .STRING ∧ type_flags = {}) ∨ (type_id = .CHAR ∧ type_flags.ISARRAY = true) := by
  rw [shape] at h
  split_ifs at h with hevent hmaybe hstring
  rw [isStringType, Bool.or_eq_true, Bool.and_eq_true, Bool.and_eq_true] at hstring
  exact hstring.imp (fun h => ⟨of_decide_eq_true h.1, of_decide_eq_true h.2⟩)
    fun h => ⟨of_decide_eq_true h.1, h.2⟩

/-- A type that is stored itself, and is none of the basic ones. -/
structure Plain (type_id : TypeId) (type_flags : TypeFlags) : Prop where
  shape : shape type_id type_flags = .inline ∨ shape type_id type_flags = .primitive ∨
    shape type_id type_flags = .record

theorem Plain.flags {type_id : TypeId} {type_flags : TypeFlags} (h : Plain type_id type_flags) :
    type_flags.ISPTR = false ∧ type_flags.ISARRAY = false := by
  have hshape := h.shape
  rw [I3ipc.shape] at hshape
  split_ifs at hshape with hevent hmaybe hstring harray
  all_goals try simp at hshape
  all_goals
    rw [TypeFlags.maybe, Bool.or_eq_true, not_or] at hmaybe
    exact ⟨by simpa using hmaybe.1, by simpa using harray⟩

theorem Plain.extent {type_id : TypeId} {type_flags : TypeFlags} (h : Plain type_id type_flags) :
    extent type_id type_flags = (typeGet type_id).size := by
  rw [I3ipc.extent, h.flags.1, h.flags.2]
  rfl

theorem Plain.notes {type_id : TypeId} {type_flags : TypeFlags} (h : Plain type_id type_flags)
    {j : Json} (hj : HasType type_id type_flags j) (p : ParseState) :
    Notes type_id type_flags j (p.finish true none) := by
  have hne (s : Shape) (hs : s ∉ [.inline, .primitive, .record]) :
      I3ipc.shape type_id type_flags ≠ s := by
    rintro rfl
    simp only [List.mem_cons, List.not_mem_nil, or_false] at hs
    exact hs h.shape
  refine ⟨(hj.isSet (hne .maybe (by decide))).symm, fun harray => ?_, fun hstring => ?_⟩
  · rw [h.flags.2] at harray
    cases harray
  · rw [isStringType_of_shape (hne .maybe (by decide)) (hne .string (by decide))
      (hne .none (by decide))] at hstring
    cases hstring

section Cases

variable {parse : TypeId → TypeFlags → Option Ptr → ParseState → Except ParseStop ParseState}
  {n : Nat} {type_id : TypeId} {type_flags : TypeFlags} {base : Option Ptr}

/-- The second pass gets a new allocation. -/
theorem parseAlloc_second {p p' : ParseState} {size alignment : Nat} {q : Option Ptr}
    (hp : p.memory = true) (h : parseAlloc p size alignment = .ok (q, p')) :
    q = some ⟨p.allocs_size, 0⟩ ∧ p' = { p with allocs_size := p.allocs_size + 1 } := by
  rw [parseAlloc, if_pos hp] at h
  split at h
  · cases h
    exact ⟨rfl, rfl⟩
  · cases h

theorem parseAlloc_toks {p p' : ParseState} {size alignment : Nat} {q : Option Ptr}
    (h : parseAlloc p size alignment = .ok (q, p')) : p'.toks = p.toks := by
  rw [parseAlloc] at h
  split at h
  · split at h
    · cases h
      rfl
    · cases h
  · cases h
    rfl

theorem ParseState.store_toks (p : ParseState) (base : Option Ptr) (offset n : Nat) (cell : Cell) :
    (p.store base offset n cell).toks = p.toks := by
  cases base <;> rfl

theorem parseDoderived_toks (p : ParseState) (type : TypeInfo) (field : Nat) (base : Option Ptr) :
    (parseDoderived p type field base).toks = p.toks := by
  rw [parseDoderived.eq_def]
  cases base with
  | none => rfl
  | some b =>
    cases type.fields[field]? with
    | none => rfl
    | some f0 =>
      dsimp only
      generalize (type.fields.drop (field + 1)).takeWhile (·.flags.derived) = ds
      induction ds generalizing p with
      | nil => rfl
      | cons d ds ih =>
        rw [List.foldl_cons, ih, doderivedField]
        split
        · exact ParseState.store_toks _ _ _ _ _
        · split
          · exact ParseState.store_toks _ _ _ _ _
          · split
            · rfl
            · exact ParseState.store_toks _ _ _ _ _

/-- A value that a new pointer leads to. -/
theorem Fills.pointer {b q : Ptr} {n : Nat} {p p₁ p' : ParseState} {P : List Write → Prop}
    (hb : b.block < p.allocs_size) (hq : q = ⟨p.allocs_size, 0⟩)
    (hp₁ : p₁.allocs_size = p.allocs_size + 1)
    (hheap : p₁.heap = p.heap ++ [⟨b.add 0, 8, .ptr (some q)⟩]) (h : Fills q n p₁ p' P) :
    Fills b 8 p p' fun heap => Stored heap b 8 (.ptr (some q)) ∧ P heap := by
  subst hq
  obtain ⟨ws, hws, hgiven⟩ := h.heap
  have hle := h.le
  have hnew : ∀ w ∈ ws, p.allocs_size ≤ w.ptr.block ∧ w.ptr.block < p'.allocs_size := by
    intro w hw
    rcases hgiven w hw with hw | hw
    · have hblock : w.ptr.block = p.allocs_size := hw.1
      omega
    · omega
  refine ⟨h.memory, by omega, ⟨⟨b.add 0, 8, .ptr (some ⟨p.allocs_size, 0⟩)⟩ :: ws, ?_, ?_⟩, ?_⟩
  · rw [hws, hheap, List.append_assoc, List.singleton_append]
  · intro w hw
    rcases List.mem_cons.mp hw with rfl | hw
    · exact .inl (Inside.store b _ (by omega))
    · exact .inr (hnew w hw)
  · refine Log.Kept.and ?_ (h.kept.mono ?_)
    · rw [hws, hheap]
      refine ((Stored.kept p.heap b 0 8 _).append fun w hw hreaches => ?_).mono fun w hw => .inl hw
      have := hnew w hw
      have hblock : w.ptr.block = b.block := hreaches.1
      omega
    · rintro w (hw | hw)
      · have hblock : w.ptr.block = p.allocs_size := hw.1
        exact .inr (by omega)
      · exact .inr (by omega)

theorem Fills.imp {b : Ptr} {n : Nat} {p p' : ParseState} {P P' : List Write → Prop}
    (h : Fills b n p p' P) (hP : ∀ heap, P heap → P' heap) : Fills b n p p' P' :=
  ⟨h.memory, h.le, h.heap, h.kept.imp hP⟩

/-- Nothing is written. -/
theorem Fills.refl {b : Ptr} {n : Nat} {p p' : ParseState} {P : List Write → Prop}
    (hmemory : p'.memory = true) (hsize : p'.allocs_size = p.allocs_size)
    (hheap : p'.heap = p.heap) (hP : ∀ heap, P heap) : Fills b n p p' P :=
  ⟨hmemory, hsize.ge, ⟨[], by rw [hheap, List.append_nil], by simp⟩, fun _ _ => hP _⟩

theorem parseMaybe_decodes (hparse : ParseDecodes parse) (hexp : Expected type_id type_flags)
    (hshape : shape type_id type_flags = .maybe) :
    Decodes type_id type_flags base (parseMaybe parse type_id type_flags base) := by
  intro p p' h
  obtain ⟨r, htry, hrun⟩ := bind_eq_ok_iff.mp h
  rcases jsonTrymatch_ok htry with ⟨tok, rest, htoks, htok, rfl⟩ | ⟨rfl, htoks⟩
  · cases hrun
    refine ⟨.null, ?_, .null hshape, fun b _ hb => ⟨?_, rfl, fun _ => rfl, fun _ => rfl⟩⟩
    · rw [htoks]
      cases tok with
      | null => rfl
      | _ => cases htok
    · exact .refl hb.1 rfl rfl fun heap => .null hshape
  · obtain ⟨⟨ptr_base, p₁⟩, hpointee, hrun⟩ := bind_eq_ok_iff.mp hrun
    obtain ⟨p₂, hparse', hrun⟩ := bind_eq_ok_iff.mp hrun
    cases hrun
    obtain ⟨j, hj, htype, hholds⟩ := hparse type_id _ ptr_base hexp.withoutMaybe p₁ p₂ hparse'
    have htoks₁ : p₁.toks = p.toks := by
      rw [pointee] at hpointee
      split at hpointee
      · obtain ⟨⟨q, p₀⟩, halloc, hstore⟩ := bind_eq_ok_iff.mp hpointee
        cases hstore
        rw [ParseState.store_toks, parseAlloc_toks halloc]
      · cases hpointee
        rfl
    rw [htoks₁] at hj
    have hset : j.isSet = true := by
      obtain ⟨tok, toks, hcons, htok⟩ := j.tokens_cons p₂.toks
      have hne := htoks tok toks (hj.trans hcons)
      rw [htok] at hne
      cases j with
      | null => exact absurd rfl hne
      | _ => rfl
    refine ⟨j, hj, .maybe hshape htype, ?_⟩
    rintro b rfl ⟨hmemory, hb⟩
    rw [pointee] at hpointee
    by_cases hptr : type_flags.ISPTR = true
    · rw [if_pos hptr] at hpointee
      obtain ⟨⟨q, p₀⟩, halloc, hstore⟩ := bind_eq_ok_iff.mp hpointee
      obtain ⟨rfl, rfl⟩ := parseAlloc_second hmemory halloc
      cases hstore
      obtain ⟨hfills, hnotes⟩ := hholds _ rfl ⟨hmemory, Nat.lt_succ_self _⟩
      have hextent : extent type_id type_flags = 8 := by
        rw [extent, hptr, Bool.true_or, if_pos rfl]
      rw [hextent]
      refine ⟨?_, hset.symm, hnotes.size, hnotes.enum⟩
      have hpointer := Fills.pointer hb rfl rfl rfl hfills
      exact ⟨hpointer.memory, hpointer.le, hpointer.heap,
        hpointer.kept.imp fun heap hheap => .pointer hshape hptr hheap.1 hheap.2⟩
    · rw [if_neg hptr] at hpointee
      cases hpointee
      obtain ⟨hfills, hnotes⟩ := hholds b rfl ⟨hmemory, hb⟩
      have hextent : extent type_id type_flags.withoutMaybe = extent type_id type_flags := by
        rw [extent, extent, TypeFlags.withoutMaybe]
        simp [hptr]
      rw [hextent] at hfills
      refine ⟨?_, hset.symm, hnotes.size, hnotes.enum⟩
      exact ⟨hfills.memory, hfills.le, hfills.heap,
        hfills.kept.imp fun heap hheap => .optional hshape (by simpa using hptr) hheap⟩

/-- The copy of a string is in its own allocation. -/
theorem copyString_second {str : Bytes} {b : Ptr} {p p₁ : ParseState} {cell : Cell}
    (hp : p.memory = true) (h : copyString str (some b) p = .ok (cell, p₁)) :
    p₁.memory = true ∧ p₁.toks = p.toks ∧ p.allocs_size ≤ p₁.allocs_size ∧
      ∃ ws, p₁.heap = p.heap ++ ws ∧
        (∀ w ∈ ws, p.allocs_size ≤ w.ptr.block ∧ w.ptr.block < p₁.allocs_size) ∧
        Log.Kept (fun w => p.allocs_size ≤ w.ptr.block ∧ w.ptr.block < p₁.allocs_size)
          (fun heap => ∀ b, Stored heap b 8 cell → TextAt heap b str) p₁.heap := by
  rw [copyString] at h
  split at h
  · obtain ⟨⟨q, p₀⟩, halloc, h⟩ := bind_eq_ok_iff.mp h
    obtain ⟨rfl, rfl⟩ := parseAlloc_second hp halloc
    cases h
    refine ⟨hp, rfl, Nat.le_succ _, [_], rfl, ?_, ?_⟩
    · intro w hw
      rw [List.mem_singleton.mp hw]
      exact ⟨le_rfl, Nat.lt_succ_self _⟩
    · refine ((Stored.kept p.heap ⟨p.allocs_size, 0⟩ 0 (str.length + 1) (.chars (str ++ [0]))).mono
        fun w hw => ?_).imp fun heap hstored b hb => .inl ⟨_, hb, hstored⟩
      have hblock : w.ptr.block = p.allocs_size := hw.1
      exact ⟨hblock.ge, by rw [hblock]; exact Nat.lt_succ_self _⟩
  · cases h
    exact ⟨hp, rfl, le_rfl, [], (List.append_nil _).symm, by simp, fun _ _ b hb => .inr hb⟩

theorem copyString_toks {str : Bytes} {p p₁ : ParseState} {cell : Cell}
    (h : copyString str base p = .ok (cell, p₁)) : p₁.toks = p.toks := by
  rw [copyString] at h
  split at h
  · obtain ⟨⟨q, p₀⟩, halloc, h⟩ := bind_eq_ok_iff.mp h
    cases h
    rw [← parseAlloc_toks halloc]
    split
    · rfl
    · rw [ParseState.store_toks]
  · cases h
    rfl

theorem storeString_toks (type_id : TypeId) (str : Bytes) (cell : Cell) (p : ParseState) :
    (storeString type_id str cell base p).toks = p.toks := by
  rw [storeString]
  split
  · rfl
  · split
    · exact (ParseState.store_toks _ _ _ _ _).trans (ParseState.store_toks _ _ _ _ _)
    · exact ParseState.store_toks p base 0 8 cell

theorem parseString_decodes (hshape : shape type_id type_flags = .string) :
    Decodes type_id type_flags base (parseString type_id base) := by
  intro p p' h
  obtain ⟨⟨tok, toks⟩, hmatch, hrun⟩ := bind_eq_ok_iff.mp h
  obtain ⟨htoks, htok⟩ := jsonMatch_ok hmatch
  cases tok with
  | string str =>
    obtain ⟨⟨cell, p₁⟩, hcopy, hrun⟩ := bind_eq_ok_iff.mp hrun
    cases hrun
    refine ⟨.string str, ?_, .string str hshape, ?_⟩
    · rw [htoks, storeString_toks, copyString_toks hcopy]
      rfl
    rintro b rfl ⟨hmemory, hb⟩
    obtain ⟨hmemory₁, -, hle, ws, hheap, hnew, hkept⟩ := copyString_second (p := { p with toks }) hmemory hcopy
    have hle : p.allocs_size ≤ p₁.allocs_size := hle
    have hheap : p₁.heap = p.heap ++ ws := hheap
    have hold (offset n : Nat) (cell : Cell) :
        ¬ (p.allocs_size ≤ (⟨b.add offset, n, cell⟩ : Write).ptr.block ∧
          (⟨b.add offset, n, cell⟩ : Write).ptr.block < p₁.allocs_size) := by
      simp only [Ptr.add]
      omega
    have htext : Log.Kept (fun w => Reaches b 8 w ∨
        (p.allocs_size ≤ w.ptr.block ∧ w.ptr.block < p₁.allocs_size))
        (fun heap => TextAt heap b str) (p₁.heap ++ [⟨b.add 0, 8, cell⟩]) := by
      have hcopied : Log.Kept _ _ (p₁.heap ++ [⟨b.add 0, 8, cell⟩]) :=
        hkept.append (by simpa using hold 0 8 cell)
      have hstored := Stored.kept p₁.heap b 0 8 cell
      exact ((hcopied.mono fun w hw => .inr hw).and (hstored.mono fun w hw => .inl hw)).imp
        fun heap hheap => hheap.1 b hheap.2
    rw [storeString, if_neg (by simp)]
    rcases string_of_shape hshape with ⟨hid, hflags⟩ | ⟨hid, harray⟩
    · have hextent : extent type_id type_flags = 16 := by
        rw [hid, hflags]
        rfl
      rw [if_pos hid, hextent]
      refine ⟨⟨hmemory₁, hle, ⟨ws ++ [⟨b.add 0, 8, cell⟩,
        ⟨b.add 8, 4, .int (Int32.ofNat str.length)⟩], ?_, ?_⟩, ?_⟩, rfl, ?_, fun _ => rfl⟩
      · show p₁.heap ++ [_] ++ [_] = _
        rw [hheap, List.append_assoc, List.append_assoc]
        rfl
      · intro w hw
        rcases List.mem_append.mp hw with hw | hw
        · exact .inr (hnew w hw)
        · rcases List.mem_cons.mp hw with rfl | hw
          · exact .inl (Inside.store b _ (by decide))
          · rw [List.mem_singleton.mp hw]
            exact .inl (Inside.store b _ (by decide))
      · have hkeep : ∀ w ∈ [(⟨b.add 8, 4, .int (Int32.ofNat str.length)⟩ : Write)],
            ¬ (Reaches b 8 w ∨ (p.allocs_size ≤ w.ptr.block ∧ w.ptr.block < p₁.allocs_size)) := by
          intro w hw
          rw [List.mem_singleton.mp hw]
          rintro (hreaches | hnew)
          · have := hreaches.2.1
            simp only [Ptr.add] at this
            omega
          · exact hold 8 4 _ hnew
        refine (((htext.append hkeep).mono fun w hw => hw.imp_left fun hw => ?_).and
          ((Stored.kept _ b 8 4 _).mono fun w hw => .inl ?_)).imp
            fun heap hheap => .string hshape hheap.1 fun _ => hheap.2
        · exact ⟨hw.1, hw.2.1.trans_le (by omega), hw.2.2⟩
        · have := hw.2
          simp only [Ptr.add] at this
          exact ⟨hw.1, by omega, by omega⟩
      · intro harray
        rw [hflags] at harray
        cases harray
    · have hid : type_id ≠ .STRING := by
        rw [hid]
        decide
      have hextent : extent type_id type_flags = 8 := by
        rw [extent, harray, Bool.or_true, if_pos rfl]
      rw [if_neg hid, hextent]
      refine ⟨⟨hmemory₁, hle, ⟨ws ++ [⟨b.add 0, 8, cell⟩], ?_, ?_⟩, ?_⟩, rfl, fun _ => rfl,
        fun _ => rfl⟩
      · show p₁.heap ++ [_] = _
        rw [hheap, List.append_assoc]
      · intro w hw
        rcases List.mem_append.mp hw with hw | hw
        · exact .inr (hnew w hw)
        · rw [List.mem_singleton.mp hw]
          exact .inl (Inside.store b _ (by decide))
      · exact htext.imp fun heap hheap => .string hshape hheap fun h => absurd h hid
  | _ => cases htok

theorem parsePrimitive_decodes (hshape : shape type_id type_flags = .primitive) :
    Decodes type_id type_flags base (parsePrimitive type_id base) := by
  intro p p' h
  obtain ⟨⟨tok, toks⟩, hmatch, hrun⟩ := bind_eq_ok_iff.mp h
  obtain ⟨htoks, htok⟩ := jsonMatch_ok hmatch
  have hplain : Plain type_id type_flags := ⟨.inr (.inl hshape)⟩
  have hend : p'.toks = toks := by
    dsimp only at hrun
    split at hrun
    · cases hrun
      rfl
    · split at hrun
      · cases hrun
        exact ParseState.store_toks _ _ _ _ _
      · cases hrun
  obtain ⟨j, hj, htype, hholds⟩ : ∃ j : Json, p.toks = j.tokens toks ∧
      HasType type_id type_flags j ∧ ∀ heap b n cell,
        primitiveCell type_id tok = some (n, cell) → Stored heap b n cell →
          Holds heap type_id type_flags b j := by
    by_cases hbool : type_id = .BOOL
    · rw [if_pos hbool] at htok
      cases tok with
      | bool flag =>
        refine ⟨.bool flag, htoks, .bool flag hshape hbool, fun heap b n cell hcell hstored => ?_⟩
        subst hbool
        cases hcell
        exact .bool hshape rfl hstored
      | _ => cases htok
    · rw [if_neg hbool] at htok
      cases tok with
      | number c k =>
        exact ⟨.number c k, htoks, .number c k hshape hbool,
          fun heap b n cell hcell hstored => .number hshape hcell hstored⟩
      | _ => cases htok
  refine ⟨j, hend ▸ hj, htype, ?_⟩
  rintro b rfl ⟨hmemory, hb⟩
  dsimp only at hrun
  rw [if_neg (by simp)] at hrun
  split at hrun
  next n cell hcell =>
    cases hrun
    have hn : n = (typeGet type_id).size := by
      by_cases hchar : type_id = .CHAR
      · subst hchar
        cases hcell
      · have hprimitive : (typeGet type_id).is_primitive = true := by
          rw [shape] at hshape
          split_ifs at hshape with h₁ h₂ h₃ h₄ h₅ h₆ h₇
          exact h₇
        obtain ⟨cell', hcell'⟩ := primitiveCell_size hchar hprimitive htok
        rw [hcell] at hcell'
        cases hcell'
        rfl
    rw [hplain.extent, ← hn]
    refine ⟨⟨hmemory, le_rfl, ⟨[⟨b.add 0, n, cell⟩], rfl, ?_⟩, ?_⟩, hplain.notes htype _⟩
    · intro w hw
      rw [List.mem_singleton.mp hw]
      exact .inl (Inside.store b _ (Nat.zero_add _).le)
    · exact ((Stored.kept p.heap b 0 n cell).mono fun w hw => .inl hw).imp
        fun heap hheap => hholds heap b n cell hcell hheap
  next => cases hrun

theorem parseInline_decodes (hparse : ParseDecodes parse)
    (hshape : shape type_id type_flags = .inline) :
    Decodes type_id type_flags base (parseInline parse type_id base) := by
  intro p p' h
  obtain ⟨f, fs, hfields, hderived, -, -⟩ := inline_field (inline_of_shape hshape).2
  have hfield : (typeGet type_id).fields[0]? = some f := by rw [hfields]; rfl
  have hhead : (typeGet type_id).fields.head? = some f := by rw [hfields]; rfl
  have hfit := fields_fit type_id f (hfields ▸ List.mem_cons_self)
  have hplain : Plain type_id type_flags := ⟨.inl hshape⟩
  rw [parseInline, hfields] at h
  obtain ⟨p₁, hrun, h⟩ := bind_eq_ok_iff.mp h
  cases h
  obtain ⟨j, hj, htype, hholds⟩ := hparse f.type f.flags _ hfit.expected p p₁ hrun
  have htype' : HasType type_id type_flags j := .inline hshape hhead htype
  cases base with
  | none => exact ⟨j, hj, htype', fun b hb => by cases hb⟩
  | some b =>
    have htoks := parseDoderived_toks p₁ (typeGet type_id) 0 (some b)
    refine ⟨j, ?_, htype', ?_⟩
    · rw [hj]
      exact congrArg j.tokens htoks.symm
    rintro b' ⟨⟩ ⟨hmemory, hb⟩
    obtain ⟨hfills, hnotes⟩ := hholds (b.add f.offset) rfl ⟨hmemory, hb⟩
    have hgroup := hfills.doderived hfield hderived hb hnotes
    obtain ⟨ws, hheap, hgiven⟩ := hgroup.given hfield
    rw [hplain.extent]
    refine ⟨⟨hgroup.memory, hgroup.le, ⟨ws, hheap, hgiven⟩, ?_⟩, hplain.notes htype' _⟩
    · refine (hgroup.kept.mono fun w hw => hw.imp_left ?_).imp
        fun heap hheap => .inline hshape hhead hheap.1 hheap.2
      rintro ⟨d, hd, hreaches⟩
      have := (fields_fit type_id d (group_subset hfield d hd)).inside
      have hlt := hreaches.2
      simp only [Ptr.add] at hlt
      exact ⟨hreaches.1, by omega, by omega⟩

/-- The elements so far of an array at `arr`. -/
structure ElementsHold (type_id : TypeId) (arr : Ptr) (p q : ParseState) (js : List Json) :
    Prop where
  memory : q.memory = true
  le : p.allocs_size ≤ q.allocs_size
  heap : ∃ ws, q.heap = p.heap ++ ws ∧
    ∀ w ∈ ws, Given arr (js.length * (typeGet type_id).size) p.allocs_size q.allocs_size w
  kept : ∀ i j, js[i]? = some j → Log.Kept
    (Disturbs (arr.add (i * (typeGet type_id).size)) (typeGet type_id).size p.allocs_size q.allocs_size)
    (fun heap => Holds heap type_id {} (arr.add (i * (typeGet type_id).size)) j) q.heap

/-- One more element. -/
theorem ElementsHold.step {arr : Ptr} {p q q' : ParseState} {js : List Json} {j : Json}
    (h : ElementsHold type_id arr p q js) (harr : arr.block < p.allocs_size)
    (hj : Fills (arr.add (js.length * (typeGet type_id).size)) (typeGet type_id).size q q'
      fun heap => Holds heap type_id {} (arr.add (js.length * (typeGet type_id).size)) j) :
    ElementsHold type_id arr p q' (js ++ [j]) := by
  obtain ⟨ws, hheap, hws⟩ := h.heap
  obtain ⟨ws', hheap', hws'⟩ := hj.heap
  have hle := h.le
  have hsize : (js ++ [j]).length * (typeGet type_id).size =
      js.length * (typeGet type_id).size + (typeGet type_id).size := by
    rw [List.length_append, List.length_singleton, Nat.succ_mul]
  refine ⟨hj.memory, hle.trans hj.le, ⟨ws ++ ws', ?_, fun w hw => ?_⟩, fun i v hi => ?_⟩
  · rw [hheap', hheap, List.append_assoc]
  · rw [hsize]
    rcases List.mem_append.mp hw with hw | hw
    · exact (hws w hw).mono (fun hin => .inl ⟨hin.1, hin.2.1, by have := hin.2.2; omega⟩) le_rfl hj.le
    · exact (hws' w hw).mono (fun hin => .inl (hin.add le_rfl)) hle le_rfl
  · rcases Nat.lt_or_ge i js.length with hlt | hge
    · rw [List.getElem?_append_left hlt] at hi
      rw [hheap']
      refine ((h.kept i v hi).append fun w hw => ?_).mono fun w hw =>
        hw.imp_right fun hw => ⟨hw.1, hw.2.trans_le hj.le⟩
      -- later elements lie behind this one
      have hmul : i * (typeGet type_id).size + (typeGet type_id).size ≤
          js.length * (typeGet type_id).size := by
        rw [← Nat.succ_mul]
        exact Nat.mul_le_mul_right _ hlt
      exact (hws' w hw).not_disturbs harr (harr.trans_le hle) le_rfl fun _ =>
        .inr (by simp only [Ptr.add]; omega)
    · have hlen : i = js.length := by
        have := (List.getElem?_eq_some_iff.mp hi).1
        rw [List.length_append, List.length_singleton] at this
        omega
      subst hlen
      rw [List.getElem?_concat_length] at hi
      cases hi
      exact hj.kept.mono fun w hw => hw.imp_right fun hw => ⟨hle.trans hw.1, hw.2⟩

/-- The whole array. -/
theorem ElementsHold.fills {arr : Ptr} {p q : ParseState} {js : List Json}
    (h : ElementsHold type_id arr p q js) :
    Fills arr (js.length * (typeGet type_id).size) p q fun heap => ∀ i j, js[i]? = some j →
      Holds heap type_id {} (arr.add (i * (typeGet type_id).size)) j := by
  refine ⟨h.memory, h.le, h.heap, fun later hlater i j hi => h.kept i j hi later fun w hw hdis => ?_⟩
  refine hlater w hw (hdis.imp_left fun hreaches => ?_)
  have hmul : i * (typeGet type_id).size + (typeGet type_id).size ≤
      js.length * (typeGet type_id).size := by
    rw [← Nat.succ_mul]
    exact Nat.mul_le_mul_right _ (List.getElem?_eq_some_iff.mp hi).1
  have hlt := hreaches.2
  simp only [Ptr.add] at hlt
  exact ⟨hreaches.1, by omega, by omega⟩

theorem onTokens_ok {κ : Type} {next : Tokens → Except ParseStop (Option κ × Tokens)}
    {p : ParseState} {k : Option κ} {p' : ParseState} (h : onTokens next p = .ok (k, p')) :
    next p.toks = .ok (k, p'.toks) ∧ p' = { p with toks := p'.toks } := by
  obtain ⟨⟨k', toks⟩, hnext, hrun⟩ := bind_eq_ok_iff.mp h
  cases hrun
  exact ⟨hnext, rfl⟩

theorem parseArray_decodes (hparse : ParseDecodes parse)
    (hshape : shape type_id type_flags = .array) :
    Decodes type_id type_flags base (parseArray parse n type_id base) := by
  intro p p' h
  have harray : type_flags.ISARRAY = true ∧ ¬ isStringType type_id type_flags = true := by
    rw [shape] at hshape
    split_ifs at hshape with hevent hmaybe hstring harray
    exact ⟨harray, hstring⟩
  have hchar : type_id ≠ .CHAR := by
    rintro rfl
    exact harray.2 (by simp [isStringType, harray.1])
  have hextent : extent type_id {} = (typeGet type_id).size := rfl
  obtain ⟨⟨arr_base, p₁⟩, halloc, hrun⟩ := bind_eq_ok_iff.mp h
  obtain ⟨⟨i, p₂⟩, hloop, hrun⟩ := bind_eq_ok_iff.mp hrun
  cases hrun
  obtain ⟨js, hjs, hlen, htype, hholds⟩ := forLoop_items ParseState.toks arrTokens
    (fun i js q => i = js.length ∧ (∀ j ∈ js, HasType type_id {} j) ∧
      ∀ b, base = some b → Ready p b → ElementsHold type_id ⟨p.allocs_size, 0⟩
        (p₁.store base 0 8 (.ptr arr_base)) q js)
    (fun i js q => i = js.length ∧ (∀ j ∈ js, HasType type_id {} j) ∧
      ∀ b, base = some b → Ready p b → ElementsHold type_id ⟨p.allocs_size, 0⟩
        (p₁.store base 0 8 (.ptr arr_base)) q js)
    (fun i js q q' hnext hI => by
      obtain ⟨hguard, hq'⟩ := onTokens_ok hnext
      refine ⟨[], (jsonLooparr_ok hguard).1 rfl, ?_⟩
      obtain ⟨hlen, htype, hholds⟩ := hI
      rw [List.append_nil]
      refine ⟨hlen, htype, fun b hb hready => ?_⟩
      have helements := hholds b hb hready
      rw [hq']
      exact ⟨helements.memory, helements.le, helements.heap, helements.kept⟩)
    (fun i js k q q₁ q₂ hnext hbody hI => by
      obtain ⟨hguard, hq₁⟩ := onTokens_ok hnext
      obtain ⟨rfl, htype, hholds⟩ := hI
      obtain ⟨j, hj, hjtype, hjholds⟩ := hparse type_id {} _ ⟨fun h => absurd h hchar, by simp⟩
        q₁ q₂ hbody
      refine ⟨[j], fun js' rest hrest => ?_, ?_, ?_, fun b hb hready => ?_⟩
      · exact (jsonLooparr_ok hguard).2 (by simp) j js' rest (hj.trans (congrArg j.tokens hrest))
      · rw [List.length_append, List.length_singleton]
      · exact List.forall_mem_append.mpr ⟨htype, by simpa using hjtype⟩
      · have helements := hholds b hb hready
        subst hb
        obtain ⟨rfl, rfl⟩ := parseAlloc_second hready.1 halloc
        have hle : p.allocs_size + 1 ≤ q.allocs_size := helements.le
        rw [hq₁] at hjholds
        obtain ⟨hfills, -⟩ := hjholds ((⟨p.allocs_size, 0⟩ : Ptr).add
          (js.length * (typeGet type_id).size)) rfl ⟨helements.memory, hle⟩
        exact helements.step (Nat.lt_succ_self _)
          ⟨hfills.memory, hfills.le, hfills.heap, hfills.kept⟩)
    n 0 [] _ (i, p₂) hloop ⟨rfl, by simp, fun b hb hready => by
      subst hb
      obtain ⟨rfl, rfl⟩ := parseAlloc_second hready.1 halloc
      exact ⟨hready.1, le_rfl, ⟨[], (List.append_nil _).symm, by simp⟩, by simp⟩⟩
  rw [List.nil_append] at hlen htype hholds
  refine ⟨.arr js, ?_, .array js hshape htype, ?_⟩
  · rw [← parseAlloc_toks halloc, ← ParseState.store_toks p₁ base 0 8 (.ptr arr_base)]
    exact hjs
  · rintro b rfl hready
    have helements := hholds b rfl hready
    obtain ⟨rfl, rfl⟩ := parseAlloc_second hready.1 halloc
    have hpointer := Fills.pointer hready.2 rfl rfl rfl helements.fills
    have hextent : extent type_id type_flags = 8 := by
      rw [extent, harray.1, Bool.or_true, if_pos rfl]
    rw [hextent]
    refine ⟨⟨hpointer.memory, hpointer.le, hpointer.heap,
      hpointer.kept.imp fun heap hheap => .array hshape hheap.1 hheap.2⟩, rfl, fun _ => hlen, ?_⟩
    intro hstring
    rw [isStringType_of_shape (by rw [hshape]; decide) (by rw [hshape]; decide)
      (by rw [hshape]; decide)] at hstring
    cases hstring

/-! ## Objects -/

theorem lastMember_skip {type : TypeInfo} (ms : List (Bytes × Json)) {ms' : List (Bytes × Json)}
    (hms' : ∀ m ∈ ms', fieldWithKey type m.1 = none) (g : Nat) :
    lastMember type (ms ++ ms') g = lastMember type ms g := by
  have hnone : (ms'.reverse.find? fun m => decide (fieldWithKey type m.1 = some g)) = none := by
    rw [List.find?_eq_none]
    intro m hm
    rw [hms' m (List.mem_reverse.mp hm)]
    simp
  rw [lastMember, lastMember, List.reverse_append, List.find?_append, hnone, Option.none_or]

theorem lastMember_append {type : TypeInfo} {ms ms' : List (Bytes × Json)} {key : Bytes} {v : Json}
    {field : Nat} (hms' : ∀ m ∈ ms', fieldWithKey type m.1 = none)
    (hkey : fieldWithKey type key = some field) (g : Nat) :
    lastMember type (ms ++ (ms' ++ [(key, v)])) g =
      if g = field then some v else lastMember type ms g := by
  rw [← List.append_assoc, ← lastMember_skip ms hms', lastMember, List.reverse_append,
    List.reverse_singleton, List.singleton_append, List.find?_cons, hkey]
  by_cases hg : g = field
  · simp [hg]
  · simp [hg, Ne.symm hg, lastMember]

/-- The members so far of an object at `b`. -/
structure MembersHold (type_id : TypeId) (b : Ptr) (p q : ParseState) (ms : List (Bytes × Json)) :
    Prop where
  memory : q.memory = true
  le : p.allocs_size ≤ q.allocs_size
  heap : ∃ ws, q.heap = p.heap ++ ws ∧
    ∀ w ∈ ws, Given b (typeGet type_id).size p.allocs_size q.allocs_size w
  kept : ∀ field f v, (typeGet type_id).fields[field]? = some f →
    lastMember (typeGet type_id) ms field = some v → Log.Kept
      (fun w => (∃ d ∈ f :: derivedFields (typeGet type_id) field,
        Reaches (b.add d.offset) (extent d.type d.flags) w) ∨
        (p.allocs_size ≤ w.ptr.block ∧ w.ptr.block < q.allocs_size))
      (fun heap => Holds heap f.type f.flags (b.add f.offset) v ∧
        DerivedAt heap f (derivedFields (typeGet type_id) field) b v) q.heap

/-- The field of a member is not a derived one. -/
theorem lastMember_derived {ms : List (Bytes × Json)} {field : Nat} {f : Field} {v : Json}
    (h : lastMember (typeGet type_id) ms field = some v)
    (hf : (typeGet type_id).fields[field]? = some f) : f.flags.derived = false := by
  obtain ⟨m, hm, -⟩ := Option.map_eq_some_iff.mp h
  have hkey := List.find?_some hm
  obtain ⟨f', hf', hderived, -⟩ := fieldWithKey_spec (of_decide_eq_true hkey)
  rw [hf] at hf'
  cases hf'
  exact hderived

/-- One more member that the type has. -/
theorem MembersHold.step {b : Ptr} {p q q' : ParseState} {ms ms' : List (Bytes × Json)}
    {key : Bytes} {v : Json} {field : Nat} {f : Field} (h : MembersHold type_id b p q ms)
    (hb : b.block < p.allocs_size) (hms' : ∀ m ∈ ms', fieldWithKey (typeGet type_id) m.1 = none)
    (hkey : fieldWithKey (typeGet type_id) key = some field)
    (hf : (typeGet type_id).fields[field]? = some f) (hderived : f.flags.derived = false)
    (hv : GroupFills type_id field f b q q' v) :
    MembersHold type_id b p q' (ms ++ (ms' ++ [(key, v)])) := by
  obtain ⟨ws, hheap, hws⟩ := h.heap
  obtain ⟨ws', hheap', hws'⟩ := hv.given hf
  have hle := h.le
  refine ⟨hv.memory, hle.trans hv.le, ⟨ws ++ ws', ?_, fun w hw => ?_⟩, fun g fg u hg hlast => ?_⟩
  · rw [hheap', hheap, List.append_assoc]
  · rcases List.mem_append.mp hw with hw | hw
    · exact (hws w hw).mono .inl le_rfl hv.le
    · exact (hws' w hw).mono .inl hle le_rfl
  · rw [lastMember_append hms' hkey] at hlast
    split at hlast
    next heq =>
      subst heq
      cases hlast
      rw [hf] at hg
      cases hg
      exact hv.kept.mono fun w hw => hw.imp_right fun hw => ⟨hle.trans hw.1, hw.2⟩
    next hne =>
      obtain ⟨ws'', hheap'', hws''⟩ := hv.heap
      have hgderived := lastMember_derived hlast hg
      rw [hheap'']
      refine ((h.kept g fg u hg hlast).append fun w hw => ?_).mono fun w hw =>
        hw.imp_right fun hw => ⟨hw.1, hw.2.trans_le hv.le⟩
      -- what is written now belongs to another field
      have happart : ∀ d ∈ f :: derivedFields (typeGet type_id) field,
          ∀ d' ∈ fg :: derivedFields (typeGet type_id) g,
            d.offset + extent d.type d.flags ≤ d'.offset ∨
              d'.offset + extent d'.type d'.flags ≤ d.offset := by
        intro d hd d' hd'
        rcases Nat.lt_or_gt_of_ne hne with hlt | hlt
        · exact .inr (groups_apart hlt hg hf hderived d' hd' d hd)
        · exact .inl (groups_apart hlt hf hg hgderived d hd d' hd')
      rintro (⟨d', hd', hreaches⟩ | ⟨hlo, hhi⟩)
      · rcases hws'' w hw with ⟨d, hd, hinside⟩ | hnew
        · refine hinside.not_reaches (fun _ => ?_) hreaches
          have := happart d hd d' hd'
          simp only [Ptr.add]
          omega
        · have hblock : w.ptr.block = b.block := hreaches.1
          omega
      · rcases hws'' w hw with ⟨d, hd, hinside⟩ | hnew
        · have hblock : w.ptr.block = b.block := hinside.1
          omega
        · omega

/-- Members that the type does not have. -/
theorem MembersHold.skip {b : Ptr} {p q : ParseState} {ms ms' : List (Bytes × Json)}
    (h : MembersHold type_id b p q ms)
    (hms' : ∀ m ∈ ms', fieldWithKey (typeGet type_id) m.1 = none) :
    MembersHold type_id b p q (ms ++ ms') := by
  refine ⟨h.memory, h.le, h.heap, fun field f v hf hlast => h.kept field f v hf ?_⟩
  rw [← hlast, lastMember_skip _ hms']

theorem parseRecord_decodes (hparse : ParseDecodes parse)
    (hshape : shape type_id type_flags = .record) :
    Decodes type_id type_flags base (parseRecord parse n type_id base) := by
  intro p p' h
  have hplain : Plain type_id type_flags := ⟨.inr (.inr hshape)⟩
  obtain ⟨⟨i, p₁⟩, hloop, hrun⟩ := bind_eq_ok_iff.mp h
  cases hrun
  obtain ⟨ms, hms, htype, hholds⟩ := forLoop_items ParseState.toks objTokens
    (fun _ ms q => (∀ m ∈ ms, ∀ field f, fieldWithKey (typeGet type_id) m.1 = some field →
        (typeGet type_id).fields[field]? = some f → HasType f.type f.flags m.2) ∧
      ∀ b, base = some b → Ready p b → MembersHold type_id b p q ms)
    (fun _ ms q => (∀ m ∈ ms, ∀ field f, fieldWithKey (typeGet type_id) m.1 = some field →
        (typeGet type_id).fields[field]? = some f → HasType f.type f.flags m.2) ∧
      ∀ b, base = some b → Ready p b → MembersHold type_id b p q ms)
    (fun i ms q q' hnext hI => by
      obtain ⟨hguard, hq'⟩ := onTokens_ok hnext
      obtain ⟨ms', hother, hend, -⟩ := parseLoopfields_ok hguard
      refine ⟨ms', hend rfl, List.forall_mem_append.mpr ⟨hI.1, fun m hm field f hfield => ?_⟩,
        fun b hb hready => ?_⟩
      · rw [hother m hm] at hfield
        cases hfield
      · have hskip := (hI.2 b hb hready).skip hother
        rw [hq']
        exact ⟨hskip.memory, hskip.le, hskip.heap, hskip.kept⟩)
    (fun i ms field q q₁ q₂ hnext hbody hI => by
      obtain ⟨hguard, hq₁⟩ := onTokens_ok hnext
      obtain ⟨ms', hother, -, hfield⟩ := parseLoopfields_ok hguard
      obtain ⟨key, hkey, htoks⟩ := hfield field rfl
      obtain ⟨f, hf, hderived, -⟩ := fieldWithKey_spec hkey
      rw [parseField, hf] at hbody
      obtain ⟨q₃, hrun, hbody⟩ := bind_eq_ok_iff.mp hbody
      cases hbody
      obtain ⟨j, hj, hjtype, hjholds⟩ := hparse f.type f.flags _
        (fields_fit type_id f (List.mem_of_getElem? hf)).expected q₁ q₃ hrun
      refine ⟨ms' ++ [(key, j)], fun ms'' rest hrest => ?_, ?_, fun b hb hready => ?_⟩
      · rw [List.append_assoc]
        refine htoks j ms'' rest (hj.trans (congrArg j.tokens ?_))
        rw [← parseDoderived_toks q₃ (typeGet type_id) field base]
        exact hrest
      · refine List.forall_mem_append.mpr ⟨hI.1, List.forall_mem_append.mpr ⟨?_, ?_⟩⟩
        · intro m hm field f hfield
          rw [hother m hm] at hfield
          cases hfield
        · intro m hm field' f' hfield' hf'
          rw [List.mem_singleton.mp hm] at hfield' ⊢
          rw [hkey] at hfield'
          cases hfield'
          rw [hf] at hf'
          cases hf'
          exact hjtype
      · have hmembers := hI.2 b hb hready
        subst hb
        rw [hq₁] at hjholds
        obtain ⟨hfills, hnotes⟩ := hjholds (b.add f.offset) rfl
          ⟨hmembers.memory, hready.2.trans_le hmembers.le⟩
        have hfills' : Fills (b.add f.offset) (extent f.type f.flags) q q₃ _ :=
          ⟨hfills.memory, hfills.le, hfills.heap, hfills.kept⟩
        exact hmembers.step hready.2 hother hkey hf hderived
          (hfills'.doderived hf hderived (hready.2.trans_le hmembers.le) hnotes))
    n 0 [] p (i, p₁) hloop ⟨by simp, fun b hb hready => ⟨hready.1, le_rfl,
      ⟨[], (List.append_nil _).symm, by simp⟩, fun field f v _ hlast => by cases hlast⟩⟩
  rw [List.nil_append] at htype hholds
  have htype' : HasType type_id type_flags (.obj ms) := .record ms hshape htype
  refine ⟨.obj ms, hms, htype', fun b hb hready => ?_⟩
  have hmembers := hholds b hb hready
  rw [hplain.extent]
  refine ⟨⟨hmembers.memory, hmembers.le, hmembers.heap, fun later hlater => ?_⟩,
    hplain.notes htype' _⟩
  have hall (field : Nat) (f : Field) (v : Json) (hf : (typeGet type_id).fields[field]? = some f)
      (hlast : lastMember (typeGet type_id) ms field = some v) :=
    hmembers.kept field f v hf hlast later fun w hw hdisturbs => by
      refine hlater w hw (hdisturbs.imp_left ?_)
      rintro ⟨d, hd, hreaches⟩
      have := (fields_fit type_id d (group_subset hf d hd)).inside
      have hlt := hreaches.2
      simp only [Ptr.add] at hlt
      exact ⟨hreaches.1, by omega, by omega⟩
  exact .record hshape (fun field f v hf hlast => (hall field f v hf hlast).1)
    fun field f v hf hlast => (hall field f v hf hlast).2

end Cases

/-- **The parser decodes**, with any fuel: a call that succeeds has read a value of its type, and
the memory, if there is one, holds it afterwards. One lemma for each case of the parser, under the
assumption that the calls for the values inside decode. -/
theorem parseHelper_decodes (n : Nat) : ParseDecodes (parseHelper n) := by
  induction n with
  | zero =>
    intro type_id type_flags base _ p p' h
    cases h
  | succ n ih =>
    intro type_id type_flags base hexp p p' h
    rw [parseHelper_succ] at h
    cases hshape : shape type_id type_flags with
    | maybe =>
      rw [hshape] at h
      exact parseMaybe_decodes ih hexp hshape p p' h
    | string =>
      rw [hshape] at h
      exact parseString_decodes hshape p p' h
    | array =>
      rw [hshape] at h
      exact parseArray_decodes ih hshape p p' h
    | inline =>
      rw [hshape] at h
      exact parseInline_decodes ih hshape p p' h
    | primitive =>
      rw [hshape] at h
      exact parsePrimitive_decodes hshape p p' h
    | record =>
      rw [hshape] at h
      exact parseRecord_decodes ih hshape p p' h
    | none =>
      rw [hshape] at h
      cases h

/-! ## Messages -/

/-- A value of the type is accepted. -/
theorem firstPass_accepts {type_id : TypeId} (copy_strings : Bool) {j : Json}
    (hj : HasType type_id {} j) :
    ∃ p, firstPass type_id copy_strings (j.tokens [.eof]) = .ok p := by
  obtain ⟨p₁, halloc, hp₁, htoks⟩ := parseAlloc_first
    (p := startState copy_strings (j.tokens [.eof])) rfl (typeGet type_id).size
    (typeGet type_id).alignment
  have hrank := (rank_bounds type_id {}).2
  obtain ⟨p₂, hrun, -, hrest⟩ := parseHelper_accepts (parseFuel (j.tokens [.eof])) hj hp₁ htoks
    (by rw [htoks]; exact Nat.add_le_add_left hrank _)
  have hend : jsonMatch .EOF p₂.toks = .ok (.eof, []) := by
    rw [hrest]
    exact jsonMatch_cons rfl []
  exact ⟨p₂, bind_eq_ok_iff.mpr ⟨(none, p₁), halloc, bind_eq_ok_iff.mpr ⟨p₂, hrun,
    bind_eq_ok_iff.mpr ⟨_, hend, rfl⟩⟩⟩⟩

theorem Closed.tail {tok : JsonToken Bytes} {toks : Tokens} (h : Closed (tok :: toks))
    (htok : tok ≠ .eof) : Closed toks := by
  rwa [Closed, if_neg htok] at h

theorem Closed.arrTokens {js : List Json}
    (h : ∀ j ∈ js, ∀ rest, Closed (j.tokens rest) → Closed rest) :
    ∀ (i : Nat) {rest : Tokens}, Closed (arrTokens i js rest) → Closed rest := by
  induction js with
  | nil =>
    intro i rest hclosed
    cases i with
    | zero => exact (hclosed.tail (by decide)).tail (by decide)
    | succ i => exact hclosed.tail (by decide)
  | cons j js ih =>
    intro i rest hclosed
    have htail : Closed (j.tokens (I3ipc.arrTokens (i + 1) js rest)) := by
      cases i with
      | zero => exact hclosed.tail (by decide)
      | succ i => exact hclosed.tail (by decide)
    exact ih (fun j hj => h j (List.mem_cons_of_mem _ hj)) (i + 1) (h j List.mem_cons_self _ htail)

theorem Closed.objTokens {ms : List (Bytes × Json)}
    (h : ∀ m ∈ ms, ∀ rest, Closed (m.2.tokens rest) → Closed rest) :
    ∀ (i : Nat) {rest : Tokens}, Closed (objTokens i ms rest) → Closed rest := by
  induction ms with
  | nil =>
    intro i rest hclosed
    cases i with
    | zero => exact (hclosed.tail (by decide)).tail (by decide)
    | succ i => exact hclosed.tail (by decide)
  | cons m ms ih =>
    intro i rest hclosed
    have htail : Closed (m.2.tokens (I3ipc.objTokens (i + 1) ms rest)) := by
      cases i with
      | zero => exact ((hclosed.tail (by decide)).tail (by simp)).tail (by decide)
      | succ i => exact ((hclosed.tail (by decide)).tail (by simp)).tail (by decide)
    exact ih (fun m hm => h m (List.mem_cons_of_mem _ hm)) (i + 1) (h m List.mem_cons_self _ htail)

/-- There is no end inside a value. -/
theorem Closed.tokens (j : Json) : ∀ {rest : Tokens}, Closed (j.tokens rest) → Closed rest := by
  induction j with
  | arr js ih => exact fun hclosed => Closed.arrTokens (fun j hj _ => ih j hj) 0 hclosed
  | obj ms ih => exact fun hclosed => Closed.objTokens (fun m hm _ => ih m hm) 0 hclosed
  | _ => exact fun hclosed => hclosed.tail (by simp)

/-- What is accepted is a value of the type, and the memory holds it in the end. -/
theorem parseTokens_holds {type_id : TypeId} (hchar : type_id ≠ .CHAR) {copy_strings : Bool}
    {toks : Tokens} (hclosed : Closed toks) {r : Parsed}
    (h : parseTokens type_id copy_strings toks = .ok r) :
    ∃ j : Json, toks = j.tokens [.eof] ∧ HasType type_id {} j ∧
      Holds r.heap type_id {} ⟨0, 0⟩ j := by
  have hexp : Expected type_id {} := ⟨fun h => absurd h hchar, by simp⟩
  obtain ⟨p, hfirst, hrun⟩ := bind_eq_ok_iff.mp h
  -- the first pass ends at the end of the message
  obtain ⟨j, hj, htype⟩ : ∃ j : Json, toks = j.tokens [.eof] ∧ HasType type_id {} j := by
    obtain ⟨⟨base, p₁⟩, halloc, hrest⟩ := bind_eq_ok_iff.mp hfirst
    obtain ⟨p₂, hparse, hrest⟩ := bind_eq_ok_iff.mp hrest
    obtain ⟨⟨tok, rest⟩, hend, -⟩ := bind_eq_ok_iff.mp hrest
    obtain ⟨htoks, htok⟩ := jsonMatch_ok hend
    obtain ⟨j, hj, htype, -⟩ := parseHelper_decodes _ type_id {} none hexp p₁ p₂ hparse
    have hp₁ := parseAlloc_toks halloc
    have heof : tok = .eof := by cases tok <;> simp_all [JsonToken.type]
    rw [hp₁, htoks, heof] at hj
    have hj : toks = j.tokens (.eof :: rest) := hj
    refine ⟨j, ?_, htype⟩
    rw [hj] at hclosed
    have hrest : rest = [] := by
      have hclosed := Closed.tokens j hclosed
      rwa [Closed, if_pos rfl] at hclosed
    rw [hj, hrest]
  obtain ⟨⟨base, q₁⟩, halloc, hrun⟩ := bind_eq_ok_iff.mp hrun
  obtain ⟨q₂, hparse, hrun⟩ := bind_eq_ok_iff.mp hrun
  cases hrun
  obtain ⟨rfl, rfl⟩ := parseAlloc_second rfl halloc
  obtain ⟨j', hj', -, hholds⟩ := parseHelper_decodes _ type_id {} _ hexp _ q₂ hparse
  obtain ⟨rfl, -⟩ := Json.tokens_injective (hj.symm.trans hj')
  exact ⟨j, hj, htype, (hholds _ rfl ⟨rfl, Nat.zero_lt_one⟩).1.kept.now⟩

theorem parseText_accepts {type_id : TypeId} (hchar : type_id ≠ .CHAR) (copy_strings : Bool)
    {text : Bytes} {j : Json} (hscan : scanTokens text = .ok (j.tokens [.eof]))
    (hj : HasType type_id {} j) :
    ∃ r, parseText type_id copy_strings text = .ok r ∧ Holds r.heap type_id {} ⟨0, 0⟩ j := by
  obtain ⟨p, hp⟩ := firstPass_accepts copy_strings hj
  obtain ⟨-, r, hr, -⟩ := parseTokens_eq_ok hchar hp
  obtain ⟨j', hj', -, hholds⟩ := parseTokens_holds hchar (scanTokensLoop_closed hscan) hr
  obtain ⟨rfl, -⟩ := Json.tokens_injective hj'
  exact ⟨r, by rw [parseText, hscan]; exact hr, hholds⟩

end I3ipc

end Photonbar
