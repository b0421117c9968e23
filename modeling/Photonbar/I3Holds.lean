import Photonbar.I3Memory
import Photonbar.I3Values

/-!
# What the memory of a message holds (`i3ipc.h`)

The memory is the log of the second pass: of the bytes of a field, the last write counts
(`Stored`). `Holds` says what it means that the memory at a place holds a value of JSON, along the
type that is read there: pointers lead to values, arrays to their elements, and a struct has in
each of its fields the value of the last member with that key. `Fills` is what a pass does that
makes the memory hold something; the derived fields behind a field are filled from what its value
has left behind.

The first section is about any log of writes. A property of the log has a footprint, the writes
that can disturb it: it is `Kept` if it holds and goes on to hold whatever else is written. Then
properties with different footprints can be established one after another. What a value leaves in
the memory is kept in this sense, with the bytes it was given and the allocations it has made as
its footprint (`Disturbs`), and so a struct is filled field by field, an array element by element.
-/

namespace Photonbar

/-! ## Logs and footprints -/

namespace Log

universe u

variable {ω : Type u} {F F' : ω → Prop} {P P' : List ω → Prop} {log ws : List ω} {w : ω}

/-- `P` holds, and nothing outside `F` that is written later changes it. -/
def Kept (F : ω → Prop) (P : List ω → Prop) (log : List ω) : Prop :=
  ∀ later, (∀ w ∈ later, ¬ F w) → P (log ++ later)

theorem Kept.now (h : Kept F P log) : P log := by
  have hnil := h [] (by simp)
  rwa [List.append_nil] at hnil

theorem Kept.append (h : Kept F P log) (hws : ∀ w ∈ ws, ¬ F w) : Kept F P (log ++ ws) := by
  intro later hlater
  rw [List.append_assoc]
  exact h (ws ++ later) (List.forall_mem_append.mpr ⟨hws, hlater⟩)

theorem Kept.mono (h : Kept F P log) (hF : ∀ w, F w → F' w) : Kept F' P log :=
  fun later hlater => h later fun w hw hFw => hlater w hw (hF w hFw)

theorem Kept.imp (h : Kept F P log) (hP : ∀ log, P log → P' log) : Kept F P' log :=
  fun later hlater => hP _ (h later hlater)

theorem Kept.and (h : Kept F P log) (h' : Kept F P' log) :
    Kept F (fun log => P log ∧ P' log) log :=
  fun later hlater => ⟨h later hlater, h' later hlater⟩

/-- `w` is the last write with the property. -/
def Last (F : ω → Prop) (w : ω) (log : List ω) : Prop :=
  ∃ before after, log = before ++ w :: after ∧ ∀ w' ∈ after, ¬ F w'

/-- A write is the last one until another one disturbs it. -/
theorem Last.kept (F : ω → Prop) (w : ω) (log : List ω) : Kept F (Last F w) (log ++ [w]) := by
  intro later hlater
  exact ⟨log, later, by rw [List.append_assoc, List.singleton_append], hlater⟩

/-- The last write is found from the end. -/
theorem Last.find?_eq [DecidablePred F] (h : Last F w log) (hw : F w) :
    log.reverse.find? (fun w => decide (F w)) = some w := by
  obtain ⟨before, after, rfl, hafter⟩ := h
  rw [List.reverse_append, List.reverse_cons, List.append_assoc, List.find?_append,
    List.find?_eq_none.mpr fun w' hw' => by simpa using hafter w' (List.mem_reverse.mp hw')]
  simp [hw]

end Log

namespace I3ipc

/-! ## Reading the memory -/

/-- The write reaches one of these bytes. -/
def Reaches (q : Ptr) (n : Nat) (w : Write) : Prop :=
  w.ptr.block = q.block ∧ w.ptr.offset < q.offset + n ∧ q.offset < w.ptr.offset + w.size

instance (q : Ptr) (n : Nat) : DecidablePred (Reaches q n) :=
  fun _ => inferInstanceAs (Decidable (_ ∧ _))

/-- The bytes have been written as one cell, and not been touched since. -/
def Stored (heap : List Write) (q : Ptr) (n : Nat) (cell : Cell) : Prop :=
  Log.Last (Reaches q n) ⟨q, n, cell⟩ heap

/-- A text: a pointer to a copy with a NUL, or to the message. -/
def TextAt (heap : List Write) (b : Ptr) (str : Bytes) : Prop :=
  (∃ q, Stored heap b 8 (.ptr (some q)) ∧
    Stored heap q (str.length + 1) (.chars (str ++ [0]))) ∨ Stored heap b 8 (.payload str)

/-! ## Derived fields -/

namespace Json

/-- What a flag is derived from. -/
def isSet : Json → Bool
  | .null => false
  | _ => true

/-- What a size is derived from. -/
def size : Json → Nat
  | .string str => str.length
  | .arr js => js.length
  | _ => 0

/-- What the number of an enumeration is derived from. -/
def enum : Json → Option Bytes
  | .string str => some str
  | _ => none

end Json

/-- The fields that are derived from a field. -/
def derivedFields (type : TypeInfo) (field : Nat) : List Field :=
  (type.fields.drop (field + 1)).takeWhile (·.flags.derived)

/-- What is stored in a derived field, and its size. -/
def derivedCell (f0 d : Field) (j : Json) : Option (Nat × Cell) :=
  if d.flags.ISSIZE then some (4, .int (Int32.ofNat j.size))
  else if d.flags.ISFLAG then some (1, .bool j.isSet)
  else (globalEnums.lookup f0.full_name).map fun values => (4, .int (enumValue values j.enum))

/-- The derived fields of a field belong to this value. -/
def DerivedAt (heap : List Write) (f0 : Field) (ds : List Field) (b : Ptr) (j : Json) : Prop :=
  ∀ d ∈ ds, ∀ n cell, derivedCell f0 d j = some (n, cell) → Stored heap (b.add d.offset) n cell

/-! ## What the memory holds -/

/-- The value of the last member with the key of a field. -/
def lastMember (type : TypeInfo) (ms : List (Bytes × Json)) (field : Nat) : Option Json :=
  (ms.reverse.find? fun m => fieldWithKey type m.1 = some field).map (·.2)

/-- **The memory at `b` holds a value.** Of a null nothing is said: it leaves the memory as it is. -/
inductive Holds (heap : List Write) : TypeId → TypeFlags → Ptr → Json → Prop where
  | null {type_id type_flags b} (h : shape type_id type_flags = .maybe) :
    Holds heap type_id type_flags b .null
  | pointer {type_id type_flags b j q} (h : shape type_id type_flags = .maybe)
    (hptr : type_flags.ISPTR = true) (hq : Stored heap b 8 (.ptr (some q)))
    (hj : Holds heap type_id type_flags.withoutMaybe q j) : Holds heap type_id type_flags b j
  | optional {type_id type_flags b j} (h : shape type_id type_flags = .maybe)
    (hptr : type_flags.ISPTR = false) (hj : Holds heap type_id type_flags.withoutMaybe b j) :
    Holds heap type_id type_flags b j
  | string {type_id type_flags b str} (h : shape type_id type_flags = .string)
    (htext : TextAt heap b str)
    (hsize : type_id = .STRING → Stored heap (b.add 8) 4 (.int (Int32.ofNat str.length))) :
    Holds heap type_id type_flags b (.string str)
  | array {type_id type_flags b js q} (h : shape type_id type_flags = .array)
    (hq : Stored heap b 8 (.ptr (some q)))
    (hjs : ∀ i j, js[i]? = some j → Holds heap type_id {} (q.add (i * (typeGet type_id).size)) j) :
    Holds heap type_id type_flags b (.arr js)
  | inline {type_id type_flags b j f} (h : shape type_id type_flags = .inline)
    (hf : (typeGet type_id).fields.head? = some f)
    (hj : Holds heap f.type f.flags (b.add f.offset) j)
    (hderived : DerivedAt heap f (derivedFields (typeGet type_id) 0) b j) :
    Holds heap type_id type_flags b j
  | bool {type_id type_flags b flag} (h : shape type_id type_flags = .primitive)
    (htype : type_id = .BOOL) (hcell : Stored heap b 1 (.bool flag)) :
    Holds heap type_id type_flags b (.bool flag)
  | number {type_id type_flags b c k n cell} (h : shape type_id type_flags = .primitive)
    (hnumber : primitiveCell type_id (.number c k) = some (n, cell)) (hcell : Stored heap b n cell) :
    Holds heap type_id type_flags b (.number c k)
  | record {type_id type_flags b ms} (h : shape type_id type_flags = .record)
    (hfields : ∀ field f v, (typeGet type_id).fields[field]? = some f →
      lastMember (typeGet type_id) ms field = some v →
        Holds heap f.type f.flags (b.add f.offset) v)
    (hderived : ∀ field f v, (typeGet type_id).fields[field]? = some f →
      lastMember (typeGet type_id) ms field = some v →
        DerivedAt heap f (derivedFields (typeGet type_id) field) b v) :
    Holds heap type_id type_flags b (.obj ms)

/-! ## Writing -/

/-- What is written: the `n` bytes from `b` on, and the allocations from `lo` up to `hi`. -/
def Given (b : Ptr) (n lo hi : Nat) (w : Write) : Prop :=
  Inside b n w ∨ (lo ≤ w.ptr.block ∧ w.ptr.block < hi)

/-- What would disturb that. -/
def Disturbs (b : Ptr) (n lo hi : Nat) (w : Write) : Prop :=
  Reaches b n w ∨ (lo ≤ w.ptr.block ∧ w.ptr.block < hi)

/-- From `p` to `p'`, the `n` bytes from `b` on have been filled such that `P` holds of the memory,
until they or the allocations that have been made for them are disturbed. -/
structure Fills (b : Ptr) (n : Nat) (p p' : ParseState) (P : List Write → Prop) : Prop where
  memory : p'.memory = true
  le : p.allocs_size ≤ p'.allocs_size
  heap : ∃ ws, p'.heap = p.heap ++ ws ∧ ∀ w ∈ ws, Given b n p.allocs_size p'.allocs_size w
  kept : Log.Kept (Disturbs b n p.allocs_size p'.allocs_size) P p'.heap

theorem Given.mono {b b' : Ptr} {n n' lo lo' hi hi' : Nat} {w : Write} (h : Given b n lo hi w)
    (hinside : Inside b n w → Given b' n' lo' hi' w) (hlo : lo' ≤ lo) (hhi : hi ≤ hi') :
    Given b' n' lo' hi' w := by
  rcases h with h | h
  · exact hinside h
  · exact .inr ⟨hlo.trans h.1, h.2.trans_le hhi⟩

/-- Bytes of the same allocation that do not overlap, or of another one, are not reached. -/
theorem Inside.not_reaches {b b' : Ptr} {n n' : Nat} {w : Write} (h : Inside b n w)
    (happart : b.block = b'.block → b.offset + n ≤ b'.offset ∨ b'.offset + n' ≤ b.offset) :
    ¬ Reaches b' n' w := by
  rintro ⟨hblock, hlt, hlt'⟩
  obtain ⟨hblock', hle, hle'⟩ := h
  have := happart (hblock'.symm.trans hblock)
  omega

/-- What is written later, elsewhere, disturbs nothing. -/
theorem Given.not_disturbs {b b' : Ptr} {n n' lo lo' hi hi' : Nat} {w : Write}
    (h : Given b n lo hi w) (hb : b.block < lo') (hb' : b'.block < lo) (hhi : hi' ≤ lo)
    (happart : b.block = b'.block → b.offset + n ≤ b'.offset ∨ b'.offset + n' ≤ b.offset) :
    ¬ Disturbs b' n' lo' hi' w := by
  rintro (hreaches | ⟨hlo', hhi'⟩)
  · rcases h with h | h
    · exact h.not_reaches happart hreaches
    · have := hreaches.1
      omega
  · rcases h with h | h
    · have := h.1
      omega
    · omega

theorem Stored.kept (heap : List Write) (b : Ptr) (offset n : Nat) (cell : Cell) :
    Log.Kept (Reaches (b.add offset) n) (fun heap => Stored heap (b.add offset) n cell)
      (heap ++ [⟨b.add offset, n, cell⟩]) :=
  Log.Last.kept _ _ _

/-! ## Derived fields are filled -/

/-- What a value leaves behind for the derived fields of its field. -/
structure Notes (type_id : TypeId) (type_flags : TypeFlags) (j : Json) (p : ParseState) : Prop where
  set : p.next_set = j.isSet
  size : type_flags.ISARRAY = true → p.next_size = j.size
  enum : isStringType type_id type_flags.withoutMaybe = true → p.next_enum = j.enum

/-- Only arrays have a size, and only strings are values of an enumeration. -/
def Field.Derives (f0 d : Field) : Prop :=
  (d.flags.ISSIZE = true → f0.flags.ISARRAY = true) ∧
    (d.flags.ISSIZE = false → d.flags.ISFLAG = false →
      isStringType f0.type f0.flags.withoutMaybe = true)

instance (f0 d : Field) : Decidable (f0.Derives d) := inferInstanceAs (Decidable (_ ∧ _))

/-- A field that has a key determines the derived ones behind it. -/
theorem fields_derive (type_id : TypeId) :
    ∀ i < (typeGet type_id).fields.length, ∀ f ∈ (typeGet type_id).fields[i]?,
      f.flags.derived = false → ∀ d ∈ derivedFields (typeGet type_id) i, f.Derives d := by
  cases type_id <;> decide +kernel

theorem doderivedField_eq {f0 d : Field} {j : Json} {p : ParseState} (hd : f0.Derives d)
    (hnotes : Notes f0.type f0.flags j p) (b : Ptr) :
    doderivedField f0 b p d =
      match derivedCell f0 d j with
      | some (n, cell) => p.store (some b) d.offset n cell
      | none => p := by
  rw [doderivedField, derivedCell]
  by_cases hsize : d.flags.ISSIZE = true
  · rw [if_pos hsize, if_pos hsize, hnotes.size (hd.1 hsize)]
  · rw [if_neg hsize, if_neg hsize]
    by_cases hflag : d.flags.ISFLAG = true
    · rw [if_pos hflag, if_pos hflag, hnotes.set]
    · rw [if_neg hflag, if_neg hflag]
      rw [hnotes.enum (hd.2 (by simpa using hsize) (by simpa using hflag))]
      cases globalEnums.lookup f0.full_name with
      | none => rfl
      | some values => rfl

/-- What is derived has the size of its field. -/
theorem derivedCell_extent {f0 d : Field} {j : Json} {size n : Nat} {cell : Cell}
    (hfit : d.Fits size) (hderived : d.flags.derived = true)
    (h : derivedCell f0 d j = some (n, cell)) : extent d.type d.flags = n := by
  obtain ⟨hptr, harray⟩ := hfit.stored hderived
  rw [extent, hptr, harray]
  rw [derivedCell] at h
  split at h
  next hsize =>
    cases h
    rw [hfit.size_int hsize]
    rfl
  next hsize =>
    split at h
    next hflag =>
      cases h
      rw [hfit.flag_bool hflag]
      rfl
    next hflag =>
      have henum : d.flags.ISENUM = true := by
        rw [TypeFlags.derived] at hderived
        simpa [hsize, hflag] using hderived
      obtain ⟨values, -, heq⟩ := Option.map_eq_some_iff.mp h
      cases heq
      rw [hfit.enum_int henum]
      rfl

/-- The loop over the derived fields of a field fills them. -/
theorem doderived_fills {f0 : Field} {j : Json} {b : Ptr} (size : Nat) :
    ∀ {ds : List Field} {p : ParseState},
      (∀ d ∈ ds, d.Fits size ∧ d.flags.derived = true ∧ f0.Derives d) →
      ds.Pairwise (fun d d' => d.offset + extent d.type d.flags ≤ d'.offset) → Notes f0.type f0.flags j p →
      ∃ ws, ds.foldl (doderivedField f0 b) p = { p with heap := p.heap ++ ws } ∧
        (∀ w ∈ ws, ∃ d ∈ ds, Inside (b.add d.offset) (extent d.type d.flags) w) ∧
        Log.Kept (fun w => ∃ d ∈ ds, Reaches (b.add d.offset) (extent d.type d.flags) w)
          (fun heap => DerivedAt heap f0 ds b j) (p.heap ++ ws) := by
  intro ds
  induction ds with
  | nil =>
    intro p _ _ _
    refine ⟨[], ?_, by simp, fun _ _ d hd => absurd hd List.not_mem_nil⟩
    rw [List.append_nil]
    rfl
  | cons d ds ih =>
    intro p hds happart hnotes
    obtain ⟨hfit, hderived, hderives⟩ := hds d List.mem_cons_self
    obtain ⟨happart₁, happart₂⟩ := List.pairwise_cons.mp happart
    rw [List.foldl_cons, doderivedField_eq hderives hnotes]
    have hrest (p : ParseState) (hnotes : Notes f0.type f0.flags j p) :=
      ih (p := p) (fun d hd => hds d (List.mem_cons_of_mem _ hd)) happart₂ hnotes
    cases hcell : derivedCell f0 d j with
    | none =>
      obtain ⟨ws, hfold, hinside, hkept⟩ := hrest p hnotes
      refine ⟨ws, hfold, fun w hw => ?_, fun later hlater d' hd' n cell hd'cell => ?_⟩
      · obtain ⟨d', hd', hw'⟩ := hinside w hw
        exact ⟨d', List.mem_cons_of_mem _ hd', hw'⟩
      · rcases List.mem_cons.mp hd' with rfl | hd'
        · rw [hcell] at hd'cell
          cases hd'cell
        · refine hkept later (fun w hw hreaches => hlater w hw ?_) d' hd' n cell hd'cell
          obtain ⟨d', hd', hw'⟩ := hreaches
          exact ⟨d', List.mem_cons_of_mem _ hd', hw'⟩
    | some r =>
      obtain ⟨n, cell⟩ := r
      dsimp only
      obtain ⟨ws, hfold, hinside, hkept⟩ := hrest (p.store (some b) d.offset n cell)
        ⟨hnotes.set, hnotes.size, hnotes.enum⟩
      have hextent := derivedCell_extent hfit hderived hcell
      have hlog : (p.store (some b) d.offset n cell).heap ++ ws =
          p.heap ++ (⟨b.add d.offset, n, cell⟩ :: ws) := by
        rw [ParseState.store, List.append_assoc, List.singleton_append]
      refine ⟨⟨b.add d.offset, n, cell⟩ :: ws, ?_, fun w hw => ?_,
        fun later hlater d' hd' n' cell' hd'cell => ?_⟩
      · rw [hfold, hlog]
        rfl
      · rcases List.mem_cons.mp hw with rfl | hw
        · exact ⟨d, List.mem_cons_self, rfl, le_rfl, by rw [hextent]⟩
        · obtain ⟨d', hd', hw'⟩ := hinside w hw
          exact ⟨d', List.mem_cons_of_mem _ hd', hw'⟩
      · rw [← hlog]
        rcases List.mem_cons.mp hd' with rfl | hd'
        · rw [hcell] at hd'cell
          cases hd'cell
          -- the other derived fields lie behind this one
          refine Log.Kept.append (Stored.kept p.heap b d'.offset n cell) (fun w hw => ?_) later
            fun w hw hreaches => hlater w hw ⟨d', List.mem_cons_self, hextent ▸ hreaches⟩
          obtain ⟨d'', hd'', hw'⟩ := hinside w hw
          refine hw'.not_reaches fun _ => .inr ?_
          have := happart₁ d'' hd''
          rw [hextent] at this
          simp only [Ptr.add]
          omega
        · refine hkept later (fun w hw hreaches => hlater w hw ?_) d' hd' n' cell' hd'cell
          obtain ⟨d', hd', hw'⟩ := hreaches
          exact ⟨d', List.mem_cons_of_mem _ hd', hw'⟩

/-! ## A field and what is derived from it -/

/-- From `p` to `p'`, a field and the derived ones behind it have been filled. -/
structure GroupFills (type_id : TypeId) (field : Nat) (f : Field) (b : Ptr) (p p' : ParseState)
    (j : Json) : Prop where
  memory : p'.memory = true
  le : p.allocs_size ≤ p'.allocs_size
  heap : ∃ ws, p'.heap = p.heap ++ ws ∧ ∀ w ∈ ws,
    (∃ d ∈ f :: derivedFields (typeGet type_id) field,
      Inside (b.add d.offset) (extent d.type d.flags) w) ∨
      (p.allocs_size ≤ w.ptr.block ∧ w.ptr.block < p'.allocs_size)
  kept : Log.Kept
    (fun w => (∃ d ∈ f :: derivedFields (typeGet type_id) field,
      Reaches (b.add d.offset) (extent d.type d.flags) w) ∨
      (p.allocs_size ≤ w.ptr.block ∧ w.ptr.block < p'.allocs_size))
    (fun heap => Holds heap f.type f.flags (b.add f.offset) j ∧
      DerivedAt heap f (derivedFields (typeGet type_id) field) b j) p'.heap

theorem takeWhile_prefix_take {α : Type} {P : α → Bool} {l : List α} :
    ∀ {n : Nat} {a : α}, l[n]? = some a → P a = false → l.takeWhile P <+: l.take n := by
  induction l with
  | nil => exact fun h => by cases h
  | cons x l ih =>
    intro n a h ha
    cases n with
    | zero =>
      cases h
      rw [List.takeWhile_cons_of_neg (by simp [ha])]
      exact List.nil_prefix
    | succ n =>
      by_cases hx : P x = true
      · rw [List.takeWhile_cons_of_pos hx, List.take_succ_cons]
        exact List.cons_prefix_cons.mpr ⟨rfl, ih h ha⟩
      · rw [List.takeWhile_cons_of_neg hx]
        exact List.nil_prefix

theorem group_pairwise {type_id : TypeId} {field : Nat} {f : Field}
    (hf : (typeGet type_id).fields[field]? = some f) :
    (f :: derivedFields (typeGet type_id) field).Pairwise
      fun f g => f.offset + extent f.type f.flags ≤ g.offset := by
  obtain ⟨hlt, rfl⟩ := List.getElem?_eq_some_iff.mp hf
  refine (fields_apart type_id).sublist (.trans ?_ (List.drop_sublist field _))
  rw [List.drop_eq_getElem_cons hlt, List.cons_sublist_cons]
  exact List.takeWhile_sublist _

theorem group_subset {type_id : TypeId} {field : Nat} {f : Field}
    (hf : (typeGet type_id).fields[field]? = some f) :
    ∀ d ∈ f :: derivedFields (typeGet type_id) field, d ∈ (typeGet type_id).fields := by
  intro d hd
  rcases List.mem_cons.mp hd with rfl | hd
  · exact List.mem_of_getElem? hf
  · exact List.mem_of_mem_drop ((List.takeWhile_sublist _).subset hd)

/-- A field and what is derived from it lie behind another field and what is derived from that. -/
theorem groups_apart {type_id : TypeId} {field field' : Nat} {f f' : Field} (hlt : field < field')
    (hf : (typeGet type_id).fields[field]? = some f)
    (hf' : (typeGet type_id).fields[field']? = some f') (hderived : f'.flags.derived = false) :
    ∀ d ∈ f :: derivedFields (typeGet type_id) field,
      ∀ d' ∈ f' :: derivedFields (typeGet type_id) field',
        d.offset + extent d.type d.flags ≤ d'.offset := by
  have happart := fields_apart type_id
  rw [← List.take_append_drop field' (typeGet type_id).fields, List.pairwise_append] at happart
  intro d hd d' hd'
  refine happart.2.2 d ?_ d' ?_
  · rcases List.mem_cons.mp hd with rfl | hd
    · exact List.mem_of_getElem? ((List.getElem?_take_of_lt hlt).trans hf)
    · have hlast : ((typeGet type_id).fields.drop (field + 1))[field' - (field + 1)]? = some f' := by
        rw [List.getElem?_drop, show field + 1 + (field' - (field + 1)) = field' by omega, hf']
      have hmem := (takeWhile_prefix_take hlast hderived).subset hd
      rw [← List.drop_take] at hmem
      exact List.mem_of_mem_drop hmem
  · obtain ⟨hlt', rfl⟩ := List.getElem?_eq_some_iff.mp hf'
    rw [List.drop_eq_getElem_cons hlt']
    rcases List.mem_cons.mp hd' with rfl | hd'
    · exact List.mem_cons_self
    · exact List.mem_cons_of_mem _ ((List.takeWhile_sublist _).subset hd')

/-- A field is filled, and then what is derived from it. -/
theorem Fills.doderived {type_id : TypeId} {field : Nat} {f : Field} {b : Ptr} {p p' : ParseState}
    {j : Json} (hf : (typeGet type_id).fields[field]? = some f) (hderived : f.flags.derived = false)
    (hb : b.block < p.allocs_size)
    (h : Fills (b.add f.offset) (extent f.type f.flags) p p'
      fun heap => Holds heap f.type f.flags (b.add f.offset) j)
    (hnotes : Notes f.type f.flags j p') :
    GroupFills type_id field f b p (parseDoderived p' (typeGet type_id) field (some b)) j := by
  have hlt := (List.getElem?_eq_some_iff.mp hf).1
  obtain ⟨happart₁, happart₂⟩ := List.pairwise_cons.mp (group_pairwise hf)
  obtain ⟨ws, hfold, hinside, hkept⟩ := doderived_fills (b := b)
    (typeGet type_id).size (fun d hd =>
      ⟨fields_fit type_id d (group_subset hf d (List.mem_cons_of_mem _ hd)),
        List.mem_takeWhile_imp (p := fun f : Field => f.flags.derived) hd,
        fields_derive type_id field hlt f hf hderived d hd⟩) happart₂ hnotes
  have hrun : parseDoderived p' (typeGet type_id) field (some b) =
      { p' with heap := p'.heap ++ ws } := by
    rw [← hfold, parseDoderived, hf]
    rfl
  rw [hrun]
  obtain ⟨ws', hheap, hgiven⟩ := h.heap
  have hwrites : ∀ w ∈ ws, ¬ Disturbs (b.add f.offset) (extent f.type f.flags) p.allocs_size
      p'.allocs_size w := by
    intro w hw
    obtain ⟨d, hd, hw'⟩ := hinside w hw
    rintro (hreaches | ⟨hle, -⟩)
    · have := happart₁ d hd
      exact hw'.not_reaches (fun _ => .inr (by simp only [Ptr.add]; omega)) hreaches
    · have hblock : w.ptr.block = b.block := hw'.1
      omega
  refine ⟨h.memory, h.le, ⟨ws' ++ ws, ?_, fun w hw => ?_⟩, ?_⟩
  · rw [hheap, List.append_assoc]
  · rcases List.mem_append.mp hw with hw | hw
    · exact (hgiven w hw).imp_left fun hw => ⟨f, List.mem_cons_self, hw⟩
    · obtain ⟨d, hd, hw'⟩ := hinside w hw
      exact .inl ⟨d, List.mem_cons_of_mem _ hd, hw'⟩
  · refine ((h.kept.append hwrites).mono fun w hw => ?_).and (hkept.mono fun w hw => ?_)
    · exact hw.imp_left fun hw => ⟨f, List.mem_cons_self, hw⟩
    · obtain ⟨d, hd, hw⟩ := hw
      exact .inl ⟨d, List.mem_cons_of_mem _ hd, hw⟩

/-- A group lies inside its type. -/
theorem GroupFills.given {type_id : TypeId} {field : Nat} {f : Field} {b : Ptr} {p p' : ParseState}
    {j : Json} (hf : (typeGet type_id).fields[field]? = some f)
    (h : GroupFills type_id field f b p p' j) : ∃ ws, p'.heap = p.heap ++ ws ∧
      ∀ w ∈ ws, Given b (typeGet type_id).size p.allocs_size p'.allocs_size w := by
  obtain ⟨ws, hheap, hws⟩ := h.heap
  refine ⟨ws, hheap, fun w hw => (hws w hw).imp_left ?_⟩
  rintro ⟨d, hd, hinside⟩
  exact hinside.add (fields_fit type_id d (group_subset hf d hd)).inside

end I3ipc

end Photonbar
