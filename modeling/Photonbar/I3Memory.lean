import Photonbar.I3Passes

/-!
# The memory of a message (`i3ipc.h`)

Between the two passes, `i3ipc_parse_try` lays the allocations out one behind another, each at a
multiple of its alignment, and allocates the sum of it at once. `parsePayload` is the parser from
the payload on, and `parseTokens` from the tokens on. The second pass succeeds whenever the first
one does, and never writes outside of that memory (`parseTokens_eq_ok`), whatever the payload is
(`parsePayload_safe`).

An address is the place of an allocation and an offset in it. Places go up, and each allocation
ends where the next one begins or before (`layout_apart`), so that a write inside its allocation is
a write inside the memory, and writes into two allocations do not touch. That writes stay inside
their allocations is what the passes agree on.

Sizes are natural numbers: of a message, which has at most 256 MiB, they are far from `SIZE_MAX`.
-/

namespace Photonbar

namespace I3ipc

/-! ## Layout -/

/-- The loop that fixes the alignment: the places of the allocations from `off` on, and the end. -/
def layout : Nat → List Alloc → List Nat × Nat
  | off, [] => ([], off)
  | off, a :: allocs =>
    let off := alignUp off a.alignment
    let (offs, total_size) := layout (off + a.size) allocs
    (off :: offs, total_size)

theorem le_alignUp (off : Nat) {alignment : Nat} (h : 0 < alignment) :
    off ≤ alignUp off alignment := by
  have := Nat.div_add_mod (off + (alignment - 1)) alignment
  have hmod := Nat.mod_lt (off + (alignment - 1)) h
  rw [alignUp, Nat.mul_comm]
  omega

theorem layout_le {allocs : List Alloc} (h : ∀ a ∈ allocs, 0 < a.alignment) :
    ∀ off, off ≤ (layout off allocs).2 := by
  induction allocs with
  | nil => exact fun off => le_rfl
  | cons a allocs ih =>
    intro off
    have hrest := ih (fun a ha => h a (List.mem_cons_of_mem _ ha))
      (alignUp off a.alignment + a.size)
    have hle := le_alignUp off (h a List.mem_cons_self)
    rw [layout]
    dsimp only
    omega

theorem layout_length (allocs : List Alloc) : ∀ off, (layout off allocs).1.length = allocs.length := by
  induction allocs with
  | nil => exact fun _ => rfl
  | cons a allocs ih => exact fun off => congrArg Nat.succ (ih _)

/-- An allocation lies behind the ones in front of it, at a multiple of its alignment, and before the
end. -/
theorem layout_getElem? {allocs : List Alloc} (h : ∀ a ∈ allocs, 0 < a.alignment) :
    ∀ (off : Nat) {k : Nat} {a : Alloc}, allocs[k]? = some a →
      ∃ adr, (layout off allocs).1[k]? = some adr ∧ off ≤ adr ∧ a.alignment ∣ adr ∧
        adr + a.size ≤ (layout off allocs).2 := by
  induction allocs with
  | nil => exact fun _ _ _ hk => by cases hk
  | cons a' allocs ih =>
    intro off k a hk
    have hrest : ∀ a ∈ allocs, 0 < a.alignment := fun a ha => h a (List.mem_cons_of_mem _ ha)
    have hle := le_alignUp off (h a' List.mem_cons_self)
    cases k with
    | zero =>
      cases hk
      exact ⟨_, rfl, hle, Dvd.intro_left _ rfl, layout_le hrest _⟩
    | succ k =>
      obtain ⟨adr, hadr, hoff, hdvd, hend⟩ := ih hrest (alignUp off a'.alignment + a'.size) hk
      exact ⟨adr, hadr, by omega, hdvd, hend⟩

/-- Two allocations do not overlap. -/
theorem layout_apart {allocs : List Alloc} (h : ∀ a ∈ allocs, 0 < a.alignment) :
    ∀ (off : Nat) {i j : Nat} {a : Alloc} {adr adr' : Nat}, i < j → allocs[i]? = some a →
      (layout off allocs).1[i]? = some adr → (layout off allocs).1[j]? = some adr' →
      adr + a.size ≤ adr' := by
  induction allocs with
  | nil => exact fun _ _ _ _ _ _ _ hi => by cases hi
  | cons a' allocs ih =>
    intro off i j a adr adr' hij hi hadr hadr'
    have hrest : ∀ a ∈ allocs, 0 < a.alignment := fun a ha => h a (List.mem_cons_of_mem _ ha)
    obtain ⟨j, rfl⟩ := Nat.exists_eq_succ_of_ne_zero (Nat.ne_zero_of_lt hij)
    cases i with
    | zero =>
      cases hi
      cases hadr
      have hlt : j < allocs.length := by
        rw [← layout_length allocs (alignUp off a'.alignment + a'.size)]
        exact Nat.lt_of_succ_lt_succ (List.getElem?_eq_some_iff.mp hadr').1
      obtain ⟨adr₂, hadr₂, hle, -⟩ := layout_getElem? hrest
        (alignUp off a'.alignment + a'.size) (List.getElem?_eq_getElem hlt)
      rw [show (layout off (a' :: allocs)).1[j + 1]? =
        (layout (alignUp off a'.alignment + a'.size) allocs).1[j]? from rfl, hadr₂] at hadr'
      cases hadr'
      exact hle
    | succ i => exact ih hrest _ (Nat.lt_of_succ_lt_succ hij) hi hadr hadr'

/-! ## The parser from the tokens on -/

/-- What `i3ipc_parse_try` has made: the writes, the places of the allocations, and the size of all
memory. The result is the first allocation. -/
structure Parsed where
  heap : List Write
  offsets : List Nat
  total_size : Nat

/-- The address of a pointer, relative to `memory`. -/
def Parsed.address (r : Parsed) (q : Ptr) : Option Nat := r.offsets[q.block]?.map (· + q.offset)

/-- Enough fuel for these tokens. -/
def parseFuel (toks : Tokens) : Nat := 3 * toks.length + 5

/-- The state in front of the first pass. -/
def startState (copy_strings : Bool) (toks : Tokens) : ParseState :=
  { toks, allocs := [], allocs_size := 0, memory := false, copy_strings, heap := [], next_size := 0,
    next_enum := none, next_set := false }

/-- The first pass, up to the end of the message. -/
def firstPass (type_id : TypeId) (copy_strings : Bool) (toks : Tokens) :
    Except ParseStop ParseState := do
  let (_, p) ← parseAlloc (startState copy_strings toks) (typeGet type_id).size
    (typeGet type_id).alignment
  let p ← parseHelper (parseFuel toks) type_id {} none p
  let _ ← jsonMatch .EOF p.toks
  return p

/-- `i3ipc_parse_try` from the tokens on. The memory is zero at first. -/
def parseTokens (type_id : TypeId) (copy_strings : Bool) (toks : Tokens) :
    Except ParseStop Parsed := do
  let p ← firstPass type_id copy_strings toks
  let (offsets, total_size) := layout 0 p.allocs
  let (base, p) ← parseAlloc { p with memory := true, allocs_size := 0, heap := [], toks }
    (typeGet type_id).size (typeGet type_id).alignment
  let p ← parseHelper (parseFuel toks) type_id {} base p
  return ⟨p.heap, offsets, total_size⟩

/-- What the first pass gives, it gives to the second one too. -/
theorem parseTokens_eq_ok {type_id : TypeId} (hchar : type_id ≠ .CHAR) {copy_strings : Bool}
    {toks : Tokens} {p : ParseState} (h : firstPass type_id copy_strings toks = .ok p) :
    First p ∧ ∃ r, parseTokens type_id copy_strings toks = .ok r ∧
      r.offsets = (layout 0 p.allocs).1 ∧ r.total_size = (layout 0 p.allocs).2 ∧
      ∀ w ∈ r.heap, ∃ a, p.allocs[w.ptr.block]? = some a ∧ w.ptr.offset + w.size ≤ a.size := by
  have hstart : First (startState copy_strings toks) := ⟨rfl, rfl, by simp [startState]⟩
  have hrun := h
  obtain ⟨⟨base, p₁⟩, halloc, hrun⟩ := bind_eq_ok_iff.mp hrun
  obtain ⟨p₂, hparse, hrun⟩ := bind_eq_ok_iff.mp hrun
  obtain ⟨-, -, hrun⟩ := bind_eq_ok_iff.mp hrun
  cases hrun
  obtain ⟨rfl, hp₁, hgrows, hsecond⟩ := parseAlloc_passes hstart (alignment_pos _) halloc
  obtain ⟨hgrows', hsecond'⟩ := parseHelper_passes (parseFuel toks) type_id {}
    ⟨fun h => absurd h hchar, nofun⟩ ⟨0, 0⟩ p₁ p hgrows.first hparse
  refine ⟨hgrows'.first, ?_⟩
  have hlen : p₁.allocs_size ≤ p.allocs.length := by
    rw [hgrows.first.size]
    exact hgrows'.allocs.length_le
  obtain ⟨q₁, hq₁, hheap, hfollows⟩ := hsecond
    { p with memory := true, allocs_size := 0, heap := [], toks }
    ⟨rfl, rfl, rfl, hgrows'.copy.trans hgrows.copy⟩ hlen (typeGet type_id).size
    (typeGet type_id).alignment
  obtain ⟨q₂, hq₂, hfollows'⟩ := hsecond' q₁ hfollows.second
    (by rw [hfollows.allocs]; exact hgrows'.first.size.le)
  refine ⟨⟨q₂.heap, (layout 0 p.allocs).1, (layout 0 p.allocs).2⟩, ?_, rfl, rfl, ?_⟩
  · refine bind_eq_ok_iff.mpr ⟨p, h, ?_⟩
    refine bind_eq_ok_iff.mpr ⟨(some ⟨0, 0⟩, q₁), hq₁, ?_⟩
    exact bind_eq_ok_iff.mpr ⟨q₂, hq₂, rfl⟩
  · obtain ⟨ws, hws, hinside⟩ := hfollows'.heap
    rw [hheap] at hws
    intro w hw
    have hw : w ∈ ws := by
      rw [hws] at hw
      exact hw
    rcases hinside w hw with ⟨hblock, -, hle⟩ | ⟨-, a, ha, hle⟩
    · refine ⟨⟨(typeGet type_id).size, (typeGet type_id).alignment⟩, ?_, ?_⟩
      · obtain ⟨new, hnew⟩ := hgrows'.allocs
        rw [hblock, ← hnew, hp₁]
        rfl
      · rw [show extent type_id {} = (typeGet type_id).size from rfl] at hle
        simpa using hle
    · exact ⟨a, ha, hle⟩

/-! ## The parser from the payload on -/

/-- `i3ipc_parse_try` for a payload; `none` is an access outside the memory of the message. -/
def parsePayload (type_id : TypeId) (copy_strings : Bool) (s : JsonState) :
    Option (Except ParseStop Parsed) :=
  match jsonScan s with
  | none => none
  | some (.error _) => some (.error .mismatch)
  | some (.ok (places, s)) =>
    some (parseTokens type_id copy_strings (places.map (JsonToken.map (stringAt s.buf))))

/-- The parser for a text that is not written into. -/
def parseText (type_id : TypeId) (copy_strings : Bool) (text : Bytes) : Except ParseStop Parsed :=
  match scanTokens text with
  | .error _ => .error .mismatch
  | .ok toks => parseTokens type_id copy_strings toks

/-- The strings that have been unescaped in place are still there when the parser reads them. -/
theorem parsePayload_eq (type_id : TypeId) (copy_strings : Bool) (s : JsonState) :
    parsePayload type_id copy_strings s = some (parseText type_id copy_strings s.text) := by
  have hscan := jsonScan_spec s
  rw [parsePayload, parseText]
  cases htoks : scanTokens s.text with
  | error e =>
    rw [htoks] at hscan
    rw [show jsonScan s = some (.error e) from hscan]
  | ok toks =>
    rw [htoks] at hscan
    obtain ⟨places, s', hplaces, hall, -⟩ := hscan
    rw [hplaces]
    dsimp only
    rw [hall.map_eq]

theorem scanTokensLoop_closed : ∀ {n : Nat} {text : Bytes} {toks : Tokens},
    scanTokensLoop n text = .ok toks → Closed toks := by
  intro n
  induction n with
  | zero => exact fun h => by cases h
  | succ n ih =>
    intro text toks h
    rw [scanTokensLoop] at h
    cases htoken : scanToken text with
    | error e =>
      rw [htoken] at h
      cases h
    | ok r =>
      rw [htoken] at h
      dsimp only at h
      split at h
      next heof =>
        cases h
        rw [Closed, if_pos heof]
      next heof =>
        cases hrest : scanTokensLoop n r.2 with
        | error e =>
          rw [hrest] at h
          cases h
        | ok rest =>
          rw [hrest] at h
          cases h
          rw [Closed, if_neg heof]
          exact ih hrest

/-- Of a closed list of tokens the first pass takes all, or it stops at a wrong one. -/
theorem firstPass_meets {type_id : TypeId} (hevent : type_id ≠ .EVENT) (copy_strings : Bool)
    {toks : Tokens} (h : Closed toks) :
    Meets Malformed (fun _ => True) (firstPass type_id copy_strings toks) := by
  rw [firstPass]
  obtain ⟨p, halloc, hp, htoks⟩ := parseAlloc_first (p := startState copy_strings toks) rfl
    (typeGet type_id).size (typeGet type_id).alignment
  rw [halloc]
  have hlen : 3 * p.toks.length + rank type_id {} ≤ parseFuel toks := by
    have := (rank_bounds type_id {}).2
    rw [htoks, parseFuel]
    exact Nat.add_le_add_left this _
  have hclosed : Closed p.toks := htoks ▸ h
  show Meets Malformed _ (parseHelper (parseFuel toks) type_id {} none p >>= _)
  refine (parseHelper_ends _ type_id {} ⟨hevent, .inr rfl⟩ p hp hclosed hlen).bind ?_
  rintro p' - hp'
  cases htoks' : p'.toks with
  | nil =>
    have hclosed' := hp'.closed
    rw [htoks'] at hclosed'
    exact hclosed'.elim
  | cons tok rest =>
    rw [jsonMatch, jsonMatchany]
    split
    · trivial
    · rfl

theorem parseTokens_meets {type_id : TypeId} (hevent : type_id ≠ .EVENT) (hchar : type_id ≠ .CHAR)
    (copy_strings : Bool) {toks : Tokens} (h : Closed toks) :
    Meets Malformed (fun r => ∃ p, firstPass type_id copy_strings toks = .ok p ∧ First p ∧
      r.offsets = (layout 0 p.allocs).1 ∧ r.total_size = (layout 0 p.allocs).2 ∧
      ∀ w ∈ r.heap, ∃ a, p.allocs[w.ptr.block]? = some a ∧ w.ptr.offset + w.size ≤ a.size)
      (parseTokens type_id copy_strings toks) := by
  have hfirst := firstPass_meets hevent copy_strings h
  cases hp : firstPass type_id copy_strings toks with
  | error e =>
    rw [hp] at hfirst
    rw [parseTokens, hp]
    exact hfirst
  | ok p =>
    obtain ⟨hfirst, r, hr, hrest⟩ := parseTokens_eq_ok hchar hp
    rw [hr]
    exact ⟨p, rfl, hfirst, hrest⟩

/-- **The memory of a message**: whatever the payload is, the parser reads and writes the message
only inside its bounds, runs into no assertion, and either finds the message malformed or makes
memory of a size that is known before the first write. Every write has a place in it, and writes into
different allocations do not overlap. -/
theorem parsePayload_safe {type_id : TypeId} (hevent : type_id ≠ .EVENT) (hchar : type_id ≠ .CHAR)
    (copy_strings : Bool) (s : JsonState) :
    parsePayload type_id copy_strings s = some (.error .mismatch) ∨
      ∃ r, parsePayload type_id copy_strings s = some (.ok r) ∧
        (∀ w ∈ r.heap, ∃ adr, r.address w.ptr = some adr ∧ adr + w.size ≤ r.total_size) ∧
        ∀ w ∈ r.heap, ∀ w' ∈ r.heap, w.ptr.block ≠ w'.ptr.block → ∀ adr adr',
          r.address w.ptr = some adr → r.address w'.ptr = some adr' →
            adr + w.size ≤ adr' ∨ adr' + w'.size ≤ adr := by
  rw [parsePayload_eq, parseText]
  cases htoks : scanTokens s.text with
  | error e => exact .inl rfl
  | ok toks =>
    have hmeets := parseTokens_meets hevent hchar copy_strings (scanTokensLoop_closed htoks)
    dsimp only
    cases hr : parseTokens type_id copy_strings toks with
    | error e =>
      rw [hr] at hmeets
      exact .inl (by rw [show e = .mismatch from hmeets])
    | ok r =>
      rw [hr] at hmeets
      obtain ⟨p, -, hp, hoffsets, htotal, hwrites⟩ := hmeets
      have hplace (w : Write) (hw : w ∈ r.heap) : ∃ a adr, p.allocs[w.ptr.block]? = some a ∧
          r.offsets[w.ptr.block]? = some adr ∧ w.ptr.offset + w.size ≤ a.size ∧
          adr + a.size ≤ r.total_size := by
        obtain ⟨a, ha, hle⟩ := hwrites w hw
        obtain ⟨adr, hadr, -, -, hend⟩ := layout_getElem? hp.aligned 0 ha
        exact ⟨a, adr, ha, hoffsets ▸ hadr, hle, htotal ▸ hend⟩
      have happart (w w' : Write) (hw : w ∈ r.heap) (hw' : w' ∈ r.heap)
          (hlt : w.ptr.block < w'.ptr.block) {adr adr' : Nat} (hadr : r.address w.ptr = some adr)
          (hadr' : r.address w'.ptr = some adr') : adr + w.size ≤ adr' := by
        obtain ⟨a, adr₀, ha, hadr₀, hle, -⟩ := hplace w hw
        obtain ⟨-, adr₁, -, hadr₁, -, -⟩ := hplace w' hw'
        rw [Parsed.address, hadr₀] at hadr
        rw [Parsed.address, hadr₁] at hadr'
        cases hadr
        cases hadr'
        have := layout_apart hp.aligned 0 hlt ha (hoffsets ▸ hadr₀) (hoffsets ▸ hadr₁)
        show adr₀ + w.ptr.offset + w.size ≤ adr₁ + w'.ptr.offset
        omega
      refine .inr ⟨r, rfl, ?_, ?_⟩
      · intro w hw
        obtain ⟨a, adr, -, hadr, hle, hend⟩ := hplace w hw
        exact ⟨adr + w.ptr.offset, by rw [Parsed.address, hadr]; rfl, by omega⟩
      · intro w hw w' hw' hne adr adr' hadr hadr'
        rcases Nat.lt_or_gt_of_ne hne with hlt | hlt
        · exact .inl (happart w w' hw hw' hlt hadr hadr')
        · exact .inr (happart w' w hw' hw hlt hadr' hadr)

/-- An empty list of workspaces. -/
theorem parsePayload_safe_workspaces :
    let s : JsonState := ⟨[91, 93], 0, 2, Nat.le_refl 2⟩
    parsePayload .REPLY_WORKSPACES true s = some (.error .mismatch) ∨
      ∃ r, parsePayload .REPLY_WORKSPACES true s = some (.ok r) ∧
        (∀ w ∈ r.heap, ∃ adr, r.address w.ptr = some adr ∧ adr + w.size ≤ r.total_size) ∧
        ∀ w ∈ r.heap, ∀ w' ∈ r.heap, w.ptr.block ≠ w'.ptr.block → ∀ adr adr',
          r.address w.ptr = some adr → r.address w'.ptr = some adr' →
            adr + w.size ≤ adr' ∨ adr' + w'.size ≤ adr :=
  parsePayload_safe (by decide) (by decide) true ⟨[91, 93], 0, 2, Nat.le_refl 2⟩

end I3ipc

end Photonbar
