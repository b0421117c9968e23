import Photonbar.I3Parse

/-!
# The first pass ends (`i3ipc.h`)

Whatever tokens a message has, the first pass comes to an end, and it fails only because of a token
of a wrong type: no assertion of the source fails, and no token is asked for behind the last one.
Every call takes at least one token, but for at most two calls in a row, one for a pointer or an
optional field and one for an inline type (`rank`). So fuel of three for each token is enough
(`parseHelper_ends`).

That the end is not passed is an invariant of the tokens: the last one is the end, and no other one
is (`Closed`). Matching one token before it leaves tokens of the same kind, fewer than before
(`Fewer`), and the end matches nothing that the parser asks for. The loops use the rule for loops,
with the number of tokens as the measure; each case of the parser has one lemma, under the
assumption that the values inside are parsed (`ParseEnds`).
-/

namespace Photonbar

namespace I3ipc

/-- The tokens of the scanner: the last one is the end, and no other one is. -/
def Closed : Tokens → Prop
  | [] => False
  | tok :: toks => if tok = .eof then toks = [] else Closed toks

/-- The error for a token of a wrong type. -/
def Malformed (e : ParseStop) : Prop := e = .mismatch

/-- Fewer tokens, with the same end. -/
def Fewer {κ : Type} (toks : Tokens) (r : κ × Tokens) : Prop :=
  r.2.length < toks.length ∧ Closed r.2

/-! ## Tokens -/

theorem jsonMatchany_meets {types : List JsonType} (htypes : .EOF ∉ types) {toks : Tokens}
    (h : Closed toks) :
    Meets Malformed (fun r => toks = r.1 :: r.2 ∧ r.1.type ∈ types ∧ Closed r.2)
      (jsonMatchany types toks) := by
  cases toks with
  | nil => exact h.elim
  | cons tok toks =>
    rw [jsonMatchany]
    split
    next hmem =>
      refine ⟨rfl, hmem, ?_⟩
      rwa [Closed, if_neg] at h
      rintro rfl
      exact htypes hmem
    next => exact rfl

theorem jsonMatch_meets {type : JsonType} (htype : type ≠ .EOF) {toks : Tokens} (h : Closed toks) :
    Meets Malformed (fun r => toks = r.1 :: r.2 ∧ r.1.type = type ∧ Closed r.2)
      (jsonMatch type toks) := by
  have hmatch := jsonMatchany_meets (show .EOF ∉ [type] by simpa using htype.symm) h
  simp only [List.mem_singleton] at hmatch
  exact hmatch

theorem jsonTrymatch_meets {type : JsonType} (htype : type ≠ .EOF) {toks : Tokens}
    (h : Closed toks) :
    Meets Malformed (fun r => ∀ rest, r = some rest → ∃ tok, toks = tok :: rest ∧ Closed rest)
      (jsonTrymatch type toks) := by
  cases toks with
  | nil => exact h.elim
  | cons tok toks =>
    intro rest hrest
    split at hrest
    next heq =>
      cases hrest
      refine ⟨tok, rfl, ?_⟩
      rwa [Closed, if_neg] at h
      rintro rfl
      exact htype heq.symm
    next => cases hrest

theorem Fewer.of_cons {κ : Type} {toks : Tokens} {tok : JsonToken Bytes} {r : κ × Tokens}
    (h : Fewer toks r) : Fewer (tok :: toks) r :=
  ⟨h.1.trans (Nat.lt_succ_self _), h.2⟩

theorem jsonKey_meets {toks : Tokens} (h : Closed toks) :
    Meets Malformed (Fewer toks) (jsonKey toks) := by
  rw [jsonKey]
  refine (jsonMatch_meets (by decide) h).bind ?_
  rintro ⟨key, toks₁⟩ - ⟨rfl, hkey, h₁⟩
  refine (jsonMatch_meets (by decide) h₁).bind ?_
  rintro ⟨colon, toks₂⟩ - ⟨htoks₁, -, h₂⟩
  cases key with
  | string str =>
    refine ⟨?_, h₂⟩
    rw [show toks₁ = colon :: toks₂ from htoks₁]
    exact (Nat.lt_succ_self _).trans (Nat.lt_succ_self _)
  | _ => cases hkey

theorem jsonLooparr_meets (i : Nat) {toks : Tokens} (h : Closed toks) :
    Meets Malformed (Fewer toks) (jsonLooparr i toks) := by
  rw [jsonLooparr]
  split
  · refine (jsonMatch_meets (by decide) h).bind ?_
    rintro ⟨tok, toks₁⟩ - ⟨rfl, -, h₁⟩
    refine (jsonTrymatch_meets (by decide) h₁).bind ?_
    rintro r - hr
    cases r with
    | none => exact ⟨Nat.lt_succ_self _, h₁⟩
    | some rest =>
      obtain ⟨tok', htoks₁, h₂⟩ := hr rest rfl
      refine ⟨?_, h₂⟩
      rw [show toks₁ = tok' :: rest from htoks₁]
      exact (Nat.lt_succ_self _).trans (Nat.lt_succ_self _)
  · refine (jsonMatchany_meets (by decide) h).bind ?_
    rintro ⟨tok, toks₁⟩ - ⟨rfl, -, h₁⟩
    exact ⟨Nat.lt_succ_self _, h₁⟩

theorem jsonLoopobj_meets (i : Nat) {toks : Tokens} (h : Closed toks) :
    Meets Malformed (Fewer toks) (jsonLoopobj i toks) := by
  rw [jsonLoopobj]
  split
  · refine (jsonMatch_meets (by decide) h).bind ?_
    rintro ⟨tok, toks₁⟩ - ⟨rfl, -, h₁⟩
    refine (jsonTrymatch_meets (by decide) h₁).bind ?_
    rintro r - hr
    cases r with
    | none => exact (jsonKey_meets h₁).imp fun r hr => hr.of_cons
    | some rest =>
      obtain ⟨tok', htoks₁, h₂⟩ := hr rest rfl
      refine ⟨?_, h₂⟩
      rw [show toks₁ = tok' :: rest from htoks₁]
      exact (Nat.lt_succ_self _).trans (Nat.lt_succ_self _)
  · refine (jsonMatchany_meets (by decide) h).bind ?_
    rintro ⟨tok, toks₁⟩ - ⟨rfl, -, h₁⟩
    dsimp only
    split
    · exact (jsonKey_meets h₁).imp fun r hr => hr.of_cons
    · exact ⟨Nat.lt_succ_self _, h₁⟩

/-- A loop over the elements or the members of a value takes tokens, if its body does not give any
back. -/
theorem jsonLoop_meets {κ : Type} {next : Nat → Tokens → Except ParseStop (Option κ × Tokens)}
    {body : Nat → κ → Tokens → Except ParseStop Tokens} {n : Nat} {toks : Tokens}
    (hnext : ∀ i toks, Closed toks → Meets Malformed (Fewer toks) (next i toks))
    (hbody : ∀ i k toks', toks'.length < toks.length → Closed toks' →
      Meets Malformed (fun rest => rest.length < toks'.length ∧ Closed rest) (body i k toks'))
    (h : Closed toks) (hn : toks.length < n) :
    Meets Malformed (Fewer toks) (forLoop .fuel next body n 0 toks) := by
  refine forLoop_meets (I := fun _ s => s.length ≤ toks.length ∧ Closed s)
    (J := fun _ _ s => s.length < toks.length ∧ Closed s)
    (Q := fun _ s => s.length < toks.length ∧ Closed s)
    List.length ?_ ?_ n 0 toks ⟨le_rfl, h⟩ hn
  · rintro i s ⟨hle, hs⟩
    refine (hnext i s hs).imp fun r hr => ⟨fun _ => ⟨lt_of_lt_of_le hr.1 hle, hr.2⟩, fun k _ => ?_⟩
    exact ⟨⟨lt_of_lt_of_le hr.1 hle, hr.2⟩, hr.1⟩
  · rintro i k s ⟨hlt, hs⟩
    exact (hbody i k s hlt hs).imp fun rest hrest =>
      ⟨⟨hrest.1.le.trans hlt.le, hrest.2⟩, hrest.1.le⟩

theorem jsonSkip_meets : ∀ (n : Nat) (toks : Tokens), toks.length + 1 < n → Closed toks →
    Meets Malformed (fun rest => rest.length < toks.length ∧ Closed rest) (jsonSkip n toks) := by
  intro n
  induction n with
  | zero => exact fun _ h => absurd h (Nat.not_lt_zero _)
  | succ n ih =>
    intro toks hn h
    rw [jsonSkip]
    refine (jsonMatchany_meets (by decide) h).bind ?_
    rintro ⟨tok, rest⟩ - ⟨htoks, -, hrest⟩
    dsimp only
    split
    · refine (jsonLoop_meets (fun i _ => jsonLoopobj_meets i)
        (fun i k toks' hlt => ih toks' (by omega)) h (by omega)).bind ?_
      exact fun r _ hr => hr
    · split
      · refine (jsonLoop_meets (fun i _ => jsonLooparr_meets i)
          (fun i k toks' hlt => ih toks' (by omega)) h (by omega)).bind ?_
        exact fun r _ hr => hr
      · rw [htoks]
        exact ⟨Nat.lt_succ_self _, hrest⟩

/-- A field that is found is not a derived one. -/
theorem fieldWithKey_spec {type : TypeInfo} {key : Bytes} {field : Nat}
    (h : fieldWithKey type key = some field) :
    ∃ f, type.fields[field]? = some f ∧ f.flags.derived = false ∧
      ascii f.json_name = cstr key := by
  obtain ⟨hlt, hf, -⟩ := List.findIdx?_eq_some_iff_getElem.mp h
  rw [Bool.and_eq_true, Bool.not_eq_true'] at hf
  exact ⟨_, List.getElem?_eq_getElem hlt, hf.1, of_decide_eq_true hf.2⟩

theorem parseLoopfields_meets (type : TypeInfo) : ∀ (n i : Nat) (toks : Tokens),
    toks.length + 1 < n → Closed toks →
    Meets Malformed (fun r => Fewer toks r ∧ ∀ field, r.1 = some field →
      ∃ f, type.fields[field]? = some f ∧ f.flags.derived = false)
      (parseLoopfields type n i toks) := by
  intro n
  induction n with
  | zero => exact fun _ _ h => absurd h (Nat.not_lt_zero _)
  | succ n ih =>
    intro i toks hn h
    rw [parseLoopfields]
    refine (jsonLoopobj_meets i h).bind ?_
    rintro ⟨key, toks₁⟩ - ⟨hlt, h₁⟩
    have hlt : toks₁.length < toks.length := hlt
    cases key with
    | none => exact ⟨⟨hlt, h₁⟩, fun field hfield => by cases hfield⟩
    | some key =>
      dsimp only
      split
      next field hfield =>
        refine ⟨⟨hlt, h₁⟩, ?_⟩
        rintro field' ⟨⟩
        obtain ⟨f, hf, hderived, -⟩ := fieldWithKey_spec hfield
        exact ⟨f, hf, hderived⟩
      next =>
        refine (jsonSkip_meets n toks₁ (by omega) h₁).bind ?_
        rintro toks₂ - ⟨hlt₂, h₂⟩
        refine (ih 1 toks₂ (by omega) h₂).imp fun r hr => ⟨⟨?_, hr.1.2⟩, hr.2⟩
        exact lt_trans hr.1.1 (hlt₂.trans hlt)

/-! ## Values -/

/-- The first pass has taken tokens, and is still the first pass. -/
structure Took (p p' : ParseState) : Prop where
  memory : p'.memory = false
  closed : Closed p'.toks
  lt : p'.toks.length < p.toks.length

/-- An allocation of the first pass takes no tokens. -/
theorem parseAlloc_first {p : ParseState} (hp : p.memory = false) (size alignment : Nat) :
    ∃ p', parseAlloc p size alignment = .ok (none, p') ∧ p'.memory = false ∧ p'.toks = p.toks := by
  refine ⟨{ p with allocs := p.allocs ++ [⟨size, alignment⟩], allocs_size := p.allocs_size + 1 },
    ?_, hp, rfl⟩
  rw [parseAlloc, if_neg (by rw [hp]; decide)]

theorem parseString_meets (type_id : TypeId) {p : ParseState} (hp : p.memory = false)
    (h : Closed p.toks) : Meets Malformed (Took p) (parseString type_id none p) := by
  rw [parseString]
  refine (jsonMatch_meets (by decide) h).bind ?_
  rintro ⟨tok, toks⟩ - ⟨htoks, htok, hrest⟩
  have hlt : toks.length < p.toks.length := by rw [htoks]; exact Nat.lt_succ_self _
  cases tok with
  | string str =>
    show Meets Malformed (Took p) (copyString str none { p with toks } >>= _)
    rw [copyString]
    split
    · obtain ⟨p₁, halloc, hp₁, htoks₁⟩ :=
        parseAlloc_first (p := { p with toks }) hp (str.length + 1) 1
      rw [halloc]
      refine ⟨hp₁, ?_, ?_⟩
      · show Closed p₁.toks
        rw [htoks₁]
        exact hrest
      · show p₁.toks.length < _
        rw [htoks₁]
        exact hlt
    · exact ⟨hp, hrest, hlt⟩
  | _ => cases htok

theorem parsePrimitive_meets (type_id : TypeId) {p : ParseState} (hp : p.memory = false)
    (h : Closed p.toks) : Meets Malformed (Took p) (parsePrimitive type_id none p) := by
  rw [parsePrimitive]
  refine (jsonMatch_meets (by split <;> decide) h).bind ?_
  rintro ⟨tok, toks⟩ - ⟨htoks, -, hrest⟩
  refine ⟨hp, hrest, ?_⟩
  show toks.length < p.toks.length
  rw [htoks]
  exact Nat.lt_succ_self _

/-- How many calls may still come before a token is taken. -/
def rank (type_id : TypeId) (type_flags : TypeFlags) : Nat :=
  if type_flags.maybe then 5 else if (typeGet type_id).is_inline then 4 else 3

theorem rank_bounds (type_id : TypeId) (type_flags : TypeFlags) :
    3 ≤ rank type_id type_flags ∧ rank type_id type_flags ≤ 5 := by
  rw [rank]
  split
  · decide
  · split <;> decide

theorem withoutMaybe_maybe (type_flags : TypeFlags) : type_flags.withoutMaybe.maybe = false := rfl

theorem rank_withoutMaybe (type_id : TypeId) (type_flags : TypeFlags) :
    rank type_id type_flags.withoutMaybe ≤ 4 := by
  rw [rank, if_neg (by rw [withoutMaybe_maybe]; decide)]
  split <;> decide

section Cases

/-- Calls of the first pass with this much fuel take a token or fail because of one. -/
def ParseEnds (parse : TypeId → TypeFlags → Option Ptr → ParseState → Except ParseStop ParseState)
    (n : Nat) : Prop :=
  ∀ type_id type_flags, Handled type_id type_flags → ∀ p, p.memory = false → Closed p.toks →
    3 * p.toks.length + rank type_id type_flags ≤ n →
    Meets Malformed (Took p) (parse type_id type_flags none p)

variable {parse : TypeId → TypeFlags → Option Ptr → ParseState → Except ParseStop ParseState}
  {n : Nat} {type_id : TypeId} {type_flags : TypeFlags} {p : ParseState}

theorem parseMaybe_meets (hparse : ParseEnds parse n) (htype : Handled type_id type_flags)
    (hp : p.memory = false) (h : Closed p.toks) (hn : 3 * p.toks.length + 4 ≤ n) :
    Meets Malformed (Took p) (parseMaybe parse type_id type_flags none p) := by
  rw [parseMaybe]
  refine (jsonTrymatch_meets (by decide) h).bind ?_
  rintro r - hr
  cases r with
  | some toks =>
    obtain ⟨tok, htoks, hclosed⟩ := hr toks rfl
    refine ⟨hp, hclosed, ?_⟩
    show toks.length < p.toks.length
    rw [htoks]
    exact Nat.lt_succ_self _
  | none =>
    have hle := rank_withoutMaybe type_id type_flags
    have hrest (p₁ : ParseState) (hp₁ : p₁.memory = false) (htoks : p₁.toks = p.toks) :
        Meets Malformed (Took p) (parse type_id type_flags.withoutMaybe none p₁ >>= fun p =>
          pure (p.finish true p.next_enum)) := by
      refine (hparse type_id type_flags.withoutMaybe ⟨htype.1, htype.2⟩ p₁ hp₁ (htoks ▸ h)
        (by rw [htoks]; omega)).bind ?_
      rintro p₂ - hp₂
      exact ⟨hp₂.memory, hp₂.closed, htoks ▸ hp₂.lt⟩
    show Meets Malformed (Took p) (pointee (typeGet type_id) type_flags none p >>= _)
    rw [pointee]
    split
    · obtain ⟨p₁, halloc, hp₁, htoks⟩ :=
        parseAlloc_first hp (typeGet type_id).size (typeGet type_id).alignment
      rw [halloc]
      exact hrest p₁ hp₁ htoks
    · exact hrest p hp rfl

/-- The loops over elements and over members. -/
theorem parseLoop_meets {κ : Type} (next : Nat → Tokens → Except ParseStop (Option κ × Tokens))
    (body : Nat → κ → ParseState → Except ParseStop ParseState) {P : κ → Prop}
    (hnext : ∀ i toks, toks.length ≤ p.toks.length → Closed toks →
      Meets Malformed (fun r => Fewer toks r ∧ ∀ k, r.1 = some k → P k) (next i toks))
    (hbody : ∀ i k q, P k → q.memory = false → Closed q.toks → q.toks.length < p.toks.length →
      Meets Malformed (Took q) (body i k q))
    (hp : p.memory = false) (h : Closed p.toks) (hn : p.toks.length < n) :
    Meets Malformed (fun r => Took p r.2)
      (forLoop .fuel (fun i => onTokens (next i)) body n 0 p) := by
  refine forLoop_meets
    (I := fun _ q => q.memory = false ∧ Closed q.toks ∧ q.toks.length ≤ p.toks.length)
    (J := fun _ k q => P k ∧ Took p q) (Q := fun _ q => Took p q)
    (fun q => q.toks.length) ?_ ?_ n 0 p ⟨hp, h, le_rfl⟩ hn
  · rintro i q ⟨hmemory, hclosed, hle⟩
    rw [onTokens]
    refine (hnext i q.toks hle hclosed).bind ?_
    rintro ⟨k, toks⟩ - ⟨⟨hlt, hrest⟩, hk⟩
    exact ⟨fun _ => ⟨hmemory, hrest, lt_of_lt_of_le hlt hle⟩,
      fun k' hk' => ⟨⟨hk k' hk', hmemory, hrest, lt_of_lt_of_le hlt hle⟩, hlt⟩⟩
  · rintro i k q ⟨hk, htook⟩
    refine (hbody i k q hk htook.memory htook.closed htook.lt).imp fun q' hq' => ?_
    exact ⟨⟨hq'.memory, hq'.closed, hq'.lt.le.trans htook.lt.le⟩, hq'.lt.le⟩

theorem parseArray_meets (hparse : ParseEnds parse n) (hevent : type_id ≠ .EVENT)
    (hp : p.memory = false) (h : Closed p.toks) (hn : 3 * p.toks.length + 2 ≤ n) :
    Meets Malformed (Took p) (parseArray parse n type_id none p) := by
  rw [parseArray]
  obtain ⟨p₁, halloc, hp₁, htoks⟩ :=
    parseAlloc_first hp (2 ^ 64 - 1) (typeGet type_id).alignment
  rw [halloc]
  rw [← htoks] at h hn
  show Meets Malformed (Took p) (forLoop .fuel (fun i => onTokens (jsonLooparr i))
    (fun i _ p => parse type_id {} none p) n 0 p₁ >>= _)
  have hloop := parseLoop_meets jsonLooparr (fun _ _ => parse type_id {} none)
    (P := fun _ : Unit => True) (n := n)
    (fun i toks _ hclosed => (jsonLooparr_meets i hclosed).imp fun r hr => ⟨hr, fun _ _ => trivial⟩)
    (fun i _ q _ hq hclosed hlt => hparse type_id {} ⟨hevent, .inr rfl⟩ q hq hclosed
      (by have := (rank_bounds type_id {}).2; omega))
    hp₁ h (by omega)
  refine hloop.bind ?_
  rintro ⟨i, p₂⟩ - hp₂
  exact ⟨hp₂.memory, hp₂.closed, htoks ▸ hp₂.lt⟩

theorem parseInline_meets (hparse : ParseEnds parse n)
    (hinline : (typeGet type_id).is_inline = true) (hp : p.memory = false) (h : Closed p.toks)
    (hn : 3 * p.toks.length + 3 ≤ n) :
    Meets Malformed (Took p) (parseInline parse type_id none p) := by
  obtain ⟨f, fs, hfields, hderived, hfmaybe, hfinline⟩ := inline_field hinline
  have hfrank : rank f.type f.flags = 3 := by
    rw [rank, if_neg (by rw [hfmaybe]; decide), if_neg (by rw [hfinline]; decide)]
  rw [parseInline, hfields]
  refine (hparse f.type f.flags (fields_handled type_id f (hfields ▸ List.mem_cons_self) hderived)
    p hp h (by omega)).bind ?_
  exact fun p₁ _ hp₁ => ⟨hp₁.memory, hp₁.closed, hp₁.lt⟩

theorem parseField_meets (hparse : ParseEnds parse n) {field : Nat}
    (hfield : ∃ f, (typeGet type_id).fields[field]? = some f ∧ f.flags.derived = false)
    (hp : p.memory = false) (h : Closed p.toks) (hn : 3 * p.toks.length + 5 ≤ n) :
    Meets Malformed (Took p) (parseField parse type_id none field p) := by
  obtain ⟨f, hfield, hderived⟩ := hfield
  have := (rank_bounds f.type f.flags).2
  rw [parseField, hfield]
  refine (hparse f.type f.flags (fields_handled type_id f (List.mem_of_getElem? hfield) hderived)
    p hp h (by omega)).bind ?_
  exact fun p₁ _ hp₁ => hp₁

theorem parseRecord_meets (hparse : ParseEnds parse n) (hp : p.memory = false)
    (h : Closed p.toks) (hn : 3 * p.toks.length + 2 ≤ n) :
    Meets Malformed (Took p) (parseRecord parse n type_id none p) := by
  rw [parseRecord]
  refine Meets.bind (parseLoop_meets _ _
    (fun i toks hle hclosed => parseLoopfields_meets _ n i toks (by omega) hclosed)
    (fun i field q hfield hq hclosed hlt => parseField_meets hparse hfield hq hclosed (by omega))
    hp h (by omega)) ?_
  exact fun r _ hr => ⟨hr.memory, hr.closed, hr.lt⟩

end Cases

/-- **The first pass ends**: with fuel of three for each token, and five, it takes at least one
token, or fails because of one. -/
theorem parseHelper_ends (n : Nat) : ParseEnds (parseHelper n) n := by
  induction n with
  | zero =>
    intro type_id type_flags _ p _ _ hn
    have := (rank_bounds type_id type_flags).1
    omega
  | succ n ih =>
    intro type_id type_flags htype p hp h hn
    have hrank := (rank_bounds type_id type_flags).1
    rw [parseHelper, if_neg htype.1]
    split
    next hmaybe =>
      rw [rank, if_pos hmaybe] at hn
      exact parseMaybe_meets ih htype hp h (by omega)
    next hmaybe =>
    split
    · exact parseString_meets type_id hp h
    split
    · exact parseArray_meets ih htype.1 hp h (by omega)
    next harray =>
    split
    next hinline =>
      rw [rank, if_neg hmaybe, if_pos hinline] at hn
      exact parseInline_meets ih hinline hp h (by omega)
    have hflags : type_flags = {} := by
      have hwithout := htype.2.resolve_left harray
      rw [TypeFlags.maybe, Bool.or_eq_true, not_or] at hmaybe
      rw [← hwithout, TypeFlags.withoutMaybe]
      cases type_flags
      simp_all
    rw [if_pos hflags]
    split
    · exact parsePrimitive_meets type_id hp h
    · exact parseRecord_meets ih hp h (by omega)

end I3ipc

end Photonbar
