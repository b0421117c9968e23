import Photonbar.I3ParseEnds
import Photonbar.JsonRead

/-!
# The values of a type (`i3ipc.h`)

`HasType` says which values of JSON belong to a type of the table. It is the meaning of the types:
it knows neither tokens nor passes nor memory. A value of a pointer or an optional field may be
null; an object belongs to a struct if its members do that the struct has fields for, and the
others may be anything.

`shape` is the case of the parser for a type and its flags, so that the definition has one
constructor for each of them, and a proof about the parser one lemma. The first pass reads every
value of the type that it is called for (`parseHelper_accepts`): it takes the tokens of the value
and no others, with the fuel that it has for its tokens. That it reads nothing else, and what the
memory then holds, is the matter of the second pass.
-/

namespace Photonbar

namespace I3ipc

/-! ## The cases of the parser -/

/-- The cases of `i3ipc__parse_helper`. -/
inductive Shape where
  | maybe | string | array | inline | primitive | record | none
  deriving DecidableEq

/-- The case for a type and its flags. -/
def shape (type_id : TypeId) (type_flags : TypeFlags) : Shape :=
  if type_id = .EVENT then .none
  else if type_flags.maybe then .maybe
  else if isStringType type_id type_flags then .string
  else if type_flags.ISARRAY then .array
  else if (typeGet type_id).is_inline then .inline
  else if type_flags = {} then if (typeGet type_id).is_primitive then .primitive else .record
  else .none

theorem parseHelper_succ (n : Nat) (type_id : TypeId) (type_flags : TypeFlags) (base : Option Ptr)
    (p : ParseState) :
    parseHelper (n + 1) type_id type_flags base p =
      match shape type_id type_flags with
      | .maybe => parseMaybe (parseHelper n) type_id type_flags base p
      | .string => parseString type_id base p
      | .array => parseArray (parseHelper n) n type_id base p
      | .inline => parseInline (parseHelper n) type_id base p
      | .primitive => parsePrimitive type_id base p
      | .record => parseRecord (parseHelper n) n type_id base p
      | .none => .error .assertion := by
  rw [parseHelper, shape]
  split_ifs <;> rfl

theorem maybe_of_shape {type_id : TypeId} {type_flags : TypeFlags}
    (h : shape type_id type_flags = .maybe) : type_flags.maybe = true := by
  rw [shape] at h
  split_ifs at h with hevent hmaybe
  exact hmaybe

theorem inline_of_shape {type_id : TypeId} {type_flags : TypeFlags}
    (h : shape type_id type_flags = .inline) :
    ¬ type_flags.maybe = true ∧ (typeGet type_id).is_inline = true := by
  rw [shape] at h
  split_ifs at h with hevent hmaybe hstring harray hinline
  exact ⟨hmaybe, hinline⟩

/-! ## Types of values -/

/-- **A value of a type.** In an object, the members that the type does not have are ignored. -/
inductive HasType : TypeId → TypeFlags → Json → Prop where
  | null {type_id type_flags} (h : shape type_id type_flags = .maybe) :
    HasType type_id type_flags .null
  | maybe {type_id type_flags j} (h : shape type_id type_flags = .maybe)
    (hj : HasType type_id type_flags.withoutMaybe j) : HasType type_id type_flags j
  | string {type_id type_flags} (str : Bytes) (h : shape type_id type_flags = .string) :
    HasType type_id type_flags (.string str)
  | array {type_id type_flags} (js : List Json) (h : shape type_id type_flags = .array)
    (hjs : ∀ j ∈ js, HasType type_id {} j) : HasType type_id type_flags (.arr js)
  | inline {type_id type_flags j f} (h : shape type_id type_flags = .inline)
    (hf : (typeGet type_id).fields.head? = some f) (hj : HasType f.type f.flags j) :
    HasType type_id type_flags j
  | bool {type_id type_flags} (flag : Bool) (h : shape type_id type_flags = .primitive)
    (htype : type_id = .BOOL) : HasType type_id type_flags (.bool flag)
  | number {type_id type_flags} (c : Bytes) (n : UInt64)
    (h : shape type_id type_flags = .primitive) (htype : type_id ≠ .BOOL) :
    HasType type_id type_flags (.number c n)
  | record {type_id type_flags} (ms : List (Bytes × Json))
    (h : shape type_id type_flags = .record)
    (hms : ∀ m ∈ ms, ∀ field f, fieldWithKey (typeGet type_id) m.1 = some field →
      (typeGet type_id).fields[field]? = some f → HasType f.type f.flags m.2) :
    HasType type_id type_flags (.obj ms)

/-! ## A value is read -/

/-- Calls of the first pass with this much fuel read a value of their type. -/
def Accepts (parse : TypeId → TypeFlags → Option Ptr → ParseState → Except ParseStop ParseState)
    (n : Nat) : Prop :=
  ∀ {type_id type_flags j}, HasType type_id type_flags j → ∀ {p rest}, p.memory = false →
    p.toks = j.tokens rest → 3 * p.toks.length + rank type_id type_flags ≤ n →
      ∃ p', parse type_id type_flags none p = .ok p' ∧ p'.memory = false ∧ p'.toks = rest

section Cases

variable {parse : TypeId → TypeFlags → Option Ptr → ParseState → Except ParseStop ParseState}
  {n : Nat} {type_id : TypeId} {type_flags : TypeFlags} {p : ParseState} {rest : Tokens} {j : Json}

theorem parseMaybe_accepts (hparse : Accepts parse n)
    (hj : j = .null ∨ HasType type_id type_flags.withoutMaybe j) (hp : p.memory = false)
    (htoks : p.toks = j.tokens rest) (hn : 3 * p.toks.length + 4 ≤ n) :
    ∃ p', parseMaybe parse type_id type_flags none p = .ok p' ∧ p'.memory = false ∧
      p'.toks = rest := by
  by_cases hnull : j = .null
  · subst hnull
    refine ⟨_, bind_eq_ok_iff.mpr ⟨some rest, ?_, rfl⟩, hp, rfl⟩
    rw [htoks]
    rfl
  · have htry : jsonTrymatch .NULL p.toks = .ok none := by
      obtain ⟨tok, toks, hcons, htok⟩ := j.tokens_cons rest
      rw [htoks, hcons, jsonTrymatch, if_neg]
      rw [htok]
      cases j <;> simp_all [Json.type]
    have hle := rank_withoutMaybe type_id type_flags
    have hrest (p₁ : ParseState) (hp₁ : p₁.memory = false) (htoks₁ : p₁.toks = p.toks) :
        ∃ p', (parse type_id type_flags.withoutMaybe none p₁ >>= fun p =>
          pure (p.finish true p.next_enum)) = .ok p' ∧ p'.memory = false ∧ p'.toks = rest := by
      obtain ⟨p₂, hrun, hp₂, htoks₂⟩ := hparse (hj.resolve_left hnull) hp₁ (htoks₁.trans htoks)
        (by rw [htoks₁]; omega)
      exact ⟨_, bind_eq_ok_iff.mpr ⟨p₂, hrun, rfl⟩, hp₂, htoks₂⟩
    obtain ⟨p₁, hpointee, hp₁, htoks₁⟩ : ∃ p₁,
        pointee (typeGet type_id) type_flags none p = .ok (none, p₁) ∧ p₁.memory = false ∧
          p₁.toks = p.toks := by
      rw [pointee]
      split
      · obtain ⟨p₁, halloc, hp₁, htoks₁⟩ :=
          parseAlloc_first hp (typeGet type_id).size (typeGet type_id).alignment
        exact ⟨p₁, by rw [halloc]; rfl, hp₁, htoks₁⟩
      · exact ⟨p, rfl, hp, rfl⟩
    obtain ⟨p', hrun, hp'⟩ := hrest p₁ hp₁ htoks₁
    exact ⟨p', bind_eq_ok_iff.mpr ⟨none, htry, bind_eq_ok_iff.mpr ⟨_, hpointee, hrun⟩⟩, hp'⟩

theorem parseString_accepts (type_id : TypeId) {str : Bytes} (hp : p.memory = false)
    (htoks : p.toks = (Json.string str).tokens rest) :
    ∃ p', parseString type_id none p = .ok p' ∧ p'.memory = false ∧ p'.toks = rest := by
  obtain ⟨cell, p₁, hcopy, hp₁, htoks₁⟩ : ∃ cell p₁,
      copyString str none { p with toks := rest } = .ok (cell, p₁) ∧ p₁.memory = false ∧
        p₁.toks = rest := by
    rw [copyString]
    split
    · obtain ⟨p₁, halloc, hp₁, htoks₁⟩ :=
        parseAlloc_first (p := { p with toks := rest }) hp (str.length + 1) 1
      exact ⟨.ptr none, p₁, by rw [halloc]; rfl, hp₁, htoks₁⟩
    · exact ⟨_, _, rfl, hp, rfl⟩
  have hmatch : jsonMatch .STRING p.toks = .ok (.string str, rest) := by
    rw [htoks]
    exact jsonMatch_cons rfl rest
  exact ⟨p₁.finish true none, bind_eq_ok_iff.mpr
    ⟨(.string str, rest), hmatch, bind_eq_ok_iff.mpr ⟨(cell, p₁), hcopy, rfl⟩⟩, hp₁, htoks₁⟩

theorem parsePrimitive_accepts (hj : (∃ flag, j = .bool flag ∧ type_id = .BOOL) ∨
      ∃ c k, j = .number c k ∧ type_id ≠ .BOOL) (hp : p.memory = false)
    (htoks : p.toks = j.tokens rest) :
    ∃ p', parsePrimitive type_id none p = .ok p' ∧ p'.memory = false ∧ p'.toks = rest := by
  obtain ⟨tok, hmatch⟩ : ∃ tok,
      jsonMatch (if type_id = .BOOL then .BOOL else .NUMBER) p.toks = .ok (tok, rest) := by
    rcases hj with ⟨flag, rfl, htype⟩ | ⟨c, k, rfl, htype⟩
    · rw [htoks, if_pos htype]
      exact ⟨_, jsonMatch_cons rfl rest⟩
    · rw [htoks, if_neg htype]
      exact ⟨_, jsonMatch_cons rfl rest⟩
  exact ⟨_, bind_eq_ok_iff.mpr ⟨(tok, rest), hmatch, rfl⟩, hp, rfl⟩

theorem parseArray_accepts (hparse : Accepts parse n) {js : List Json}
    (hjs : ∀ j ∈ js, HasType type_id {} j) (hp : p.memory = false)
    (htoks : p.toks = (Json.arr js).tokens rest) (hn : 3 * p.toks.length + 2 ≤ n) :
    ∃ p', parseArray parse n type_id none p = .ok p' ∧ p'.memory = false ∧ p'.toks = rest := by
  obtain ⟨p₁, halloc, hp₁, htoks₁⟩ :=
    parseAlloc_first hp (2 ^ 64 - 1) (typeGet type_id).alignment
  have hlen : js.length + rest.length < p.toks.length := by
    rw [htoks]
    exact length_arrTokens (fun j _ => Json.length_tokens j) 0 rest
  have hrank := (rank_bounds type_id {}).2
  obtain ⟨i, p₂, hloop, htoks₂, hp₂⟩ := forLoop_reads ParseState.toks arrTokens
    (fun i => onTokens (jsonLooparr i)) (fun _ _ => parse type_id {} none)
    (fun js p => p.memory = false ∧ (∀ j ∈ js, HasType type_id {} j) ∧ 3 * p.toks.length + 2 ≤ n)
    (fun p => p.memory = false) rest
    (fun i js q hq hI => by
      obtain ⟨hmemory, hall, hle⟩ := hI
      cases js with
      | nil =>
        refine .inl ⟨{ q with toks := rest }, ?_, rfl, hmemory⟩
        rw [onTokens, hq, jsonLooparr_nil]
        rfl
      | cons j js =>
        obtain ⟨tok, hcons⟩ := arrTokens_cons i j js rest
        have hlt := Json.length_tokens j (arrTokens (i + 1) js rest)
        rw [hq, hcons, List.length_cons] at hle
        obtain ⟨q', hrun, hq', htoks'⟩ := hparse (hall j List.mem_cons_self)
          (p := { q with toks := j.tokens (arrTokens (i + 1) js rest) }) hmemory rfl
          (by dsimp only; omega)
        refine .inr ⟨(), _, q', js, ?_, hrun, Nat.lt_succ_self _, htoks', hq',
          fun j hj => hall j (List.mem_cons_of_mem _ hj), by rw [htoks']; omega⟩
        rw [onTokens, hq, jsonLooparr_cons]
        rfl)
    n 0 js p₁ (by omega) (htoks₁.trans htoks) ⟨hp₁, hjs, by rw [htoks₁]; exact hn⟩
  exact ⟨_, bind_eq_ok_iff.mpr ⟨(none, p₁), halloc, bind_eq_ok_iff.mpr ⟨(i, p₂), hloop, rfl⟩⟩,
    hp₂, htoks₂⟩

theorem parseInline_accepts (hparse : Accepts parse n) {f : Field}
    (hinline : (typeGet type_id).is_inline = true)
    (hf : (typeGet type_id).fields.head? = some f) (hj : HasType f.type f.flags j)
    (hp : p.memory = false) (htoks : p.toks = j.tokens rest) (hn : 3 * p.toks.length + 3 ≤ n) :
    ∃ p', parseInline parse type_id none p = .ok p' ∧ p'.memory = false ∧ p'.toks = rest := by
  obtain ⟨f', fs, hfields, -, hfmaybe, hfinline⟩ := inline_field hinline
  rw [hfields] at hf
  cases hf
  have hfrank : rank f.type f.flags = 3 := by
    rw [rank, if_neg (by rw [hfmaybe]; decide), if_neg (by rw [hfinline]; decide)]
  obtain ⟨p₁, hrun, hp₁, htoks₁⟩ := hparse hj hp htoks (by omega)
  rw [parseInline, hfields]
  exact ⟨_, bind_eq_ok_iff.mpr ⟨p₁, hrun, rfl⟩, hp₁, htoks₁⟩

theorem parseRecord_accepts (hparse : Accepts parse n) {ms : List (Bytes × Json)}
    (hms : ∀ m ∈ ms, ∀ field f, fieldWithKey (typeGet type_id) m.1 = some field →
      (typeGet type_id).fields[field]? = some f → HasType f.type f.flags m.2)
    (hp : p.memory = false) (htoks : p.toks = (Json.obj ms).tokens rest)
    (hn : 3 * p.toks.length + 2 ≤ n) :
    ∃ p', parseRecord parse n type_id none p = .ok p' ∧ p'.memory = false ∧ p'.toks = rest := by
  have hlen : ms.length + rest.length < p.toks.length := by
    rw [htoks]
    exact length_objTokens (fun m _ => Json.length_tokens m.2) 0 rest
  obtain ⟨i, p₂, hloop, htoks₂, hp₂⟩ := forLoop_reads ParseState.toks objTokens
    (fun i => onTokens (parseLoopfields (typeGet type_id) n i))
    (fun _ field => parseField parse type_id none field)
    (fun ms p => p.memory = false ∧
      (∀ m ∈ ms, ∀ field f, fieldWithKey (typeGet type_id) m.1 = some field →
        (typeGet type_id).fields[field]? = some f → HasType f.type f.flags m.2) ∧
      3 * p.toks.length + 2 ≤ n)
    (fun p => p.memory = false) rest
    (fun i ms q hq hI => by
      obtain ⟨hmemory, hall, hle⟩ := hI
      rw [hq] at hle
      rcases parseLoopfields_tokens (typeGet type_id) (n := n) i ms rest (by omega) with hnone |
        ⟨key, j, ms', field, hsuffix, hfield, hshorter, hsome⟩
      · refine .inl ⟨{ q with toks := rest }, ?_, rfl, hmemory⟩
        rw [onTokens, hq, hnone]
        rfl
      · obtain ⟨f, hf, -, -⟩ := fieldWithKey_spec hfield
        have hj := hall (key, j) (hsuffix.subset List.mem_cons_self) field f hfield hf
        have hlt := Json.length_tokens j (objTokens (i + 1) ms' rest)
        have := (rank_bounds f.type f.flags).2
        obtain ⟨q', hrun, hq', htoks'⟩ := hparse hj
          (p := { q with toks := j.tokens (objTokens (i + 1) ms' rest) }) hmemory rfl
          (by dsimp only; omega)
        refine .inr ⟨field, { q with toks := j.tokens (objTokens (i + 1) ms' rest) }, q', ms', ?_,
          ?_, ?_, htoks', hq', fun m hm => hall m (hsuffix.subset (List.mem_cons_of_mem _ hm)), ?_⟩
        · rw [onTokens, hq, hsome]
          rfl
        · rw [parseField, hf]
          exact bind_eq_ok_iff.mpr ⟨q', hrun, rfl⟩
        · exact hsuffix.length_le
        · rw [htoks']
          omega)
    n 0 ms p (by omega) htoks ⟨hp, hms, hn⟩
  exact ⟨_, bind_eq_ok_iff.mpr ⟨(i, p₂), hloop, rfl⟩, hp₂, htoks₂⟩

end Cases

/-- **A value of the type is read.** The first pass takes its tokens, whatever comes behind them.
By induction on the fuel, with one lemma for each case of the parser; members that the type does
not have are skipped, however they are built. -/
theorem parseHelper_accepts (n : Nat) : Accepts (parseHelper n) n := by
  induction n with
  | zero =>
    intro type_id type_flags j _ p rest _ _ hn
    have := (rank_bounds type_id type_flags).1
    omega
  | succ n ih =>
    intro type_id type_flags j hj p rest hp htoks hn
    have hrank := (rank_bounds type_id type_flags).1
    rw [parseHelper_succ]
    cases hj with
    | null h =>
      rw [h]
      exact parseMaybe_accepts ih (.inl rfl) hp htoks (by rw [rank, if_pos (maybe_of_shape h)] at hn; omega)
    | maybe h hj =>
      rw [h]
      exact parseMaybe_accepts ih (.inr hj) hp htoks (by rw [rank, if_pos (maybe_of_shape h)] at hn; omega)
    | string str h =>
      rw [h]
      exact parseString_accepts type_id hp htoks
    | array js h hjs =>
      rw [h]
      exact parseArray_accepts ih hjs hp htoks (by omega)
    | inline h hf hj =>
      rw [h]
      exact parseInline_accepts ih (inline_of_shape h).2 hf hj hp htoks (by
        rw [rank, if_neg (inline_of_shape h).1, if_pos (inline_of_shape h).2] at hn
        omega)
    | bool flag h htype =>
      rw [h]
      exact parsePrimitive_accepts (.inl ⟨flag, rfl, htype⟩) hp htoks
    | number c k h htype =>
      rw [h]
      exact parsePrimitive_accepts (.inr ⟨c, k, rfl, htype⟩) hp htoks
    | record ms h hms =>
      rw [h]
      exact parseRecord_accepts ih hms hp htoks (by omega)

end I3ipc

end Photonbar
