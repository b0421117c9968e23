import Photonbar.JsonTree

/-!
# Reading trees of JSON (`i3ipc.h`)

The loops over elements and over members have the same shape: a guard in front of each item, which
may skip some items by itself, and a body that takes one. `forLoop_items` says what such a loop has
read, and `forLoop_reads` that it reads what is there; the first needs no tree to begin with, the
second no success. Both are used for `i3ipc__json_skip` here: it takes exactly one value
(`jsonSkip_ok`, `jsonSkip_tokens`). The parser uses them again for its arrays and objects.

The tokens of a list of items depend on where the loop is, as only the first item stands behind a
bracket and every other one behind a comma; `arrTokens` and `objTokens` are these tokens at
iteration `i`. For each guard there is a pair of lemmas in the same sense, what it has read
(`jsonLooparr_ok`, `jsonLoopobj_ok`) and that it reads (`jsonLooparr_cons`, `jsonLoopobj_cons`).
-/

namespace Photonbar

namespace I3ipc

/-! ## Items -/

/-- The tokens at iteration `i` of a loop over elements. -/
def arrTokens : Nat → List Json → Tokens → Tokens
  | 0, js, rest => (Json.arr js).tokens rest
  | _ + 1, js, rest => Json.elements js (.char 93 :: rest)

/-- The tokens at iteration `i` of a loop over members. -/
def objTokens : Nat → List (Bytes × Json) → Tokens → Tokens
  | 0, ms, rest => (Json.obj ms).tokens rest
  | _ + 1, ms, rest => Json.members ms (.char 125 :: rest)

section Loops

variable {σ κ α : Type} {next : Nat → σ → Except ParseStop (Option κ × σ)}
  {body : Nat → κ → σ → Except ParseStop σ} (toks : σ → Tokens) (seq : Nat → List α → Tokens → Tokens)

/-- **What a loop has read.** `I` is about the items so far. -/
theorem forLoop_items (I Q : Nat → List α → σ → Prop)
    (hnone : ∀ i as s s', next i s = .ok (none, s') → I i as s →
      ∃ as', toks s = seq i as' (toks s') ∧ Q i (as ++ as') s')
    (hsome : ∀ i as k s s₁ s₂, next i s = .ok (some k, s₁) → body i k s₁ = .ok s₂ → I i as s →
      ∃ as', (∀ as'' rest, toks s₂ = seq (i + 1) as'' rest → toks s = seq i (as' ++ as'') rest) ∧
        I (i + 1) (as ++ as') s₂) :
    ∀ (n i : Nat) (as : List α) (s : σ) (r : Nat × σ),
      forLoop .fuel next body n i s = .ok r → I i as s →
        ∃ as', toks s = seq i as' (toks r.2) ∧ Q r.1 (as ++ as') r.2 := by
  intro n
  induction n with
  | zero =>
    intro i as s r h
    cases h
  | succ n ih =>
    intro i as s r h hI
    rw [forLoop] at h
    cases hnext : next i s with
    | error e =>
      rw [hnext] at h
      cases h
    | ok r₁ =>
      obtain ⟨k, s₁⟩ := r₁
      rw [hnext] at h
      cases k with
      | none =>
        cases h
        exact hnone i as s s₁ hnext hI
      | some k =>
        dsimp only at h
        cases hbody : body i k s₁ with
        | error e =>
          rw [hbody] at h
          cases h
        | ok s₂ =>
          rw [hbody] at h
          obtain ⟨as₁, htoks, hI₂⟩ := hsome i as k s s₁ s₂ hnext hbody hI
          obtain ⟨as₂, htoks₂, hQ⟩ := ih (i + 1) (as ++ as₁) s₂ r h hI₂
          exact ⟨as₁ ++ as₂, htoks as₂ _ htoks₂, List.append_assoc as as₁ as₂ ▸ hQ⟩

/-- **A loop reads what is there.** `I` bounds the fuel of the body. -/
theorem forLoop_reads (next : Nat → σ → Except ParseStop (Option κ × σ))
    (body : Nat → κ → σ → Except ParseStop σ) (I : List α → σ → Prop) (Q : σ → Prop) (rest : Tokens)
    (hstep : ∀ i as s, toks s = seq i as rest → I as s →
      (∃ s', next i s = .ok (none, s') ∧ toks s' = rest ∧ Q s') ∨
        ∃ k s₁ s₂ as', next i s = .ok (some k, s₁) ∧ body i k s₁ = .ok s₂ ∧
          as'.length < as.length ∧ toks s₂ = seq (i + 1) as' rest ∧ I as' s₂) :
    ∀ (n i : Nat) (as : List α) (s : σ), as.length < n → toks s = seq i as rest → I as s →
      ∃ m s', forLoop .fuel next body n i s = .ok (m, s') ∧ toks s' = rest ∧ Q s' := by
  intro n
  induction n with
  | zero => exact fun _ _ _ h => absurd h (Nat.not_lt_zero _)
  | succ n ih =>
    intro i as s hn htoks hI
    rcases hstep i as s htoks hI with ⟨s', hnext, hrest, hQ⟩ |
      ⟨k, s₁, s₂, as', hnext, hbody, hlt, htoks₂, hI₂⟩
    · exact ⟨i, s', by rw [forLoop, hnext], hrest, hQ⟩
    · obtain ⟨m, s', hloop, hrest⟩ := ih (i + 1) as' s₂ (by omega) htoks₂ hI₂
      exact ⟨m, s', by rw [forLoop, hnext]; dsimp only; rw [hbody]; exact hloop, hrest⟩

end Loops

/-! ## The guards -/

theorem JsonToken.eq_char {tok : JsonToken Bytes} {c : UInt8} (h : tok.type = .char c) :
    tok = .char c := by
  cases tok <;> simp_all [JsonToken.type]

theorem jsonMatch_cons {type : JsonType} {tok : JsonToken Bytes} (h : tok.type = type)
    (toks : Tokens) : jsonMatch type (tok :: toks) = .ok (tok, toks) := by
  rw [jsonMatch, jsonMatchany, if_pos (List.mem_singleton.mpr h)]

theorem jsonTrymatch_ok {type : JsonType} {toks : Tokens} {r : Option Tokens}
    (h : jsonTrymatch type toks = .ok r) :
    (∃ tok rest, toks = tok :: rest ∧ tok.type = type ∧ r = some rest) ∨
      (r = none ∧ ∀ tok rest, toks = tok :: rest → tok.type ≠ type) := by
  cases toks with
  | nil => cases h
  | cons tok toks =>
    cases h
    by_cases htype : tok.type = type
    · exact .inl ⟨tok, toks, rfl, htype, if_pos htype⟩
    · refine .inr ⟨if_neg htype, ?_⟩
      rintro tok rest ⟨⟩
      exact htype

/-- Where `i3ipc__json_looparr` ends a loop, and where it goes on. -/
theorem jsonLooparr_ok {i : Nat} {toks : Tokens} {r : Option Unit × Tokens}
    (h : jsonLooparr i toks = .ok r) :
    (r.1 = none → toks = arrTokens i [] r.2) ∧
      (r.1 ≠ none → ∀ j js rest, r.2 = j.tokens (arrTokens (i + 1) js rest) →
        toks = arrTokens i (j :: js) rest) := by
  cases i with
  | zero =>
    obtain ⟨⟨tok, toks₁⟩, hmatch, hrun⟩ := bind_eq_ok_iff.mp h
    obtain ⟨rfl, htok⟩ := jsonMatch_ok hmatch
    obtain rfl := JsonToken.eq_char htok
    obtain ⟨r', htry, hend⟩ := bind_eq_ok_iff.mp hrun
    rcases jsonTrymatch_ok htry with ⟨tok', rest, rfl, htok', rfl⟩ | ⟨rfl, -⟩
    · cases hend
      obtain rfl := JsonToken.eq_char htok'
      exact ⟨fun _ => rfl, fun hne => absurd rfl hne⟩
    · cases hend
      refine ⟨by simp, fun _ j js rest hrest => ?_⟩
      have hrest : toks₁ = j.tokens (Json.elements js (.char 93 :: rest)) := hrest
      rw [arrTokens, Json.tokens, hrest]
  | succ i =>
    obtain ⟨⟨tok, toks₁⟩, hmatch, hrun⟩ := bind_eq_ok_iff.mp h
    obtain ⟨rfl, htok⟩ := jsonMatchany_ok hmatch
    cases hrun
    dsimp only
    split
    next hcomma =>
      obtain rfl := JsonToken.eq_char hcomma
      refine ⟨by simp, fun _ j js rest hrest => ?_⟩
      rw [arrTokens, Json.elements, hrest, arrTokens]
    next hcomma =>
      have hbracket : tok.type = .char 93 := by simpa [hcomma] using htok
      obtain rfl := JsonToken.eq_char hbracket
      exact ⟨fun _ => rfl, fun hne => absurd rfl hne⟩

theorem jsonLooparr_nil (i : Nat) (rest : Tokens) :
    jsonLooparr i (arrTokens i [] rest) = .ok (none, rest) := by
  cases i <;> rfl

theorem jsonLooparr_cons (i : Nat) (j : Json) (js : List Json) (rest : Tokens) :
    jsonLooparr i (arrTokens i (j :: js) rest) =
      .ok (some (), j.tokens (arrTokens (i + 1) js rest)) := by
  cases i with
  | zero =>
    obtain ⟨tok, toks, htoks, htok⟩ := j.tokens_cons (Json.elements js (.char 93 :: rest))
    have hne : tok.type ≠ .char 93 := by
      intro h
      rw [JsonToken.eq_char h] at htoks
      exact j.tokens_ne_char (by decide) (by decide) _ _ htoks
    rw [arrTokens, Json.tokens, htoks, arrTokens, htoks]
    refine bind_eq_ok_iff.mpr ⟨(.char 91, tok :: toks), jsonMatch_cons rfl _, ?_⟩
    exact bind_eq_ok_iff.mpr ⟨none, by rw [jsonTrymatch, if_neg hne], rfl⟩
  | succ i => rfl

theorem jsonKey_ok {toks : Tokens} {r : Option Bytes × Tokens} (h : jsonKey toks = .ok r) :
    ∃ key, r.1 = some key ∧ toks = .string key :: .char 58 :: r.2 := by
  obtain ⟨⟨tok, toks₁⟩, hmatch, hrun⟩ := bind_eq_ok_iff.mp h
  obtain ⟨rfl, htok⟩ := jsonMatch_ok hmatch
  obtain ⟨⟨colon, toks₂⟩, hmatch', hend⟩ := bind_eq_ok_iff.mp hrun
  obtain ⟨rfl, hcolon⟩ := jsonMatch_ok hmatch'
  obtain rfl := JsonToken.eq_char hcolon
  cases tok with
  | string key =>
    cases hend
    exact ⟨key, rfl, rfl⟩
  | _ => cases htok

/-- Where `i3ipc__json_loopobj` ends a loop, and where it goes on. -/
theorem jsonLoopobj_ok {i : Nat} {toks : Tokens} {r : Option Bytes × Tokens}
    (h : jsonLoopobj i toks = .ok r) :
    (r.1 = none → toks = objTokens i [] r.2) ∧
      ∀ key, r.1 = some key → ∀ j ms rest, r.2 = j.tokens (objTokens (i + 1) ms rest) →
        toks = objTokens i ((key, j) :: ms) rest := by
  cases i with
  | zero =>
    obtain ⟨⟨tok, toks₁⟩, hmatch, hrun⟩ := bind_eq_ok_iff.mp h
    obtain ⟨rfl, htok⟩ := jsonMatch_ok hmatch
    obtain rfl := JsonToken.eq_char htok
    obtain ⟨r', htry, hend⟩ := bind_eq_ok_iff.mp hrun
    rcases jsonTrymatch_ok htry with ⟨tok', rest, rfl, htok', rfl⟩ | ⟨rfl, -⟩
    · cases hend
      obtain rfl := JsonToken.eq_char htok'
      exact ⟨fun _ => rfl, fun key hkey => by cases hkey⟩
    · obtain ⟨key, hkey, rfl⟩ := jsonKey_ok hend
      refine ⟨fun hnone => by simp [hkey] at hnone, ?_⟩
      rintro key' hkey' j ms rest hrest
      rw [hkey] at hkey'
      cases hkey'
      rw [objTokens, Json.tokens, hrest, objTokens]
  | succ i =>
    obtain ⟨⟨tok, toks₁⟩, hmatch, hrun⟩ := bind_eq_ok_iff.mp h
    obtain ⟨rfl, htok⟩ := jsonMatchany_ok hmatch
    dsimp only at hrun
    split at hrun
    next hcomma =>
      obtain rfl := JsonToken.eq_char hcomma
      obtain ⟨key, hkey, rfl⟩ := jsonKey_ok hrun
      refine ⟨fun hnone => by simp [hkey] at hnone, ?_⟩
      rintro key' hkey' j ms rest hrest
      rw [hkey] at hkey'
      cases hkey'
      rw [objTokens, Json.members, hrest, objTokens]
    next hcomma =>
      cases hrun
      have hbrace : tok.type = .char 125 := by simpa [hcomma] using htok
      obtain rfl := JsonToken.eq_char hbrace
      exact ⟨fun _ => rfl, fun key hkey => by cases hkey⟩

theorem jsonLoopobj_nil (i : Nat) (rest : Tokens) :
    jsonLoopobj i (objTokens i [] rest) = .ok (none, rest) := by
  cases i <;> rfl

theorem jsonLoopobj_cons (i : Nat) (key : Bytes) (j : Json) (ms : List (Bytes × Json))
    (rest : Tokens) :
    jsonLoopobj i (objTokens i ((key, j) :: ms) rest) =
      .ok (some key, j.tokens (objTokens (i + 1) ms rest)) := by
  cases i <;> rfl

/-! ## How long tokens are -/

theorem arrTokens_cons (i : Nat) (j : Json) (js : List Json) (rest : Tokens) :
    ∃ tok, arrTokens i (j :: js) rest = tok :: j.tokens (arrTokens (i + 1) js rest) := by
  cases i with
  | zero => exact ⟨_, rfl⟩
  | succ i => exact ⟨_, rfl⟩

theorem objTokens_cons (i : Nat) (key : Bytes) (j : Json) (ms : List (Bytes × Json))
    (rest : Tokens) :
    ∃ tok, objTokens i ((key, j) :: ms) rest =
      tok :: .string key :: .char 58 :: j.tokens (objTokens (i + 1) ms rest) := by
  cases i with
  | zero => exact ⟨_, rfl⟩
  | succ i => exact ⟨_, rfl⟩

theorem length_arrTokens {js : List Json}
    (h : ∀ j ∈ js, ∀ rest, rest.length < (j.tokens rest).length) :
    ∀ (i : Nat) (rest : Tokens), js.length + rest.length < (arrTokens i js rest).length := by
  induction js with
  | nil =>
    intro i rest
    rw [List.length_nil, Nat.zero_add]
    cases i with
    | zero => exact Nat.lt_succ_of_lt (Nat.lt_succ_self _)
    | succ i => exact Nat.lt_succ_self _
  | cons j js ih =>
    intro i rest
    obtain ⟨tok, htoks⟩ := arrTokens_cons i j js rest
    have hj := h j List.mem_cons_self (arrTokens (i + 1) js rest)
    have hjs := ih (fun j hj => h j (List.mem_cons_of_mem _ hj)) (i + 1) rest
    rw [htoks, List.length_cons, List.length_cons]
    omega

theorem length_objTokens {ms : List (Bytes × Json)}
    (h : ∀ m ∈ ms, ∀ rest, rest.length < (m.2.tokens rest).length) :
    ∀ (i : Nat) (rest : Tokens), ms.length + rest.length < (objTokens i ms rest).length := by
  induction ms with
  | nil =>
    intro i rest
    rw [List.length_nil, Nat.zero_add]
    cases i with
    | zero => exact Nat.lt_succ_of_lt (Nat.lt_succ_self _)
    | succ i => exact Nat.lt_succ_self _
  | cons m ms ih =>
    intro i rest
    obtain ⟨key, j⟩ := m
    obtain ⟨tok, htoks⟩ := objTokens_cons i key j ms rest
    have hj := h (key, j) List.mem_cons_self (objTokens (i + 1) ms rest)
    have hms := ih (fun m hm => h m (List.mem_cons_of_mem _ hm)) (i + 1) rest
    rw [htoks]
    simp only [List.length_cons] at hj hms ⊢
    omega

theorem Json.length_tokens (j : Json) : ∀ rest, rest.length < (j.tokens rest).length := by
  induction j with
  | arr js ih => exact fun rest => lt_of_le_of_lt (Nat.le_add_left _ _) (length_arrTokens ih 0 rest)
  | obj ms ih => exact fun rest => lt_of_le_of_lt (Nat.le_add_left _ _) (length_objTokens ih 0 rest)
  | _ => exact fun rest => Nat.lt_succ_self _

/-! ## A value that is skipped -/

/-- What is skipped is a value. -/
theorem jsonSkip_ok : ∀ {n : Nat} {toks rest : Tokens}, jsonSkip n toks = .ok rest →
    ∃ j : Json, toks = j.tokens rest := by
  intro n
  induction n with
  | zero => exact fun h => by cases h
  | succ n ih =>
    intro toks rest h
    obtain ⟨⟨tok, toks₁⟩, hmatch, hrun⟩ := bind_eq_ok_iff.mp h
    obtain ⟨htoks, htok⟩ := jsonMatchany_ok hmatch
    dsimp only at hrun htoks htok
    split at hrun
    next hbrace =>
      obtain ⟨⟨m, rest'⟩, hloop, hrun⟩ := bind_eq_ok_iff.mp hrun
      cases hrun
      obtain ⟨ms, hms, -⟩ := forLoop_items (fun toks => toks) objTokens
        (fun _ _ _ => True) (fun _ _ _ => True)
        (fun i _ s s' hnext _ => ⟨[], (jsonLoopobj_ok hnext).1 rfl, trivial⟩)
        (fun i _ key s s₁ s₂ hnext hbody _ => by
          obtain ⟨j, hj⟩ := ih hbody
          refine ⟨[(key, j)], fun ms rest hrest => ?_, trivial⟩
          exact (jsonLoopobj_ok hnext).2 key rfl j ms rest (by rw [hj, hrest]))
        n 0 [] toks (m, rest') hloop trivial
      exact ⟨.obj ms, hms⟩
    next hbrace =>
    split at hrun
    next hbracket =>
      obtain ⟨⟨m, rest'⟩, hloop, hrun⟩ := bind_eq_ok_iff.mp hrun
      cases hrun
      obtain ⟨js, hjs, -⟩ := forLoop_items (fun toks => toks) arrTokens
        (fun _ _ _ => True) (fun _ _ _ => True)
        (fun i _ s s' hnext _ => ⟨[], (jsonLooparr_ok hnext).1 rfl, trivial⟩)
        (fun i _ key s s₁ s₂ hnext hbody _ => by
          obtain ⟨j, hj⟩ := ih hbody
          refine ⟨[j], fun js rest hrest => ?_, trivial⟩
          exact (jsonLooparr_ok hnext).2 (by simp) j js rest (by rw [hj, hrest]))
        n 0 [] toks (m, rest') hloop trivial
      exact ⟨.arr js, hjs⟩
    next hbracket =>
      cases hrun
      rw [htoks]
      cases tok with
      | bool flag => exact ⟨.bool flag, rfl⟩
      | null => exact ⟨.null, rfl⟩
      | string str => exact ⟨.string str, rfl⟩
      | number c k => exact ⟨.number c k, rfl⟩
      | _ => simp_all [JsonToken.type]

/-- A value is skipped. -/
theorem jsonSkip_tokens : ∀ {n : Nat} (j : Json) (rest : Tokens), (j.tokens rest).length + 1 < n →
    jsonSkip n (j.tokens rest) = .ok rest := by
  intro n
  induction n with
  | zero => exact fun _ _ h => absurd h (Nat.not_lt_zero _)
  | succ n ih =>
    intro j rest hn
    obtain ⟨tok, toks, htoks, htok⟩ := j.tokens_cons rest
    have hmatch : jsonMatchany [.char 123, .char 91, .STRING, .NUMBER, .BOOL, .NULL]
        (j.tokens rest) = .ok (tok, toks) := by
      rw [htoks, jsonMatchany, if_pos (htok ▸ j.type_mem)]
    refine bind_eq_ok_iff.mpr ⟨(tok, toks), hmatch, ?_⟩
    dsimp only
    rw [htok]
    cases j with
    | arr js =>
      have hlen : js.length + rest.length < ((Json.arr js).tokens rest).length :=
        length_arrTokens (fun j _ => Json.length_tokens j) 0 rest
      obtain ⟨m, rest', hloop, rfl, -⟩ := forLoop_reads (fun toks => toks) arrTokens
        jsonLooparr (fun _ _ toks => jsonSkip n toks) (fun _ toks => toks.length < n)
        (fun _ => True) rest
        (fun i js toks htoks hlt => by
          cases js with
          | nil => exact .inl ⟨rest, by rw [htoks]; exact jsonLooparr_nil i rest, rfl, trivial⟩
          | cons j js =>
            obtain ⟨tok, hcons⟩ := arrTokens_cons i j js rest
            have hlt' := Json.length_tokens j (arrTokens (i + 1) js rest)
            rw [htoks, hcons, List.length_cons] at hlt
            exact .inr ⟨(), _, _, js, by rw [htoks]; exact jsonLooparr_cons i j js rest,
              ih j _ (by omega), Nat.lt_succ_self _, rfl, by omega⟩)
        n 0 js ((Json.arr js).tokens rest) (by omega) rfl (by omega)
      exact bind_eq_ok_iff.mpr ⟨(m, rest'), hloop, rfl⟩
    | obj ms =>
      have hlen : ms.length + rest.length < ((Json.obj ms).tokens rest).length :=
        length_objTokens (fun m _ => Json.length_tokens m.2) 0 rest
      obtain ⟨m, rest', hloop, rfl, -⟩ := forLoop_reads (fun toks => toks) objTokens
        jsonLoopobj (fun _ _ toks => jsonSkip n toks) (fun _ toks => toks.length < n)
        (fun _ => True) rest
        (fun i ms toks htoks hlt => by
          cases ms with
          | nil => exact .inl ⟨rest, by rw [htoks]; exact jsonLoopobj_nil i rest, rfl, trivial⟩
          | cons m ms =>
            obtain ⟨key, j⟩ := m
            obtain ⟨tok, hcons⟩ := objTokens_cons i key j ms rest
            have hlt' := Json.length_tokens j (objTokens (i + 1) ms rest)
            rw [htoks, hcons] at hlt
            simp only [List.length_cons] at hlt
            exact .inr ⟨key, _, _, ms, by rw [htoks]; exact jsonLoopobj_cons i key j ms rest,
              ih j _ (by omega), Nat.lt_succ_self _, rfl, by omega⟩)
        n 0 ms ((Json.obj ms).tokens rest) (by omega) rfl (by omega)
      exact bind_eq_ok_iff.mpr ⟨(m, rest'), hloop, rfl⟩
    | _ =>
      cases htoks
      rfl

/-! ## Members that a type does not have -/

/-- Behind `i3ipc__parse_loopfields` there is the end of the object, or a field of the type. The
members in front of it are none of the type. -/
theorem parseLoopfields_ok {type : TypeInfo} : ∀ {n i : Nat} {toks : Tokens}
    {r : Option Nat × Tokens}, parseLoopfields type n i toks = .ok r →
      ∃ ms : List (Bytes × Json), (∀ m ∈ ms, fieldWithKey type m.1 = none) ∧
        (r.1 = none → toks = objTokens i ms r.2) ∧
        ∀ field, r.1 = some field → ∃ key, fieldWithKey type key = some field ∧
          ∀ j ms' rest, r.2 = j.tokens (objTokens (i + 1) ms' rest) →
            toks = objTokens i (ms ++ (key, j) :: ms') rest := by
  intro n
  induction n with
  | zero => exact fun h => by cases h
  | succ n ih =>
    intro i toks r h
    obtain ⟨⟨k, toks₁⟩, hloop, hrun⟩ := bind_eq_ok_iff.mp h
    obtain ⟨hnone, hsome⟩ := jsonLoopobj_ok hloop
    cases k with
    | none =>
      cases hrun
      exact ⟨[], by simp, fun _ => hnone rfl, fun field hfield => by cases hfield⟩
    | some key =>
      dsimp only at hrun
      split at hrun
      next field hfield =>
        cases hrun
        refine ⟨[], by simp, by simp, ?_⟩
        rintro field' ⟨⟩
        exact ⟨key, hfield, hsome key rfl⟩
      next hother =>
        obtain ⟨toks₂, hskip, hrun⟩ := bind_eq_ok_iff.mp hrun
        obtain ⟨j, hj⟩ := jsonSkip_ok hskip
        obtain ⟨ms, hms, hend, hfield⟩ := ih hrun
        refine ⟨(key, j) :: ms, List.forall_mem_cons.mpr ⟨hother, hms⟩, ?_, ?_⟩
        · exact fun hr => hsome key rfl j ms r.2 (hj.trans (congrArg j.tokens (hend hr)))
        · intro field hr
          obtain ⟨key', hkey', hrest⟩ := hfield field hr
          refine ⟨key', hkey', fun j' ms' rest hj' => ?_⟩
          exact hsome key rfl j (ms ++ (key', j') :: ms') rest
            (hj.trans (congrArg j.tokens (hrest j' ms' rest hj')))

/-- `i3ipc__parse_loopfields` finds the next member that the type has. -/
theorem parseLoopfields_tokens (type : TypeInfo) : ∀ {n : Nat} (i : Nat)
    (ms : List (Bytes × Json)) (rest : Tokens), (objTokens i ms rest).length + 1 < n →
      parseLoopfields type n i (objTokens i ms rest) = .ok (none, rest) ∨
        ∃ key j ms' field, (key, j) :: ms' <:+ ms ∧ fieldWithKey type key = some field ∧
          (j.tokens (objTokens (i + 1) ms' rest)).length < (objTokens i ms rest).length ∧
          parseLoopfields type n i (objTokens i ms rest) =
            .ok (some field, j.tokens (objTokens (i + 1) ms' rest)) := by
  intro n
  induction n with
  | zero => exact fun _ _ _ h => absurd h (Nat.not_lt_zero _)
  | succ n ih =>
    intro i ms rest hn
    cases ms with
    | nil =>
      exact .inl (bind_eq_ok_iff.mpr ⟨(none, rest), jsonLoopobj_nil i rest, rfl⟩)
    | cons m ms =>
      obtain ⟨key, j⟩ := m
      obtain ⟨tok, hcons⟩ := objTokens_cons i key j ms rest
      have hlt := Json.length_tokens j (objTokens (i + 1) ms rest)
      have hloop := jsonLoopobj_cons i key j ms rest
      have hshorter : (j.tokens (objTokens (i + 1) ms rest)).length + 3 =
          (objTokens i ((key, j) :: ms) rest).length := by
        rw [hcons]
        rfl
      cases hfield : fieldWithKey type key with
      | some field =>
        refine .inr ⟨key, j, ms, field, List.suffix_refl _, hfield, by omega, ?_⟩
        refine bind_eq_ok_iff.mpr ⟨_, hloop, ?_⟩
        simp only [hfield]
        rfl
      | none =>
        have hskip := jsonSkip_tokens (n := n) j (objTokens (i + 1) ms rest) (by omega)
        have hrun : parseLoopfields type (n + 1) i (objTokens i ((key, j) :: ms) rest) =
            parseLoopfields type n 1 (objTokens 1 ms rest) := by
          rw [parseLoopfields, hloop]
          simp only [bind, Except.bind, hfield, hskip]
          rfl
        rw [hrun]
        rcases ih 1 ms rest (show (objTokens (i + 1) ms rest).length + 1 < n by omega) with hnone |
          ⟨key', j', ms', field, hsuffix, hkey', hlt', hsome⟩
        · exact .inl hnone
        · have hlt' : (j'.tokens (objTokens (i + 1) ms' rest)).length <
            (objTokens (i + 1) ms rest).length := hlt'
          exact .inr ⟨key', j', ms', field, hsuffix.trans (List.suffix_cons _ _), hkey', by omega,
            hsome⟩

end I3ipc

end Photonbar
