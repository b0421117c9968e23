import Photonbar.I3Parse

/-!
# Trees of JSON

The values that a message is about, and their tokens. A value is a tree: a constant, a string, a
number, an array of values, or an object with members, in their order and with any keys, the same
one several times if it comes to that. Of a number there is what the scanner keeps of it.

`tokens` writes a value in front of other tokens, and so a list of tokens that begins with a value
is said without cutting it. No value begins like another one ends, so the tokens determine the
value (`tokens_injective`). The induction is on the value, with the first token telling its kind;
behind an opening bracket it is one on the elements, whose end is told by the closing bracket,
which no value begins with (`tokens_ne_char`).
-/

namespace Photonbar

namespace I3ipc

/-- A value. Of a number there is what the scanner keeps of it. -/
inductive Json where
  | null
  | bool (flag : Bool)
  | number (c : Bytes) (number_long : UInt64)
  | string (str : Bytes)
  | arr (js : List Json)
  | obj (ms : List (Bytes × Json))

namespace Json

/-- Induction, with the elements and the members as a list. -/
@[elab_as_elim, induction_eliminator]
theorem induct {P : Json → Prop} (null : P .null) (bool : ∀ flag, P (.bool flag))
    (number : ∀ c n, P (.number c n)) (string : ∀ str, P (.string str))
    (arr : ∀ js, (∀ j ∈ js, P j) → P (.arr js))
    (obj : ∀ ms, (∀ m ∈ ms, P m.2) → P (.obj ms)) (j : Json) : P j := by
  refine @Json.rec P (fun js => ∀ j ∈ js, P j) (fun ms => ∀ m ∈ ms, P m.2) (fun m => P m.2)
    null bool number string arr obj (by simp) ?_ (by simp) ?_ ?_ j
  · intro j js hj hjs
    exact List.forall_mem_cons.mpr ⟨hj, hjs⟩
  · intro m ms hm hms
    exact List.forall_mem_cons.mpr ⟨hm, hms⟩
  · exact fun _ _ hj => hj

mutual

/-- The tokens of a value, in front of others. -/
def tokens : Json → Tokens → Tokens
  | .null, rest => .null :: rest
  | .bool flag, rest => .bool flag :: rest
  | .number c n, rest => .number c n :: rest
  | .string str, rest => .string str :: rest
  | .arr [], rest => .char 91 :: .char 93 :: rest
  | .arr (j :: js), rest => .char 91 :: j.tokens (elements js (.char 93 :: rest))
  | .obj [], rest => .char 123 :: .char 125 :: rest
  | .obj ((key, j) :: ms), rest =>
    .char 123 :: .string key :: .char 58 :: j.tokens (members ms (.char 125 :: rest))

/-- More elements, each with its comma. -/
def elements : List Json → Tokens → Tokens
  | [], rest => rest
  | j :: js, rest => .char 44 :: j.tokens (elements js rest)

/-- More members, each with its comma. -/
def members : List (Bytes × Json) → Tokens → Tokens
  | [], rest => rest
  | (key, j) :: ms, rest => .char 44 :: .string key :: .char 58 :: j.tokens (members ms rest)

end

/-! ## The first token -/

/-- The type of the first token. -/
def type : Json → JsonType
  | .null => .NULL
  | .bool _ => .BOOL
  | .number _ _ => .NUMBER
  | .string _ => .STRING
  | .arr _ => .char 91
  | .obj _ => .char 123

theorem tokens_cons (j : Json) (rest : Tokens) :
    ∃ tok toks, j.tokens rest = tok :: toks ∧ tok.type = j.type := by
  cases j with
  | arr js => cases js with
    | nil => exact ⟨_, _, rfl, rfl⟩
    | cons j js => exact ⟨_, _, rfl, rfl⟩
  | obj ms => cases ms with
    | nil => exact ⟨_, _, rfl, rfl⟩
    | cons m ms => exact ⟨_, _, rfl, rfl⟩
  | _ => exact ⟨_, _, rfl, rfl⟩

/-- A value does not begin with a closing bracket, a comma or a colon, nor with the end. -/
theorem type_mem (j : Json) :
    j.type ∈ [.char 123, .char 91, .STRING, .NUMBER, .BOOL, JsonType.NULL] := by
  cases j <;> simp [type]

theorem tokens_ne_char {c : UInt8} (hc : c ≠ 123) (hc' : c ≠ 91) (j : Json) (rest toks : Tokens) :
    j.tokens rest ≠ .char c :: toks := by
  obtain ⟨tok, toks', htoks, htok⟩ := j.tokens_cons rest
  rw [htoks]
  rintro ⟨⟩
  have hmem := j.type_mem
  rw [← htok] at hmem
  simp [JsonToken.type, hc, hc'] at hmem

/-! ## The tokens determine the value -/

/-- `Same j`: a value with the tokens of `j` is `j`. -/
def Same (j : Json) : Prop :=
  ∀ j' rest rest', j.tokens rest = j'.tokens rest' → j = j' ∧ rest = rest'

theorem elements_injective {js : List Json} (h : ∀ j ∈ js, Same j) :
    ∀ {js' : List Json} {rest rest' : Tokens},
      elements js (.char 93 :: rest) = elements js' (.char 93 :: rest') → js = js' ∧ rest = rest' := by
  induction js with
  | nil =>
    intro js' rest rest' heq
    cases js' with
    | nil =>
      cases heq
      exact ⟨rfl, rfl⟩
    | cons j' js' => cases heq
  | cons j js ih =>
    intro js' rest rest' heq
    cases js' with
    | nil => cases heq
    | cons j' js' =>
      rw [elements, elements, List.cons.injEq] at heq
      obtain ⟨rfl, heq'⟩ := h j List.mem_cons_self j' _ _ heq.2
      obtain ⟨rfl, rfl⟩ := ih (fun j hj => h j (List.mem_cons_of_mem _ hj)) heq'
      exact ⟨rfl, rfl⟩

theorem members_injective {ms : List (Bytes × Json)} (h : ∀ m ∈ ms, Same m.2) :
    ∀ {ms' : List (Bytes × Json)} {rest rest' : Tokens},
      members ms (.char 125 :: rest) = members ms' (.char 125 :: rest') →
        ms = ms' ∧ rest = rest' := by
  induction ms with
  | nil =>
    intro ms' rest rest' heq
    cases ms' with
    | nil =>
      cases heq
      exact ⟨rfl, rfl⟩
    | cons m' ms' => cases heq
  | cons m ms ih =>
    intro ms' rest rest' heq
    cases ms' with
    | nil => cases heq
    | cons m' ms' =>
      obtain ⟨key, j⟩ := m
      obtain ⟨key', j'⟩ := m'
      simp only [members, List.cons.injEq, JsonToken.string.injEq, true_and] at heq
      obtain ⟨rfl, heq'⟩ := h (key, j) List.mem_cons_self j' _ _ heq.2
      obtain ⟨rfl, rfl⟩ := ih (fun m hm => h m (List.mem_cons_of_mem _ hm)) heq'
      obtain ⟨rfl, -⟩ := heq
      exact ⟨rfl, rfl⟩

theorem type_eq_of_tokens {j j' : Json} {rest rest' : Tokens}
    (h : j.tokens rest = j'.tokens rest') : j.type = j'.type := by
  obtain ⟨tok, toks, htoks, htok⟩ := j.tokens_cons rest
  obtain ⟨tok', toks', htoks', htok'⟩ := j'.tokens_cons rest'
  rw [htoks, htoks', List.cons.injEq] at h
  rw [← htok, ← htok', h.1]

theorem same (j : Json) : Same j := by
  induction j with
  | arr js ih =>
    intro j' rest rest' h
    have htype := type_eq_of_tokens h
    cases j' with
    | arr js' =>
      cases js with
      | nil => cases js' with
        | nil =>
          cases h
          exact ⟨rfl, rfl⟩
        | cons j' js' =>
          rw [tokens, tokens, List.cons.injEq] at h
          exact absurd h.2.symm (j'.tokens_ne_char (by decide) (by decide) _ _)
      | cons j js => cases js' with
        | nil =>
          rw [tokens, tokens, List.cons.injEq] at h
          exact absurd h.2 (j.tokens_ne_char (by decide) (by decide) _ _)
        | cons j' js' =>
          rw [tokens, tokens, List.cons.injEq] at h
          obtain ⟨rfl, hjs⟩ := ih j List.mem_cons_self j' _ _ h.2
          obtain ⟨rfl, rfl⟩ := elements_injective (fun j hj => ih j (List.mem_cons_of_mem _ hj)) hjs
          exact ⟨rfl, rfl⟩
    | _ => cases htype
  | obj ms ih =>
    intro j' rest rest' h
    have htype := type_eq_of_tokens h
    cases j' with
    | obj ms' =>
      cases ms with
      | nil => cases ms' with
        | nil =>
          cases h
          exact ⟨rfl, rfl⟩
        | cons m' ms' => cases h
      | cons m ms => cases ms' with
        | nil => cases h
        | cons m' ms' =>
          obtain ⟨key, j⟩ := m
          obtain ⟨key', j'⟩ := m'
          simp only [tokens, List.cons.injEq, JsonToken.string.injEq, true_and] at h
          obtain ⟨rfl, htoks⟩ := h
          obtain ⟨rfl, hms⟩ := ih (key, j) List.mem_cons_self j' _ _ htoks
          obtain ⟨rfl, rfl⟩ := members_injective (fun m hm => ih m (List.mem_cons_of_mem _ hm)) hms
          exact ⟨rfl, rfl⟩
    | _ => cases htype
  | _ =>
    intro j' rest rest' h
    have htype := type_eq_of_tokens h
    cases j' <;> simp_all [type, tokens]

/-- **The tokens determine the value.** -/
theorem tokens_injective {j j' : Json} {rest rest' : Tokens}
    (h : j.tokens rest = j'.tokens rest') : j = j' ∧ rest = rest' :=
  same j j' rest rest' h

end Json

end I3ipc

end Photonbar
