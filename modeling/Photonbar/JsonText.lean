import Photonbar.JsonTree

/-!
# The text of JSON (`i3ipc.h`)

`Spells` says which texts spell a list of tokens: with any blanks between them, and a string with
escapes or without. It is the grammar of JSON but for exponents, which the scanner does not take.
The scanner finds the tokens of every such text (`scanTokens_of_spells`), and reads back what
`i3ipc__printjson_string` prints (`printjsonString_scans`).

A string is spelled piece by piece (`StringBody`): a byte that stands for itself, an escape of one
letter, or a code point in four digits, which becomes its encoding. The induction for a string
follows these pieces, and that for a text its tokens. A number is the longest run of characters
that numbers have, so what comes behind it must not begin with one; every other token knows its own
end. What `i3ipc__printjson_string` prints for a byte is one of the pieces, and so any string at
all is printed in a way that is read back.
-/

namespace Photonbar

namespace I3ipc

/-! ## Strings -/

/-- `StringBody body str`: what stands between the quotes of a string, and what it means. -/
inductive StringBody : Bytes → Bytes → Prop where
  | nil : StringBody [] []
  | raw {c body str} (hquote : c ≠ 34) (hbackslash : c ≠ 92) (h : StringBody body str) :
    StringBody (c :: body) (c :: str)
  | escape {e body str} (hescaped : escaped e ≠ 0) (hu : e ≠ 117) (h : StringBody body str) :
    StringBody (92 :: e :: body) (escaped e :: str)
  | unicode {digits cp body str} (hlen : digits.length = 4) (hcp : codePoint digits = some cp)
    (h : StringBody body str) : StringBody (92 :: 117 :: (digits ++ body)) (utf8Bytes cp ++ str)

/-- A string without anything that has to be escaped. -/
theorem StringBody.plain {str : Bytes} (h : ∀ c ∈ str, c ≠ 34 ∧ c ≠ 92) : StringBody str str := by
  induction str with
  | nil => exact .nil
  | cons c str ih =>
    obtain ⟨⟨hquote, hbackslash⟩, hrest⟩ := List.forall_mem_cons.mp h
    exact .raw hquote hbackslash (ih hrest)

theorem escaped_u : escaped 117 = 117 := by decide

theorem escaped_ne_u {e : UInt8} (h : e ≠ 117) : escaped e ≠ 117 := by
  rw [escaped]
  split_ifs <;> decide

theorem unescape_of_pass {t piece : Bytes} {move : Nat} (h : stringPass t = some (move, piece)) :
    unescape t = (piece ++ (unescape (t.drop move)).1, (unescape (t.drop move)).2) := by
  rw [unescape, unescape, InPlace.rewrite_some stringPass_shrinking h]

/-- A string is read up to its closing quote. -/
theorem unescape_body {body str : Bytes} (h : StringBody body str) (rest : Bytes) :
    unescape (body ++ 34 :: rest) = (str, rest) := by
  induction h with
  | nil =>
    rw [List.nil_append, unescape, InPlace.rewrite_none stringPass_shrinking rfl]
    rfl
  | @raw c body str hquote hbackslash h ih =>
    have hpass : stringPass (c :: body ++ 34 :: rest) = some (1, [c]) := by
      rw [List.cons_append, stringPass, if_neg hquote, if_neg hbackslash]
    rw [unescape_of_pass hpass]
    show ([c] ++ (unescape (body ++ 34 :: rest)).1, (unescape (body ++ 34 :: rest)).2) = _
    rw [ih]
    rfl
  | @escape e body str hescaped hu h ih =>
    have hpass : stringPass (92 :: e :: body ++ 34 :: rest) = some (2, [escaped e]) := by
      rw [List.cons_append, stringPass, if_neg (by decide), if_pos rfl, List.cons_append,
        List.headD_cons, if_neg (escaped_ne_u hu), if_pos hescaped]
    rw [unescape_of_pass hpass]
    show ([escaped e] ++ (unescape (body ++ 34 :: rest)).1, (unescape (body ++ 34 :: rest)).2) = _
    rw [ih]
    rfl
  | @unicode digits cp body str hlen hcp h ih =>
    have hpass : stringPass (92 :: 117 :: (digits ++ body) ++ 34 :: rest) =
        some (6, utf8Bytes cp) := by
      have hfive : 5 ≤ (117 :: (digits ++ body ++ 34 :: rest)).length := by
        simp only [List.length_cons, List.length_append]
        omega
      have htake : ((117 : UInt8) :: (digits ++ body ++ 34 :: rest)).tail.take 4 = digits := by
        rw [List.tail_cons, List.append_assoc, List.take_left' hlen]
      rw [List.cons_append, List.cons_append, stringPass, if_neg (by decide), if_pos rfl,
        List.headD_cons, if_pos escaped_u, if_pos hfive, htake, hcp]
    rw [unescape_of_pass hpass]
    have hdrop : (92 :: 117 :: (digits ++ body) ++ 34 :: rest).drop 6 = body ++ 34 :: rest := by
      show ((digits ++ body) ++ 34 :: rest).drop 4 = _
      rw [List.append_assoc, List.drop_left' hlen]
    rw [hdrop, ih]

/-! ## Numbers -/

/-- The text of a number: a sign, digits, and perhaps a point and more digits. -/
structure IsNumber (number : Bytes) (n : UInt64) : Prop where
  length : number.length < 256
  text : ∃ (sign ds point : Bytes), number = sign ++ ds ++ point ∧ (sign = [] ∨ sign = [45]) ∧
    ds ≠ [] ∧ (∀ c ∈ ds, isDigit c = true) ∧
    (point = [] ∨ ∃ ds', point = 46 :: ds' ∧ ∀ c ∈ ds', isDigit c = true) ∧
    n = if sign = [] then digitsValue ds else -digitsValue ds

theorem isNumberChar_of_isDigit {c : UInt8} (h : isDigit c = true) : isNumberChar c = true := by
  rw [isNumberChar, h]
  rfl

theorem IsNumber.chars {number : Bytes} {n : UInt64} (h : IsNumber number n) :
    ∀ c ∈ number, isNumberChar c = true := by
  obtain ⟨sign, ds, point, rfl, hsign, -, hds, hpoint, -⟩ := h.text
  intro c hc
  rcases List.mem_append.mp hc with hc | hc
  · rcases List.mem_append.mp hc with hc | hc
    · rcases hsign with rfl | rfl
      · cases hc
      · rw [List.mem_singleton.mp hc]
        decide
    · exact isNumberChar_of_isDigit (hds c hc)
  · rcases hpoint with rfl | ⟨ds', rfl, hds'⟩
    · cases hc
    · rcases List.mem_cons.mp hc with rfl | hc
      · decide
      · exact isNumberChar_of_isDigit (hds' c hc)

theorem takeWhile_append_of_head {P : UInt8 → Bool} {l rest : Bytes} (hl : ∀ c ∈ l, P c = true)
    (hrest : ∀ c, rest.head? = some c → P c = false) :
    (l ++ rest).takeWhile P = l ∧ (l ++ rest).dropWhile P = rest := by
  induction l with
  | nil =>
    cases rest with
    | nil => exact ⟨rfl, rfl⟩
    | cons c rest =>
      have hc := hrest c rfl
      exact ⟨List.takeWhile_cons_of_neg (by simp [hc]), List.dropWhile_cons_of_neg (by simp [hc])⟩
  | cons c l ih =>
    obtain ⟨htake, hdrop⟩ := ih fun c hc => hl c (List.mem_cons_of_mem _ hc)
    have hc := hl c List.mem_cons_self
    exact ⟨by rw [List.cons_append, List.takeWhile_cons_of_pos hc, htake],
      by rw [List.cons_append, List.dropWhile_cons_of_pos hc, hdrop]⟩

/-- A number is read up to the first character that belongs to none. -/
theorem jsonScanNumber_isNumber {number rest : Bytes} {n : UInt64} (h : IsNumber number n)
    (hrest : ∀ c, rest.head? = some c → isNumberChar c = false) :
    jsonScanNumber (number ++ rest) = some (number, n) := by
  have htext := (takeWhile_append_of_head h.chars hrest).1
  obtain ⟨sign, ds, point, rfl, hsign, hne, hds, hpoint, rfl⟩ := h.text
  have hlen := h.length
  have hpointHead : ∀ c, point.head? = some c → isDigit c = false := by
    intro c hc
    rcases hpoint with rfl | ⟨ds', rfl, -⟩
    · cases hc
    · cases hc
      decide
  obtain ⟨htake, hdrop⟩ := takeWhile_append_of_head hds hpointHead
  have hsign' : (sign ++ ds ++ point).head? = some 45 ↔ sign = [45] := by
    rcases hsign with rfl | rfl
    · cases ds with
      | nil => exact absurd rfl hne
      | cons d ds =>
        have hd := hds d List.mem_cons_self
        simp only [List.nil_append, List.cons_append, List.head?_cons, Option.some.injEq]
        constructor
        · rintro rfl
          exact absurd hd (by decide)
        · exact fun h => by cases h
    · simp
  have hunsigned : (if (sign ++ ds ++ point).head? = some 45 then (sign ++ ds ++ point).tail
      else sign ++ ds ++ point) = ds ++ point := by
    rcases hsign with rfl | rfl
    · rw [if_neg (by rw [hsign']; simp)]
      rfl
    · rw [if_pos (by rw [hsign'])]
      rfl
  have hend : (if point.head? = some 46 then point.tail.dropWhile isDigit else point) = [] := by
    rcases hpoint with rfl | ⟨ds', rfl, hds'⟩
    · rfl
    · rw [List.head?_cons, if_pos rfl, List.tail_cons, List.dropWhile_eq_nil_iff]
      exact hds'
  rw [jsonScanNumber, htext]
  simp only [hunsigned, htake, hdrop, hend, if_neg (Nat.not_le.mpr hlen)]
  rw [if_neg (by simp)]
  rcases hsign with rfl | rfl
  · rw [if_neg (by rw [hsign']; simp), if_pos rfl]
  · rw [if_pos (by rw [hsign']), if_neg (by simp)]

/-! ## Texts -/

/-- The blanks in front of a token. -/
def Blank (ws : Bytes) : Prop := ∀ c ∈ ws, isBlank c = true

/-- **A text spells tokens.** -/
inductive Spells : Tokens → Bytes → Prop where
  | eof {ws} (hws : Blank ws) : Spells [.eof] ws
  | char {ws c toks text} (hws : Blank ws) (hc : isPunctuation c = true) (h : Spells toks text) :
    Spells (.char c :: toks) (ws ++ c :: text)
  | true {ws toks text} (hws : Blank ws) (h : Spells toks text) :
    Spells (.bool .true :: toks) (ws ++ 116 :: 114 :: 117 :: 101 :: text)
  | false {ws toks text} (hws : Blank ws) (h : Spells toks text) :
    Spells (.bool .false :: toks) (ws ++ 102 :: 97 :: 108 :: 115 :: 101 :: text)
  | null {ws toks text} (hws : Blank ws) (h : Spells toks text) :
    Spells (.null :: toks) (ws ++ 110 :: 117 :: 108 :: 108 :: text)
  | string {ws body str toks text} (hws : Blank ws) (hbody : StringBody body str)
    (h : Spells toks text) : Spells (.string str :: toks) (ws ++ 34 :: (body ++ 34 :: text))
  | number {ws number n toks text} (hws : Blank ws) (hnumber : IsNumber number n)
    (hend : ∀ c, text.head? = some c → isNumberChar c = .false) (h : Spells toks text) :
    Spells (.number number n :: toks) (ws ++ (number ++ text))

/-- Every token but the end has at least one character. -/
theorem Spells.length_le {toks : Tokens} {text : Bytes} (h : Spells toks text) :
    toks.length ≤ text.length + 1 := by
  induction h with
  | eof _ => exact Nat.succ_le_succ (Nat.zero_le _)
  | number _ hnumber _ _ ih =>
    obtain ⟨sign, ds, point, rfl, -, hne, -⟩ := hnumber.text
    have hpos := List.length_pos_iff.mpr hne
    simp only [List.length_cons, List.length_append]
    omega
  | _ =>
    simp only [List.length_cons, List.length_append]
    omega

theorem scanToken_blank {ws : Bytes} (hws : Blank ws) (text : Bytes) :
    scanToken (ws ++ text) = scanToken text := by
  rw [scanToken, scanToken, List.dropWhile_append_of_pos hws]

theorem scanToken_token {c : UInt8} {t : Bytes} (tok : JsonToken Empty) (move : Nat)
    (hc : isBlank c = false) (h : lexeme (c :: t) = .ok (.token tok move)) :
    scanToken (c :: t) = .ok (tok.map Empty.elim, (c :: t).drop move) := by
  rw [scanToken]
  simp only [List.dropWhile_cons_of_neg (show ¬ isBlank c = true by simp [hc]), h]

theorem scanToken_string (t : Bytes) :
    scanToken (34 :: t) = .ok (.string (unescape t).1, (unescape t).2) := by
  rw [scanToken, List.dropWhile_cons_of_neg (by decide)]
  rfl

theorem isBlank_of_isPunctuation {c : UInt8} (h : isPunctuation c = true) : isBlank c = false := by
  simp only [isPunctuation, Bool.or_eq_true, decide_eq_true_eq] at h
  rcases h with ((((rfl | rfl) | rfl) | rfl) | rfl) | rfl <;> decide

/-- The first character of a number. -/
theorem IsNumber.head {number : Bytes} {n : UInt64} (h : IsNumber number n) :
    ∃ c rest, number = c :: rest ∧ (c = 45 || isDigit c) = true := by
  obtain ⟨sign, ds, point, rfl, hsign, hne, hds, -, -⟩ := h.text
  rcases hsign with rfl | rfl
  · cases ds with
    | nil => exact absurd rfl hne
    | cons d ds => exact ⟨d, ds ++ point, rfl, by rw [hds d List.mem_cons_self, Bool.or_true]⟩
  · exact ⟨45, ds ++ point, rfl, rfl⟩

/-- A sign or a digit begins nothing but a number. -/
theorem lexeme_number {c : UInt8} {t : Bytes} (hc : (c = 45 || isDigit c) = true) :
    isBlank c = false ∧ ∀ number val_int, jsonScanNumber (c :: t) = some (number, val_int) →
      lexeme (c :: t) = .ok (.token (.number number val_int) number.length) := by
  have hrange : c = 45 ∨ (48 ≤ c.toNat ∧ c.toNat ≤ 57) := by
    rcases Bool.or_eq_true_iff.mp hc with hc | hc
    · exact .inl (of_decide_eq_true hc)
    · rw [isDigit, Bool.and_eq_true] at hc
      exact .inr ⟨of_decide_eq_true hc.1, of_decide_eq_true hc.2⟩
  have hne (k : UInt8) (hk : k ≠ 45) (hk' : k.toNat < 48 ∨ 57 < k.toNat) : c ≠ k := by
    rintro rfl
    rcases hrange with rfl | hrange
    · exact hk rfl
    · omega
  have hpunct : isPunctuation c = false := by
    simp [isPunctuation, hne 91 (by decide) (by decide), hne 93 (by decide) (by decide),
      hne 123 (by decide) (by decide), hne 125 (by decide) (by decide),
      hne 58 (by decide) (by decide), hne 44 (by decide) (by decide)]
  refine ⟨?_, ?_⟩
  · simp [isBlank, hne 32 (by decide) (by decide), hne 9 (by decide) (by decide),
      hne 10 (by decide) (by decide), hne 13 (by decide) (by decide)]
  · intro number val_int hnumber
    rw [lexeme, if_neg (by rw [hpunct]; decide), if_neg (hne 116 (by decide) (by decide)),
      if_neg (hne 102 (by decide) (by decide)), if_neg (hne 110 (by decide) (by decide)),
      if_neg (hne 34 (by decide) (by decide)), if_pos hc, hnumber]

/-- The first token of a text, and the text behind it. -/
theorem scanToken_of_spells {tok : JsonToken Bytes} {toks : Tokens} {text : Bytes}
    (h : Spells (tok :: toks) text) :
    (tok = .eof ∧ toks = [] ∧ ∃ rest, scanToken text = .ok (.eof, rest)) ∨
      (tok ≠ .eof ∧ ∃ rest, scanToken text = .ok (tok, rest) ∧ Spells toks rest) := by
  cases h with
  | eof hws =>
    refine .inl ⟨rfl, rfl, [], ?_⟩
    rw [← List.append_nil text, scanToken_blank hws]
    rfl
  | @char ws c _ rest hws hc h =>
    refine .inr ⟨by simp, rest, ?_, h⟩
    rw [scanToken_blank hws, scanToken_token (.char c) 1
      (isBlank_of_isPunctuation hc) (by rw [lexeme, if_pos hc])]
    rfl
  | @true ws _ rest hws h =>
    refine .inr ⟨by simp, rest, ?_, h⟩
    rw [scanToken_blank hws, scanToken_token (.bool .true) 4 (by decide)]
    · rfl
    · rw [lexeme, if_neg (by decide), if_pos rfl, if_neg (by simp)]
  | @false ws _ rest hws h =>
    refine .inr ⟨by simp, rest, ?_, h⟩
    rw [scanToken_blank hws, scanToken_token (.bool .false) 5 (by decide)]
    · rfl
    · rw [lexeme, if_neg (by decide), if_neg (by decide), if_pos rfl, if_neg (by simp)]
  | @null ws _ rest hws h =>
    refine .inr ⟨by simp, rest, ?_, h⟩
    rw [scanToken_blank hws, scanToken_token .null 4 (by decide)]
    · rfl
    · rw [lexeme, if_neg (by decide), if_neg (by decide), if_neg (by decide), if_pos rfl,
        if_neg (by simp)]
  | @string ws body str _ rest hws hbody h =>
    refine .inr ⟨by simp, rest, ?_, h⟩
    rw [scanToken_blank hws, scanToken_string, unescape_body hbody]
  | @number ws number n _ rest hws hnumber hend h =>
    refine .inr ⟨by simp, rest, ?_, h⟩
    have hscan := jsonScanNumber_isNumber hnumber hend
    obtain ⟨c, tail, rfl, hc⟩ := hnumber.head
    rw [List.cons_append] at hscan
    rw [scanToken_blank hws, List.cons_append, scanToken_token _ _ (lexeme_number (t := []) hc).1
      ((lexeme_number hc).2 _ _ hscan), ← List.cons_append, List.drop_left]
    rfl

/-- **The scanner finds the tokens that a text spells**, by induction on the text: each token is
found behind its blanks, and the scanner goes on where it ends. -/
theorem scanTokens_of_spells {toks : Tokens} {text : Bytes} (h : Spells toks text) :
    scanTokens text = .ok toks := by
  have hloop : ∀ (n : Nat) {toks : Tokens} {text : Bytes}, Spells toks text → text.length < n →
      scanTokensLoop n text = .ok toks := by
    intro n
    induction n with
    | zero => exact fun _ hn => absurd hn (Nat.not_lt_zero _)
    | succ n ih =>
      intro toks text h hn
      cases toks with
      | nil => cases h
      | cons tok toks =>
        rcases scanToken_of_spells h with ⟨rfl, rfl, rest, hscan⟩ | ⟨htok, rest, hscan, hrest⟩
        · rw [scanTokensLoop, hscan]
          rfl
        · have hlen := scanToken_length hscan htok
          rw [scanTokensLoop, hscan]
          dsimp only
          rw [if_neg htok, ih hrest (by omega)]
          rfl
  exact hloop _ h (Nat.lt_succ_self _)

/-! ## Printing strings -/

/-- A hexadecimal digit as `%x` prints it. -/
def hexChar (n : Nat) : UInt8 := if n < 10 then UInt8.ofNat (48 + n) else UInt8.ofNat (87 + n)

/-- One pass of the loop of `i3ipc__printjson_string`: what is printed, and what `written` counts of
it. A line break is printed as two characters and counted as one. -/
def printChar (c : UInt8) : Bytes × Nat :=
  if c = 92 ∨ c = 34 then ([92, c], 2)
  else if c = 10 then ([92, 110], 1)
  else if c < 32 then
    -- `\u%04x`
    ([92, 117, 48, 48, hexChar (c.toNat / 16), hexChar (c.toNat % 16)], 6)
  else ([c], 1)

/-- `i3ipc__printjson_string`: what is printed, and `written`. -/
def printjsonString (str : Bytes) (for_human : Bool) : Bytes × Nat :=
  let flag_dots := 200 < str.length && for_human
  let str := if flag_dots then str.take 31 else str
  let body := str.map printChar
  (34 :: body.flatMap (·.1) ++ 34 :: (if flag_dots then [46, 46, 46] else []),
    1 + (body.map (·.2)).sum + 1 + if flag_dots then 3 else 0)

theorem hexDigit_hexChar : ∀ n < 16, hexDigit (hexChar n) = some n := by decide

theorem codePoint_hex (c : UInt8) :
    codePoint [48, 48, hexChar (c.toNat / 16), hexChar (c.toNat % 16)] = some c.toNat := by
  have hlt := c.toNat_lt
  have hzero : hexDigit 48 = some 0 := rfl
  simp only [codePoint, List.foldlM_cons, List.foldlM_nil, hzero, Option.map_some,
    Option.bind_eq_bind, Option.bind_some, hexDigit_hexChar (c.toNat / 16) (by omega),
    hexDigit_hexChar (c.toNat % 16) (by omega)]
  exact congrArg some (by omega)

/-- What is printed for a string is one that means it. -/
theorem stringBody_print (str : Bytes) :
    StringBody ((str.map printChar).flatMap (·.1)) str := by
  induction str with
  | nil => exact .nil
  | cons c str ih =>
    rw [List.map_cons, List.flatMap_cons, printChar]
    split
    next hc =>
      rcases hc with rfl | rfl
      · exact .escape (e := 92) (by decide) (by decide) ih
      · exact .escape (e := 34) (by decide) (by decide) ih
    next hc =>
      rw [not_or] at hc
      split
      next hbreak =>
        subst hbreak
        exact .escape (e := 110) (by decide) (by decide) ih
      next hbreak =>
        split
        next hcontrol =>
          have hutf8 : utf8Bytes c.toNat = [c] := by
            rw [utf8Bytes, if_pos (show c.toNat ≤ 0x7f by
              have : c.toNat < 32 := hcontrol
              omega), UInt8.ofNat_toNat]
          have hunicode := StringBody.unicode rfl (codePoint_hex c) ih
          rw [hutf8] at hunicode
          exact hunicode
        next => exact .raw hc.2 hc.1 ih

theorem length_printChar (c : UInt8) : (printChar c).1.length = (printChar c).2 + [c].count 10 := by
  rw [printChar]
  split
  next hc => rcases hc with rfl | rfl <;> rfl
  next =>
    split
    next hbreak =>
      subst hbreak
      rfl
    next hbreak =>
      have hcount : [c].count 10 = 0 :=
        List.count_eq_zero.mpr fun h => hbreak (List.mem_singleton.mp h).symm
      rw [hcount]
      split <;> rfl

/-- `written` is short by the number of line breaks. -/
theorem length_printChars (str : Bytes) : ((str.map printChar).flatMap (·.1)).length =
    ((str.map printChar).map (·.2)).sum + str.count 10 := by
  induction str with
  | nil => rfl
  | cons c str ih =>
    have hcount : (c :: str).count 10 = [c].count 10 + str.count 10 :=
      @List.count_append _ _ 10 [c] str
    rw [List.map_cons, List.flatMap_cons, List.length_append, ih, length_printChar, List.map_cons,
      List.sum_cons, hcount]
    omega

/-- The fuel of the scanner does not matter if it is enough. -/
theorem scanTokensLoop_fuel : ∀ {n m : Nat} {text : Bytes}, text.length < n → text.length < m →
    scanTokensLoop n text = scanTokensLoop m text := by
  intro n
  induction n with
  | zero => exact fun h => absurd h (Nat.not_lt_zero _)
  | succ n ih =>
    intro m text hn hm
    obtain ⟨m, rfl⟩ := Nat.exists_eq_succ_of_ne_zero (Nat.ne_zero_of_lt hm)
    rw [scanTokensLoop, scanTokensLoop]
    cases htoken : scanToken text with
    | error e => rfl
    | ok r =>
      dsimp only
      split
      next => rfl
      next htok =>
        have hlen := scanToken_length htoken htok
        rw [ih (by omega) (show r.2.length < m by omega)]

theorem scanTokens_cons {text rest : Bytes} {tok : JsonToken Bytes}
    (h : scanToken text = .ok (tok, rest)) (htok : tok ≠ .eof) :
    scanTokens text = (scanTokens rest).map (tok :: ·) := by
  have hlen := scanToken_length h htok
  rw [scanTokens, scanTokensLoop, h]
  dsimp only
  rw [if_neg htok, scanTokens, scanTokensLoop_fuel hlen (Nat.lt_succ_self _)]

/-- **Printing a string and scanning it**: whatever bytes a string has, the scanner reads back what
has been printed for it and goes on with what follows; the size that is returned is that of the text
less the line breaks in the string. -/
theorem printjsonString_scans (str rest : Bytes) :
    scanTokens ((printjsonString str false).1 ++ rest) =
        (scanTokens rest).map (.string str :: ·) ∧
      (printjsonString str false).1.length = (printjsonString str false).2 + str.count 10 := by
  have hprint : printjsonString str false =
      (34 :: (str.map printChar).flatMap (·.1) ++ [34],
        1 + ((str.map printChar).map (·.2)).sum + 1) := by
    rw [printjsonString, Bool.and_false]
    rfl
  rw [hprint]
  refine ⟨scanTokens_cons ?_ (by simp), ?_⟩
  · rw [List.append_assoc, List.cons_append, List.singleton_append, scanToken_string,
      unescape_body (stringBody_print str)]
  · rw [List.length_append, List.length_cons, length_printChars, List.length_singleton]
    omega

end I3ipc

end Photonbar
