import Photonbar.CString
import Photonbar.InPlace

/-!
# Scanning JSON (`i3ipc.h`)

`i3ipc__json_scan` cuts the payload of a message into tokens. A string is unescaped in place: what
it stands for is written over it from its opening quote on, and a NUL behind that. So the scanner
writes into the text that it still has to read, and a token of a string is only a place in the
buffer.

`scanTokens` is the scanner that writes nothing: its tokens have the strings themselves.
`jsonScan_spec` says that the scanner in place is the same: what it writes never reaches what it has
still to read, nor a string that it has already written.
-/

namespace Photonbar

namespace I3ipc

/-! ## Tokens -/

/-- `I3ipc_json_token`. A string is a place and a size in the scanner, and bytes later on. Of
`number`, a `double`, there is the text that it is computed from. -/
inductive JsonToken (σ : Type) where
  /-- type 0 -/
  | eof
  /-- a token of one character, which is its type -/
  | char (c : UInt8)
  | bool (flag : Bool)
  | null
  | string (str : σ)
  | number (c : Bytes) (number_long : UInt64)
  deriving DecidableEq

/-- A token with its string replaced. -/
def JsonToken.map {σ τ : Type} (f : σ → τ) : JsonToken σ → JsonToken τ
  | .eof => .eof
  | .char c => .char c
  | .bool flag => .bool flag
  | .null => .null
  | .string str => .string (f str)
  | .number c n => .number c n

/-! ## Strings -/

/-- `ic`: what `\` and this byte stand for, and 0 if nothing. Behind `u` there are four digits. -/
def escaped (c : UInt8) : UInt8 :=
  if c = 34 then 34
  else if c = 92 then 92
  else if c = 47 then 47
  else if c = 98 then 8
  else if c = 102 then 12
  else if c = 110 then 10
  else if c = 114 then 13
  else if c = 116 then 9
  else if c = 117 then 117
  else 0

/-- `val`: a hexadecimal digit. -/
def hexDigit (jc : UInt8) : Option Nat :=
  if 48 ≤ jc ∧ jc ≤ 57 then some (jc.toNat - 48)
  else if 65 ≤ jc ∧ jc ≤ 70 then some (10 + jc.toNat - 65)
  else if 97 ≤ jc ∧ jc ≤ 102 then some (10 + jc.toNat - 97)
  else none

/-- `cp`, if the digits are valid. -/
def codePoint (digits : Bytes) : Option Nat :=
  digits.foldlM (fun cp jc => (hexDigit jc).map fun val => cp * 16 + val) 0

/-- The UTF-8 encoding of a code point. -/
def utf8Bytes (cp : Nat) : Bytes :=
  if cp ≤ 0x7f then [UInt8.ofNat cp]
  else if cp ≤ 0x7ff then [UInt8.ofNat (0xc0 ||| cp >>> 6), UInt8.ofNat (0x80 ||| (cp &&& 0x3f))]
  else if cp ≤ 0xffff then
    [UInt8.ofNat (0xe0 ||| cp >>> 12), UInt8.ofNat (0x80 ||| (cp >>> 6 &&& 0x3f)),
      UInt8.ofNat (0x80 ||| (cp &&& 0x3f))]
  else if cp ≤ 0x10ffff then
    [UInt8.ofNat (0xf0 ||| cp >>> 18), UInt8.ofNat (0x80 ||| (cp >>> 12 &&& 0x3f)),
      UInt8.ofNat (0x80 ||| (cp >>> 6 &&& 0x3f)), UInt8.ofNat (0x80 ||| (cp &&& 0x3f))]
  else [0xef, 0xbf, 0xbd]

/-- One pass of the loop of `i3ipc__json_scan_string`, for the text from `cur[i]` on: how many bytes
are read and what is written. `none` is the closing quote. -/
def stringPass : Bytes → Option (Nat × Bytes)
  | [] => none
  | c :: t =>
    if c = 34 then none
    else if c = 92 then
      if escaped (t.headD 0) = 117 then
        match if 5 ≤ t.length then codePoint (t.tail.take 4) else none with
        | some cp => some (6, utf8Bytes cp)
        | none => some (1, [c])
      else if escaped (t.headD 0) ≠ 0 then some (2, [escaped (t.headD 0)])
      else some (1, [c])
    else some (1, [c])

/-! ## Numbers -/

/-- A decimal digit. -/
def isDigit (ic : UInt8) : Bool := 48 ≤ ic && ic ≤ 57

/-- A character of a number. -/
def isNumberChar (ic : UInt8) : Bool :=
  isDigit ic || ic = 45 || ic = 46 || ic = 43 || ic = 101 || ic = 69

/-- `val_int` of digits. -/
def digitsValue (ds : Bytes) : UInt64 :=
  ds.foldl (fun val_int c => 10 * val_int + (c - 48).toUInt64) 0

/-- `i3ipc__json_scan_number`: the text of the number and `val_int`. -/
def jsonScanNumber (text : Bytes) : Option (Bytes × UInt64) :=
  let number := text.takeWhile isNumberChar
  if 256 ≤ number.length then none
  else
    let flipsign := number.head? = some 45
    let c := if flipsign then number.tail else number
    let val_int := digitsValue (c.takeWhile isDigit)
    let c := c.dropWhile isDigit
    let c := if c.head? = some 46 then c.tail.dropWhile isDigit else c
    -- an exponent, or a sign inside the number
    if c ≠ [] then none
    else some (number, if flipsign then -val_int else val_int)

/-! ## One token -/

/-- What stands at the beginning of a text without blanks in front. -/
inductive Lexeme where
  /-- a token that is no string, and its length -/
  | token (tok : JsonToken Empty) (move : Nat)
  /-- a string, which has to be scanned -/
  | string

/-- The characters that are tokens. -/
def isPunctuation (c : UInt8) : Bool :=
  c = 91 || c = 93 || c = 123 || c = 125 || c = 58 || c = 44

/-- The blanks between tokens. -/
def isBlank (c : UInt8) : Bool := c = 32 || c = 9 || c = 10 || c = 13

/-- The cases of `i3ipc__json_scan_token`, behind the blanks. Of `false` four bytes are compared. -/
def lexeme (text : Bytes) : Except Nat Lexeme :=
  match text with
  | [] => .ok (.token .eof 0)
  | c :: _ =>
    if isPunctuation c then .ok (.token (.char c) 1)
    else if c = 116 then
      if text.length < 4 ∨ text.take 4 ≠ [116, 114, 117, 101] then .error 3
      else .ok (.token (.bool true) 4)
    else if c = 102 then
      if text.length < 5 ∨ text.take 4 ≠ [102, 97, 108, 115] then .error 4
      else .ok (.token (.bool false) 5)
    else if c = 110 then
      if text.length < 4 ∨ text.take 4 ≠ [110, 117, 108, 108] then .error 5
      else .ok (.token .null 4)
    else if c = 34 then .ok .string
    else if c = 45 || isDigit c then
      match jsonScanNumber text with
      | none => .error 1
      | some (number, val_int) => .ok (.token (.number number val_int) number.length)
    else .error 2

/-! ## The scanner in place -/

/-- `I3ipc_json_state` as the scanner uses it: the memory, `cur` as a place in it, and `left`. -/
structure JsonState where
  buf : Bytes
  cur : Nat
  left : Nat
  inside : cur + left ≤ buf.length

namespace JsonState

/-- The text from `cur` on. -/
def text (s : JsonState) : Bytes := InPlace.between s.buf s.cur (s.cur + s.left)

/-- `cur += n` and `left -= n`. -/
def advance (s : JsonState) (n : Nat) : JsonState :=
  ⟨s.buf, s.cur + min n s.left, s.left - n, by have := s.inside; omega⟩

end JsonState

/-- `i3ipc__json_scan_string`: the place and the size of the string; `none` is an access outside the
memory. The loop has `p` and `cur + i` as its positions; a pass reads at least one byte, so `left`
passes are enough. -/
def jsonScanString (s : JsonState) : Option ((Nat × Nat) × JsonState) :=
  match InPlace.loop stringPass (s.cur + s.left) s.left s.buf s.cur (s.cur + 1) with
  | none => none
  | some (buf, p, r) =>
    match InPlace.overwrite buf p [0] with
    | none => none
    | some buf =>
      -- the closing quote
      let i := if r < s.cur + s.left then r - s.cur + 1 else r - s.cur
      if h : s.cur + i + (s.left - i) ≤ buf.length then
        some ((s.cur, p - s.cur), ⟨buf, s.cur + i, s.left - i, h⟩)
      else none

/-- `i3ipc__json_scan_token`: a token, or the number of the error. -/
def jsonScanToken (s : JsonState) : Option (Except Nat (JsonToken (Nat × Nat) × JsonState)) :=
  let s := s.advance ((s.text).takeWhile isBlank).length
  match lexeme (s.text) with
  | .error e => some (.error e)
  | .ok (.token tok move) => some (.ok (tok.map Empty.elim, s.advance move))
  | .ok .string =>
    match jsonScanString s with
    | none => none
    | some (str, s) => some (.ok (.string str, s))

/-- `i3ipc__json_scan`. A token that is not the last has at least one byte. -/
def scanLoop : Nat → JsonState → Option (Except Nat (List (JsonToken (Nat × Nat)) × JsonState))
  | 0, _ => none
  | n + 1, s =>
    match jsonScanToken s with
    | none => none
    | some (.error e) => some (.error e)
    | some (.ok (tok, s)) =>
      if tok = .eof then some (.ok ([tok], s))
      else
        match scanLoop n s with
        | some (.ok (toks, s)) => some (.ok (tok :: toks, s))
        | r => r

/-- `i3ipc__json_scan` from the beginning of a payload. -/
def jsonScan (s : JsonState) : Option (Except Nat (List (JsonToken (Nat × Nat)) × JsonState)) :=
  scanLoop (s.left + 1) s

/-! ## The scanner that writes nothing -/

theorem length_utf8Bytes (cp : Nat) : (utf8Bytes cp).length ≤ 4 := by
  rw [utf8Bytes]
  repeat' split
  all_goals simp

/-- A pass reads at least one byte, no more than there are, and writes no more than it reads. -/
theorem stringPass_shrinking : InPlace.Shrinking stringPass := by
  intro t move piece h
  cases t with
  | nil => cases h
  | cons c t =>
    have hraw (hr : some (1, [c]) = some (move, piece)) :
        1 ≤ move ∧ move ≤ (c :: t).length ∧ piece.length ≤ move := by
      cases hr
      exact ⟨le_refl 1, Nat.succ_le_succ (Nat.zero_le _), le_refl 1⟩
    rw [stringPass] at h
    split at h
    · cases h
    · split at h
      · split at h
        · split at h
          next cp hcp =>
            cases h
            split at hcp
            next hlen => exact ⟨by decide, Nat.succ_le_succ hlen, (length_utf8Bytes cp).trans (by decide)⟩
            next => cases hcp
          next => exact hraw h
        · split at h
          next hne =>
            cases h
            cases t with
            | nil => exact absurd (by decide) hne
            | cons e t => exact ⟨by decide, by simp, Nat.le_succ 1⟩
          next => exact hraw h
      · exact hraw h

/-- What a string stands for, and what follows its closing quote, for the text behind the opening
quote. -/
def unescape (t : Bytes) : Bytes × Bytes :=
  ((InPlace.rewrite stringPass stringPass_shrinking t).1,
    (InPlace.rewrite stringPass stringPass_shrinking t).2.tail)

/-- A token and the text behind it. -/
def scanToken (text : Bytes) : Except Nat (JsonToken Bytes × Bytes) :=
  let text := text.dropWhile isBlank
  match lexeme text with
  | .error e => .error e
  | .ok (.token tok move) => .ok (tok.map Empty.elim, text.drop move)
  | .ok .string => .ok (.string (unescape text.tail).1, (unescape text.tail).2)

/-- The tokens of a text. -/
def scanTokensLoop : Nat → Bytes → Except Nat (List (JsonToken Bytes))
  | 0, _ => .error 0
  | n + 1, text =>
    match scanToken text with
    | .error e => .error e
    | .ok (tok, text) =>
      if tok = .eof then .ok [tok]
      else (scanTokensLoop n text).map (tok :: ·)

/-- The tokens of a payload. -/
def scanTokens (text : Bytes) : Except Nat (List (JsonToken Bytes)) :=
  scanTokensLoop (text.length + 1) text

/-! ## A string in place -/

/-- The scanner has come from `s` to `s'`: it has written between the two places only. -/
structure Scanned (s s' : JsonState) : Prop where
  stop : s'.cur + s'.left = s.cur + s.left
  le : s.cur ≤ s'.cur
  length : s'.buf.length = s.buf.length
  before : s'.buf.take s.cur = s.buf.take s.cur
  after : s'.buf.drop s'.cur = s.buf.drop s'.cur

theorem Scanned.trans {s s' s'' : JsonState} (h : Scanned s s') (h' : Scanned s' s'') :
    Scanned s s'' := by
  refine ⟨h'.stop.trans h.stop, h.le.trans h'.le, h'.length.trans h.length, ?_, ?_⟩
  · have htake := congrArg (List.take s.cur) h'.before
    rwa [List.take_take, List.take_take, Nat.min_eq_left h.le, h.before] at htake
  · rw [h'.after, ← Nat.add_sub_cancel' h'.le, ← List.drop_drop, ← List.drop_drop, h.after]

theorem JsonState.length_text (s : JsonState) : s.text.length = s.left := by
  rw [text, InPlace.length_between s.inside]
  omega

@[simp] theorem JsonState.advance_buf (s : JsonState) (n : Nat) : (s.advance n).buf = s.buf := rfl

@[simp] theorem JsonState.advance_cur (s : JsonState) (n : Nat) :
    (s.advance n).cur = s.cur + min n s.left := rfl

@[simp] theorem JsonState.advance_left (s : JsonState) (n : Nat) :
    (s.advance n).left = s.left - n := rfl

theorem Scanned.advance (s : JsonState) (n : Nat) : Scanned s (s.advance n) := by
  refine ⟨?_, Nat.le_add_right _ _, rfl, rfl, rfl⟩
  rw [JsonState.advance_cur, JsonState.advance_left]
  omega

theorem JsonState.text_advance (s : JsonState) (n : Nat) : (s.advance n).text = s.text.drop n := by
  rw [text, text, InPlace.drop_between, advance_buf, advance_cur, advance_left]
  by_cases hn : n ≤ s.left
  · rw [Nat.min_eq_left hn, show s.cur + n + (s.left - n) = s.cur + s.left by omega]
  · rw [Nat.min_eq_right (by omega), InPlace.between, InPlace.between,
      show s.cur + s.left + (s.left - n) - (s.cur + s.left) = 0 by omega,
      show s.cur + s.left - (s.cur + n) = 0 by omega, List.take_zero, List.take_zero]

/-- A string is unescaped where it stands, with a NUL behind it. -/
theorem jsonScanString_spec {s : JsonState} (hleft : 0 < s.left) :
    ∃ s', jsonScanString s = some ((s.cur, (unescape s.text.tail).1.length), s') ∧
      Scanned s s' ∧ s'.text = (unescape s.text.tail).2 ∧
      s.cur + (unescape s.text.tail).1.length < s'.cur ∧
      InPlace.Written s.buf s.cur ((unescape s.text.tail).1 ++ [0]) s'.cur s'.buf := by
  have hinside := s.inside
  have htail : s.text.tail = InPlace.between s.buf (s.cur + 1) (s.cur + s.left) := by
    rw [JsonState.text, ← List.drop_one, InPlace.drop_between]
  obtain ⟨buf, hloop, hwritten⟩ := InPlace.loop_eq stringPass_shrinking
    (Nat.le_succ s.cur) (show s.cur + 1 ≤ s.cur + s.left by omega)
    (show s.cur + s.left ≤ s.buf.length by omega) (show _ < s.left by omega)
  rw [← htail] at hloop hwritten
  have hlength := InPlace.rewrite_length stringPass_shrinking s.text.tail
  have hsuffix := InPlace.rewrite_suffix stringPass_shrinking s.text.tail
  rw [List.length_tail, s.length_text] at hlength
  rw [unescape]
  generalize InPlace.rewrite stringPass stringPass_shrinking s.text.tail = result at *
  obtain ⟨out, rest⟩ := result
  dsimp only at hloop hwritten hlength hsuffix ⊢
  obtain ⟨buf', hnul, hwritten'⟩ := InPlace.overwrite_spec
    (show s.cur + out.length + [(0 : UInt8)].length ≤ buf.length by
      rw [hwritten.length, List.length_singleton]
      omega)
    (show _ ≤ s.cur + s.left - rest.length by
      rw [List.length_singleton]
      omega)
  have hi : (if s.cur + s.left - rest.length < s.cur + s.left
      then s.cur + s.left - rest.length - s.cur + 1 else s.cur + s.left - rest.length - s.cur) =
      s.left - rest.tail.length := by
    rw [List.length_tail]
    split
    · omega
    · omega
  have htail_le : rest.tail.length ≤ rest.length := by
    rw [List.length_tail]
    exact Nat.sub_le _ _
  have hall := (hwritten.trans hwritten').mono
    (show s.cur + s.left - rest.length ≤ s.cur + (s.left - rest.tail.length) by omega)
  have hstop : s.cur + (s.left - rest.tail.length) + (s.left - (s.left - rest.tail.length)) =
      s.cur + s.left := by omega
  refine ⟨⟨buf', s.cur + (s.left - rest.tail.length), s.left - (s.left - rest.tail.length), ?_⟩,
    ?_, ⟨hstop, Nat.le_add_right _ _, hall.length, hall.before (Nat.le_refl _), hall.after⟩, ?_,
    show s.cur + out.length < s.cur + (s.left - rest.tail.length) by omega, hall⟩
  · rw [hstop, hall.length]
    exact hinside
  · simp only [jsonScanString, hloop, hnul, hi, hstop, hall.length, dif_pos hinside,
      Nat.add_sub_cancel_left]
  · rw [JsonState.text]
    dsimp only
    rw [hstop, hall.between_eq (Nat.le_refl _)]
    have hrest := InPlace.eq_between_of_suffix ((List.tail_suffix rest).trans (htail ▸ hsuffix))
      (by omega) hinside
    rw [show s.cur + s.left - rest.tail.length = s.cur + (s.left - rest.tail.length) by omega]
      at hrest
    exact hrest.symm

/-! ## The tokens in place -/

/-- The string at a place. -/
def stringAt (buf : Bytes) (str : Nat × Nat) : Bytes := (buf.drop str.1).take str.2

theorem stringAt_congr {buf buf' : Bytes} {stop : Nat} {str : Nat × Nat}
    (h : buf'.take stop = buf.take stop) (hstr : str.1 + str.2 ≤ stop) :
    stringAt buf' str = stringAt buf str := by
  have hcut (b : Bytes) : stringAt b str = ((b.take stop).drop str.1).take str.2 := by
    rw [stringAt, List.drop_take, List.take_take, Nat.min_eq_left (by omega)]
  rw [hcut, hcut, h]

/-- The token `place` of the scanner in place stands for `tok`: its string is in the memory before
`stop`, and a NUL behind it. -/
structure StandsFor (buf : Bytes) (stop : Nat) (place : JsonToken (Nat × Nat))
    (tok : JsonToken Bytes) : Prop where
  eq : place.map (stringAt buf) = tok
  nul : ∀ str, place = .string str → str.1 + str.2 < stop ∧ buf[str.1 + str.2]? = some 0

/-- What is written later on does not change a token. -/
theorem StandsFor.scanned {s s' : JsonState} {place : JsonToken (Nat × Nat)} {tok : JsonToken Bytes}
    (h : StandsFor s.buf s.cur place tok) (hs : Scanned s s') :
    StandsFor s'.buf s'.cur place tok := by
  refine ⟨?_, ?_⟩
  · rw [← h.eq]
    cases place with
    | string str =>
      rw [JsonToken.map, JsonToken.map, stringAt_congr hs.before (h.nul str rfl).1.le]
    | eof => rfl
    | char c => rfl
    | bool flag => rfl
    | null => rfl
    | number c n => rfl
  · intro str hstr
    obtain ⟨hlt, hnul⟩ := h.nul str hstr
    refine ⟨hlt.trans_le hs.le, ?_⟩
    rw [← List.getElem?_take_of_lt hlt, hs.before, List.getElem?_take_of_lt hlt, hnul]

/-- A token without a string stands for itself. -/
theorem StandsFor.map_elim (buf : Bytes) (stop : Nat) (tok : JsonToken Empty) :
    StandsFor buf stop (tok.map Empty.elim) (tok.map Empty.elim) := by
  cases tok with
  | string str => exact str.elim
  | eof => exact ⟨rfl, by simp [JsonToken.map]⟩
  | char c => exact ⟨rfl, by simp [JsonToken.map]⟩
  | bool flag => exact ⟨rfl, by simp [JsonToken.map]⟩
  | null => exact ⟨rfl, by simp [JsonToken.map]⟩
  | number c n => exact ⟨rfl, by simp [JsonToken.map]⟩

/-- One token in place. -/
theorem jsonScanToken_spec (s : JsonState) :
    match scanToken s.text with
    | .error e => jsonScanToken s = some (.error e)
    | .ok (tok, rest) => ∃ place s', jsonScanToken s = some (.ok (place, s')) ∧
        StandsFor s'.buf s'.cur place tok ∧ (∀ str, place = .string str → s.cur ≤ str.1) ∧
        Scanned s s' ∧ s'.text = rest := by
  have hblank : s.text.dropWhile isBlank =
      (s.advance (s.text.takeWhile isBlank).length).text := by
    rw [JsonState.text_advance]
    conv_rhs => arg 2; rw [← List.takeWhile_append_dropWhile (p := isBlank) (l := s.text)]
    rw [List.drop_left]
  have hskip := Scanned.advance s (s.text.takeWhile isBlank).length
  rw [scanToken, jsonScanToken]
  simp only [hblank]
  generalize s.advance (s.text.takeWhile isBlank).length = s₁ at hskip ⊢
  cases hlexeme : lexeme s₁.text with
  | error e => rfl
  | ok l =>
    cases l with
    | token tok move =>
      refine ⟨_, _, rfl, .map_elim _ _ tok, ?_, hskip.trans (.advance s₁ move),
        JsonState.text_advance s₁ move⟩
      intro str hstr
      cases tok with
      | string e => exact e.elim
      | _ => cases hstr
    | string =>
      have hleft : 0 < s₁.left := by
        rw [← s₁.length_text, List.length_pos_iff]
        intro hnil
        rw [hnil] at hlexeme
        cases hlexeme
      obtain ⟨s', hscan, hscanned, htext, hlt, hwritten⟩ := jsonScanString_spec hleft
      have hread := hwritten.read (by have := s₁.inside; omega)
      refine ⟨.string (s₁.cur, (unescape s₁.text.tail).1.length), s', by simp only [hscan],
        ⟨?_, ?_⟩, by rintro str ⟨⟩; exact hskip.le, hskip.trans hscanned, htext⟩
      · have htake := congrArg (List.take (unescape s₁.text.tail).1.length) hread
        rw [List.take_take, List.take_left, Nat.min_eq_left (by simp)] at htake
        exact congrArg JsonToken.string htake
      · rintro str ⟨⟩
        refine ⟨hlt, ?_⟩
        have hlast := congrArg (fun l => l[(unescape s₁.text.tail).1.length]?) hread
        rwa [List.getElem?_take_of_lt (by simp), List.getElem?_drop,
          List.getElem?_append_right (Nat.le_refl _), Nat.sub_self] at hlast

/-! ## All tokens -/

theorem head_isNumberChar {c : UInt8} (h : (c = 45 || isDigit c) = true) : isNumberChar c = true := by
  rw [isNumberChar]
  rcases Bool.or_eq_true_iff.mp h with hc | hc
  · simp [of_decide_eq_true hc]
  · simp [hc]

theorem jsonScanNumber_text {text number : Bytes} {val_int : UInt64}
    (h : jsonScanNumber text = some (number, val_int)) : number = text.takeWhile isNumberChar := by
  simp only [jsonScanNumber, Option.ite_none_left_eq_some, Option.some.injEq, Prod.mk.injEq] at h
  exact h.2.2.1.symm

theorem lexeme_move {c : UInt8} {t : Bytes} {tok : JsonToken Empty} {move : Nat}
    (h : lexeme (c :: t) = .ok (.token tok move)) : 0 < move := by
  rw [lexeme] at h
  split at h
  · cases h
    decide
  · split at h
    · split at h
      · cases h
      · cases h
        decide
    · split at h
      · split at h
        · cases h
        · cases h
          decide
      · split at h
        · split at h
          · cases h
          · cases h
            decide
        · split at h
          · cases h
          · split at h
            next hc =>
              split at h
              · cases h
              next number val_int hnumber =>
                cases h
                rw [jsonScanNumber_text hnumber, List.takeWhile_cons_of_pos (head_isNumberChar hc)]
                exact Nat.succ_pos _
            · cases h

/-- A token other than the last one has at least one byte. -/
theorem scanToken_length {text rest : Bytes} {tok : JsonToken Bytes}
    (h : scanToken text = .ok (tok, rest)) (htok : tok ≠ .eof) : rest.length < text.length := by
  have hblank : (text.dropWhile isBlank).length ≤ text.length := (List.dropWhile_suffix _).length_le
  rw [scanToken] at h
  generalize text.dropWhile isBlank = t at h hblank
  cases t with
  | nil =>
    cases h
    exact absurd rfl htok
  | cons c t =>
    have hlen : (c :: t).length = t.length + 1 := rfl
    cases hlexeme : lexeme (c :: t) with
    | error e =>
      rw [hlexeme] at h
      cases h
    | ok l =>
      rw [hlexeme] at h
      cases l with
      | token tok move =>
        cases h
        have hmove := lexeme_move hlexeme
        rw [List.length_drop]
        omega
      | string =>
        cases h
        have hrest := (InPlace.rewrite_suffix stringPass_shrinking t).length_le
        have htail : ((InPlace.rewrite stringPass stringPass_shrinking t).2.tail).length ≤
            (InPlace.rewrite stringPass stringPass_shrinking t).2.length := by
          rw [List.length_tail]
          exact Nat.sub_le _ _
        rw [unescape, List.tail_cons]
        dsimp only
        omega

/-- The places of tokens, one for each. -/
def AllStandFor (buf : Bytes) (stop : Nat) (places : List (JsonToken (Nat × Nat)))
    (toks : List (JsonToken Bytes)) : Prop :=
  List.Forall₂ (StandsFor buf stop) places toks

theorem AllStandFor.map_eq {buf : Bytes} {stop : Nat} {places : List (JsonToken (Nat × Nat))}
    {toks : List (JsonToken Bytes)} (h : AllStandFor buf stop places toks) :
    places.map (JsonToken.map (stringAt buf)) = toks := by
  induction h with
  | nil => rfl
  | cons hstands _ ih => rw [List.map_cons, ih, hstands.eq]

/-- The strings of tokens end, with a NUL, before `stop`. -/
theorem AllStandFor.nul {buf : Bytes} {stop : Nat} {places : List (JsonToken (Nat × Nat))}
    {toks : List (JsonToken Bytes)} (h : AllStandFor buf stop places toks) {str : Nat × Nat}
    (hstr : .string str ∈ places) : str.1 + str.2 < stop ∧ buf[str.1 + str.2]? = some 0 := by
  induction h with
  | nil => cases hstr
  | cons hstands _ ih =>
    rcases List.mem_cons.mp hstr with hstr | hstr
    · exact hstands.nul str hstr.symm
    · exact ih hstr

theorem scanLoop_spec {n : Nat} : ∀ {s : JsonState}, s.left < n →
    match scanTokensLoop n s.text with
    | .error e => scanLoop n s = some (.error e)
    | .ok toks => ∃ places s', scanLoop n s = some (.ok (places, s')) ∧
        AllStandFor s'.buf s'.cur places toks ∧
        (∀ str, .string str ∈ places → s.cur ≤ str.1) ∧ Scanned s s' := by
  induction n with
  | zero => exact fun h => absurd h (Nat.not_lt_zero _)
  | succ n ih =>
    intro s hn
    have htoken := jsonScanToken_spec s
    rw [scanTokensLoop, scanLoop]
    cases hscan : scanToken s.text with
    | error e =>
      rw [hscan] at htoken
      dsimp only at htoken ⊢
      rw [htoken]
    | ok r =>
      obtain ⟨tok, rest⟩ := r
      rw [hscan] at htoken
      obtain ⟨place, s₁, hplace, hstands, hstart, hscanned, htext⟩ := htoken
      have heof : place = .eof ↔ tok = .eof := by
        rw [← hstands.eq]
        cases place <;> simp [JsonToken.map]
      dsimp only
      rw [hplace]
      dsimp only
      by_cases htok : tok = .eof
      · rw [if_pos htok, if_pos (heof.mpr htok)]
        refine ⟨[place], s₁, rfl, .cons hstands .nil, fun str hstr => ?_, hscanned⟩
        exact hstart str (List.mem_singleton.mp hstr).symm
      · have hlen := scanToken_length hscan htok
        rw [← htext, s₁.length_text, s.length_text] at hlen
        have hrest := ih (s := s₁) (by omega)
        rw [if_neg htok, if_neg (mt heof.mp htok), ← htext]
        cases hloop : scanTokensLoop n s₁.text with
        | error e =>
          rw [hloop] at hrest
          dsimp only at hrest
          rw [hrest]
          rfl
        | ok toks =>
          rw [hloop] at hrest
          obtain ⟨places, s', hplaces, hall, hstarts, hscanned'⟩ := hrest
          refine ⟨place :: places, s', by rw [hplaces], .cons (hstands.scanned hscanned') hall,
            fun str hstr => ?_, hscanned.trans hscanned'⟩
          rcases List.mem_cons.mp hstr with hstr | hstr
          · exact hstart str hstr.symm
          · exact hscanned.le.trans (hstarts str hstr)

/-- **Scanning in place**: the scanner never leaves the payload, finds the tokens of the text as it
was, and in the end every string stands where its token says. -/
theorem jsonScan_spec (s : JsonState) :
    match scanTokens s.text with
    | .error e => jsonScan s = some (.error e)
    | .ok toks => ∃ places s', jsonScan s = some (.ok (places, s')) ∧
        AllStandFor s'.buf s'.cur places toks ∧
        (∀ str, .string str ∈ places → s.cur ≤ str.1) ∧ Scanned s s' := by
  have h := scanLoop_spec (n := s.left + 1) (s := s) (Nat.lt_succ_self _)
  rw [scanTokens, jsonScan, s.length_text]
  exact h

/-- The scanner at the beginning of a payload in a larger memory. -/
def JsonState.within (pre payload post : Bytes) : JsonState :=
  ⟨pre ++ payload ++ post, pre.length, payload.length, by simp⟩

theorem JsonState.text_within (pre payload post : Bytes) :
    (within pre payload post).text = payload := by
  show ((pre ++ payload ++ post).drop pre.length).take
    (pre.length + payload.length - pre.length) = payload
  rw [Nat.add_sub_cancel_left, List.append_assoc, List.drop_left, List.take_left]

/-- What the scanner leaves behind is the memory around the payload, and a payload of the same
size. -/
theorem Scanned.within {pre payload post : Bytes} {s' : JsonState}
    (h : Scanned (.within pre payload post) s') :
    ∃ payload', s'.buf = pre ++ payload' ++ post ∧ payload'.length = payload.length := by
  have hlength : s'.buf.length = (pre ++ payload ++ post).length := h.length
  have hstop : s'.cur + s'.left = pre.length + payload.length := h.stop
  have hbefore : s'.buf.take pre.length = (pre ++ payload ++ post).take pre.length := h.before
  have hafter := congrArg (List.drop s'.left) h.after
  rw [List.drop_drop, List.drop_drop, hstop] at hafter
  have hpost : s'.buf.drop (pre.length + payload.length) = post := by
    rw [hafter, ← List.length_append]
    exact List.drop_left
  rw [List.append_assoc, List.take_left] at hbefore
  have hsplit : s'.buf.take pre.length ++ ((s'.buf.drop pre.length).take payload.length ++
      (s'.buf.drop pre.length).drop payload.length) = s'.buf := by
    rw [List.take_append_drop, List.take_append_drop]
  rw [hbefore, List.drop_drop, hpost, ← List.append_assoc] at hsplit
  refine ⟨_, hsplit.symm, ?_⟩
  rw [List.length_take, List.length_drop, hlength]
  simp only [List.length_append]
  omega

/-- **A payload in the memory of a message**: the scanner finds the tokens of the payload alone,
whatever stands around it, and changes nothing around it; every string stands inside the payload,
with a NUL behind it. -/
theorem jsonScan_within (pre payload post : Bytes) :
    (∃ e, scanTokens payload = .error e ∧
      jsonScan (.within pre payload post) = some (.error e)) ∨
    ∃ toks places payload' s', scanTokens payload = .ok toks ∧
      jsonScan (.within pre payload post) = some (.ok (places, s')) ∧
      s'.buf = pre ++ payload' ++ post ∧ payload'.length = payload.length ∧
      places.map (JsonToken.map (stringAt s'.buf)) = toks ∧
      ∀ str, .string str ∈ places → pre.length ≤ str.1 ∧
        str.1 + str.2 < pre.length + payload.length ∧ s'.buf[str.1 + str.2]? = some 0 := by
  have h := jsonScan_spec (.within pre payload post)
  rw [JsonState.text_within] at h
  cases hscan : scanTokens payload with
  | error e =>
    rw [hscan] at h
    exact .inl ⟨e, rfl, h⟩
  | ok toks =>
    rw [hscan] at h
    obtain ⟨places, s', hplaces, hall, hstarts, hscanned⟩ := h
    obtain ⟨payload', hbuf, hlen⟩ := hscanned.within
    refine .inr ⟨toks, places, payload', s', rfl, hplaces, hbuf, hlen, hall.map_eq, ?_⟩
    intro str hstr
    obtain ⟨hlt, hnul⟩ := hall.nul hstr
    have hstop : s'.cur + s'.left = pre.length + payload.length := hscanned.stop
    exact ⟨hstarts str hstr, by omega, hnul⟩

end I3ipc

end Photonbar
