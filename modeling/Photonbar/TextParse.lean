import Photonbar.BarRuns
import Photonbar.Utf8

/-!
# Parsing a text (`bar.h`)

A content that holds a UTF-8 text is parsed into the characters of the text, with their widths, as
long as the table of widths has room for the characters of Xft that are new to it
(`parseElementContent_iff`). Without that room the search for a slot never ends.

What is new is counted along the text: a character that a font of Xft has and that the table does
not know takes a slot, and from then on it is known (`freshCount`, `Entered`). The loop then has
two outcomes (`parseLoop_outcome`): with room it ends, and what it leaves is what
`parseElementContent_ok` says, read for the characters of a text; without room it is stuck at the
first character that finds none. The last section shows that this can happen: a table is full after
as many texts as there are slots (`exists_full`).
-/

namespace Photonbar

variable {H : Type}

namespace Bar

/-- Measuring the character takes a new entry of the table: it is drawn in an Xft font, and not
known yet. -/
def Fresh (b : Bar) (c : UInt32) : Prop :=
  (b.fontFor c).isSome ∧ (b.fontUsed c).xft_ft.isSome ∧ ¬ b.Known c

instance (b : Bar) : DecidablePred b.Known := fun c =>
  inferInstanceAs (Decidable (∃ slot < MAX_WIDTHS, b.xftChar slot = c))

instance (b : Bar) : DecidablePred b.Fresh := fun _ => inferInstanceAs (Decidable (_ ∧ _ ∧ _))

/-- How many new entries the characters take. -/
def freshCount (b : Bar) (cs : List UInt32) : Nat := (cs.toFinset.filter b.Fresh).card

/-! ## One character -/

/-- What measuring a character changes in the table. -/
structure Entered (b b' : Bar) (c : UInt32) : Prop where
  config : b'.toBarConfig = b.toBarConfig
  coherent : b'.Coherent
  known : ∀ d, d ≠ 0 → (b'.Known d ↔ b.Known d ∨ (d = c ∧ b.Fresh c))
  free : b'.free + (if b.Fresh c then 1 else 0) = b.free

variable {b b' : Bar} {c : UInt32}

theorem Entered.refl (hb : b.Coherent) (hold : ¬ b.Fresh c) : Entered b b c where
  config := rfl
  coherent := hb
  known d _ := by simp [hold]
  free := by rw [if_neg hold, Nat.add_zero]

theorem ends_iff (hb : b.Coherent) : b.Ends c ↔ 0 < b.free ∨ b.Known c :=
  ProbeTable.Sound.exists_probe_iff hb (home_lt c)

/-- **Measuring a character** for which there is room. -/
theorem getUtf8CharWidth_entered (hb : b.Coherent) (hc : c ≠ 0) (hroom : b.Fresh c → 0 < b.free) :
    ∃ b' w, b.getUtf8CharWidth (b.shown c) (b.fontFor c) = .ok (b', w) ∧ Entered b b' c := by
  cases hfont : b.fontFor c with
  | none =>
    have hold : ¬ b.Fresh c := by simp [Fresh, hfont]
    exact ⟨b, 0, rfl, .refl hb hold⟩
  | some f =>
    obtain rfl := BarConfig.fontUsed_of_fontFor hfont
    have hshown : b.shown c = c := by rw [BarConfig.shown, hfont]; rfl
    rw [hshown, getUtf8CharWidth]
    cases hxft : (b.fontUsed c).xft_ft with
    | none =>
      have hold : ¬ b.Fresh c := by simp [Fresh, hxft]
      simp only
      cases (b.fontUsed c).width_lut with
      | none => exact ⟨b, _, rfl, .refl hb hold⟩
      | some lut =>
        simp only
        split <;> exact ⟨b, _, rfl, .refl hb hold⟩
    | some xft =>
      simp only
      have hfresh : b.Fresh c ↔ ¬ b.Known c := by simp [Fresh, hfont, hxft]
      by_cases hknown : b.Known c
      · obtain ⟨w, hw⟩ : ∃ w, b.xftCharWidth c (some (b.fontUsed c)) = .ok (b, w) :=
          xftCharWidth_of_known hb hc hknown
        exact ⟨b, w, hw, .refl hb (by rw [hfresh, not_not]; exact hknown)⟩
      · -- a new entry, in the slot that the search ends in
        have hnew : b.Fresh c := hfresh.mpr hknown
        obtain ⟨slot, hslot⟩ := (ends_iff hb).mpr (.inl (hroom hnew))
        obtain ⟨hlt, hstop⟩ := ProbeTable.probe_eq_some (home_lt c) hslot
        have hempty : b.xftChar slot = 0 := hstop.resolve_right fun h => hknown ⟨slot, hlt, h⟩
        have hok : b.xftCharWidth c (some (b.fontUsed c)) = .ok ({ b with
            xftChar := Function.update b.xftChar slot c
            xftWidth := Function.update b.xftWidth slot (xft.measure c) },
            (xft.measure c).toInt) := by
          simp only [xftCharWidth, hslot, hempty, if_true, hxft]
        refine ⟨_, _, hok, rfl, ?_, ?_, ?_⟩
        · exact ProbeTable.Sound.insert hb hslot hempty ⟨xft, hxft, rfl⟩
        · intro d hd
          refine ⟨?_, ?_⟩
          · rintro ⟨s, hs, rfl⟩
            by_cases hst : s = slot
            · subst hst
              exact .inr ⟨Function.update_self _ _ _, hnew⟩
            · exact .inl ⟨s, hs, (Function.update_of_ne hst _ _).symm⟩
          · rintro (⟨s, hs, rfl⟩ | ⟨rfl, -⟩)
            · exact ⟨s, hs, ProbeTable.update_eq_of_ne_empty hempty hd⟩
            · exact ⟨slot, hlt, Function.update_self _ _ _⟩
        · rw [if_pos hnew]
          exact ProbeTable.free_update_of_empty hlt hempty hc

/-- Without room for a new character the search never ends. -/
theorem getUtf8CharWidth_stuck (hb : b.Coherent) (hnew : b.Fresh c) (hfull : b.free = 0) :
    b.getUtf8CharWidth (b.shown c) (b.fontFor c) = .error .probeLoop := by
  obtain ⟨hfont, hxft, hunknown⟩ := hnew
  obtain ⟨f, hfont⟩ := Option.isSome_iff_exists.mp hfont
  obtain rfl := BarConfig.fontUsed_of_fontFor hfont
  obtain ⟨xft, hxft⟩ := Option.isSome_iff_exists.mp hxft
  have hshown : b.shown c = c := by rw [BarConfig.shown, hfont]; rfl
  have hslot : b.xftCharWidthSlot c = none := by
    rw [Option.eq_none_iff_forall_ne_some]
    intro slot hslot
    rcases (ends_iff hb).mp ⟨slot, hslot⟩ with hfree | hknown
    · omega
    · exact hunknown hknown
  rw [hshown, hfont]
  simp only [getUtf8CharWidth, hxft, xftCharWidth, hslot]

/-! ## The characters of a text -/

theorem freshCount_nil (b : Bar) : b.freshCount [] = 0 := rfl

/-- A new character is one new entry, for the rest of the text it is an old one. -/
theorem freshCount_cons {cs : List UInt32} (hcs : ∀ d ∈ cs, d ≠ 0) (h : Entered b b' c) :
    b.freshCount (c :: cs) = b'.freshCount cs + if b.Fresh c then 1 else 0 := by
  have hfresh' : ∀ d, d ≠ 0 → (b'.Fresh d ↔ b.Fresh d ∧ ¬ (d = c ∧ b.Fresh c)) := by
    intro d hd
    rw [Fresh, Fresh, h.config, h.known d hd]
    tauto
  unfold freshCount
  rw [List.toFinset_cons, Finset.filter_insert]
  have hrest : cs.toFinset.filter b'.Fresh =
      cs.toFinset.filter fun d => b.Fresh d ∧ ¬ (d = c ∧ b.Fresh c) := by
    apply Finset.filter_congr
    intro d hd
    exact hfresh' d (hcs d (List.mem_toFinset.mp hd))
  rw [hrest]
  by_cases hnew : b.Fresh c
  · have herase : cs.toFinset.filter (fun d => b.Fresh d ∧ ¬ (d = c ∧ b.Fresh c)) =
        (cs.toFinset.filter b.Fresh).erase c := by
      ext d
      simp only [Finset.mem_filter, Finset.mem_erase, hnew, and_true]
      tauto
    rw [if_pos hnew, if_pos hnew, herase, ← Finset.card_erase_add_one (Finset.mem_insert_self c _),
      Finset.erase_insert_eq_erase]
  · rw [if_neg hnew, if_neg hnew, Nat.add_zero]
    simp only [hnew, and_false, not_false_eq_true, and_true]

section

variable {e : BarElement H} {n i p : Nat} {total : Int} {u : UInt8}

/-- The loop stops at a NUL or a newline. -/
theorem parseLoop_stop (hu : contentByte e.content p = .ok u) (hstop : u = 0 ∨ u = 10) :
    b.parseLoop e (n + 1) i p total =
      .ok (b, { e with ucsContent := e.ucsContent.setIfInBounds i 0, ucsContentLen := i }, total) := by
  rw [parseLoop, hu]
  exact if_pos hstop

/-- It goes on with the rest of the content once a character is measured. -/
theorem parseLoop_step {result : UTF8Result} {w : Int} (hu : contentByte e.content p = .ok u)
    (hgo : ¬ (u = 0 ∨ u = 10))
    (hresult : decodeUtf8Char (fun j => contentByte e.content (p + j)) = .ok result)
    (hw : (b.selectDrawableFont result.ucs).1.getUtf8CharWidth (b.shown result.ucs)
      (b.fontFor result.ucs) = .ok (b', w)) :
    b.parseLoop e (n + 1) i p total =
      b'.parseLoop
        { e with
          ucsContent := e.ucsContent.setIfInBounds i (b.shown result.ucs)
          ucsContentCharWidths := e.ucsContentCharWidths.setIfInBounds i (UInt8.ofInt w) }
        n (i + 1) (p + result.bytesConsumed) (total + (UInt8.ofInt w).toNat) := by
  obtain ⟨j, hselect⟩ := b.selectDrawableFont_eq result.ucs
  rw [BarConfig.shown] at *
  rw [hselect] at hw
  rw [parseLoop, hu]
  simp only [bind, Except.bind, if_neg hgo, hresult, hselect, hw]

/-- It never ends where the character cannot be measured. -/
theorem parseLoop_stuck {result : UTF8Result} (hu : contentByte e.content p = .ok u)
    (hgo : ¬ (u = 0 ∨ u = 10))
    (hresult : decodeUtf8Char (fun j => contentByte e.content (p + j)) = .ok result)
    (hw : (b.selectDrawableFont result.ucs).1.getUtf8CharWidth (b.shown result.ucs)
      (b.fontFor result.ucs) = .error .probeLoop) :
    b.parseLoop e (n + 1) i p total = .error .probeLoop := by
  obtain ⟨j, hselect⟩ := b.selectDrawableFont_eq result.ucs
  rw [BarConfig.shown] at hw
  rw [hselect] at hw
  rw [parseLoop, hu]
  simp only [bind, Except.bind, if_neg hgo, hresult, hselect, hw]

end

/-- **The loop of `parseElementContent`** enters the new characters if there is room for them,
and never ends if there is not. -/
theorem parseLoop_outcome : ∀ (n : Nat) {b : Bar} {e : BarElement H} {i p : Nat} {total : Int}
    {cs : List UInt32} {stopped : Bool}, b.Coherent →
    codePoints e.content n p = .ok (cs, stopped) → (∀ c ∈ cs, c ≠ 0) →
    (b.freshCount cs ≤ b.free → ∃ b' e' total', b.parseLoop e n i p total = .ok (b', e', total') ∧
      b'.free + b.freshCount cs = b.free) ∧
    (b.free < b.freshCount cs → b.parseLoop e n i p total = .error .probeLoop) := by
  intro n
  induction n with
  | zero =>
    intro b e i p total cs stopped _ hcs _
    obtain ⟨rfl, -⟩ := Prod.mk.inj (Except.ok.inj hcs)
    rw [freshCount_nil]
    exact ⟨fun _ => ⟨_, _, _, rfl, Nat.add_zero _⟩, fun hlt => (Nat.not_lt_zero _ hlt).elim⟩
  | succ n ih =>
    intro b e i p total cs stopped hb hcs hne
    obtain ⟨u, hu, hcs⟩ := bind_eq_ok_iff.mp hcs
    by_cases hstop : u = 0 ∨ u = 10
    · rw [if_pos hstop] at hcs
      obtain ⟨rfl, -⟩ := Prod.mk.inj (Except.ok.inj hcs)
      rw [freshCount_nil]
      exact ⟨fun _ => ⟨_, _, _, parseLoop_stop hu hstop, Nat.add_zero _⟩,
        fun hlt => (Nat.not_lt_zero _ hlt).elim⟩
    · rw [if_neg hstop] at hcs
      obtain ⟨result, hresult, hcs⟩ := bind_eq_ok_iff.mp hcs
      obtain ⟨⟨cs', stopped'⟩, hrest, hcs⟩ := bind_eq_ok_iff.mp hcs
      obtain ⟨rfl, -⟩ := Prod.mk.inj (Except.ok.inj hcs)
      have hc : result.ucs ≠ 0 := hne _ List.mem_cons_self
      have hcs' : ∀ c ∈ cs', c ≠ 0 := fun c hc => hne c (List.mem_cons_of_mem _ hc)
      obtain ⟨j, hselect⟩ := b.selectDrawableFont_eq result.ucs
      have hselected : (b.selectDrawableFont result.ucs).1 = { b with offsetYIndex := j } := by
        rw [hselect]
      by_cases hroom : b.Fresh result.ucs → 0 < b.free
      · obtain ⟨b', w, hw, hconfig, hcoherent, hknown, hfree⟩ :=
          getUtf8CharWidth_entered (b := { b with offsetYIndex := j }) hb hc hroom
        have hentered : Entered b b' result.ucs := ⟨hconfig, hcoherent, hknown, hfree⟩
        rw [parseLoop_step hu hstop hresult (by rw [hselected]; exact hw)]
        obtain ⟨hok, hfull⟩ := @ih b'
          { e with
            ucsContent := e.ucsContent.setIfInBounds i (b.shown result.ucs)
            ucsContentCharWidths := e.ucsContentCharWidths.setIfInBounds i (UInt8.ofInt w) }
          (i + 1) _ (total + (UInt8.ofInt w).toNat) _ _ hentered.coherent hrest hcs'
        have hcount := freshCount_cons hcs' hentered
        have hleft := hentered.free
        refine ⟨fun hle => ?_, fun hlt => hfull (by omega)⟩
        obtain ⟨b'', e', total', hloop, hfree''⟩ := hok (by omega)
        exact ⟨b'', e', total', hloop, by omega⟩
      · obtain ⟨hnew, hfull⟩ := Classical.not_imp.mp hroom
        have hstuck := getUtf8CharWidth_stuck (b := { b with offsetYIndex := j }) hb hnew
          (by show b.free = 0; omega)
        have hpos : 0 < b.freshCount (result.ucs :: cs') := by
          apply Finset.card_pos.mpr
          exact ⟨result.ucs, Finset.mem_filter.mpr
            ⟨List.mem_toFinset.mpr List.mem_cons_self, hnew⟩⟩
        refine ⟨fun hle => by omega, fun _ => ?_⟩
        exact parseLoop_stuck hu hstop hresult (by rw [hselected]; exact hstuck)

end Bar

/-! ## The whole content -/

theorem length_le_encode (cs : Text) : cs.length ≤ (encode cs).length := by
  induction cs with
  | nil => exact le_refl 0
  | cons c cs ih =>
    have hpos : 0 < (String.utf8EncodeChar c).length :=
      List.length_pos_iff.mpr String.utf8EncodeChar_ne_nil
    have hsplit : encode (c :: cs) = String.utf8EncodeChar c ++ encode cs := List.flatMap_cons
    rw [hsplit, List.length_append, List.length_cons]
    omega

/-- The element shows the text: its characters, a `?` for each that no font has, and a width that
is the sum of theirs. -/
structure ShowsText (cfg : BarConfig) (cs : Text) (e : BarElement H) : Prop where
  len : e.ucsContentLen = cs.length
  chars : e.ucsContent.toList.take cs.length = cs.map fun c => cfg.shown c.val
  width : e.width.toNat = ((e.ucsContentCharWidths.toList.take cs.length).map (·.toNat)).sum

/-- The content holds the text, up to its first NUL. -/
def HoldsText (content : Buffer CONTENT_MAX_LEN) (cs : Text) : Prop :=
  (∀ c ∈ cs, c.val ≠ 0 ∧ c.val ≠ 10) ∧ ∃ rest, content.toList = encode cs ++ 0 :: rest

theorem HoldsText.codePoints {content : Buffer CONTENT_MAX_LEN} {cs : Text}
    (h : HoldsText content cs) :
    codePoints content CONTENT_MAX_LEN 0 = .ok (cs.map (·.val), true) := by
  obtain ⟨hcs, rest, hcontent⟩ := h
  have hdrop : content.toList.drop 0 = encode cs ++ 0 :: rest := hcontent
  apply codePoints_encode (.inl rfl) hdrop hcs
  have hlen := congrArg List.length hcontent
  have hle := length_le_encode cs
  rw [Vector.length_toList, List.length_append, List.length_cons] at hlen
  omega

namespace Bar

variable {b b' : Bar} {e e' : BarElement H} {cs : Text}

/-- **What parsing leaves** of an element that holds a text. -/
theorem parseElementContent_showsText (hb : b.Coherent) (hdirty : e.dirtyContent = true)
    (htext : HoldsText e.content cs) (h : b.parseElementContent e = .ok (b', e')) :
    ShowsText b.toBarConfig cs e' := by
  rw [parseElementContent, hdirty] at h
  obtain ⟨⟨b₁, e₁, total⟩, hloop, h⟩ := bind_eq_ok_iff.mp h
  obtain ⟨rfl, rfl⟩ := Prod.mk.inj (Except.ok.inj h)
  obtain ⟨us, stopped, hus, hlen, -, -, hparsed, rfl, -⟩ :=
    parseLoop_ok (Nat.zero_add CONTENT_MAX_LEN).le hb hloop
  rw [htext.codePoints] at hus
  obtain ⟨rfl, rfl⟩ := Prod.mk.inj (Except.ok.inj hus)
  have hslots := hparsed.slots
  rw [Nat.zero_add, List.take_zero, List.nil_append, List.length_map, BarElement.slots,
    take_zip] at hslots
  have hucs := congrArg (List.map Prod.fst) hslots
  have hwidths := congrArg (List.map Prod.snd) hslots
  rw [List.map_fst_zip (by simp)] at hucs
  rw [List.map_snd_zip (by simp)] at hwidths
  refine ⟨?_, ?_, ?_⟩
  · rw [hparsed.len, if_pos rfl, Nat.zero_add, List.length_map]
  · rw [hucs, BarConfig.records, List.map_map, List.map_map]
    rfl
  · have hmax : CONTENT_MAX_LEN = 255 := rfl
    have hle := recordedSum_le b.toBarConfig (cs.map (·.val))
    have hwidth := toNat_uint16_ofInt (x := (b.recordedSum (cs.map (·.val)) : Int)) (by omega)
      (by omega)
    show (UInt16.ofInt (0 + _)).toNat = _
    rw [Int.zero_add, Int.ofNat_inj.mp hwidth, hwidths, BarConfig.records, BarConfig.recordedSum]
    simp only [List.map_map]
    rfl

/-- Parsing enters the new characters of a text if there is room for them, and never ends if there
is not. -/
theorem parseElementContent_outcome (hb : b.Coherent) (hdirty : e.dirtyContent = true)
    (htext : HoldsText e.content cs) :
    (b.freshCount (cs.map (·.val)) ≤ b.free → ∃ b' e', b.parseElementContent e = .ok (b', e') ∧
      b'.free + b.freshCount (cs.map (·.val)) = b.free) ∧
    (b.free < b.freshCount (cs.map (·.val)) → b.parseElementContent e = .error .probeLoop) := by
  have hne : ∀ c ∈ cs.map (·.val), c ≠ 0 := by
    rintro _ hc
    obtain ⟨c, hmem, rfl⟩ := List.mem_map.mp hc
    exact (htext.1 c hmem).1
  obtain ⟨hroom, hfull⟩ := @parseLoop_outcome H CONTENT_MAX_LEN b e 0 0 0 _ _ hb
    htext.codePoints hne
  rw [parseElementContent, hdirty]
  refine ⟨?_, ?_⟩
  · intro hle
    obtain ⟨b', e', total', hloop, hfree⟩ := hroom hle
    exact ⟨b', _, bind_eq_ok_iff.mpr ⟨_, hloop, rfl⟩, hfree⟩
  · intro hlt
    simp only [hfull hlt, bind, Except.bind, Bool.not_true, Bool.false_eq_true, if_false]

/-- **Parsing a text.** It ends, and leaves the characters of the text and their widths, if and
only if the table of widths has room for those of its characters that are new to it. The decoding
never fails on a text; the only thing that can is the search for a slot, and each new character
takes one. -/
theorem parseElementContent_iff (hb : Reachable H b) (hdirty : e.dirtyContent = true)
    (htext : HoldsText e.content cs) :
    (∃ b' e', b.parseElementContent e = .ok (b', e') ∧ ShowsText b.toBarConfig cs e') ↔
      b.freshCount (cs.map (·.val)) ≤ b.free := by
  have hcoherent := hb.kept.coherent
  obtain ⟨hroom, hfull⟩ := parseElementContent_outcome hcoherent hdirty htext
  refine ⟨?_, ?_⟩
  · rintro ⟨b', e', h, -⟩
    by_contra hlt
    rw [hfull (by omega)] at h
    cases h
  · intro hle
    obtain ⟨b', e', h, -⟩ := hroom hle
    exact ⟨b', e', h, parseElementContent_showsText hcoherent hdirty htext h⟩

theorem freshCount_le_length (b : Bar) (cs : List UInt32) : b.freshCount cs ≤ cs.length :=
  (Finset.card_filter_le _ _).trans (List.toFinset_card_le cs)

end Bar

/-! ## A full table -/

/-- An element that a text was printed into. -/
theorem holdsText_textElement {cs : Text} (hcs : ∀ c ∈ cs, c.val ≠ 0 ∧ c.val ≠ 10)
    (hlen : (encode cs).length ≤ 254) :
    HoldsText (textElement (encode cs) : BarElement H).content cs := by
  obtain ⟨content, hw, hlist⟩ := (BarElement.new (H := H)).content.snprintf_eq_some (by decide)
    (le_refl CONTENT_MAX_LEN) (encode cs)
  have hcontent : (textElement (encode cs) : BarElement H).content = content := by
    simp only [textElement, BarElement.print, hw, Option.getD_some]
  rw [List.take_of_length_le (show (encode cs).length ≤ CONTENT_MAX_LEN - 1 from hlen)] at hlist
  exact ⟨hcs, _, hcontent ▸ hlist⟩

/-- A font of Xft that has every character. -/
def anyFont : Font where
  width_lut := none
  xft_ft := some ⟨fun _ => true, fun _ => 8, fun _ => 8⟩
  descent := 4
  height := 16
  width := 0
  charMax := 0
  charMin := 0

/-- A bar with this font, before `initSeparator`. -/
def anySetup : Bar :=
  { asciiSetup 8 100 with fontList := [anyFont], fontList_ne_nil := List.cons_ne_nil _ _ }

namespace Bar

/-- There are more characters than the table has slots. -/
theorem exists_fresh {b : Bar} (hfonts : b.fontList = [anyFont]) :
    ∃ c : Char, (c.val ≠ 0 ∧ c.val ≠ 10) ∧ b.Fresh c.val := by
  let others : Finset UInt32 :=
    (Finset.range (MAX_WIDTHS + 1)).image fun n => UInt32.ofNat (0x10000 + n)
  have hnat : ∀ n < MAX_WIDTHS + 1, (UInt32.ofNat (0x10000 + n)).toNat = 0x10000 + n := by
    intro n hn
    apply UInt32.toNat_ofNat_of_lt'
    simp only [MAX_WIDTHS, UInt32.size] at *
    omega
  have hothers : others.card = MAX_WIDTHS + 1 := by
    rw [Finset.card_image_of_injOn, Finset.card_range]
    intro m hm n hn hmn
    have hsame := congrArg UInt32.toNat hmn
    simp only [hnat m (by simpa using hm), hnat n (by simpa using hn)] at hsame
    omega
  have hknown : ((Finset.range MAX_WIDTHS).image b.xftChar).card ≤ MAX_WIDTHS :=
    Finset.card_image_le.trans (Finset.card_range _).le
  obtain ⟨u, hu, hunknown⟩ := Finset.exists_mem_notMem_of_card_lt_card
    (show ((Finset.range MAX_WIDTHS).image b.xftChar).card < others.card by omega)
  obtain ⟨n, hn, hun⟩ := Finset.mem_image.mp hu
  have hval : u.toNat = 0x10000 + n := by rw [← hun, hnat n (by simpa using hn)]
  have hlt : n < MAX_WIDTHS + 1 := by simpa using hn
  have hvalid : u.isValidChar := by
    simp only [UInt32.isValidChar, Nat.isValidChar, hval, MAX_WIDTHS] at *
    omega
  have hfont : b.fontFor u = some anyFont := by rw [BarConfig.fontFor, hfonts]; rfl
  refine ⟨⟨u, hvalid⟩, ⟨?_, ?_⟩, ?_, ?_, ?_⟩
  · rintro (hzero : u = 0)
    rw [hzero, UInt32.toNat_zero] at hval
    omega
  · rintro (hten : u = 10)
    have hsmall : (10 : UInt32).toNat = 10 := rfl
    rw [hten, hsmall] at hval
    omega
  · rw [hfont]; rfl
  · rw [BarConfig.fontUsed_of_fontFor hfont]; rfl
  · rintro ⟨slot, hslot, hkey⟩
    exact hunknown (Finset.mem_image.mpr ⟨slot, Finset.mem_range.mpr hslot, hkey⟩)

theorem holdsText_singleton {c : Char} (hc : c.val ≠ 0 ∧ c.val ≠ 10) :
    HoldsText (textElement (encode [c]) : BarElement H).content [c] := by
  apply holdsText_textElement
  · simpa using hc
  · have hlen : (encode [c]).length = c.utf8Size := by simp [encode]
    have hle := c.utf8Size_le_four
    omega

theorem freshCount_singleton {b : Bar} {c : Char} (h : b.Fresh c.val) :
    b.freshCount ([c].map (·.val)) = 1 := by
  simp [freshCount, Finset.filter_singleton, h]

/-- While there is a free slot, one more character can be made to take one. -/
theorem exists_fewer_free {b : Bar} (hb : Reachable H b) (hfonts : b.fontList = [anyFont])
    (hfree : 0 < b.free) :
    ∃ b', Reachable H b' ∧ b'.fontList = [anyFont] ∧ b'.free + 1 = b.free := by
  obtain ⟨c, hc, hfresh⟩ := exists_fresh hfonts
  have hcount := freshCount_singleton hfresh
  obtain ⟨b', e', h, hleft⟩ :=
    (parseElementContent_outcome hb.kept.coherent rfl (holdsText_singleton hc)).1 (by omega)
  have hconfig := (parseElementContent_later hb.kept.coherent h).config
  refine ⟨b', .step hb (.parse _ _ h), ?_, by omega⟩
  rw [hconfig, hfonts]

/-- **A bar whose table is full** can be reached. -/
theorem exists_full : ∃ b : Bar, Reachable H b ∧ b.fontList = [anyFont] ∧ b.free = 0 := by
  have hless : ∀ n, ∀ b : Bar, Reachable H b → b.fontList = [anyFont] → b.free = n →
      ∃ b' : Bar, Reachable H b' ∧ b'.fontList = [anyFont] ∧ b'.free = 0 := by
    intro n
    induction n with
    | zero => exact fun b hb hfonts hfree => ⟨b, hb, hfonts, hfree⟩
    | succ n ih =>
      intro b hb hfonts hfree
      obtain ⟨b', hb', hfonts', hfree'⟩ := exists_fewer_free hb hfonts (by omega)
      exact ih b' hb' hfonts' (by omega)
  obtain ⟨b, hinit⟩ : ∃ b, anySetup.initSeparator = .ok b := ⟨_, rfl⟩
  have hempty : ∀ slot < MAX_WIDTHS, anySetup.xftChar slot = 0 := fun _ _ => rfl
  have hconfig := (initSeparator_ok (ProbeTable.Sound.of_empty hempty) hinit).1
  exact hless _ b (.start hempty hinit) (by rw [hconfig]; rfl) rfl

/-- A full table, and a text of one character that is new to it. -/
theorem parse_full_table_never_ends : ∃ (b : Bar) (c : Char) (e : BarElement Empty),
    Reachable Empty b ∧ e.dirtyContent = true ∧ HoldsText e.content [c] ∧
      b.parseElementContent e = .error .probeLoop := by
  obtain ⟨b, hb, hfonts, hfull⟩ := exists_full (H := Empty)
  obtain ⟨c, hc, hfresh⟩ := exists_fresh hfonts
  have htext := holdsText_singleton (H := Empty) hc
  have hcount := freshCount_singleton hfresh
  exact ⟨b, c, textElement (encode [c]), hb, rfl, htext,
    (parseElementContent_outcome hb.kept.coherent rfl htext).2 (by omega)⟩

/-- The text `aé` on a new bar. -/
theorem parse_two_characters :
    ∃ b' e', (asciiBar 8 100).parseElementContent
        (textElement (encode "aé".toList) : BarElement Empty) = .ok (b', e') ∧
      ShowsText (asciiBar 8 100).toBarConfig "aé".toList e' := by
  have htext : HoldsText (textElement (encode "aé".toList) : BarElement Empty).content
      "aé".toList := holdsText_textElement (by simp) (by decide)
  have hroom := freshCount_le_length (asciiBar 8 100) ("aé".toList.map (·.val))
  have hfree := asciiBar_free 8 100
  have htwo : ("aé".toList.map (·.val)).length = 2 := rfl
  exact (parseElementContent_iff (asciiBar_reachable 8 100) rfl htext).mpr (by omega)

end Bar

end Photonbar
