import Photonbar.Alike

/-!
# The colours that a frame leaves (`bar.h`)

Parsing applies the colours of the elements one after the other, and so does painting, with the
separators in between: up to `Quiet` operations a frame is a fold of `applyColors` over the
elements and then one of `colored` over what is painted. What it leaves for the next frame follows
from the last things that were painted: a colour is the last one of the list that is set, and the
default if none is (`lastSet`).

`Look` is what an element asks for. Parsing does not change it (`ParsedFrom`), and placing only
moves the element (`Moved`), so that the elements of a second frame have the looks of the first
one, and their contents are not new any more: `parseModules_clean` says that parsing them is
applying their colours and no more. The last section reads the elements of a frame, which are the
ones the next frame is given.
-/

namespace Photonbar

variable {H : Type}

/-! ## Elements that were parsed -/

/-- What an element asks for. -/
structure Look where
  foregroundColor : Color
  backgroundColor : Color
  underlineColor : Color
  underline : Bool

namespace BarElement

def look (e : BarElement H) : Look :=
  ⟨e.foregroundColor, e.backgroundColor, e.underlineColor, e.underline⟩

theorem Moved.look_eq {e e' : BarElement H} (h : Moved e e') : e'.look = e.look := by
  obtain ⟨x, rfl⟩ := h
  rfl

theorem Moved.dirtyContent_eq {e e' : BarElement H} (h : Moved e e') :
    e'.dirtyContent = e.dirtyContent := by
  obtain ⟨x, rfl⟩ := h
  rfl

theorem Moved.trans {e e' e'' : BarElement H} (h : Moved e e') (h' : Moved e' e'') :
    Moved e e'' := by
  obtain ⟨x, rfl⟩ := h
  obtain ⟨y, rfl⟩ := h'
  exact ⟨y, rfl⟩

/-- `e'` is `e` after parsing. -/
structure ParsedFrom (e e' : BarElement H) : Prop where
  look : e'.look = e.look
  clean : e'.dirtyContent = false

theorem ParsedFrom.moved {e e' e'' : BarElement H} (h : ParsedFrom e e') (h' : Moved e' e'') :
    ParsedFrom e e'' :=
  ⟨h'.look_eq.trans h.look, h'.dirtyContent_eq.trans h.clean⟩

end BarElement

/-- Two steps for each module and each element. -/
theorem forall₂_trans {α β γ : Type} {R : α → β → Prop} {S : β → γ → Prop} {T : α → γ → Prop}
    (hT : ∀ a b c, R a b → S b c → T a c) {xs : List α} {ys : List β} (h : List.Forall₂ R xs ys) :
    ∀ {zs : List γ}, List.Forall₂ S ys zs → List.Forall₂ T xs zs := by
  induction h with
  | nil => rintro _ ⟨⟩; exact .nil
  | cons hxy _ ih => rintro _ (_ | ⟨hyz, hzs⟩); exact .cons (hT _ _ _ hxy hyz) (ih hzs)

theorem moved_trans {ms ms' ms'' : List (List (BarElement H))}
    (h : List.Forall₂ (List.Forall₂ BarElement.Moved) ms ms')
    (h' : List.Forall₂ (List.Forall₂ BarElement.Moved) ms' ms'') :
    List.Forall₂ (List.Forall₂ BarElement.Moved) ms ms'' := by
  refine forall₂_trans (fun _ _ _ hes hes' => ?_) h h'
  exact forall₂_trans (fun _ _ _ he he' => he.trans he') hes hes'

theorem parsed_moved {ms ms' ms'' : List (List (BarElement H))}
    (h : List.Forall₂ (List.Forall₂ BarElement.ParsedFrom) ms ms')
    (h' : List.Forall₂ (List.Forall₂ BarElement.Moved) ms' ms'') :
    List.Forall₂ (List.Forall₂ BarElement.ParsedFrom) ms ms'' := by
  refine forall₂_trans (fun _ _ _ hes hes' => ?_) h h'
  exact forall₂_trans (fun _ _ _ he he' => he.moved he') hes hes'

namespace Bar

variable {b b' : Bar} {x y : Int}

/-! ## Parsing -/

/-- The characters that the table has are those of a font. -/
def Named (b : Bar) : Prop := ∀ c, c ≠ 0 → b.Known c → (b.fontFor c).isSome

theorem xftCharWidth_known {u : UInt32} {font : Option Font} {w : Int}
    (h : b.xftCharWidth u font = .ok (b', w)) {c : UInt32} (hc : b'.Known c) :
    c = u ∨ b.Known c := by
  obtain ⟨slot, -, ⟨-, f, xft, -, -, -, rfl⟩ | ⟨-, rfl, -⟩⟩ := xftCharWidth_cases h
  · obtain ⟨s, hs, rfl⟩ := hc
    by_cases hslot : s = slot
    · exact .inl (by rw [hslot]; exact Function.update_self _ _ _)
    · exact .inr ⟨s, hs, (Function.update_of_ne hslot _ _).symm⟩
  · exact .inr hc

/-- What is measured while parsing has a font. -/
theorem Named.getUtf8CharWidth {c : UInt32} {w : Int} (hb : b.Named)
    (h : b.getUtf8CharWidth (b.shown c) (b.fontFor c) = .ok (b', w)) : b'.Named := by
  cases hfont : b.fontFor c with
  | none =>
    rw [hfont] at h
    obtain ⟨rfl, -⟩ := Prod.mk.inj (Except.ok.inj h)
    exact hb
  | some f =>
    have hshown : b.shown c = c := by rw [BarConfig.shown, hfont]; rfl
    have hconfig := (getUtf8CharWidth_learns h).quiet.config
    rw [hfont, hshown] at h
    simp only [Bar.getUtf8CharWidth] at h
    split at h
    · intro d hd hknown
      rw [hconfig]
      rcases xftCharWidth_known h hknown with rfl | hknown
      · rw [hfont]
        rfl
      · exact hb d hd hknown
    · split at h
      · split at h <;>
        · obtain ⟨rfl, -⟩ := Prod.mk.inj (Except.ok.inj h)
          exact hb
      · obtain ⟨rfl, -⟩ := Prod.mk.inj (Except.ok.inj h)
        exact hb

theorem separatorLoop_named (n : Nat) :
    ∀ {b b' : Bar} {p : Nat} {chars : List SeparatorChar}, b.Named →
      b.separatorLoop n p = .ok (b', chars) → b'.Named := by
  induction n with
  | zero =>
    intro b b' p chars hb h
    obtain ⟨rfl, -⟩ := Prod.mk.inj (Except.ok.inj h)
    exact hb
  | succ n ih =>
    intro b b' p chars hb h
    rw [separatorLoop] at h
    split at h
    · obtain ⟨rfl, -⟩ := Prod.mk.inj (Except.ok.inj h)
      exact hb
    · obtain ⟨result, -, h⟩ := bind_eq_ok_iff.mp h
      obtain ⟨i, hselect⟩ := b.selectDrawableFont_eq result.ucs
      rw [hselect] at h
      obtain ⟨⟨b₁, w⟩, hw, h⟩ := bind_eq_ok_iff.mp h
      obtain ⟨⟨b₂, rest⟩, hrest, h⟩ := bind_eq_ok_iff.mp h
      obtain ⟨rfl, -⟩ := Prod.mk.inj (Except.ok.inj h)
      have hnoted : Named { b with offsetYIndex := i } := hb
      exact ih (hnoted.getUtf8CharWidth hw) hrest

theorem newBar_named {cfg : BarConfig} (h : cfg.newBar.initSeparator = .ok b) : b.Named := by
  obtain ⟨⟨b₁, chars⟩, hloop, h⟩ := bind_eq_ok_iff.mp h
  obtain rfl := Except.ok.inj h
  have hnew : cfg.newBar.Named := by
    rintro c hc ⟨slot, -, rfl⟩
    exact absurd rfl hc
  have hnamed : b₁.Named := separatorLoop_named 2 hnew hloop
  exact hnamed

theorem parseLoop_named {e e' : BarElement H} {n i p : Nat} {total total' : Int} (hb : b.Named)
    (h : b.parseLoop e n i p total = .ok (b', e', total')) : b'.Named := by
  replace h := parseLoop_eq_ok h
  induction h with
  | full => exact hb
  | stop => exact hb
  | @char b _ _ _ _ _ _ _ j _ _ _ _ _ _ _ _ hw _ ih =>
    have hnoted : Named { b with offsetYIndex := j } := hb
    exact ih (hnoted.getUtf8CharWidth hw)

/-- The loop writes what is decoded, and nothing else. -/
theorem parseLoop_same {e e' : BarElement H} {n i p : Nat} {total total' : Int}
    (h : b.parseLoop e n i p total = .ok (b', e', total')) : ∃ us ws len,
      e' = { e with ucsContent := us, ucsContentCharWidths := ws, ucsContentLen := len } := by
  replace h := parseLoop_eq_ok h
  induction h with
  | full => exact ⟨_, _, _, rfl⟩
  | stop => exact ⟨_, _, _, rfl⟩
  | char _ _ _ _ _ ih =>
    obtain ⟨us, ws, len, rfl⟩ := ih
    exact ⟨us, ws, len, rfl⟩

/-- What parsing an element leaves. -/
theorem parseElementContent_parsed {e e' : BarElement H}
    (h : b.parseElementContent e = .ok (b', e')) :
    e.ParsedFrom e' ∧ (b.Named → b'.Named) := by
  rw [parseElementContent] at h
  split at h
  · next hclean =>
    obtain ⟨rfl, rfl⟩ := Prod.mk.inj (Except.ok.inj h)
    exact ⟨⟨rfl, by simpa using hclean⟩, id⟩
  · obtain ⟨⟨b₁, e₁, total⟩, hloop, h⟩ := bind_eq_ok_iff.mp h
    obtain ⟨rfl, rfl⟩ := Prod.mk.inj (Except.ok.inj h)
    have hlook : e₁.look = e.look := by
      obtain ⟨_, _, _, rfl⟩ := parseLoop_same hloop
      rfl
    have hnamed : b.Named → b₁.Named := fun hb => parseLoop_named hb hloop
    exact ⟨⟨hlook, rfl⟩, hnamed⟩

/-- Colours set alike are written alike. -/
theorem quiet_ite {p : Prop} [Decidable p] (h : Quiet b b') :
    Quiet (if p then b.markColorsDirty.updateGc else b)
      (if p then b'.markColorsDirty.updateGc else b') := by
  obtain ⟨_, _, _, rfl⟩ := h
  by_cases hp : p
  · rw [if_pos hp, if_pos hp]
    exact ⟨_, _, _, rfl⟩
  · rw [if_neg hp, if_neg hp]
    exact ⟨_, _, _, rfl⟩

theorem Quiet.applyColors (h : Quiet b b') (e : BarElement H) :
    Quiet (b.applyColors e) (b'.applyColors e) := by
  obtain ⟨_, _, _, rfl⟩ := h
  rw [Bar.applyColors, Bar.applyColors]
  exact quiet_ite ⟨_, _, _, rfl⟩

theorem Quiet.foldl_applyColors (es : List (BarElement H)) :
    ∀ {b b' : Bar}, Quiet b b' → Quiet (es.foldl Bar.applyColors b) (es.foldl Bar.applyColors b') := by
  induction es with
  | nil => exact id
  | cons e es ih => exact fun h => ih (h.applyColors e)

/-- The colours that parsing applies; the contexts follow. -/
theorem applyColors_eq (b : Bar) (e : BarElement H) :
    ∃ gcDraw gcClear gcAttr selFg colorsDirty, b.applyColors e =
      { b with
        foregroundColor := if e.foregroundColor ≠ .unset then e.foregroundColor
          else b.foregroundColor
        backgroundColor := if e.backgroundColor ≠ .unset then e.backgroundColor
          else b.backgroundColor
        underlineColor := if e.underlineColor ≠ .unset then e.underlineColor else b.underlineColor
        gcDraw, gcClear, gcAttr, selFg, colorsDirty } := by
  rw [applyColors]
  exact ite_updateGc _

theorem applyColors_named (hb : b.Named) (e : BarElement H) : (b.applyColors e).Named := by
  obtain ⟨_, _, _, _, _, heq⟩ := b.applyColors_eq e
  rw [heq]
  exact hb

/-- What parsing the elements of a right module leaves of the bar. -/
theorem parseRightElements_quiet (es : List (BarElement H)) :
    ∀ {b b' : Bar} {es' : List (BarElement H)}, b.parseRightElements es = .ok (b', es') →
      Quiet (es.foldl applyColors b) b' ∧ (b.Named → b'.Named) := by
  induction es with
  | nil =>
    intro b b' es' h
    obtain ⟨rfl, -⟩ := Prod.mk.inj (Except.ok.inj h)
    exact ⟨.refl b, id⟩
  | cons e es ih =>
    intro b b' es' h
    obtain ⟨⟨b₁, e₁⟩, hparse, h⟩ := bind_eq_ok_iff.mp h
    obtain ⟨⟨b₂, es₁⟩, hrest, h⟩ := bind_eq_ok_iff.mp h
    obtain ⟨rfl, -⟩ := Prod.mk.inj (Except.ok.inj h)
    obtain ⟨-, hnamed⟩ := parseElementContent_parsed hparse
    obtain ⟨hquiet, hnamed'⟩ := ih hrest
    have hfold := Quiet.foldl_applyColors es (parseElementContent_quiet hparse)
    exact ⟨hfold.trans hquiet, fun hb => hnamed' (hnamed (applyColors_named hb e))⟩

theorem parseRightModules_quiet (modules : List (List (BarElement H))) :
    ∀ {b b' : Bar} {modules' : List (List (BarElement H))},
      b.parseRightModules modules = .ok (b', modules') →
      Quiet (modules.flatten.foldl applyColors b) b' ∧ (b.Named → b'.Named) := by
  induction modules with
  | nil =>
    intro b b' modules' h
    obtain ⟨rfl, -⟩ := Prod.mk.inj (Except.ok.inj h)
    exact ⟨.refl b, id⟩
  | cons es modules ih =>
    intro b b' modules' h
    obtain ⟨⟨b₁, es'⟩, hes, h⟩ := bind_eq_ok_iff.mp h
    obtain ⟨⟨b₂, rest⟩, hrest, h⟩ := bind_eq_ok_iff.mp h
    obtain ⟨rfl, -⟩ := Prod.mk.inj (Except.ok.inj h)
    obtain ⟨hquiet₁, hnamed₁⟩ := parseRightElements_quiet es hes
    obtain ⟨hquiet₂, hnamed₂⟩ := ih hrest
    rw [List.flatten_cons, List.foldl_append]
    exact ⟨(Quiet.foldl_applyColors _ hquiet₁).trans hquiet₂, fun hb => hnamed₂ (hnamed₁ hb)⟩

theorem parseRightModules_parsed (modules : List (List (BarElement H)))
    {modules' : List (List (BarElement H))} (h : b.parseRightModules modules = .ok (b', modules')) :
    Quiet (modules.flatten.foldl applyColors b) b' ∧
      List.Forall₂ (List.Forall₂ BarElement.ParsedFrom) modules modules' ∧
      (b.Named → b'.Named) := by
  obtain ⟨hquiet, hnamed⟩ := parseRightModules_quiet modules h
  exact ⟨hquiet, parseRightModules_forall₂ (fun h => (parseElementContent_parsed h).1) modules h,
    hnamed⟩

theorem parseLeftModules_parsed (modules : List (List (BarElement H))) {x : Int}
    {modules' : List (List (BarElement H))}
    (h : b.parseLeftModules x modules = .ok (b', modules')) :
    Quiet (modules.flatten.foldl applyColors b) b' ∧
      List.Forall₂ (List.Forall₂ BarElement.ParsedFrom) modules modules' ∧
      (b.Named → b'.Named) := by
  obtain ⟨modules₁, hright, hmoved⟩ := parseLeftModules_right modules h
  obtain ⟨hquiet, hparsed, hnamed⟩ := parseRightModules_parsed modules hright
  exact ⟨hquiet, parsed_moved hparsed hmoved, hnamed⟩

/-! ## Parsing elements that are not new -/

theorem parseElementContent_clean {e : BarElement H} (b : Bar) (h : e.dirtyContent = false) :
    b.parseElementContent e = .ok (b, e) := by
  rw [parseElementContent, h]
  rfl

theorem parseLeftElements_clean (es : List (BarElement H)) :
    ∀ (b : Bar) (x : Int), (∀ e ∈ es, e.dirtyContent = false) →
      ∃ y es', b.parseLeftElements x es = .ok (es.foldl applyColors b, y, es') ∧
        List.Forall₂ BarElement.Moved es es' := by
  induction es with
  | nil => exact fun b x _ => ⟨x, [], rfl, .nil⟩
  | cons e es ih =>
    intro b x hclean
    obtain ⟨he, hes⟩ := List.forall_mem_cons.mp hclean
    obtain ⟨y, es', hrest, hmoved⟩ := ih (b.applyColors e) (x + e.width.toNat) hes
    refine ⟨y, { e with beginX := UInt16.ofInt x } :: es', ?_, .cons ⟨_, rfl⟩ hmoved⟩
    refine bind_eq_ok_iff.mpr ⟨_, parseElementContent_clean _ he, ?_⟩
    exact bind_eq_ok_iff.mpr ⟨_, hrest, rfl⟩

theorem parseLeftModules_clean (modules : List (List (BarElement H))) :
    ∀ (b : Bar) (x : Int), (∀ es ∈ modules, ∀ e ∈ es, e.dirtyContent = false) →
      ∃ modules', b.parseLeftModules x modules =
          .ok (modules.flatten.foldl applyColors b, modules') ∧
        List.Forall₂ (List.Forall₂ BarElement.Moved) modules modules' := by
  induction modules with
  | nil => exact fun b x _ => ⟨[], rfl, .nil⟩
  | cons es modules ih =>
    intro b x hclean
    obtain ⟨hes, hmodules⟩ := List.forall_mem_cons.mp hclean
    obtain ⟨y, es', hrow, hmoved⟩ := parseLeftElements_clean es b x hes
    obtain ⟨modules', hrest, hmoved'⟩ := ih (es.foldl applyColors b) y hmodules
    rw [List.flatten_cons, List.foldl_append]
    refine ⟨es' :: modules', ?_, .cons hmoved hmoved'⟩
    exact bind_eq_ok_iff.mpr ⟨_, hrow, bind_eq_ok_iff.mpr ⟨_, hrest, rfl⟩⟩

theorem parseRightElements_clean (es : List (BarElement H)) :
    ∀ b : Bar, (∀ e ∈ es, e.dirtyContent = false) →
      b.parseRightElements es = .ok (es.foldl applyColors b, es) := by
  induction es with
  | nil => exact fun b _ => rfl
  | cons e es ih =>
    intro b hclean
    obtain ⟨he, hes⟩ := List.forall_mem_cons.mp hclean
    refine bind_eq_ok_iff.mpr ⟨_, parseElementContent_clean _ he, ?_⟩
    exact bind_eq_ok_iff.mpr ⟨_, ih _ hes, rfl⟩

theorem parseRightModules_clean (modules : List (List (BarElement H))) :
    ∀ b : Bar, (∀ es ∈ modules, ∀ e ∈ es, e.dirtyContent = false) →
      b.parseRightModules modules = .ok (modules.flatten.foldl applyColors b, modules) := by
  induction modules with
  | nil => exact fun b _ => rfl
  | cons es modules ih =>
    intro b hclean
    obtain ⟨hes, hmodules⟩ := List.forall_mem_cons.mp hclean
    rw [List.flatten_cons, List.foldl_append]
    exact bind_eq_ok_iff.mpr ⟨_, parseRightElements_clean es b hes,
      bind_eq_ok_iff.mpr ⟨_, ih _ hmodules, rfl⟩⟩

theorem placeRightElements_moved (es : List (BarElement H)) :
    ∀ x : Int, List.Forall₂ BarElement.Moved es (placeRightElements x es).2 := by
  induction es with
  | nil => exact fun x => .nil
  | cons e es ih => exact fun x => .cons ⟨_, rfl⟩ (ih _)

theorem placeRightModules_moved (modules : List (List (BarElement H))) :
    ∀ x : Int, List.Forall₂ (List.Forall₂ BarElement.Moved) modules
      (placeRightModules x modules) := by
  induction modules with
  | nil => exact fun x => .nil
  | cons es modules ih => exact fun x => .cons (placeRightElements_moved es x) (ih _)

/-! ## Painting -/

/-- The colours that one thing that is painted sets. -/
def colored (b : Bar) : Option (BarElement H) → Bar
  | some e => b.elementColors e
  | none => b.separatorColors

theorem Quiet.colored (h : Quiet b b') (p : Option (BarElement H)) :
    Quiet (b.colored p) (b'.colored p) := by
  obtain ⟨_, _, _, rfl⟩ := h
  cases p with
  | some e =>
    rw [Bar.colored, Bar.colored, elementColors, elementColors]
    exact quiet_ite ⟨_, _, _, rfl⟩
  | none => exact ⟨_, _, _, rfl⟩

theorem Quiet.foldl_colored (ps : List (Option (BarElement H))) :
    ∀ {b b' : Bar}, Quiet b b' → Quiet (ps.foldl Bar.colored b) (ps.foldl Bar.colored b') := by
  induction ps with
  | nil => exact id
  | cons p ps ih => exact fun h => ih (h.colored p)

theorem renderElements_colored {es : List (BarElement H)} {rs : List (Rendered H)}
    (h : b.renderElements x es = .ok (b', y, rs)) : Quiet ((es.map some).foldl colored b) b' := by
  replace h := renderElements_eq_ok_iff.mp h
  induction h with
  | nil b => exact .refl b
  | cons hrender _ ih => exact (Quiet.foldl_colored _ (renderElement_quiet hrender).1).trans ih

theorem renderModules_colored {modules : List (List (BarElement H))}
    {ms : List (RenderedModule H)} (h : b.renderModules x modules = .ok (b', y, ms)) :
    Quiet ((painted modules).foldl colored b) b' := by
  replace h := renderModules_eq_ok_iff.mp h
  induction h with
  | nil b => exact .refl b
  | last hrow => exact renderElements_colored hrow
  | cons hrow hsepAt _ ih =>
    rw [renderSeparatorAt_eq_separatorChars] at hsepAt
    have hquiet₁ := renderElements_colored hrow
    have hquiet₂ := (hquiet₁.colored (none : Option (BarElement H))).trans
      (separatorChars_quiet _ hsepAt).1
    rw [painted, List.foldl_append, List.foldl_cons]
    exact (Quiet.foldl_colored _ hquiet₂).trans ih

theorem renderAllElements_colored {L R : List (List (BarElement H))} {f : Frame H}
    (h : b.renderAllElements L R = .ok f) :
    Quiet ((painted L ++ painted R).foldl colored b) f.bar := by
  obtain ⟨b₁, margin, b₂, x, b₃, w, y, hmargin, hleft, hw, hright⟩ := renderAllElements_eq_ok h
  have hquiet₁ := (b.selectDrawableFont_quiet 32).trans (xftCharWidth_learns hmargin).quiet
  have hquiet₂ := (Quiet.foldl_colored _ hquiet₁).trans (renderModules_colored hleft)
  have hquiet₃ := hquiet₂.trans (separatorWidth_quiet 4 hw)
  rw [List.foldl_append]
  exact (Quiet.foldl_colored _ hquiet₃).trans (renderModules_colored hright)

end Bar

/-! ## The last colours -/

/-- The last colour of a list that is set, or `c`. -/
def lastSet (c : Color) (ds : List Color) : Color :=
  ds.foldl (fun c d => if d ≠ .unset then d else c) c

theorem lastSet_unset {c : Color} {ds : List Color} (h : ∀ d ∈ ds, d = .unset) :
    lastSet c ds = c := by
  induction ds with
  | nil => rfl
  | cons d ds ih =>
    obtain ⟨hd, hds⟩ := List.forall_mem_cons.mp h
    rw [lastSet, List.foldl_cons, if_neg (not_not.mpr hd)]
    exact ih hds

/-- The colour before matters only where none is set. -/
theorem lastSet_congr {ds : List Color} :
    ∀ {c c' : Color}, ((∀ d ∈ ds, d = .unset) → c = c') → lastSet c ds = lastSet c' ds := by
  induction ds with
  | nil => exact fun h => h fun _ hd => (List.not_mem_nil hd).elim
  | cons d ds ih =>
    intro c c' h
    rw [lastSet, lastSet, List.foldl_cons, List.foldl_cons]
    by_cases hd : d = .unset
    · rw [if_neg (not_not.mpr hd), if_neg (not_not.mpr hd)]
      exact ih fun hds => h (List.forall_mem_cons.mpr ⟨hd, hds⟩)
    · rw [if_pos hd, if_pos hd]

/-- The background of the last thing that is painted. -/
def lastBackground (cfg : BarConfig) (ps : List (Option (BarElement H))) : Color :=
  match ps.getLast? with
  | some (some e) => e.background cfg
  | _ => cfg.defaultBackgroundColor

/-- The last element that is painted is underlined. -/
def lastUnderlined (ps : List (Option (BarElement H))) : Bool :=
  (ps.filterMap id).getLast?.any (·.underline)

namespace Bar

variable {b b' : Bar}

/-- The colours after parsing. -/
theorem foldl_applyColors_eq (es : List (BarElement H)) :
    ∀ b : Bar, ∃ gcDraw gcClear gcAttr selFg colorsDirty, es.foldl applyColors b =
      { b with
        foregroundColor := lastSet b.foregroundColor (es.map (·.foregroundColor))
        backgroundColor := lastSet b.backgroundColor (es.map (·.backgroundColor))
        underlineColor := lastSet b.underlineColor (es.map (·.underlineColor))
        gcDraw, gcClear, gcAttr, selFg, colorsDirty } := by
  induction es with
  | nil => exact fun b => ⟨_, _, _, _, _, rfl⟩
  | cons e es ih =>
    intro b
    obtain ⟨_, _, _, _, _, heq⟩ := b.applyColors_eq e
    obtain ⟨gcDraw, gcClear, gcAttr, selFg, colorsDirty, hrest⟩ := ih (b.applyColors e)
    rw [List.foldl_cons, hrest, heq]
    exact ⟨_, _, _, _, _, rfl⟩

/-- What holds of a bar and is kept by what is painted. -/
theorem foldl_colored_keeps {P : Bar → Prop} (ps : List (Option (BarElement H)))
    (helement : ∀ b e, some e ∈ ps → P b → P (b.elementColors e))
    (hsep : ∀ b, P b → P b.separatorColors) (hb : P b) : P (ps.foldl colored b) := by
  induction ps generalizing b with
  | nil => exact hb
  | cons p ps ih =>
    refine ih (fun b e he => helement b e (List.mem_cons_of_mem _ he)) ?_
    cases p with
    | some e => exact helement b e List.mem_cons_self hb
    | none => exact hsep b hb

theorem foldl_colored_config (ps : List (Option (BarElement H))) (b : Bar) :
    (ps.foldl colored b).toBarConfig = b.toBarConfig :=
  foldl_colored_keeps (P := fun b' => b'.toBarConfig = b.toBarConfig) ps
    (fun b' e _ h => (b'.elementColors_config e).trans h) (fun _ h => h) rfl

/-- The background is that of the last thing that was painted. -/
theorem foldl_colored_background (ps : List (Option (BarElement H)))
    (hb : ps = [] → b.backgroundColor = b.defaultBackgroundColor) :
    (ps.foldl colored b).backgroundColor = lastBackground b.toBarConfig ps := by
  rcases List.eq_nil_or_concat ps with rfl | ⟨ps, p, rfl⟩
  · exact hb rfl
  · have hconfig := foldl_colored_config ps b
    rw [List.concat_eq_append, List.foldl_append, lastBackground, List.getLast?_concat, ← hconfig]
    cases p with
    | some e =>
      obtain ⟨_, _, _, _, _, heq⟩ := (ps.foldl colored b).elementColors_eq e
      simp only [List.foldl_cons, List.foldl_nil, colored, heq]
    | none => rfl

/-- The attributes are those of the last element that was painted. -/
theorem foldl_colored_attrs (ps : List (Option (BarElement H))) (hb : b.attrs = {}) :
    (ps.foldl colored b).attrs = { overl := false, underl := lastUnderlined ps } := by
  induction ps using List.reverseRecOn with
  | nil => exact hb
  | append_singleton ps p ih =>
    rw [List.foldl_append, lastUnderlined, List.filterMap_append]
    cases p with
    | some e =>
      obtain ⟨_, _, _, _, _, heq⟩ := (ps.foldl colored b).elementColors_eq e
      simp only [List.foldl_cons, List.foldl_nil, colored, heq]
      simp
    | none =>
      rw [List.filterMap_cons_none rfl, List.filterMap_nil, List.append_nil]
      exact ih

/-! ## A whole pass -/

variable {L R : List (List (BarElement H))} {f : Frame H}

/-- What a pass parses, and then renders. -/
theorem parseModules_parsed (h : b.parseModules L R = .ok f) :
    ∃ b₁ L' R', Reaches H b b₁ ∧ Quiet ((L.flatten ++ R.flatten).foldl applyColors b) b₁ ∧
      (b.Named → b₁.Named) ∧ List.Forall₂ (List.Forall₂ BarElement.ParsedFrom) L L' ∧
      List.Forall₂ (List.Forall₂ BarElement.ParsedFrom) R R' ∧
      b₁.renderAllElements L' R' = .ok f := by
  obtain ⟨⟨b₁, L'⟩, hleft, h⟩ := bind_eq_ok_iff.mp h
  obtain ⟨⟨b₂, R'⟩, hright, h⟩ := bind_eq_ok_iff.mp h
  obtain ⟨hquiet₁, hL, hnamed₁⟩ := parseLeftModules_parsed L hleft
  obtain ⟨hquiet₂, hR, hnamed₂⟩ := parseRightModules_parsed R hright
  have hplaced := parsed_moved hR (placeRightModules_moved R' b₂.width)
  refine ⟨b₂, L', _, (parseLeftModules_reaches _ hleft).trans (parseRightModules_reaches _ hright),
    ?_, fun hb => hnamed₂ (hnamed₁ hb), hL, hplaced, h⟩
  rw [List.foldl_append]
  exact (Quiet.foldl_applyColors _ hquiet₁).trans hquiet₂

/-- A pass over elements that are not new applies their colours, and renders. -/
theorem parseModules_clean (b : Bar) (hL : ∀ es ∈ L, ∀ e ∈ es, e.dirtyContent = false)
    (hR : ∀ es ∈ R, ∀ e ∈ es, e.dirtyContent = false) :
    ∃ L' R', List.Forall₂ (List.Forall₂ BarElement.Moved) L L' ∧
      List.Forall₂ (List.Forall₂ BarElement.Moved) R R' ∧
      b.parseModules L R =
        ((L.flatten ++ R.flatten).foldl applyColors b).renderAllElements L' R' := by
  obtain ⟨L', hleft, hmoved⟩ := parseLeftModules_clean L b 0 hL
  have hright := parseRightModules_clean R (L.flatten.foldl applyColors b) hR
  refine ⟨L', placeRightModules (R.flatten.foldl applyColors (L.flatten.foldl applyColors b)).width R,
    hmoved, placeRightModules_moved R _, ?_⟩
  rw [List.foldl_append]
  simp only [parseModules, hleft, hright, bind, Except.bind]

theorem foldl_applyColors_reaches (es : List (BarElement H)) :
    ∀ b : Bar, Reaches H b (es.foldl applyColors b) := by
  induction es with
  | nil => exact fun b => .refl
  | cons e es ih => exact fun b => .head (.colors e) (ih _)

end Bar

/-! ## The elements of a frame -/

/-- The elements of the left modules after a frame. -/
def Frame.leftModules (f : Frame H) : List (List (BarElement H)) :=
  f.left.map fun m => m.elements.map (·.element)

/-- The elements of the right modules after a frame. -/
def Frame.rightModules (f : Frame H) : List (List (BarElement H)) :=
  f.right.map fun m => m.elements.map (·.element)

namespace Bar

variable {b : Bar} {L R : List (List (BarElement H))} {f : Frame H}

/-- Rendering only moves the elements. -/
theorem renderElements_moved {b' : Bar} {x y : Int} {es : List (BarElement H)}
    {rs : List (Rendered H)} (h : b.renderElements x es = .ok (b', y, rs)) :
    List.Forall₂ BarElement.Moved es (rs.map (·.element)) := by
  replace h := renderElements_eq_ok_iff.mp h
  induction h with
  | nil => exact .nil
  | cons _ _ ih => exact .cons ⟨_, rfl⟩ ih

theorem renderModules_moved {b' : Bar} {x y : Int} {modules : List (List (BarElement H))}
    {ms : List (RenderedModule H)} (h : b.renderModules x modules = .ok (b', y, ms)) :
    List.Forall₂ (List.Forall₂ BarElement.Moved) modules
      (ms.map fun m => m.elements.map (·.element)) := by
  replace h := renderModules_eq_ok_iff.mp h
  induction h with
  | nil => exact .nil
  | last hrow => exact .cons (renderElements_moved hrow) .nil
  | cons hrow _ _ ih => exact .cons (renderElements_moved hrow) ih

theorem renderAllElements_moved (h : b.renderAllElements L R = .ok f) :
    List.Forall₂ (List.Forall₂ BarElement.Moved) L f.leftModules ∧
      List.Forall₂ (List.Forall₂ BarElement.Moved) R f.rightModules := by
  obtain ⟨_, _, _, _, _, _, _, -, hleft, -, hright⟩ := renderAllElements_eq_ok h
  exact ⟨renderModules_moved hleft, renderModules_moved hright⟩

/-- What every parse does is done to every element of a pass, which then moves them. -/
theorem parseModules_forall₂ {P : BarElement H → BarElement H → Prop}
    (hparse : ∀ {b b' : Bar} {e e' : BarElement H},
      b.parseElementContent e = .ok (b', e') → P e e')
    (hmoved : ∀ {e e' e'' : BarElement H}, P e e' → BarElement.Moved e' e'' → P e e'')
    (h : b.parseModules L R = .ok f) :
    List.Forall₂ (List.Forall₂ P) L f.leftModules ∧
      List.Forall₂ (List.Forall₂ P) R f.rightModules := by
  have htrans {ms ms' ms'' : List (List (BarElement H))}
      (h₁ : List.Forall₂ (List.Forall₂ P) ms ms')
      (h₂ : List.Forall₂ (List.Forall₂ BarElement.Moved) ms' ms'') :
      List.Forall₂ (List.Forall₂ P) ms ms'' := by
    refine forall₂_trans (fun _ _ _ hes hes' => ?_) h₁ h₂
    refine forall₂_trans ?_ hes hes'
    exact fun _ _ _ he he' => hmoved he he'
  obtain ⟨⟨b₁, L'⟩, hleft, h⟩ := bind_eq_ok_iff.mp h
  obtain ⟨⟨b₂, R'⟩, hright, h⟩ := bind_eq_ok_iff.mp h
  obtain ⟨L'', hleft, hplaced⟩ := parseLeftModules_right L hleft
  obtain ⟨hframeL, hframeR⟩ := renderAllElements_moved h
  have hL := parseRightModules_forall₂ hparse L hleft
  have hR := parseRightModules_forall₂ hparse R hright
  exact ⟨htrans (htrans hL hplaced) hframeL,
    htrans (htrans hR (placeRightModules_moved R' b₂.width)) hframeR⟩

end Bar

end Photonbar
