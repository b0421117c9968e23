import Mathlib.Data.List.Basic

/-!
# Mailboxes

Elements wait in the order in which they came; a request takes the first one that it wants, and
leaves the others. Requests that cannot tell elements of one kind apart take each kind in the order
in which it came (`serve_filter`), and nothing is lost or taken twice (`serve_perm`). A request is
a predicate, and elements are of any type.

Elements may also come while requests are being served. That makes no difference to a request that
finds what it wants (`take_append_of_some`), and one that does not find it goes on with those that
come (`take_append_of_none`); so a queue that is filled as far as needed, and searched first,
behaves like one list of all elements from the beginning.
-/

namespace Photonbar

namespace Mailbox

universe u v

variable {α : Type u} {κ : Type v} {p : α → Bool} {l l' left taken : List α} {a : α}

/-- The first element that is wanted, and the others. -/
def take (p : α → Bool) : List α → Option (α × List α)
  | [] => none
  | a :: l => if p a then some (a, l) else (take p l).map fun r => (r.1, a :: r.2)

/-- Requests, one after another: what they take, and what is left. -/
def serve : List (α → Bool) → List α → Option (List α × List α)
  | [], l => some ([], l)
  | p :: ps, l =>
    match take p l with
    | none => none
    | some (a, l) => (serve ps l).map fun r => (a :: r.1, r.2)

/-- What is taken is the first one. -/
theorem take_eq_some_iff : take p l = some (a, l') ↔
    ∃ before after, l = before ++ a :: after ∧ (∀ b ∈ before, p b = false) ∧ p a = true ∧
      l' = before ++ after := by
  induction l generalizing l' with
  | nil => simp [take]
  | cons b l ih =>
    rw [take]
    split
    next hb =>
      constructor
      · rintro h
        cases h
        exact ⟨[], l, rfl, by simp, hb, rfl⟩
      · rintro ⟨before, after, hl, hbefore, ha, rfl⟩
        cases before with
        | nil =>
          cases hl
          rfl
        | cons c before =>
          cases hl
          exact absurd hb (by simp [hbefore b])
    next hb =>
      rw [Option.map_eq_some_iff]
      constructor
      · rintro ⟨⟨a', l''⟩, h, heq⟩
        cases heq
        obtain ⟨before, after, rfl, hbefore, ha, rfl⟩ := ih.mp h
        refine ⟨b :: before, after, rfl, ?_, ha, rfl⟩
        exact List.forall_mem_cons.mpr ⟨by simpa using hb, hbefore⟩
      · rintro ⟨before, after, hl, hbefore, ha, rfl⟩
        cases before with
        | nil =>
          cases hl
          exact absurd ha hb
        | cons c before =>
          cases hl
          refine ⟨(a, before ++ after), ih.mpr ⟨before, after, rfl, ?_, ha, rfl⟩, rfl⟩
          exact fun b hb => hbefore b (List.mem_cons_of_mem _ hb)

theorem take_eq_none_iff : take p l = none ↔ ∀ a ∈ l, p a = false := by
  induction l with
  | nil => simp [take]
  | cons b l ih =>
    rw [take]
    split
    next hb => simp [hb]
    next hb => simp [ih, hb]

theorem take_perm (h : take p l = some (a, l')) : (a :: l').Perm l := by
  obtain ⟨before, after, rfl, -, -, rfl⟩ := take_eq_some_iff.mp h
  exact List.perm_middle.symm

theorem take_append_of_none {m : List α} (h : take p l = none) :
    take p (l ++ m) = (take p m).map fun r => (r.1, l ++ r.2) := by
  induction l with
  | nil => simp
  | cons b l ih =>
    have hall := take_eq_none_iff.mp h
    have hb : p b = false := hall b List.mem_cons_self
    rw [List.cons_append, take, if_neg (by simp [hb]),
      ih (take_eq_none_iff.mpr fun a ha => hall a (List.mem_cons_of_mem _ ha)), Option.map_map]
    rfl

theorem take_append_of_some {m : List α} (h : take p l = some (a, l')) :
    take p (l ++ m) = some (a, l' ++ m) := by
  obtain ⟨before, after, rfl, hbefore, ha, rfl⟩ := take_eq_some_iff.mp h
  exact take_eq_some_iff.mpr ⟨before, after ++ m, by simp, hbefore, ha, by simp⟩

/-- Nothing is lost, and nothing is taken twice. -/
theorem serve_perm {ps : List (α → Bool)} (h : serve ps l = some (taken, left)) :
    (taken ++ left).Perm l := by
  induction ps generalizing l taken with
  | nil =>
    cases h
    exact .refl _
  | cons p ps ih =>
    rw [serve] at h
    split at h
    next => cases h
    next a l' htake =>
      obtain ⟨⟨taken', left'⟩, hserve, heq⟩ := Option.map_eq_some_iff.mp h
      cases heq
      exact ((ih hserve).cons a).trans (take_perm htake)

/-- The elements of one kind stay in their order. -/
theorem serve_filter [DecidableEq κ] (kind : α → κ) {ps : List (α → Bool)}
    (hkind : ∀ p ∈ ps, ∀ a b, kind a = kind b → p a = p b)
    (h : serve ps l = some (taken, left)) (k : κ) :
    (taken ++ left).filter (kind · = k) = l.filter (kind · = k) := by
  induction ps generalizing l taken with
  | nil =>
    cases h
    rfl
  | cons p ps ih =>
    rw [serve] at h
    split at h
    next => cases h
    next a l' htake =>
      obtain ⟨⟨taken', left'⟩, hserve, heq⟩ := Option.map_eq_some_iff.mp h
      cases heq
      have hrest := ih (fun p hp => hkind p (List.mem_cons_of_mem _ hp)) hserve
      obtain ⟨before, after, rfl, hbefore, ha, rfl⟩ := take_eq_some_iff.mp htake
      -- nothing in front is of the kind of what is taken
      have hnone (hak : kind a = k) : before.filter (kind · = k) = [] := by
        rw [List.filter_eq_nil_iff]
        intro b hb hbk
        have hpb := hkind p List.mem_cons_self a b (hak.trans (of_decide_eq_true hbk).symm)
        rw [ha, hbefore b hb] at hpb
        cases hpb
      rw [List.cons_append, List.filter_cons, hrest, List.filter_append, List.filter_append,
        List.filter_cons]
      split
      next hak => rw [hnone (of_decide_eq_true hak), List.nil_append, List.nil_append]
      next => rfl

end Mailbox

end Photonbar
