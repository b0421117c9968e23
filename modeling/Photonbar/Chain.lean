import Photonbar.Monitors
import Photonbar.Sorting

/-!
# The chain of windows (`bar.h`)

`monitorAdd` keeps the chain in the order in which its monitors are created (`withBoxes_add`), so
that `createLoop` is about a list of boxes (`createLoop_eq`). These are `placements`: each of them
lies in a rectangle, and together they tile the part of the screen that the bar is wide
(`placements_tiles`, `monitorCreateChain_tiles`).

`chainOf` is the memory with all pointers set, for any list of boxes, and adding a monitor to it is
adding a box to the list; that is all that has to be known about pointers, and `follow` reads the
list back. The loop counts two numbers down, how far the bar begins to the right of where it is,
and how wide what is left of it is. They are positions on a screen on which the monitors are put
side by side, without gaps; `Placement.start` translates, and there the placements are intervals
one behind the other.
-/

namespace Photonbar

/-! ## The links -/

/-- The chain of monitors with these boxes. -/
def chainOf (boxes : List Box) : List Monitor :=
  boxes.mapIdx fun k b =>
    { toBox := b
      prev := if k = 0 then none else some (k - 1)
      next := if k + 1 < boxes.length then some (k + 1) else none }

@[simp] theorem chainOf_length (boxes : List Box) : (chainOf boxes).length = boxes.length :=
  List.length_mapIdx

@[simp] theorem chainOf_boxes (boxes : List Box) : (chainOf boxes).map Monitor.toBox = boxes := by
  refine List.ext_getElem (by simp) fun k _ _ => ?_
  simp [chainOf]

namespace BarSetup

/-- The request for a window. -/
def request (bh : Int) (b : Box) : CreateWindow :=
  ⟨Int16.ofInt b.x, Int16.ofInt b.y, UInt16.ofInt b.width, UInt16.ofInt bh⟩

/-- The setup after windows with these boxes are created. -/
def withBoxes (s : BarSetup) (boxes : List Box) : BarSetup :=
  { s with
    heap := chainOf boxes
    windows := boxes.map (request s.bh)
    monhead := if boxes.length = 0 then none else some 0
    montail := if boxes.length < 2 then none else some (boxes.length - 1) }

/-- The vertical position of a window. -/
def windowY (s : BarSetup) (r : Rect) : Int :=
  (if s.topbar then s.«by» else r.height.toNat - s.bh - s.«by») + r.top

/-- The links of the last two monitors are set in any order. -/
theorem setNext_setPrev (s : BarSetup) {p q p' q' : Nat} (h : p ≠ p') :
    (s.setNext p q).setPrev p' q' = (s.setPrev p' q').setNext p q := by
  have hheap : (s.heap.modify p fun m => { m with next := some q }).modify p'
        (fun m => { m with prev := some q' }) =
      (s.heap.modify p' fun m => { m with prev := some q' }).modify p
        fun m => { m with next := some q } := by
    refine List.ext_getElem (by simp) fun k _ _ => ?_
    grind
  rw [setNext, setPrev, hheap]
  rfl

/-- The new monitor and the last one are linked. -/
theorem chainOf_append {boxes : List Box} {n : Nat} (hn : boxes.length = n + 1) (b : Box) :
    ((chainOf boxes ++ [(⟨b, none, none⟩ : Monitor)]).modify (n + 1) fun m =>
        { m with prev := some n }).modify n (fun m => { m with next := some (n + 1) }) =
      chainOf (boxes ++ [b]) := by
  refine List.ext_getElem (by simp) fun k hk _ => ?_
  have hk : k < n + 2 := by
    rw [List.length_modify, List.length_modify, List.length_append, chainOf_length, hn] at hk
    exact hk
  simp only [chainOf, List.getElem_modify, List.getElem_append, List.getElem_mapIdx,
    List.length_mapIdx, List.length_append, List.length_singleton, hn]
  rcases lt_trichotomy k n with hlt | rfl | hgt
  · simp [show k < n + 1 by omega, show n ≠ k by omega, show n + 1 ≠ k by omega, hlt, hlt.le]
  · simp
  · obtain rfl : k = n + 1 := by omega
    simp

/-- **One more window** is linked behind the last one. -/
theorem withBoxes_add (s : BarSetup) (boxes : List Box) (x y width height : Int) :
    let b : Box := ⟨x, (if s.topbar then s.«by» else height - s.bh - s.«by») + y, width⟩
    let (s', mon) := (s.withBoxes boxes).monitorNew x y width height
    s'.monitorAdd mon = s.withBoxes (boxes ++ [b]) := by
  intro b
  cases hlen : boxes.length with
  | zero =>
    obtain rfl := List.eq_nil_of_length_eq_zero hlen
    rfl
  | succ n =>
    have hheap := chainOf_append hlen b
    have hmon : (s.withBoxes boxes).heap.length = n + 1 := (chainOf_length boxes).trans hlen
    have hhead : (s.withBoxes boxes).monhead = some 0 := by simp [withBoxes, hlen]
    have hadded : s.withBoxes (boxes ++ [b]) =
        { s.withBoxes boxes with
          heap := chainOf (boxes ++ [b])
          windows := (s.withBoxes boxes).windows ++ [request s.bh b]
          montail := some (n + 1) } := by
      simp [withBoxes, hlen]
    rw [hadded, ← hheap]
    cases n with
    | zero =>
      have htail : (s.withBoxes boxes).montail = none := by simp [withBoxes, hlen]
      simp only [monitorNew, monitorAdd, hhead, htail, hmon]
      rw [setNext_setPrev _ (by decide)]
      rfl
    | succ n =>
      have htail : (s.withBoxes boxes).montail = some (n + 1) := by simp [withBoxes, hlen]
      simp only [monitorNew, monitorAdd, hhead, htail, hmon]
      rfl

end BarSetup

/-! ## What the loop creates -/

/-- A window and the monitor that it is on. -/
structure Placement where
  index : Nat
  rect : Rect
  box : Box

/-- The windows that the last loop creates, for monitors from number `i` on. -/
def placements (y : Rect → Int) : Nat → List Rect → Int → Int → List Placement
  | _, [], _, _ => []
  | i, r :: rs, left, width =>
    let left' := if left - r.width.toNat < 0 then 0 else left - r.width.toNat
    if r.width.toNat > left then
      let w := if width < r.width.toNat - left then width else r.width.toNat - left
      ⟨i, r, ⟨r.left + left, y r, w⟩⟩ ::
        if width - (r.width.toNat - left) ≤ 0 then []
        else placements y (i + 1) rs left' (width - (r.width.toNat - left))
    else placements y (i + 1) rs left' width

/-- **The last loop** creates the placements. -/
theorem BarSetup.createLoop_eq {s : BarSetup} (hby : s.«by» = 0) (rs : List Rect) :
    ∀ (i : Nat) (left width : Int) (boxes : List Box), (∀ r ∈ rs, 0 ≤ r.top) →
      (s.withBoxes boxes).createLoop rs left width =
        s.withBoxes (boxes ++ (placements s.windowY i rs left width).map Placement.box) := by
  induction rs with
  | nil => exact fun _ _ _ boxes _ => congrArg s.withBoxes (List.append_nil boxes).symm
  | cons r rs ih =>
    intro i left width boxes htop
    obtain ⟨hr, htop⟩ := List.forall_mem_cons.mp htop
    have hbottom : ¬ r.bottom < (s.withBoxes boxes).«by» := by
      have hle : r.top ≤ r.bottom := by
        rw [Rect.top, Rect.bottom]
        omega
      show ¬ r.bottom < s.«by»
      omega
    rw [createLoop, placements]
    dsimp only
    rw [if_neg hbottom]
    by_cases hright : r.width.toNat > left
    · rw [if_pos hright, if_pos hright]
      have hadd := s.withBoxes_add boxes (r.x.toInt + left) r.top
        (if width < r.width.toNat - left then width else r.width.toNat - left) r.height.toNat
      dsimp only at hadd
      rw [hadd]
      by_cases hlast : width - (r.width.toNat - left) ≤ 0
      · rw [if_pos hlast, if_pos hlast]
        rfl
      · rw [if_neg hlast, if_neg hlast, ih (i + 1) _ _ _ htop, List.map_cons, List.append_assoc]
        rfl
    · rw [if_neg hright, if_neg hright]
      exact ih _ _ _ _ htop

/-! ## What they cover -/

/-- The widths of monitors together. -/
def totalWidth (rs : List Rect) : Int := (rs.map fun r => (r.width.toNat : Int)).sum

/-- Intervals, each with its start and its width, follow one another from `a` to `b`. -/
def Tiles : Int → Int → List (Int × Int) → Prop
  | a, b, [] => a = b
  | a, b, (start, width) :: l => start = a ∧ 0 < width ∧ Tiles (start + width) b l

/-- Their widths add up to the distance. -/
theorem Tiles.sum {a b : Int} {l : List (Int × Int)} (h : Tiles a b l) :
    (l.map Prod.snd).sum = b - a := by
  induction l generalizing a with
  | nil =>
    obtain rfl : a = b := h
    exact (Int.sub_self a).symm
  | cons t l ih =>
    obtain ⟨rfl, -, hrest⟩ := h
    rw [List.map_cons, List.sum_cons, ih hrest]
    omega

namespace Placement

/-- Where a window begins, if the monitors are put side by side. -/
def start (rs : List Rect) (p : Placement) : Int :=
  totalWidth (rs.take p.index) + (p.box.x - p.rect.left)

/-- A window of positive width lies inside the monitor that it is on, horizontally. -/
structure Inside (rs : List Rect) (p : Placement) : Prop where
  rect : rs[p.index]? = some p.rect
  width : 0 < p.box.width
  left : p.rect.left ≤ p.box.x
  right : p.box.x + p.box.width ≤ p.rect.right

end Placement

theorem totalWidth_append (rs rs' : List Rect) :
    totalWidth (rs ++ rs') = totalWidth rs + totalWidth rs' := by
  rw [totalWidth, List.map_append, List.sum_append]
  rfl

theorem totalWidth_cons (r : Rect) (rs : List Rect) :
    totalWidth (r :: rs) = r.width.toNat + totalWidth rs := by
  rw [totalWidth, List.map_cons, List.sum_cons]
  rfl

/-- A window that begins behind the first `left` pixels of a monitor, and does not reach over it. -/
theorem Placement.inside_of_le (before rs : List Rect) (r : Rect) (top : Int) {left w : Int}
    (hleft : 0 ≤ left) (hpos : 0 < w) (hle : left + w ≤ r.width.toNat) :
    let p : Placement := ⟨before.length, r, ⟨r.left + left, top, w⟩⟩
    p.Inside (before ++ r :: rs) ∧ p.start (before ++ r :: rs) = totalWidth before + left := by
  intro p
  have hleft' : p.rect.left ≤ p.box.x := Int.le_add_of_nonneg_right hleft
  have hright : p.box.x + p.box.width ≤ p.rect.right := by
    have h : r.left + (left + w) ≤ r.left + r.width.toNat := Int.add_le_add_left hle r.left
    rwa [← Int.add_assoc] at h
  have hstart : p.box.x - p.rect.left = left := add_sub_cancel_left r.left left
  refine ⟨⟨by simp [p], hpos, hleft', hright⟩, ?_⟩
  rw [Placement.start, hstart, List.take_left' rfl]

/-- **The placements tile** what is left of the bar: the loop is behind the monitors `before`, and
`left` pixels in front of where it goes on. -/
theorem placements_tiles (y : Rect → Int) (rs : List Rect) :
    ∀ (before : List Rect) (left width : Int), 0 ≤ left → 0 < width →
      left + width ≤ totalWidth rs →
      (∀ p ∈ placements y before.length rs left width,
        p.Inside (before ++ rs) ∧ before.length ≤ p.index) ∧
      (placements y before.length rs left width).Pairwise (fun p q => p.index < q.index) ∧
      Tiles (totalWidth before + left) (totalWidth before + left + width)
        ((placements y before.length rs left width).map fun p =>
          (p.start (before ++ rs), p.box.width)) := by
  induction rs with
  | nil =>
    intro before left width hleft hwidth hle
    rw [totalWidth, List.map_nil, List.sum_nil] at hle
    omega
  | cons r rs ih =>
    intro before left width hleft hwidth hle
    rw [totalWidth_cons] at hle
    have hnext : before ++ r :: rs = (before ++ [r]) ++ rs := by simp
    have hlen : (before ++ [r]).length = before.length + 1 := by simp
    have hbefore : totalWidth (before ++ [r]) = totalWidth before + r.width.toNat := by
      rw [totalWidth_append, totalWidth_cons]
      exact congrArg _ (Int.add_zero _)
    rw [placements]
    dsimp only
    by_cases hright : r.width.toNat > left
    · rw [if_pos hright]
      obtain ⟨w, hw⟩ : ∃ w : Int,
          w = if width < r.width.toNat - left then width else r.width.toNat - left := ⟨_, rfl⟩
      rw [← hw]
      have hpos : 0 < w ∧ left + w ≤ r.width.toNat := by split_ifs at hw <;> omega
      obtain ⟨hinside, hstart⟩ := Placement.inside_of_le before rs r (y r) hleft hpos.1 hpos.2
      by_cases hlast : width - (r.width.toNat - left) ≤ 0
      · -- the window ends the bar
        rw [if_pos hlast]
        refine ⟨fun p hp => ?_, List.pairwise_singleton _ _, hstart, hpos.1, ?_⟩
        · obtain rfl := List.mem_singleton.mp hp
          exact ⟨hinside, le_rfl⟩
        · dsimp only
          rw [hstart]
          show totalWidth before + left + w = totalWidth before + left + width
          split_ifs at hw <;> omega
      · -- the bar goes on at the next monitor
        rw [if_neg hlast, if_pos (by omega), ← hlen]
        obtain ⟨hrest, hpairwise, htiles⟩ := ih (before ++ [r]) 0
          (width - (r.width.toNat - left)) le_rfl (by omega) (by omega)
        rw [← hnext] at hrest htiles
        refine ⟨fun p hp => ?_, List.pairwise_cons.mpr ⟨fun p hp => ?_, hpairwise⟩, ?_⟩
        · rcases List.mem_cons.mp hp with rfl | hp
          · exact ⟨hinside, le_rfl⟩
          · obtain ⟨hp, hindex⟩ := hrest p hp
            exact ⟨hp, by omega⟩
        · have hindex := (hrest p hp).2
          show before.length < p.index
          omega
        · refine ⟨hstart, hpos.1, ?_⟩
          have hw' : w = r.width.toNat - left := by split_ifs at hw <;> omega
          have hto : totalWidth before + r.width.toNat + 0 + (width - (r.width.toNat - left)) =
              totalWidth before + left + width := by omega
          have hfrom : totalWidth before + r.width.toNat + 0 = totalWidth before + left + w := by
            omega
          rw [hbefore, hto, hfrom] at htiles
          rw [hstart]
          exact htiles
    · -- the monitor is fully left of the bar
      rw [if_neg hright, if_neg (by omega), hnext, ← hlen]
      obtain ⟨hinside, hpairwise, htiles⟩ :=
        ih (before ++ [r]) (left - r.width.toNat) width (by omega) hwidth (by omega)
      refine ⟨fun p hp => ?_, hpairwise, ?_⟩
      · obtain ⟨hp, hindex⟩ := hinside p hp
        exact ⟨hp, by omega⟩
      · have hfrom : totalWidth before + r.width.toNat + (left - r.width.toNat) =
            totalWidth before + left := by omega
        rw [hbefore, hfrom] at htiles
        exact htiles

/-! ## The chain -/

namespace BarSetup

/-- The monitors that are visited from a pointer on, in at most `n` steps. -/
def follow (s : BarSetup) : Nat → Option Nat → List Nat
  | 0, _ => []
  | _ + 1, none => []
  | n + 1, some p =>
    match s.heap[p]? with
    | none => []
    | some m => p :: follow s n m.next

/-- `p->next` is `q`. -/
def NextIs (s : BarSetup) (p q : Nat) : Prop := ∃ m, s.heap[p]? = some m ∧ m.next = some q

/-- `q->prev` is `p`. -/
def PrevIs (s : BarSetup) (q p : Nat) : Prop := ∃ m, s.heap[q]? = some m ∧ m.prev = some p

theorem chainOf_getElem? (boxes : List Box) (k : Nat) :
    (chainOf boxes)[k]? = boxes[k]?.map fun b =>
      { toBox := b
        prev := if k = 0 then none else some (k - 1)
        next := if k + 1 < boxes.length then some (k + 1) else none } := by
  rw [chainOf, List.getElem?_mapIdx]

theorem follow_withBoxes (s : BarSetup) (boxes : List Box) (n : Nat) : ∀ k, k < boxes.length →
    boxes.length - k ≤ n →
    (s.withBoxes boxes).follow n (some k) = List.range' k (boxes.length - k) := by
  induction n with
  | zero => exact fun k hk hn => absurd hn (by omega)
  | succ n ih =>
    intro k hk hn
    have hnode : (s.withBoxes boxes).heap[k]? = some
        { toBox := boxes[k]
          prev := if k = 0 then none else some (k - 1)
          next := if k + 1 < boxes.length then some (k + 1) else none } := by
      show (chainOf boxes)[k]? = _
      rw [chainOf_getElem?, List.getElem?_eq_getElem hk]
      rfl
    have hlen : boxes.length - k = boxes.length - (k + 1) + 1 := by omega
    rw [follow, hnode, hlen, List.range'_succ]
    dsimp only
    by_cases hnext : k + 1 < boxes.length
    · rw [if_pos hnext, ih (k + 1) hnext (by omega)]
    · rw [if_neg hnext, show boxes.length - (k + 1) = 0 by omega]
      cases n with
      | zero => rfl
      | succ n => rfl

/-- Every monitor is visited once, in the order of creation. -/
theorem follow_monhead (s : BarSetup) (boxes : List Box) {n : Nat} (hn : boxes.length ≤ n) :
    (s.withBoxes boxes).follow n (s.withBoxes boxes).monhead = List.range boxes.length := by
  show follow _ n (if boxes.length = 0 then none else some 0) = _
  by_cases hzero : boxes.length = 0
  · rw [if_pos hzero, hzero]
    cases n with
    | zero => rfl
    | succ n => rfl
  · rw [if_neg hzero, follow_withBoxes s boxes n 0 (by omega) (by omega), List.range_eq_range']
    rfl

/-- `prev` is the inverse of `next`. -/
theorem nextIs_iff_prevIs (s : BarSetup) (boxes : List Box) (p q : Nat) :
    (s.withBoxes boxes).NextIs p q ↔ (s.withBoxes boxes).PrevIs q p := by
  have hnode (k : Nat) : (s.withBoxes boxes).heap[k]? = _ := chainOf_getElem? boxes k
  rw [NextIs, PrevIs]
  rw [hnode, hnode]
  refine ⟨?_, ?_⟩
  · rintro ⟨m, hm, hnext⟩
    obtain ⟨b, hb, rfl⟩ := Option.map_eq_some_iff.mp hm
    dsimp only at hnext
    split_ifs at hnext with hlt
    obtain rfl := Option.some.inj hnext
    refine ⟨_, by rw [List.getElem?_eq_getElem hlt, Option.map_some], ?_⟩
    dsimp only
    rw [if_neg (Nat.succ_ne_zero p), Nat.add_sub_cancel]
  · rintro ⟨m, hm, hprev⟩
    obtain ⟨b, hb, rfl⟩ := Option.map_eq_some_iff.mp hm
    dsimp only at hprev
    split_ifs at hprev with hzero
    obtain ⟨hq, -⟩ := List.getElem?_eq_some_iff.mp hb
    obtain rfl := Option.some.inj hprev
    have hlt : q - 1 < boxes.length := by omega
    refine ⟨_, by rw [List.getElem?_eq_getElem hlt, Option.map_some], ?_⟩
    dsimp only
    rw [if_pos (by omega), Nat.sub_add_cancel (Nat.pos_of_ne_zero hzero)]

/-- No monitor is created yet. -/
structure Fresh (s : BarSetup) : Prop where
  heap : s.heap = []
  windows : s.windows = []
  monhead : s.monhead = none
  montail : s.montail = none

theorem Fresh.eq_withBoxes {s : BarSetup} (h : s.Fresh) : s = s.withBoxes [] := by
  obtain ⟨hheap, hwindows, hhead, htail⟩ := h
  cases s
  cases hheap
  cases hwindows
  cases hhead
  cases htail
  rfl

theorem screenSize_width (rs : List Rect) : (screenSize rs).1 = totalWidth rs := by
  have hfold (size : Int × Int) : (rs.foldl (fun (size : Int × Int) r =>
      (size.1 + r.width.toNat, if r.bottom ≥ size.2 then r.bottom else size.2)) size).1 =
        size.1 + totalWidth rs := by
    induction rs generalizing size with
    | nil => exact (Int.add_zero _).symm
    | cons r rs ih =>
      rw [List.foldl_cons, ih, totalWidth_cons]
      dsimp only
      omega
  exact (hfold (0, 0)).trans (Int.zero_add _)

/-- The windows are created for a bar that fits, if they are created. -/
theorem monitorCreateChain_some {qsort : QSort} {s s' : BarSetup} {rects rs : List Rect} {bw : Int}
    (hsort : qsort rectSortCb rects = rs)
    (hbw : bw = if s.bw < 0 then totalWidth rs - s.bx else s.bw)
    (h : s.monitorCreateChain qsort rects = some s') :
    ∃ bh, s.bx + bw ≤ totalWidth rs ∧ { s with bw, bh }.createLoop rs s.bx bw = s' := by
  have hwidth := screenSize_width rs
  rw [monitorCreateChain, hsort] at h
  cases hsize : screenSize rs with
  | mk width height =>
    obtain rfl : width = totalWidth rs := by rw [← hwidth, hsize]
    rw [hsize] at h
    dsimp only at h
    rw [← hbw] at h
    generalize (if s.bh < 0 ∨ s.bh > height then s.fontHeight + s.bu + 2 else s.bh) = bh at h
    split_ifs at h with hfit
    exact ⟨bh, by omega, Option.some.inj h⟩

/-- A request for a window has its width, and its position if 16 bits hold it. -/
theorem request_of_inside {rs : List Rect} {p : Placement} (h : p.Inside rs) (bh : Int) :
    ((request bh p.box).width.toNat : Int) = p.box.width ∧
      (p.box.x < 2 ^ 15 → (request bh p.box).x.toInt = p.box.x) := by
  have hwidth := h.width
  have hleft := h.left
  have hright := h.right
  have hmax := p.rect.width.toNat_lt
  have hmin := p.rect.x.le_toInt
  rw [Rect.left] at hleft
  rw [Rect.right] at hright
  refine ⟨?_, ?_⟩
  · show ((UInt16.ofInt p.box.width).toNat : Int) = p.box.width
    rw [UInt16.ofInt, UInt16.toNat_ofNat']
    omega
  · intro hx
    exact Int16.toInt_ofInt_of_le (by omega) hx

/-- **The windows tile the bar**: they are as wide together, each of them lies inside the monitor
that it is on, and they are linked in the order of their creation. All of this is about the
`monitor_t`s. What X is asked for has the same width; its position is an `int16_t`, and is that of
the `monitor_t` as long as this is less than 2^15: nothing is said of the position in the request
for a window that begins further right. -/
theorem monitorCreateChain_tiles {qsort : QSort} {s s' : BarSetup} {rects rs : List Rect}
    (hfresh : s.Fresh) (hby : s.«by» = 0) (hsort : qsort rectSortCb rects = rs)
    (htop : ∀ r ∈ rs, 0 ≤ r.top) (hbx : 0 ≤ s.bx ∧ s.bx < totalWidth rs)
    (hbw : s.bw < 0 ∨ 0 < s.bw) (h : s.monitorCreateChain qsort rects = some s') :
    s'.bw = (if s.bw < 0 then totalWidth rs - s.bx else s.bw) ∧
      (s'.heap.map fun m => m.width).sum = s'.bw ∧
      (∃ ps : List Placement,
        s'.heap.map Monitor.toBox = ps.map Placement.box ∧
        s'.windows = ps.map (fun p => request s'.bh p.box) ∧
        (∀ p ∈ ps, p.Inside rs ∧ ((request s'.bh p.box).width.toNat : Int) = p.box.width ∧
          (p.box.x < 2 ^ 15 → (request s'.bh p.box).x.toInt = p.box.x)) ∧
        ps.Pairwise (fun p q => p.index < q.index) ∧
        Tiles s.bx (s.bx + s'.bw) (ps.map fun p => (p.start rs, p.box.width))) ∧
      (∀ n, s'.heap.length ≤ n → s'.follow n s'.monhead = List.range s'.heap.length) ∧
      ∀ p q, s'.NextIs p q ↔ s'.PrevIs q p := by
  obtain ⟨bw, hbw'⟩ : ∃ bw, bw = if s.bw < 0 then totalWidth rs - s.bx else s.bw := ⟨_, rfl⟩
  obtain ⟨bh, hfit, rfl⟩ := monitorCreateChain_some hsort hbw' h
  have hpos : 0 < bw := by split_ifs at hbw' <;> omega
  have hstart : { s with bw, bh } = BarSetup.withBoxes { s with bw, bh } [] :=
    Fresh.eq_withBoxes ⟨hfresh.heap, hfresh.windows, hfresh.monhead, hfresh.montail⟩
  generalize hs : { s with bw, bh } = t at hstart
  have hps := placements_tiles t.windowY rs [] s.bx bw hbx.1 hpos (by omega)
  rw [hstart, createLoop_eq (by rw [← hs]; exact hby) rs 0 s.bx bw [] htop, List.nil_append]
  rw [List.length_nil, List.nil_append, totalWidth, List.map_nil, List.sum_nil, Int.zero_add] at hps
  generalize placements t.windowY 0 rs s.bx bw = ps at hps ⊢
  obtain ⟨hinside, hpairwise, htiles⟩ := hps
  have hboxes : (t.withBoxes (ps.map Placement.box)).heap.map Monitor.toBox =
      ps.map Placement.box := chainOf_boxes _
  have hlen : (t.withBoxes (ps.map Placement.box)).heap.length = (ps.map Placement.box).length :=
    chainOf_length _
  obtain rfl : t.bw = bw := by rw [← hs]
  refine ⟨hbw', ?_, ⟨ps, hboxes, List.map_map, fun p hp => ?_, hpairwise, htiles⟩, fun n hn => ?_,
    nextIs_iff_prevIs t _⟩
  · have hsum := htiles.sum
    rw [List.map_map] at hsum
    have hwidths := congrArg (List.map Box.width) hboxes
    rw [List.map_map, List.map_map] at hwidths
    calc (List.map (fun m : Monitor => m.width) _).sum = s.bx + t.bw - s.bx :=
          (congrArg List.sum hwidths).trans hsum
      _ = t.bw := by omega
  · exact ⟨(hinside p hp).1, request_of_inside (hinside p hp).1 _⟩
  · rw [hlen] at hn ⊢
    exact follow_monhead t _ hn

/-- Two monitors beside each other. -/
def twoMonitors : List Rect := [⟨0, 0, 1920, 1080⟩, ⟨1920, 200, 1280, 1024⟩]

/-- A bar that begins on the first one and ends on the second one. -/
def onTwoMonitors : BarSetup := { bx := 1000, bw := 1500, bh := 20, fontHeight := 16 }

theorem monitorCreateChain_twoMonitors :
    ∃ s', onTwoMonitors.monitorCreateChain Sorting.sortBy twoMonitors = some s' ∧
      (s'.heap.map fun m => m.width).sum = 1500 ∧ s'.follow 2 s'.monhead = [0, 1] := by
  have hsort : Sorting.sortBy rectSortCb twoMonitors = twoMonitors :=
    List.mergeSort_of_pairwise (by decide)
  have hchain : onTwoMonitors.monitorCreateChain Sorting.sortBy twoMonitors =
      some (onTwoMonitors.withBoxes [⟨1000, 0, 920⟩, ⟨1920, 200, 580⟩]) := by
    rw [monitorCreateChain, hsort]
    rfl
  obtain ⟨-, hsum, -, hfollow, -⟩ := monitorCreateChain_tiles ⟨rfl, rfl, rfl, rfl⟩ rfl hsort
    (by decide) (by decide) (.inr (by decide)) hchain
  exact ⟨_, hchain, hsum, hfollow 2 (by decide)⟩

end BarSetup

end Photonbar
