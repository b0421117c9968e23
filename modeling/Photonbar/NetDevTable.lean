import Photonbar.NetDevParse

/-!
# `/proc/net/dev` as the kernel writes it (`ping.h`)

A table has two headers and a line for each interface. Its structure carries what the parser relies
on: a header has no newline and no NUL, a name no colon besides, and there are nine columns at
least, with spaces between them. The parser is then right about every table that fits into its
buffer (`getNetworkIo_table`).

The pointer is in front of a column, of the rest of the line or of the next line at each point
(`readNumber_columns`, `nextLine_append`, `lineOf_bytes`), so that the proof follows the text from
left to right. Numbers are read modulo 2^64 and added up modulo 2^64, and so the sums are those of
the table, modulo 2^64 as well. A name may begin like `lo`, and may have digits in it: it is passed
over up to its colon.
-/

namespace Photonbar

namespace NetDev

open Scan

/-- A decimal column. -/
structure Column where
  digits : Bytes
  ne_nil : digits ≠ []
  isdigit : ∀ c ∈ digits, isdigit c = true

namespace Column

/-- Its number. -/
def value (c : Column) : Nat := c.digits.foldl (fun v d => v * 10 + (d.toNat - 48)) 0

end Column

/-- The line of an interface. -/
structure Interface where
  /-- the number of spaces in front of the name -/
  padding : Nat
  name : Bytes
  /-- the columns, each with the number of spaces in front of it -/
  columns : List (Nat × Column)
  /-- the number of spaces behind the last column -/
  trailing : Nat
  name_text : ∀ c ∈ name, c ≠ 0 ∧ c ≠ 10 ∧ c ≠ 58
  /-- the spaces in front of the name are the padding -/
  name_head : name.head? ≠ some 32
  nine : 9 ≤ columns.length
  separated : ∀ x ∈ columns.tail, 0 < x.1

/-- `/proc/net/dev`. -/
structure Table where
  header₁ : Bytes
  header₂ : Bytes
  interfaces : List Interface
  header₁_text : ∀ c ∈ header₁, c ≠ 0 ∧ c ≠ 10
  header₂_text : ∀ c ∈ header₂, c ≠ 0 ∧ c ≠ 10

/-- Columns with the spaces in front of them. -/
def columnBytes (cs : List (Nat × Column)) : Bytes :=
  cs.flatMap fun x => List.replicate x.1 32 ++ x.2.digits

namespace Interface

/-- What follows the columns. -/
def ending (i : Interface) : Bytes := List.replicate i.trailing 32 ++ [10]

/-- The line from the name on. -/
def fromName (i : Interface) : Bytes := i.name ++ 58 :: (columnBytes i.columns ++ i.ending)

/-- The line. -/
def bytes (i : Interface) : Bytes := List.replicate i.padding 32 ++ i.fromName

/-- Its column number `k`, from 0. -/
def column (i : Interface) (k : Nat) (hk : k < 9) : Column :=
  (i.columns.get ⟨k, hk.trans_le i.nine⟩).2

/-- The first column. -/
def recv (i : Interface) : Nat := (i.column 0 (by decide)).value

/-- The ninth column. -/
def sent (i : Interface) : Nat := (i.column 8 (by decide)).value

/-- The loopback interface. -/
def IsLoopback (i : Interface) : Prop := i.name = [108, 111]

instance (i : Interface) : Decidable i.IsLoopback := inferInstanceAs (Decidable (i.name = _))

end Interface

namespace Table

/-- The interfaces that are counted. -/
def counted (t : Table) : List Interface := t.interfaces.filter fun i => ¬ i.IsLoopback

/-- The text. -/
def bytes (t : Table) : Bytes :=
  t.header₁ ++ 10 :: (t.header₂ ++ 10 :: t.interfaces.flatMap Interface.bytes)

end Table

/-! ## Columns -/

section

variable {cs : List (Nat × Column)} {tail : Bytes}

theorem appendDigits_eq (ds : Bytes) (hds : ∀ c ∈ ds, isdigit c = true) (v : Nat) :
    appendDigits (UInt64.ofNat v) ds =
      UInt64.ofNat (ds.foldl (fun v d => v * 10 + (d.toNat - 48)) v) := by
  induction ds generalizing v with
  | nil => rfl
  | cons d ds ih =>
    obtain ⟨hd, hds⟩ := List.forall_mem_cons.mp hds
    have hd : 48 ≤ d := (of_decide_eq_true hd).1
    have hdigit : (d - 48).toUInt64 = UInt64.ofNat (d.toNat - 48) := by
      apply UInt64.toNat_inj.mp
      rw [UInt8.toNat_toUInt64, UInt8.toNat_sub_of_le _ _ hd, UInt64.toNat_ofNat_of_lt']
      · rfl
      · exact (Nat.sub_le _ _).trans_lt (d.toNat_lt.trans (by decide))
    have hstep : UInt64.ofNat v * 10 + (d - 48).toUInt64 =
        UInt64.ofNat (v * 10 + (d.toNat - 48)) := by
      rw [hdigit, UInt64.ofNat_add, UInt64.ofNat_mul]
      rfl
    rw [List.foldl_cons, ← ih hds, ← hstep]
    rfl

/-- The columns that are left begin with a space. -/
theorem head_columnBytes (hcs : ∀ x ∈ cs, 0 < x.1) (htail : isdigit (tail.head?.getD 0) = false) :
    isdigit ((columnBytes cs ++ tail).head?.getD 0) = false := by
  cases cs with
  | nil => exact htail
  | cons x cs =>
    obtain ⟨k, hk⟩ := Nat.exists_eq_succ_of_ne_zero (hcs x List.mem_cons_self).ne'
    simp only [columnBytes, List.flatMap_cons, hk, List.replicate_succ, List.cons_append]
    rfl

theorem columnBytes_cons (x : Nat × Column) (cs : List (Nat × Column)) (tail : Bytes) :
    columnBytes (x :: cs) ++ tail =
      List.replicate x.1 32 ++ (x.2.digits ++ (columnBytes cs ++ tail)) := by
  rw [columnBytes, List.flatMap_cons, List.append_assoc, List.append_assoc]
  rfl

/-- A number begins at its first digit. -/
theorem head_digits (c : Column) (rest : Bytes) : isdigit ((c.digits ++ rest).head?.getD 0) = true := by
  obtain ⟨d, ds, hds⟩ := List.exists_cons_of_ne_nil c.ne_nil
  rw [hds]
  exact c.isdigit d (by rw [hds]; exact List.mem_cons_self)

/-- **A number** that is read in front of a column is that of the column. -/
theorem readNumber_columns {x : Nat × Column} (hcs : ∀ x ∈ cs, 0 < x.1)
    (htail : isdigit (tail.head?.getD 0) = false) :
    readNumber (columnBytes (x :: cs) ++ tail) =
      (UInt64.ofNat x.2.value, columnBytes cs ++ tail) := by
  have hdigit : toDigit (columnBytes (x :: cs) ++ tail) =
      x.2.digits ++ (columnBytes cs ++ tail) := by
    rw [columnBytes_cons]
    apply dropWhile_append
    · intro c hc
      rw [List.eq_of_mem_replicate hc]
      rfl
    · have hhead := head_digits x.2 (columnBytes cs ++ tail)
      generalize (x.2.digits ++ (columnBytes cs ++ tail)).head?.getD 0 = d at hhead ⊢
      obtain ⟨h₁, h₂⟩ := of_decide_eq_true hhead
      simpa using fun _ => ⟨h₁, h₂⟩
  have hhead := head_columnBytes hcs htail
  rw [readNumber, hdigit, takeWhile_append x.2.isdigit hhead, dropWhile_append x.2.isdigit hhead]
  exact congrArg (·, _) (appendDigits_eq _ x.2.isdigit 0)

theorem afterNumbers_columns (k : Nat) : ∀ {cs : List (Nat × Column)}, k ≤ cs.length →
    (∀ x ∈ cs.tail, 0 < x.1) → isdigit (tail.head?.getD 0) = false →
    afterNumbers k (columnBytes cs ++ tail) = columnBytes (cs.drop k) ++ tail := by
  induction k with
  | zero => exact fun _ _ _ => rfl
  | succ k ih =>
    intro cs hk hcs htail
    cases cs with
    | nil => cases hk
    | cons x cs =>
      have hcs : ∀ y ∈ cs, 0 < y.1 := hcs
      rw [afterNumbers, readNumber_columns hcs htail, List.drop_succ_cons]
      exact ih (Nat.le_of_succ_le_succ hk) (fun y hy => hcs y (List.mem_of_mem_tail hy)) htail

/-! ## Lines -/

/-- What follows a line that has a newline behind it. -/
theorem nextLine_append {l : Bytes} (hl : ∀ c ∈ l, c ≠ 0 ∧ c ≠ 10) (rest : Bytes) :
    nextLine (l ++ 10 :: rest) = rest := by
  rw [nextLine, dropWhile_append (fun c hc => by simp [hl c hc]) rfl]
  rfl

/-- What a line consists of besides its name. -/
theorem columnBytes_text (cs : List (Nat × Column)) : ∀ c ∈ columnBytes cs, c ≠ 0 ∧ c ≠ 10 := by
  intro c hc
  obtain ⟨x, -, hc⟩ := List.mem_flatMap.mp hc
  rcases List.mem_append.mp hc with hc | hc
  · rw [List.eq_of_mem_replicate hc]
    decide
  · obtain ⟨hle, -⟩ := of_decide_eq_true (x.2.isdigit c hc)
    refine ⟨?_, ?_⟩
    · rintro rfl
      exact absurd hle (by decide)
    · rintro rfl
      exact absurd hle (by decide)

end

namespace Interface

variable (i : Interface) (rest : Bytes)

theorem ending_text : ∀ c ∈ List.replicate i.trailing (32 : UInt8), c ≠ 0 ∧ c ≠ 10 := by
  intro c hc
  rw [List.eq_of_mem_replicate hc]
  decide

theorem isdigit_ending : isdigit ((i.ending ++ rest).head?.getD 0) = false := by
  rw [ending]
  cases i.trailing with
  | zero => rfl
  | succ k => rfl

theorem nextLine_columns (cs : List (Nat × Column)) :
    nextLine (columnBytes cs ++ (i.ending ++ rest)) = rest := by
  have htext : columnBytes cs ++ (i.ending ++ rest) =
      (columnBytes cs ++ List.replicate i.trailing 32) ++ 10 :: rest := by
    simp [ending]
  rw [htext]
  apply nextLine_append
  intro c hc
  rcases List.mem_append.mp hc with hc | hc
  · exact columnBytes_text cs c hc
  · exact i.ending_text c hc

theorem nextLine_fromName : nextLine (i.fromName ++ rest) = rest := by
  have htext : i.fromName ++ rest =
      (i.name ++ 58 :: (columnBytes i.columns ++ List.replicate i.trailing 32)) ++ 10 :: rest := by
    simp [fromName, ending]
  rw [htext]
  apply nextLine_append
  intro c hc
  rcases List.mem_append.mp hc with hc | hc
  · exact ⟨(i.name_text c hc).1, (i.name_text c hc).2.1⟩
  rcases List.mem_cons.mp hc with rfl | hc
  · decide
  rcases List.mem_append.mp hc with hc | hc
  · exact columnBytes_text _ c hc
  · exact i.ending_text c hc

theorem fromName_append :
    i.fromName ++ rest = i.name ++ 58 :: (columnBytes i.columns ++ (i.ending ++ rest)) := by
  simp [fromName]

theorem afterName_fromName :
    afterName (i.fromName ++ rest) = columnBytes i.columns ++ (i.ending ++ rest) := by
  rw [fromName_append, afterName, dropWhile_append _ rfl]
  · rfl
  · intro c hc
    simp [i.name_text c hc]

/-- The line is that of the loopback interface if and only if the text begins so. -/
theorem isPrefixOf_fromName : [108, 111, 58].isPrefixOf (i.fromName ++ rest) ↔ i.IsLoopback := by
  have hname := i.name_text
  rw [fromName_append, IsLoopback]
  match i.name, hname with
  | [], _ => simp
  | [a], _ => simp
  | [a, b], _ => simp [@eq_comm _ a, @eq_comm _ b]
  | a :: b :: c :: l, hname =>
    have hc : (58 : UInt8) ≠ c := fun h => (hname c (by simp)).2.2 h.symm
    simp [hc]

theorem separated_drop (k : Nat) : ∀ x ∈ i.columns.drop (k + 1), 0 < x.1 := by
  intro x hx
  rw [← List.drop_tail] at hx
  exact i.separated x (List.mem_of_mem_drop hx)

theorem readNumber_column (k : Nat) (hk : k < 9) :
    readNumber (columnBytes (i.columns.drop k) ++ (i.ending ++ rest)) =
      (UInt64.ofNat (i.column k hk).value,
        columnBytes (i.columns.drop (k + 1)) ++ (i.ending ++ rest)) := by
  rw [List.drop_eq_getElem_cons (hk.trans_le i.nine)]
  exact readNumber_columns (i.separated_drop k) (i.isdigit_ending rest)

theorem column₁_fromName : column₁ (i.fromName ++ rest) =
    (UInt64.ofNat i.recv, columnBytes (i.columns.drop 1) ++ (i.ending ++ rest)) := by
  rw [column₁, afterName_fromName]
  exact i.readNumber_column rest 0 (by decide)

theorem column₉_fromName : column₉ (i.fromName ++ rest) =
    (UInt64.ofNat i.sent, columnBytes (i.columns.drop 9) ++ (i.ending ++ rest)) := by
  have hlen : 7 ≤ (i.columns.drop 1).length := by
    have := i.nine
    rw [List.length_drop]
    omega
  have hsep : ∀ x ∈ (i.columns.drop 1).tail, 0 < x.1 := by
    rw [List.tail_drop]
    exact i.separated_drop 1
  rw [column₉, column₁_fromName, afterNumbers_columns 7 hlen hsep (i.isdigit_ending rest),
    List.drop_drop]
  exact i.readNumber_column rest 8 (by decide)

theorem fromName_ne_nil : i.fromName ++ rest ≠ [] := by
  simp [fromName]

theorem bytes_append : i.bytes ++ rest = List.replicate i.padding 32 ++ (i.fromName ++ rest) := by
  rw [bytes, List.append_assoc]

theorem head_fromName : (i.fromName ++ rest).head?.getD 0 ≠ 32 := by
  have hhead := i.name_head
  rw [fromName_append]
  cases hname : i.name with
  | nil => exact nofun
  | cons c name =>
    rw [hname] at hhead
    exact fun h => hhead (congrArg some h)

theorem nameLine_fromName : nameLine (i.fromName ++ rest) =
    if i.IsLoopback then ⟨true, rest, 0, 0⟩
    else ⟨true, rest, UInt64.ofNat i.sent, UInt64.ofNat i.recv⟩ := by
  rw [nameLine, if_neg (i.fromName_ne_nil rest)]
  by_cases hlo : i.IsLoopback
  · rw [if_pos ((i.isPrefixOf_fromName rest).mpr hlo), if_pos hlo, nextLine_fromName]
  · rw [if_neg (mt (i.isPrefixOf_fromName rest).mp hlo), if_neg hlo, column₉_fromName,
      column₁_fromName]
    dsimp only
    rw [nextLine_columns]

/-- **One iteration** on a line. -/
theorem lineOf_bytes : lineOf (i.bytes ++ rest) =
    if i.IsLoopback then ⟨true, rest, 0, 0⟩
    else ⟨true, rest, UInt64.ofNat i.sent, UInt64.ofNat i.recv⟩ := by
  rw [lineOf, bytes_append, dropWhile_append, nameLine_fromName]
  · intro c hc
    exact decide_eq_true (List.eq_of_mem_replicate hc)
  · exact decide_eq_false (i.head_fromName rest)

theorem bytes_ne_nil : i.bytes ++ rest ≠ [] := by
  rw [bytes_append]
  exact List.append_ne_nil_of_right_ne_nil _ (i.fromName_ne_nil rest)

theorem bytes_text : ∀ c ∈ i.bytes, c ≠ 0 := by
  intro c hc
  rcases List.mem_append.mp hc with hc | hc
  · rw [List.eq_of_mem_replicate hc]
    decide
  rcases List.mem_append.mp hc with hc | hc
  · exact (i.name_text c hc).1
  rcases List.mem_cons.mp hc with rfl | hc
  · decide
  rcases List.mem_append.mp hc with hc | hc
  · exact (columnBytes_text _ c hc).1
  rcases List.mem_append.mp hc with hc | hc
  · exact (i.ending_text c hc).1
  · rw [List.eq_of_mem_singleton hc]
    decide

end Interface

/-! ## Tables -/

/-- **The sums** over the interfaces that are counted. -/
theorem totals_interfaces (is : List Interface) : ∀ s r : Nat,
    totals (is.flatMap Interface.bytes) (UInt64.ofNat s) (UInt64.ofNat r) =
      (UInt64.ofNat (s + ((is.filter fun i => ¬ i.IsLoopback).map Interface.sent).sum),
        UInt64.ofNat (r + ((is.filter fun i => ¬ i.IsLoopback).map Interface.recv).sum)) := by
  induction is with
  | nil => exact fun s r => totals_nil _ _
  | cons i is ih =>
    intro s r
    rw [List.flatMap_cons, totals_of_ne_nil (i.bytes_ne_nil _), i.lineOf_bytes]
    by_cases hlo : i.IsLoopback
    · rw [if_pos hlo, List.filter_cons_of_neg (by simp [hlo])]
      dsimp only
      rw [UInt64.add_zero, UInt64.add_zero]
      exact ih s r
    · rw [if_neg hlo, List.filter_cons_of_pos (by simp [hlo])]
      dsimp only
      rw [← UInt64.ofNat_add, ← UInt64.ofNat_add, ih, List.map_cons, List.map_cons, List.sum_cons,
        List.sum_cons, Nat.add_assoc, Nat.add_assoc]

namespace Table

variable (t : Table)

theorem bytes_text : ∀ c ∈ t.bytes, c ≠ 0 := by
  intro c hc
  rcases List.mem_append.mp hc with hc | hc
  · exact (t.header₁_text c hc).1
  rcases List.mem_cons.mp hc with rfl | hc
  · decide
  rcases List.mem_append.mp hc with hc | hc
  · exact (t.header₂_text c hc).1
  rcases List.mem_cons.mp hc with rfl | hc
  · decide
  obtain ⟨i, -, hc⟩ := List.mem_flatMap.mp hc
  exact i.bytes_text c hc

theorem afterLines_bytes : afterLines 2 t.bytes = t.interfaces.flatMap Interface.bytes := by
  rw [bytes, afterLines, nextLine_append t.header₁_text, afterLines,
    nextLine_append t.header₂_text]
  rfl

theorem textOf_bytes : textOf t.bytes = t.bytes := by
  rw [textOf, List.takeWhile_eq_self_iff]
  exact fun c hc => decide_eq_true (t.bytes_text c hc)

theorem bytes_ne_nil : t.bytes ≠ [] := by
  simp [bytes]

theorem io_bytes {netDevFd : Int} {calls : Calls} (hfd : 0 ≤ netDevFd) (hseek : 0 ≤ calls.seek)
    (hread : calls.read = some t.bytes) (hlen : t.bytes.length ≤ 4095) :
    io netDevFd calls = .counters (UInt64.ofNat (t.counted.map Interface.sent).sum)
      (UInt64.ofNat (t.counted.map Interface.recv).sum) := by
  have htake : calls.read.map (List.take (BUF_SIZE - 1)) = some t.bytes := by
    rw [hread, Option.map_some]
    exact congrArg some (List.take_of_length_le hlen)
  have htotals := totals_interfaces t.interfaces 0 0
  rw [Nat.zero_add, Nat.zero_add] at htotals
  rw [io, if_neg (by omega), if_neg (by omega), htake]
  cases hbytes : t.bytes with
  | nil => exact absurd hbytes t.bytes_ne_nil
  | cons c rest =>
    show NetIo.counters (totals (afterLines 2 (textOf (c :: rest))) 0 0).1
      (totals (afterLines 2 (textOf (c :: rest))) 0 0).2 = _
    rw [← hbytes, textOf_bytes, afterLines_bytes]
    exact congrArg (fun s : UInt64 × UInt64 => NetIo.counters s.1 s.2) htotals

/-- **The function is right about every table**: `recv` is the sum of the first column and `sent`
that of the ninth, over the interfaces that are not the loopback interface. -/
theorem getNetworkIo_table {netDevFd : Int} {calls : Calls} (hfd : 0 ≤ netDevFd)
    (hseek : 0 ≤ calls.seek) (hread : calls.read = some t.bytes) (hlen : t.bytes.length ≤ 4095)
    (sent recv : UInt64) :
    getNetworkIo netDevFd calls sent recv =
      .ok (UInt64.ofNat (t.counted.map Interface.sent).sum,
        UInt64.ofNat (t.counted.map Interface.recv).sum) := by
  rw [getNetworkIo_eq, t.io_bytes hfd hseek hread hlen]
  rfl

end Table

/-- The columns 1, …, 1 and 2. -/
def plainColumns : List (Nat × Column) :=
  List.replicate 8 (1, ⟨[49], by decide, by simp [isdigit]⟩) ++
    [(2, ⟨[50], by decide, by simp [isdigit]⟩)]

/-- The loopback interface and another one, whose name begins like it. -/
def twoInterfaces : Table where
  header₁ := [124]
  header₂ := []
  interfaces :=
    [{ padding := 4, name := [108, 111], columns := plainColumns, trailing := 0
       name_text := by simp, name_head := by decide, nine := by decide, separated := by decide },
     { padding := 0, name := [108, 111, 49], columns := plainColumns, trailing := 1
       name_text := by simp, name_head := by decide, nine := by decide, separated := by decide }]
  header₁_text := by simp
  header₂_text := by simp

theorem getNetworkIo_twoInterfaces :
    getNetworkIo 3 ⟨0, some twoInterfaces.bytes⟩ 7 7 = .ok (2, 1) :=
  twoInterfaces.getNetworkIo_table (by decide) (by decide) rfl (by decide) 7 7

end NetDev

end Photonbar
