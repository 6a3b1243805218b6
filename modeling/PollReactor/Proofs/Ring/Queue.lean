import PollReactor.Proofs.Ring

namespace PollReactor

inductive QueueOp where
  | write (bs : Bytes)
  | read (n : Nat)
  | peek (n : Nat)
  | get (i : Nat)
  | peekUntil (delimiter : UInt8) (limit : Nat)
  | consume (n : Nat)
  | clear
  deriving DecidableEq, Repr

@[reducible]
def QueueOp.Answer : QueueOp → Type
  | write _ => Nat
  | read _ => Bytes
  | peek _ => Bytes
  | get _ => Option UInt8
  | peekUntil .. => Option Nat
  | consume _ => Unit
  | clear => Unit

namespace Ring

def perform (r : Ring) : (op : QueueOp) → op.Answer × Ring
  | .write bs => r.write bs
  | .read n => r.read n
  | .peek n => (r.peek n, r)
  | .get i => (r.get? i, r)
  | .peekUntil delimiter limit => (r.peekUntil delimiter limit, r)
  | .consume n => ((), r.consume n)
  | .clear => ((), r.clear)

def after (r : Ring) (ops : List QueueOp) : Ring :=
  ops.foldl (fun r op ↦ (r.perform op).2) r

end Ring

namespace Bytes

def perform (bound : Nat) (l : Bytes) : (op : QueueOp) → op.Answer × Bytes
  | .write bs =>
    let taken := bs.take (bound - l.length)
    (taken.length, l ++ taken)
  | .read n => (l.take n, l.drop n)
  | .peek n => (l.take n, l)
  | .get i => (l[i]?, l)
  | .peekUntil delimiter limit => ((l.take (min limit l.length)).findIdx? (· == delimiter), l)
  | .consume n => ((), l.drop n)
  | .clear => ((), [])

def after (bound : Nat) (l : Bytes) (ops : List QueueOp) : Bytes :=
  ops.foldl (fun l op ↦ (perform bound l op).2) l

end Bytes

/-- The state of a queue without its bounds. -/
structure Cells where
  data : Array UInt8
  head : Nat
  len : Nat

def Ring.cells (r : Ring) : Cells := ⟨r.data, r.head, r.len⟩

@[simp]
theorem Ring.cells_data (r : Ring) : r.cells.data = r.data := rfl

@[simp]
theorem Ring.cells_len (r : Ring) : r.cells.len = r.len := rfl

namespace Cells

def blank (n : Nat) : Cells := ⟨Array.replicate n 0, 0, 0⟩

def inRange (i j size : Nat) : Option Unit := if i ≤ j ∧ j ≤ size then some () else none

theorem inRange_eq {i j size : Nat} (hi : i ≤ j) (hj : j ≤ size) : inRange i j size = some () :=
  if_pos ⟨hi, hj⟩

variable (c : Cells)

def stretch? (i j : Nat) : Option Bytes := do
  inRange i j c.data.size
  return (c.data.extract i j).toList

theorem stretch?_eq {i j : Nat} (hi : i ≤ j) (hj : j ≤ c.data.size) :
    c.stretch? i j = some (c.data.extract i j).toList := by
  rw [stretch?, inRange_eq hi hj]
  rfl

/-- The buffered bytes in two stretches, the older one first. -/
def stretches? : Option (Bytes × Bytes) := do
  let stop := c.head + c.len
  if stop ≤ c.data.size then
    let first ← c.stretch? c.head stop
    return (first, [])
  else
    let first ← c.stretch? c.head c.data.size
    let second ← c.stretch? 0 (stop - c.data.size)
    return (first, second)

/-- The free places in two stretches, each from one place up to another, in the order in which they
are filled. -/
def vacancies? : Option ((Nat × Nat) × (Nat × Nat)) :=
  let tail := (c.head + c.len) % c.data.size
  if c.len = c.data.size then some ((0, 0), (0, 0))
  else if c.head ≤ tail then do
    inRange tail c.data.size c.data.size
    inRange 0 c.head tail
    return ((tail, c.data.size), (0, c.head))
  else do
    inRange tail c.head c.data.size
    return ((tail, c.head), (0, 0))

def write? (bs : Bytes) : Option (Nat × Cells) := do
  let n := min bs.length (c.data.size - c.len)
  let (first, second) ← c.vacancies?
  let split := min n (first.2 - first.1)
  inRange 0 split bs.length
  inRange 0 split (first.2 - first.1)
  inRange split n bs.length
  inRange 0 (n - split) (second.2 - second.1)
  let data := blit (blit c.data first.1 (bs.take split)) second.1 ((bs.take n).drop split)
  return (n, { c with data, len := c.len + n })

def peek? (room : Nat) : Option Bytes := do
  let n := min room c.len
  let (first, second) ← c.stretches?
  let split := min n first.length
  inRange 0 split first.length
  inRange 0 split room
  inRange 0 (n - split) second.length
  inRange split n room
  return first.take split ++ second.take (n - split)

def consume (n : Nat) : Cells :=
  let n := min n c.len
  let head := (c.head + n) % c.data.size
  { c with head := if c.len - n = 0 then 0 else head, len := c.len - n }

def get? (i : Nat) : Option (Option UInt8) :=
  if c.len ≤ i then some none else (c.data[(c.head + i) % c.data.size]?).map some

def peekUntil? (delimiter : UInt8) (limit : Nat) : Option (Option Nat) := do
  let limit := min limit c.len
  let (first, second) ← c.stretches?
  match (first.take limit).findIdx? (· == delimiter) with
  | some i => return some i
  | none =>
    let i := (second.take (limit - first.length)).findIdx? (· == delimiter)
    return i.map (first.length + ·)

/-- An operation on the cells; `none` if it leaves their range. -/
def perform? : (op : QueueOp) → Option (op.Answer × Cells)
  | .write bs => c.write? bs
  | .read n => do
    let bs ← c.peek? n
    return (bs, c.consume bs.length)
  | .peek n => do return (← c.peek? n, c)
  | .get i => do return (← c.get? i, c)
  | .peekUntil delimiter limit => do return (← c.peekUntil? delimiter limit, c)
  | .consume n => some ((), c.consume n)
  | .clear => some ((), { c with head := 0, len := 0 })

def after? (c : Cells) : List QueueOp → Option Cells
  | [] => some c
  | op :: ops => do
    let (_, c) ← c.perform? op
    after? c ops

end Cells

namespace Ring

variable (r : Ring)

theorem peek_eq_take (n : Nat) : r.peek n = r.toList.take n := by
  have hh : r.head < r.capacity := r.head_lt
  have hl : r.len ≤ r.capacity := r.len_le
  have hs : r.data.size = r.capacity := rfl
  apply List.ext_getElem?
  intro i
  rw [List.getElem?_take, getElem?_toList, get?]
  simp only [peek, List.getElem?_append, Array.length_toList, Array.size_extract,
    Array.getElem?_toList, Array.getElem?_extract]
  by_cases hi : i < min n r.len
  · rw [r.mod_capacity (by omega)]
    grind
  · grind

theorem length_peek (n : Nat) : (r.peek n).length = min n r.len := by
  rw [peek_eq_take, List.length_take, length_toList]

theorem toList_read (n : Nat) : (r.read n).2.toList = r.toList.drop n := by
  show (r.consume (r.peek n).length).toList = _
  rw [toList_consume, length_peek]
  by_cases h : n ≤ r.len
  · rw [Nat.min_eq_left h]
  · have hd (k : Nat) (hk : r.len ≤ k) : r.toList.drop k = [] :=
      List.drop_eq_nil_of_le (by rw [length_toList]; exact hk)
    rw [hd _ (by omega), hd _ (by omega)]

theorem toList_clear : r.clear.toList = [] := by
  rw [← List.length_eq_zero_iff, length_toList]
  rfl

theorem perform_toList (op : QueueOp) : (r.perform op).1 = (r.toList.perform r.capacity op).1 ∧
    (r.perform op).2.toList = (r.toList.perform r.capacity op).2 := by
  have htake {l : Bytes} (k : Nat) : l.take (min k l.length) = l.take k := by
    rw [← List.take_take, List.take_length]
  cases op with
  | write bs =>
    have hn : (r.write bs).1 = min (r.capacity - r.toList.length) bs.length := by
      rw [write_fst, length_toList, free]
      exact Nat.min_comm _ _
    refine ⟨hn.trans List.length_take.symm, ?_⟩
    show (r.write bs).2.toList = r.toList ++ bs.take (r.capacity - r.toList.length)
    rw [toList_write, hn, htake]
  | read n => exact ⟨r.peek_eq_take n, r.toList_read n⟩
  | peek n => exact ⟨r.peek_eq_take n, rfl⟩
  | get i => exact ⟨(r.getElem?_toList i).symm, rfl⟩
  | peekUntil delimiter limit =>
    refine ⟨?_, rfl⟩
    show (r.peek limit).findIdx? _ = (r.toList.take (min limit r.toList.length)).findIdx? _
    rw [peek_eq_take, htake]
  | consume n => exact ⟨rfl, r.toList_consume n⟩
  | clear => exact ⟨rfl, r.toList_clear⟩

theorem capacity_perform (op : QueueOp) : (r.perform op).2.capacity = r.capacity := by
  cases op with
  | write bs => exact r.capacity_write bs
  | _ => rfl

theorem stretches?_cells : r.cells.stretches? = some (r.front, r.back) := by
  have hh : r.head < r.data.size := r.head_lt
  have hl : r.len ≤ r.data.size := r.len_le
  have hs {i j : Nat} (hi : i ≤ j) (hj : j ≤ r.data.size) :
      r.cells.stretch? i j = some (r.data.extract i j).toList := r.cells.stretch?_eq hi hj
  show (if r.head + r.len ≤ r.data.size then _ else _ : Option (Bytes × Bytes)) = _
  unfold front back capacity
  by_cases h : r.head + r.len ≤ r.data.size
  · rw [if_pos h, Nat.min_eq_left h, Nat.sub_eq_zero_of_le h]
    show (do return (← r.cells.stretch? r.head (r.head + r.len), [])) = _
    rw [hs (by omega) h]
    simp
  · rw [if_neg h, Nat.min_eq_right (by omega)]
    show (do return (← r.cells.stretch? r.head r.data.size,
      ← r.cells.stretch? 0 (r.head + r.len - r.data.size))) = _
    rw [hs (by omega) (by omega), hs (by omega) (by omega)]
    rfl

theorem peek?_cells (n : Nat) : r.cells.peek? n = some (r.peek n) := by
  have hf := r.length_front
  have hb := r.length_back
  have hfirst : r.front.take (min (min n r.len) r.front.length) = r.front.take n :=
    List.take_eq_take_iff.2 (by omega)
  have hsecond : r.back.take (min n r.len - min (min n r.len) r.front.length) =
      r.back.take (n - r.front.length) :=
    List.take_eq_take_iff.2 (by omega)
  unfold Cells.peek?
  simp only [stretches?_cells, cells_len, Option.bind_eq_bind, Option.bind_some]
  rw [Cells.inRange_eq (by omega) (by omega), Cells.inRange_eq (by omega) (by omega),
    Cells.inRange_eq (by omega) (by omega), Cells.inRange_eq (by omega) (by omega),
    peek_eq_take, toList, List.take_append, hfirst, hsecond]
  rfl

theorem get?_cells (i : Nat) : r.cells.get? i = some (r.get? i) := by
  show (if r.len ≤ i then _ else _ : Option (Option UInt8)) =
    some (if r.len ≤ i then _ else _)
  split_ifs with h
  · rfl
  · have hi : (r.head + i) % r.data.size < r.data.size := Nat.mod_lt _ r.capacity_pos
    show (r.data[(r.head + i) % r.data.size]?).map some = some r.data[(r.head + i) % r.data.size]?
    rw [Array.getElem?_eq_getElem hi]
    rfl

theorem peekUntil?_cells (delimiter : UInt8) (limit : Nat) :
    r.cells.peekUntil? delimiter limit = some (r.peekUntil delimiter limit) := by
  have hf := r.length_front
  have hb := r.length_back
  have hfirst : r.front.take (min limit r.len) = r.front.take limit :=
    List.take_eq_take_iff.2 (by omega)
  have hsecond : r.back.take (min limit r.len - r.front.length) =
      r.back.take (limit - r.front.length) :=
    List.take_eq_take_iff.2 (by omega)
  rw [peekUntil, peek_eq_take, toList, List.take_append, List.findIdx?_append]
  unfold Cells.peekUntil?
  simp only [stretches?_cells, cells_len, Option.bind_eq_bind, Option.bind_some, hfirst, hsecond]
  cases (r.front.take limit).findIdx? (· == delimiter) with
  | some i => rfl
  | none =>
    by_cases h : limit ≤ r.front.length
    · rw [Nat.sub_eq_zero_of_le h]
      rfl
    · rw [List.length_take, Nat.min_eq_right (by omega)]
      simp only [Nat.add_comm]
      rfl

theorem vacancies?_cells : ∃ start stop,
    r.cells.vacancies? = some ((start, start + r.vacant), (0, stop)) ∧
      (0 < r.vacant → start = r.tail) ∧ r.free ≤ r.vacant + stop := by
  have hh : r.head < r.data.size := r.head_lt
  have ht : r.tail < r.data.size := r.tail_lt
  have hte := r.tail_eq
  have hf : r.free = r.data.size - r.len := rfl
  have hc : r.capacity = r.data.size := rfl
  have hv : r.vacant = if r.len = r.data.size then 0
    else if r.head ≤ r.tail then r.data.size - r.tail else r.head - r.tail := rfl
  have he : r.cells.vacancies? = if r.len = r.data.size then some ((0, 0), (0, 0))
    else if r.head ≤ r.tail then do
      Cells.inRange r.tail r.data.size r.data.size
      Cells.inRange 0 r.head r.tail
      return ((r.tail, r.data.size), (0, r.head))
    else do
      Cells.inRange r.tail r.head r.data.size
      return ((r.tail, r.head), (0, 0)) := rfl
  rw [he]
  split_ifs at hv ⊢ with h h'
  · exact ⟨0, 0, by rw [hv], by omega, by omega⟩
  · refine ⟨r.tail, r.head, ?_, fun _ ↦ rfl, by split_ifs at hte <;> omega⟩
    rw [Cells.inRange_eq (by omega) (by omega), Cells.inRange_eq (by omega) h',
      show r.tail + r.vacant = r.data.size by omega]
    rfl
  · refine ⟨r.tail, 0, ?_, fun _ ↦ rfl, by split_ifs at hte <;> omega⟩
    rw [Cells.inRange_eq (by omega) (by omega), show r.tail + r.vacant = r.head by omega]
    rfl

theorem write?_cells (bs : Bytes) :
    r.cells.write? bs = some ((r.write bs).1, (r.write bs).2.cells) := by
  obtain ⟨start, stop, hv, hstart, hstop⟩ := r.vacancies?_cells
  have hn : min bs.length (r.data.size - r.len) = (r.write bs).1 := rfl
  have hfree := r.write_fst bs
  have hfill : blit r.data start (bs.take (min (r.write bs).1 r.vacant)) =
      blit r.data r.tail (bs.take (min (r.write bs).1 r.vacant)) := by
    by_cases h : 0 < r.vacant
    · rw [hstart h]
    · rw [show min (r.write bs).1 r.vacant = 0 by omega]
      rfl
  unfold Cells.write?
  simp only [hv, hn, hfill, cells_len, cells_data, Option.bind_eq_bind, Option.bind_some,
    Nat.add_sub_cancel_left, Nat.sub_zero]
  rw [Cells.inRange_eq (by omega) (by omega), Cells.inRange_eq (by omega) (by omega),
    Cells.inRange_eq (by omega) (by omega), Cells.inRange_eq (by omega) (by omega)]
  rfl

theorem perform?_cells (op : QueueOp) :
    r.cells.perform? op = some ((r.perform op).1, (r.perform op).2.cells) := by
  cases op with
  | write bs => exact r.write?_cells bs
  | read n =>
    show (r.cells.peek? n >>= _) = _
    rw [peek?_cells]
    rfl
  | peek n =>
    show (r.cells.peek? n >>= _) = _
    rw [peek?_cells]
    rfl
  | get i =>
    show (r.cells.get? i >>= _) = _
    rw [get?_cells]
    rfl
  | peekUntil delimiter limit =>
    show (r.cells.peekUntil? delimiter limit >>= _) = _
    rw [peekUntil?_cells]
    rfl
  | consume n => rfl
  | clear => rfl

theorem after?_cells (ops : List QueueOp) : r.cells.after? ops = some (r.after ops).cells := by
  induction ops generalizing r with
  | nil => rfl
  | cons op ops ih =>
    show (r.cells.perform? op >>= _) = _
    rw [perform?_cells]
    exact ih _

theorem after_toList (ops : List QueueOp) : (r.after ops).capacity = r.capacity ∧
    (r.after ops).toList = r.toList.after r.capacity ops := by
  induction ops generalizing r with
  | nil => exact ⟨rfl, rfl⟩
  | cons op ops ih =>
    obtain ⟨hc, hl⟩ := ih (r.perform op).2
    rw [capacity_perform, (r.perform_toList op).2] at hl
    exact ⟨hc.trans (r.capacity_perform op), hl⟩

/-- The queue is as a list `l` of at most `n` bytes, and as the cells `c`, of which the next
operation does not leave the range. -/
structure Mirrors (r : Ring) (n : Nat) (l : Bytes) (c : Cells) : Prop where
  contents : r.toList = l
  cells : r.cells = c
  len : r.len = l.length
  free : r.free = n - l.length
  isEmpty : r.isEmpty ↔ l = []
  isFull : r.isFull ↔ l.length = n
  head_lt : c.head < n
  len_le : c.len ≤ n
  answers : ∀ op, (r.perform op).1 = (l.perform n op).1
  checked : ∀ op, ∃ c', c.perform? op = some ((l.perform n op).1, c')

theorem mirrors : r.Mirrors r.capacity r.toList r.cells where
  contents := rfl
  cells := rfl
  len := r.length_toList.symm
  free := by rw [length_toList, Ring.free]
  isEmpty := by rw [← List.length_eq_zero_iff, length_toList]; exact decide_eq_true_iff
  isFull := by rw [length_toList]; exact decide_eq_true_iff
  head_lt := r.head_lt
  len_le := r.len_le
  answers op := (r.perform_toList op).1
  checked op := ⟨_, (r.perform_toList op).1 ▸ r.perform?_cells op⟩

/-- Behind any operations, a queue of any capacity answers as a list does, and so do its cells: no
operation on the way left their range. -/
theorem after_mirrors {n : Nat} (hn : 0 < n) (ops : List QueueOp) :
    ∃ c, (Cells.blank n).after? ops = some c ∧
      ((ofCapacity n hn).after ops).Mirrors n (Bytes.after n [] ops) c := by
  have hcap : (ofCapacity n hn).capacity = n := Array.size_replicate
  obtain ⟨hc, hl⟩ := (ofCapacity n hn).after_toList ops
  have hm := ((ofCapacity n hn).after ops).mirrors
  rw [hc, hl, hcap, toList_ofCapacity] at hm
  exact ⟨_, (ofCapacity n hn).after?_cells ops, hm⟩

/-- A queue for eight bytes that is full, with its contents around the end of the array. -/
theorem after_mirrors_wrapped : 0 < 8 ∧ ∃ r c,
    (Cells.blank 8).after? [.write [1, 2, 3, 4, 5, 6], .read 4, .write [7, 8, 9, 10, 11, 12]] =
      some c ∧ c.head = 4 ∧ r.isFull ∧ Mirrors r 8 [5, 6, 7, 8, 9, 10, 11, 12] c := by
  obtain ⟨c, hc, hm⟩ := after_mirrors (by decide : 0 < 8)
    [.write [1, 2, 3, 4, 5, 6], .read 4, .write [7, 8, 9, 10, 11, 12]]
  refine ⟨by decide, _, c, hc, ?_, hm.isFull.2 rfl, hm⟩
  rw [← hm.cells]
  decide

end Ring

end PollReactor
