import PollReactor.Bytes
import PollReactor.Error
import PollReactor.Word

namespace PollReactor

/-- Replaces the elements of `a` from index `i` on by `bs`; what does not fit is left out. -/
def blit (a : Array UInt8) (i : Nat) : Bytes → Array UInt8
  | [] => a
  | b :: bs => blit (a.setIfInBounds i b) (i + 1) bs

@[simp]
theorem size_blit (a : Array UInt8) (i : Nat) (bs : Bytes) : (blit a i bs).size = a.size := by
  induction bs generalizing a i with
  | nil => rfl
  | cons b bs ih => simp [blit, ih]

/-- A byte queue over one array that never grows. Bytes are appended behind the buffered ones and
consumed at `head`; both places wrap around at the end of the array. -/
structure Ring where
  data : Array UInt8
  head : Nat
  len : Nat
  head_lt : head < data.size
  len_le : len ≤ data.size

namespace Ring

def ofCapacity (n : Nat) (h : 0 < n) : Ring where
  data := Array.replicate n 0
  head := 0
  len := 0
  head_lt := by simpa using h
  len_le := Nat.zero_le _

def make (n : Nat) : Except Panic Ring :=
  if h : 0 < n then
    if Word.largestAllocation < n then .error .capacityOverflow else .ok (ofCapacity n h)
  else .error .emptyRing

variable (r : Ring)

def capacity : Nat := r.data.size

def free : Nat := r.capacity - r.len

def isEmpty : Bool := r.len = 0

def isFull : Bool := r.len = r.capacity

theorem capacity_pos : 0 < r.capacity := Nat.lt_of_le_of_lt (Nat.zero_le _) r.head_lt

def tail : Nat := (r.head + r.len) % r.capacity

theorem tail_lt : r.tail < r.capacity := Nat.mod_lt _ r.capacity_pos

/-- The buffered bytes up to the end of the array. -/
def front : Bytes :=
  (r.data.extract r.head (min (r.head + r.len) r.capacity)).toList

def back : Bytes :=
  (r.data.extract 0 (r.head + r.len - r.capacity)).toList

/-- Length of the stretch of free space that is filled first. -/
def vacant : Nat :=
  if r.len = r.capacity then 0
  else if r.head ≤ r.tail then r.capacity - r.tail
  else r.head - r.tail

def clear : Ring where
  data := r.data
  head := 0
  len := 0
  head_lt := r.capacity_pos
  len_le := Nat.zero_le _

/-- Appends as many of the bytes as fit and tells how many those are. -/
def write (bs : Bytes) : Nat × Ring :=
  let n := min bs.length r.free
  let split := min n r.vacant
  let data := blit (blit r.data r.tail (bs.take split)) 0 ((bs.take n).drop split)
  (n, {
    data
    head := r.head
    len := r.len + n
    head_lt := by simpa [data] using r.head_lt
    len_le := by
      have := r.len_le
      simp only [data, size_blit]
      show r.len + min bs.length (r.data.size - r.len) ≤ r.data.size
      omega })

def peek (n : Nat) : Bytes :=
  let n := min n r.len
  let split := min n (r.capacity - r.head)
  (r.data.extract r.head (r.head + split)).toList ++ (r.data.extract 0 (n - split)).toList

/-- Drops up to `n` bytes from the head. An emptied queue starts again at the start of the array. -/
def consume (n : Nat) : Ring :=
  let n := min n r.len
  {
    data := r.data
    head := if r.len - n = 0 then 0 else (r.head + n) % r.capacity
    len := r.len - n
    head_lt := by
      split
      · exact r.capacity_pos
      · exact Nat.mod_lt _ r.capacity_pos
    len_le := by have := r.len_le; omega }

def read (n : Nat) : Bytes × Ring :=
  let bs := r.peek n
  (bs, r.consume bs.length)

def get? (i : Nat) : Option UInt8 :=
  if r.len ≤ i then none else r.data[(r.head + i) % r.capacity]?

def peekUntil (delimiter : UInt8) (limit : Nat) : Option Nat :=
  (r.peek limit).findIdx? (· == delimiter)

def toList : Bytes := r.front ++ r.back

@[simp]
theorem capacity_write (bs : Bytes) : (r.write bs).2.capacity = r.capacity := by
  simp [write, capacity]

@[simp]
theorem len_write (bs : Bytes) : (r.write bs).2.len = r.len + (r.write bs).1 := rfl

theorem write_fst (bs : Bytes) : (r.write bs).1 = min bs.length r.free := rfl

theorem free_write (bs : Bytes) : (r.write bs).2.free = r.free - (r.write bs).1 := by
  simp only [free, capacity_write, len_write]
  omega

@[simp]
theorem capacity_consume (n : Nat) : (r.consume n).capacity = r.capacity := rfl

theorem len_consume (n : Nat) : (r.consume n).len = r.len - min n r.len := rfl

theorem vacant_le_free : r.vacant ≤ r.free := by
  have hh : r.head < r.capacity := r.head_lt
  have hl : r.len ≤ r.capacity := r.len_le
  unfold vacant free tail
  split
  · omega
  · by_cases h : r.head + r.len < r.capacity
    · rw [Nat.mod_eq_of_lt h]
      split <;> omega
    · rw [Nat.mod_eq_sub_mod (by omega), Nat.mod_eq_of_lt (by omega)]
      split <;> omega

theorem vacant_pos (h : r.isFull = false) : 0 < r.vacant := by
  have ht := r.tail_lt
  unfold vacant
  simp only [isFull, decide_eq_false_iff_not] at h
  rw [if_neg h]
  split
  · omega
  · omega

theorem length_front_le : r.front.length ≤ r.len := by
  simp only [front, Array.length_toList, Array.size_extract]
  omega

end Ring

end PollReactor
