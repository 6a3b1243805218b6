import Mathlib.Tactic.SplitIfs
import PollReactor.Ring

namespace PollReactor

theorem getElem?_blit (a : Array UInt8) (i : Nat) (bs : Bytes) (k : Nat) :
    (blit a i bs)[k]? = if i ≤ k ∧ k < i + bs.length ∧ k < a.size then bs[k - i]? else a[k]? := by
  induction bs generalizing a i with
  | nil => simp [blit]; omega
  | cons b bs ih =>
    rw [blit, ih, Array.size_setIfInBounds, Array.getElem?_setIfInBounds, List.length_cons]
    grind

namespace Ring

variable (r : Ring)

theorem length_front : r.front.length = min r.len (r.capacity - r.head) := by
  have := r.head_lt
  simp only [front, Array.length_toList, Array.size_extract, capacity]
  omega

theorem length_back : r.back.length = r.len - (r.capacity - r.head) := by
  have := r.head_lt
  have := r.len_le
  simp only [back, Array.length_toList, Array.size_extract, capacity]
  omega

@[simp]
theorem length_toList : r.toList.length = r.len := by
  rw [toList, List.length_append, length_front, length_back]
  omega

theorem mod_capacity {i : Nat} (h : i < r.capacity) :
    (r.head + i) % r.capacity =
      if r.head + i < r.capacity then r.head + i else r.head + i - r.capacity := by
  have := r.head_lt
  split_ifs with hi
  · exact Nat.mod_eq_of_lt hi
  · simp only [capacity] at *
    rw [Nat.mod_eq_sub_mod (by omega), Nat.mod_eq_of_lt (by omega)]

theorem getElem?_toList (i : Nat) : r.toList[i]? = r.get? i := by
  have hh : r.head < r.capacity := r.head_lt
  have hl : r.len ≤ r.capacity := r.len_le
  have hs : r.data.size = r.capacity := rfl
  unfold get?
  split_ifs with hi
  · exact List.getElem?_eq_none (by rw [length_toList]; exact hi)
  · rw [r.mod_capacity (by omega), toList, List.getElem?_append, length_front]
    simp only [front, back]
    by_cases h : r.head + i < r.capacity
    · rw [if_pos h, if_pos (by omega), Array.getElem?_toList, Array.getElem?_extract]
      grind
    · rw [if_neg h, if_neg (by omega), Array.getElem?_toList, Array.getElem?_extract]
      grind

theorem tail_eq : r.tail = if r.head + r.len < r.capacity then r.head + r.len
    else r.head + r.len - r.capacity := by
  have hh : r.head < r.capacity := r.head_lt
  have hl : r.len ≤ r.capacity := r.len_le
  unfold tail
  split_ifs with h
  · exact Nat.mod_eq_of_lt h
  · rw [Nat.mod_eq_sub_mod (by omega), Nat.mod_eq_of_lt (by omega)]

theorem getElem?_data_write (bs : Bytes) {k : Nat} (hk : k < r.capacity) :
    (r.write bs).2.data[k]? =
      if r.tail ≤ k ∧ k < r.tail + min (r.write bs).1 r.vacant then bs[k - r.tail]?
      else if k < (r.write bs).1 - r.vacant then bs[k + r.vacant]? else r.data[k]? := by
  have hs : r.data.size = r.capacity := rfl
  have hn := r.write_fst bs
  have hd : (r.write bs).2.data = blit (blit r.data r.tail
      (bs.take (min (r.write bs).1 r.vacant))) 0
      ((bs.take (r.write bs).1).drop (min (r.write bs).1 r.vacant)) := rfl
  have ht := r.tail_eq
  have hv : r.vacant = if r.len = r.capacity then 0
    else if r.head ≤ r.tail then r.capacity - r.tail else r.head - r.tail := rfl
  have hf : r.free = r.capacity - r.len := rfl
  have hh : r.head < r.capacity := r.head_lt
  have hl : r.len ≤ r.capacity := r.len_le
  rw [hd, getElem?_blit, getElem?_blit, size_blit]
  simp only [List.length_take, List.length_drop, List.getElem?_take, List.getElem?_drop,
    Nat.sub_zero, Nat.zero_add, Nat.zero_le, true_and]
  by_cases hw : k < (r.write bs).1 - r.vacant
  · have htail : k < r.tail := by split_ifs at ht hv <;> omega
    have hm : min (r.write bs).1 r.vacant = r.vacant := by omega
    rw [if_pos (by omega), if_pos (by omega), if_neg (by omega), if_pos hw, hm, Nat.add_comm]
  · rw [if_neg (by omega), if_neg hw]
    by_cases hb : r.tail ≤ k ∧ k < r.tail + min (r.write bs).1 r.vacant
    · rw [if_pos (by omega), if_pos (by omega), if_pos hb]
    · rw [if_neg (by omega), if_neg hb]

theorem toList_write (bs : Bytes) :
    (r.write bs).2.toList = r.toList ++ bs.take (r.write bs).1 := by
  have hh : r.head < r.capacity := r.head_lt
  have hl : r.len ≤ r.capacity := r.len_le
  have hf : r.free = r.capacity - r.len := rfl
  have ht := r.tail_eq
  have hv : r.vacant = if r.len = r.capacity then 0
    else if r.head ≤ r.tail then r.capacity - r.tail else r.head - r.tail := rfl
  have hn := r.write_fst bs
  have hhead : (r.write bs).2.head = r.head := rfl
  apply List.ext_getElem?
  intro i
  rw [getElem?_toList, List.getElem?_append, length_toList, getElem?_toList, List.getElem?_take]
  unfold get?
  rw [capacity_write, len_write, hhead]
  by_cases hi : i < r.len + (r.write bs).1
  · rw [if_neg (by omega), r.mod_capacity (by omega),
      r.getElem?_data_write bs (by split_ifs <;> omega)]
    grind
  · grind

theorem toList_consume (n : Nat) : (r.consume n).toList = r.toList.drop n := by
  have hh : r.head < r.capacity := r.head_lt
  have hl : r.len ≤ r.capacity := r.len_le
  apply List.ext_getElem?
  intro i
  rw [getElem?_toList, List.getElem?_drop, getElem?_toList]
  unfold get?
  rw [capacity_consume, len_consume]
  have hd : (r.consume n).data = r.data := rfl
  have hhead : (r.consume n).head =
    if r.len - min n r.len = 0 then 0 else (r.head + min n r.len) % r.capacity := rfl
  rw [hd, hhead]
  by_cases hi : r.len ≤ n + i
  · rw [if_pos (by omega), if_pos hi]
  · rw [if_neg (by omega), if_neg hi, if_neg (by omega), Nat.mod_add_mod]
    congr 2
    omega

theorem toList_ofCapacity (n : Nat) (h : 0 < n) : (ofCapacity n h).toList = [] := by
  rw [← List.length_eq_zero_iff, length_toList]
  rfl

end Ring

end PollReactor
