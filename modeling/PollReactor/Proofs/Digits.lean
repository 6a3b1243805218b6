import Mathlib.Tactic.Ring
import PollReactor.Bytes

namespace PollReactor.Bytes

theorem foldl_ofBigEndian (bs : Bytes) (n : Nat) :
    bs.foldl (fun n b ↦ n * 256 + b.toNat) n = n * 256 ^ bs.length + ofBigEndian bs := by
  induction bs generalizing n with
  | nil => simp [ofBigEndian]
  | cons b bs ih =>
    have hb : ofBigEndian (b :: bs) = b.toNat * 256 ^ bs.length + ofBigEndian bs := by
      rw [ofBigEndian, List.foldl_cons, Nat.zero_mul, Nat.zero_add, ih]
    rw [List.foldl_cons, ih, hb, List.length_cons]
    ring

theorem ofBigEndian_cons (b : UInt8) (bs : Bytes) :
    ofBigEndian (b :: bs) = b.toNat * 256 ^ bs.length + ofBigEndian bs := by
  rw [ofBigEndian, List.foldl_cons, Nat.zero_mul, Nat.zero_add, foldl_ofBigEndian]

theorem ofBigEndian_lt (bs : Bytes) : ofBigEndian bs < 256 ^ bs.length := by
  induction bs with
  | nil => exact Nat.zero_lt_one
  | cons b bs ih =>
    have hb : b.toNat + 1 ≤ 256 := b.toNat_lt
    have hmul := Nat.mul_le_mul_right (256 ^ bs.length) hb
    rw [ofBigEndian_cons, List.length_cons, Nat.pow_succ]
    rw [Nat.add_mul] at hmul
    omega

theorem ofBigEndian_bigEndian (w n : Nat) : ofBigEndian (bigEndian w n) = n % 256 ^ w := by
  induction w with
  | zero => simp [bigEndian, ofBigEndian, Nat.mod_one]
  | succ w ih =>
    have hdigit : (UInt8.ofNat (n / Nat.pow 256 w)).toNat = n / 256 ^ w % 256 := UInt8.toNat_ofNat'
    rw [bigEndian, ofBigEndian_cons, length_bigEndian, ih, hdigit, Nat.mod_pow_succ]
    ring

theorem ofBigEndian_bigEndian_of_lt {w n : Nat} (h : n < 256 ^ w) :
    ofBigEndian (bigEndian w n) = n := by
  rw [ofBigEndian_bigEndian, Nat.mod_eq_of_lt h]

theorem bigEndian_add_mul (w k n : Nat) : bigEndian w (n + k * 256 ^ w) = bigEndian w n := by
  induction w generalizing k with
  | zero => rfl
  | succ w ih =>
    have hk : k * 256 ^ (w + 1) = k * 256 * 256 ^ w := by ring
    have hdigit : (n + k * 256 * 256 ^ w) / Nat.pow 256 w = n / Nat.pow 256 w + k * 256 :=
      Nat.add_mul_div_right n _ (Nat.pow_pos (by decide))
    rw [bigEndian, bigEndian, hk, hdigit, ih, UInt8.ofNat_add, UInt8.ofNat_mul]
    simp

theorem bigEndian_ofBigEndian (bs : Bytes) : bigEndian bs.length (ofBigEndian bs) = bs := by
  induction bs with
  | nil => rfl
  | cons b bs ih =>
    have hdigit :
        (ofBigEndian bs + b.toNat * 256 ^ bs.length) / Nat.pow 256 bs.length = b.toNat := by
      refine (Nat.add_mul_div_right _ _ (Nat.pow_pos (by decide))).trans ?_
      rw [Nat.div_eq_of_lt (ofBigEndian_lt bs), Nat.zero_add]
    rw [ofBigEndian_cons, Nat.add_comm, List.length_cons, bigEndian, hdigit, bigEndian_add_mul, ih,
      UInt8.ofNat_toNat]

theorem ofLittleEndian_littleEndian_of_lt {w n : Nat} (h : n < 256 ^ w) :
    ofLittleEndian (littleEndian w n) = n := by
  rw [ofLittleEndian, littleEndian, List.reverse_reverse, ofBigEndian_bigEndian_of_lt h]

theorem ofLittleEndian_lt (bs : Bytes) : ofLittleEndian bs < 256 ^ bs.length := by
  rw [← List.length_reverse]
  exact ofBigEndian_lt bs.reverse

theorem littleEndian_ofLittleEndian (bs : Bytes) :
    littleEndian bs.length (ofLittleEndian bs) = bs := by
  rw [littleEndian, ofLittleEndian, ← List.length_reverse, bigEndian_ofBigEndian,
    List.reverse_reverse]

end PollReactor.Bytes
