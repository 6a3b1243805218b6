namespace PollReactor

abbrev Bytes := List UInt8

namespace Bytes

def bigEndian : Nat → Nat → Bytes
  | 0, _ => []
  | w + 1, n => UInt8.ofNat (n / Nat.pow 256 w) :: bigEndian w n

def ofBigEndian (bs : Bytes) : Nat :=
  bs.foldl (fun n b ↦ n * 256 + b.toNat) 0

def littleEndian (w n : Nat) : Bytes :=
  (bigEndian w n).reverse

def ofLittleEndian (bs : Bytes) : Nat :=
  ofBigEndian bs.reverse

@[simp]
theorem length_bigEndian (w n : Nat) : (bigEndian w n).length = w := by
  induction w with
  | zero => rfl
  | succ w ih => simp [bigEndian, ih]

@[simp]
theorem length_littleEndian (w n : Nat) : (littleEndian w n).length = w := by
  simp [littleEndian]

/-- The bytes `k`, `k + 1`, …, each modulo 251, `n` of them. -/
def counting (n k : Nat) : Bytes :=
  (List.range n).map fun i ↦ UInt8.ofNat ((k + i) % 251)

def hexDigit (n : Nat) : Char :=
  if n < 10 then Char.ofNat (48 + n) else Char.ofNat (87 + n)

def hexValue? (c : Char) : Option Nat :=
  if '0' ≤ c ∧ c ≤ '9' then some (c.toNat - 48)
  else if 'a' ≤ c ∧ c ≤ 'f' then some (c.toNat - 87)
  else if 'A' ≤ c ∧ c ≤ 'F' then some (c.toNat - 55)
  else none

def toHex (bs : Bytes) : String :=
  String.ofList (bs.flatMap fun b ↦ [hexDigit (b.toNat / 16), hexDigit (b.toNat % 16)])

def ofHexDigits? : List Char → Option Bytes
  | [] => some []
  | [_] => none
  | h :: l :: rest => do
    let h ← hexValue? h
    let l ← hexValue? l
    let bs ← ofHexDigits? rest
    return UInt8.ofNat (16 * h + l) :: bs

def ofHex? (s : String) : Option Bytes :=
  ofHexDigits? s.toList

end Bytes

end PollReactor
