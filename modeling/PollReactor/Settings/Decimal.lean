import PollReactor.Word

namespace PollReactor.Settings

/-- `mantissa * 10 ^ exponent`, less than zero if `negative`. -/
structure Decimal where
  negative : Bool
  mantissa : Nat
  exponent : Int
  deriving DecidableEq, Repr

namespace Decimal

/-- The whole number nearest to `num / den`, a tie going to the even neighbour. -/
def divideToEven (num den : Nat) : Nat :=
  let q := num / den
  let r := 2 * (num % den)
  if r < den then q
  else if den < r then q + 1
  else if q % 2 = 0 then q else q + 1

def binaryExponent (num den : Nat) : Int :=
  let e : Int := num.log2 - den.log2
  let below := if 0 ≤ e then num < den <<< e.toNat else num <<< (-e).toNat < den
  if below then e - 1 else e

/-- `num / den` as `m * 2 ^ q` with `m` of 53 binary digits, rounded. -/
def significand (num den : Nat) : Nat × Int :=
  let q := binaryExponent num den - 52
  (if 0 ≤ q then divideToEven num (den <<< q.toNat) else divideToEven (num <<< (-q).toNat) den, q)

def wholePart (m : Nat) (q : Int) : Nat :=
  if 0 ≤ q then m <<< q.toNat
  else (m + 1 <<< ((-q).toNat - 1)) >>> (-q).toNat

def largest : Nat := Word.size - 1

/-- Whether `d` is less than a tenth: its digits end before the first place behind the point. -/
def isTiny (d : Decimal) : Bool := ((Nat.toDigits 10 d.mantissa).length : Int) + d.exponent < 0

/-- The decimal is rounded to 53 binary digits, a tie going to the even neighbour, and then to a
whole number, a half going up. What is out of range becomes the nearest end of it. -/
def toUnsigned (d : Decimal) : Nat :=
  if d.negative ∨ d.mantissa = 0 ∨ d.isTiny then 0
  else if 20 ≤ d.exponent then largest
  else
    let num := if 0 ≤ d.exponent then d.mantissa * Nat.pow 10 d.exponent.toNat else d.mantissa
    let den := if 0 ≤ d.exponent then 1 else Nat.pow 10 (-d.exponent).toNat
    let (m, q) := significand num den
    min (wholePart m q) largest

theorem toUnsigned_lt (d : Decimal) : d.toUnsigned < Word.size := by
  have hlargest : largest < Word.size := by decide
  unfold toUnsigned
  split
  · decide
  · split
    · exact hlargest
    · exact Nat.lt_of_le_of_lt (Nat.min_le_right _ _) hlargest

end Decimal

end PollReactor.Settings
