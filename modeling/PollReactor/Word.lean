namespace PollReactor.Word

def size : Nat := Nat.pow 2 64

/-- Signed words run from `-half` to `half - 1`. -/
def half : Nat := Nat.pow 2 63

theorem half_add_half : half + half = size := rfl

/-- The most bytes that one allocation may hold. -/
def largestAllocation : Nat := half - 1

end PollReactor.Word
