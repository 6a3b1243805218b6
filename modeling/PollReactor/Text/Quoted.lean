import PollReactor.Text.Unprintable
import PollReactor.Text.Extending
import PollReactor.Text.Ignorable

namespace PollReactor.Text.Quoted

def inRanges (n : Nat) (ranges : List (Nat × Nat)) : Bool :=
  ranges.any fun (low, high) ↦ low ≤ n && n ≤ high

def isUnprintable (c : Char) : Bool := inRanges c.toNat unprintable

def isExtending (c : Char) : Bool := inRanges c.toNat extending

def isIgnorable (c : Char) : Bool := inRanges c.toNat ignorable

def escape (c : Char) : List Char :=
  if c = '\x00' then ['\\', '0']
  else if c = '\t' then ['\\', 't']
  else if c = '\r' then ['\\', 'r']
  else if c = '\n' then ['\\', 'n']
  else if c = '\\' ∨ c = '"' then ['\\', c]
  else if isExtending c ∨ isUnprintable c ∨ isIgnorable c then
    ['\\', 'u', '\x7b'] ++ Nat.toDigits 16 c.toNat ++ ['\x7d']
  else [c]

def quote (s : String) : String :=
  String.ofList ('"' :: s.toList.flatMap escape ++ ['"'])

end PollReactor.Text.Quoted
