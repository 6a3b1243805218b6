import PollReactor.Bytes

namespace PollReactor.Text.Utf8

inductive State where
  | start
  /-- `owed` more bytes, the next one from `low` to `high`; `value` holds the bits read so far. -/
  | inside (owed low high value : Nat)

def replacement : Char := Char.ofNat 0xFFFD

def lead (b : Nat) : List Char × State :=
  if b < 0x80 then ([Char.ofNat b], .start)
  else if b < 0xC2 then ([replacement], .start)
  else if b < 0xE0 then ([], .inside 1 0x80 0xBF (b - 0xC0))
  else if b = 0xE0 then ([], .inside 2 0xA0 0xBF 0)
  else if b = 0xED then ([], .inside 2 0x80 0x9F 0xD)
  else if b < 0xF0 then ([], .inside 2 0x80 0xBF (b - 0xE0))
  else if b = 0xF0 then ([], .inside 3 0x90 0xBF 0)
  else if b < 0xF4 then ([], .inside 3 0x80 0xBF (b - 0xF0))
  else if b = 0xF4 then ([], .inside 3 0x80 0x8F 4)
  else ([replacement], .start)

/-- One byte more. A byte that does not continue the open character ends it as a replacement
character and starts the next one. -/
def step : State → Nat → List Char × State
  | .start, b => lead b
  | .inside owed low high value, b =>
    if low ≤ b ∧ b ≤ high then
      let value := value * 64 + (b - 0x80)
      if owed ≤ 1 then ([Char.ofNat value], .start)
      else ([], .inside (owed - 1) 0x80 0xBF value)
    else
      let (cs, s) := lead b
      (replacement :: cs, s)

def decodeFrom : State → Bytes → List Char
  | .start, [] => []
  | .inside .., [] => [replacement]
  | s, b :: bs =>
    let (cs, s) := step s b.toNat
    cs ++ decodeFrom s bs

/-- Every maximal prefix of a character that is not continued becomes one replacement character. -/
def decode (bs : Bytes) : String :=
  String.ofList (decodeFrom .start bs)

def encode (s : String) : Bytes :=
  s.toList.flatMap String.utf8EncodeChar

end PollReactor.Text.Utf8
