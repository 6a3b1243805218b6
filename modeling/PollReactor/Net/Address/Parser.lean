import PollReactor.Bytes
import PollReactor.Net.Address

namespace PollReactor.Net.Parser

/-- Takes what it recognises from the front of the text, or refuses and takes nothing. -/
abbrev Reader (α : Type) := List Char → Option (α × List Char)

def char (c : Char) : Reader Unit
  | [] => none
  | d :: rest => if d = c then some ((), rest) else none

def digitValue? (radix : Nat) (c : Char) : Option Nat :=
  (Bytes.hexValue? c).filter (· < radix)

def digits (radix : Nat) : List Char → List Nat × List Char
  | [] => ([], [])
  | c :: rest =>
    match digitValue? radix c with
    | none => ([], c :: rest)
    | some v =>
      let (vs, rest) := digits radix rest
      (v :: vs, rest)

/-- A number below `bound`, of at most `most` digits if that is given. Without `padded` a number of
two or more digits must not start with zero. -/
def number (radix : Nat) (most : Option Nat) (padded : Bool) (bound : Nat) : Reader Nat := fun s ↦
  let (vs, rest) := digits radix s
  let value := vs.foldl (fun n v ↦ n * radix + v) 0
  if vs = [] then none
  else if most.any (· < vs.length) then none
  else if bound ≤ value then none
  else if !padded ∧ vs.head? = some 0 ∧ 1 < vs.length then none
  else some (value, rest)

def separated {α : Type} (sep : Char) (first : Bool) (p : Reader α) : Reader α := fun s ↦
  if first then p s else do
    let (_, s) ← char sep s
    p s

def octet (first : Bool) : Reader UInt8 := fun s ↦ do
  let (n, s) ← separated '.' first (number 10 (some 3) false 256) s
  return (UInt8.ofNat n, s)

def ipv4 : Reader Ipv4 := fun s ↦ do
  let (a, s) ← octet true s
  let (b, s) ← octet false s
  let (c, s) ← octet false s
  let (d, s) ← octet false s
  return (⟨a, b, c, d⟩, s)

/-- Up to `room` groups in a row. An IPv4 address may take the last two places and then ends the
row; the flag tells whether one did. -/
def groups : (room : Nat) → (first : Bool) → List Char → List UInt16 × Bool × List Char
  | 0, _, s => ([], false, s)
  | room + 1, first, s =>
    match if room = 0 then none else separated ':' first ipv4 s with
    | some (ip, rest) =>
      ([ip.a.toUInt16 <<< 8 ||| ip.b.toUInt16, ip.c.toUInt16 <<< 8 ||| ip.d.toUInt16], true, rest)
    | none =>
      match separated ':' first (number 16 (some 4) true 65536) s with
      | none => ([], false, s)
      | some (g, rest) =>
        let (gs, embedded, rest) := groups room false rest
        (UInt16.ofNat g :: gs, embedded, rest)

def ofGroups (gs : List UInt16) : Ipv6 :=
  ⟨Vector.ofFn fun i ↦ gs.getD i 0⟩

def ipv6 : Reader Ipv6 := fun s ↦
  let (front, embedded, rest) := groups 8 true s
  if front.length = 8 then some (ofGroups front, rest)
  else if embedded then none
  else do
    let (_, rest) ← char ':' rest
    let (_, rest) ← char ':' rest
    let (back, _, rest) := groups (7 - front.length) true rest
    let zeros := List.replicate (8 - front.length - back.length) 0
    return (ofGroups (front ++ zeros ++ back), rest)

def port : Reader UInt16 := fun s ↦ do
  let (_, s) ← char ':' s
  let (n, s) ← number 10 none true 65536 s
  return (UInt16.ofNat n, s)

def scope : Reader UInt32 := fun s ↦ do
  let (_, s) ← char '%' s
  let (n, s) ← number 10 none true 4294967296 s
  return (UInt32.ofNat n, s)

def socketV4 : Reader SocketAddr := fun s ↦ do
  let (ip, s) ← ipv4 s
  let (p, s) ← port s
  return (.v4 ip p, s)

def socketV6 : Reader SocketAddr := fun s ↦ do
  let (_, s) ← char '[' s
  let (ip, s) ← ipv6 s
  let (sc, s) := (scope s).getD (0, s)
  let (_, s) ← char ']' s
  let (p, s) ← port s
  return (.v6 ip p 0 sc, s)

def whole {α : Type} (p : Reader α) (s : String) : Option α :=
  match p s.toList with
  | some (a, []) => some a
  | _ => none

end PollReactor.Net.Parser

namespace PollReactor.Net

/-- `a.b.c.d:port`, `[groups]:port` or `[groups%scope]:port`, and nothing around it. -/
def SocketAddr.parse? (s : String) : Option SocketAddr :=
  (Parser.whole Parser.socketV4 s).or (Parser.whole Parser.socketV6 s)

end PollReactor.Net
