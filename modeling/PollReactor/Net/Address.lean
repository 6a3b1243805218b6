namespace PollReactor.Net

structure Ipv4 where
  a : UInt8
  b : UInt8
  c : UInt8
  d : UInt8
  deriving DecidableEq, Repr

structure Ipv6 where
  groups : Vector UInt16 8
  deriving DecidableEq, Repr

inductive SocketAddr where
  | v4 (ip : Ipv4) (port : UInt16)
  | v6 (ip : Ipv6) (port : UInt16) (flow scope : UInt32)
  deriving DecidableEq, Repr

namespace Ipv4

def unspecified : Ipv4 := ⟨0, 0, 0, 0⟩

def loopback : Ipv4 := ⟨127, 0, 0, 1⟩

def text (ip : Ipv4) : String :=
  s!"{ip.a}.{ip.b}.{ip.c}.{ip.d}"

end Ipv4

namespace Ipv6

def mapped? (ip : Ipv6) : Option Ipv4 :=
  match ip.groups.toList with
  | [0, 0, 0, 0, 0, 0xFFFF, h, l] =>
    some ⟨(h >>> 8).toUInt8, h.toUInt8, (l >>> 8).toUInt8, l.toUInt8⟩
  | _ => none

def zeroRun (gs : List UInt16) : Nat :=
  (gs.takeWhile (· == 0)).length

/-- Start and length of the longest run of zero groups, the first of the longest ones. -/
def longestZeroRun (gs : List UInt16) : Nat × Nat :=
  (List.range gs.length).foldl (fun best i ↦
    let n := zeroRun (gs.drop i)
    if best.2 < n then (i, n) else best) (0, 0)

def groupText (g : UInt16) : String :=
  String.ofList (Nat.toDigits 16 g.toNat)

def groupsText (gs : List UInt16) : String :=
  ":".intercalate (gs.map groupText)

/-- Lower-case groups; the longest run of two or more zero groups is left out; an address that
stands for an IPv4 one ends in that. -/
def text (ip : Ipv6) : String :=
  match ip.mapped? with
  | some v4 => s!"::ffff:{v4.text}"
  | none =>
    let gs := ip.groups.toList
    let (start, n) := longestZeroRun gs
    if 1 < n then s!"{groupsText (gs.take start)}::{groupsText (gs.drop (start + n))}"
    else groupsText gs

end Ipv6

namespace SocketAddr

def unspecified : SocketAddr := .v4 .unspecified 0

/-- The flow label is never written, a scope only if it is not zero. -/
def text : SocketAddr → String
  | v4 ip port => s!"{ip.text}:{port}"
  | v6 ip port _ scope =>
    if scope = 0 then s!"[{ip.text}]:{port}" else s!"[{ip.text}%{scope}]:{port}"

def flow? : SocketAddr → Option UInt32
  | v4 .. => none
  | v6 _ _ flow _ => some flow

def withFlow (flow : UInt32) : SocketAddr → SocketAddr
  | v4 ip port => v4 ip port
  | v6 ip port _ scope => v6 ip port flow scope

def withPort (port : UInt16) : SocketAddr → SocketAddr
  | v4 ip _ => v4 ip port
  | v6 ip _ flow scope => v6 ip port flow scope

end SocketAddr

end PollReactor.Net
