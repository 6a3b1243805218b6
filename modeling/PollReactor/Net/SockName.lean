import PollReactor.Bytes
import PollReactor.Error
import PollReactor.Net.Address

namespace PollReactor.Net

/-- What one system does with an address. -/
structure SockNameFormat where
  inet : Nat
  inet6 : Nat
  writesFlow : Bool
  readsFlowAndScope : Bool
  unsupported : String

namespace SockNameFormat

def posix : SockNameFormat where
  inet := 2
  inet6 := 10
  writesFlow := true
  readsFlowAndScope := true
  unsupported := "unsupported address family"

def winsock : SockNameFormat where
  inet := 2
  inet6 := 23
  writesFlow := false
  readsFlowAndScope := false
  unsupported := "unsupported family"

def family (f : SockNameFormat) : SocketAddr → Nat
  | .v4 .. => f.inet
  | .v6 .. => f.inet6

def encode (f : SockNameFormat) : SocketAddr → Bytes
  | .v4 ip port =>
    Bytes.littleEndian 2 f.inet ++ Bytes.bigEndian 2 port.toNat ++ [ip.a, ip.b, ip.c, ip.d] ++
      List.replicate 8 0
  | .v6 ip port flow scope =>
    Bytes.littleEndian 2 f.inet6 ++ Bytes.bigEndian 2 port.toNat ++
      Bytes.littleEndian 4 (if f.writesFlow then flow.toNat else 0) ++
      ip.groups.toList.flatMap (fun g ↦ Bytes.bigEndian 2 g.toNat) ++
      Bytes.littleEndian 4 scope.toNat

def field (name : Bytes) (i n : Nat) : Bytes :=
  (List.range n).map fun k ↦ name.getD (i + k) 0

def familyOf (name : Bytes) : Nat :=
  Bytes.ofLittleEndian (field name 0 2)

def portOf (name : Bytes) : UInt16 :=
  UInt16.ofNat (Bytes.ofBigEndian (field name 2 2))

def withPort (name : Bytes) (port : Nat) : Bytes :=
  name.take 2 ++ Bytes.bigEndian 2 port ++ name.drop 4

def ipv4Of (name : Bytes) : Ipv4 :=
  ⟨name.getD 4 0, name.getD 5 0, name.getD 6 0, name.getD 7 0⟩

def ipv6Of (name : Bytes) : Ipv6 :=
  ⟨Vector.ofFn fun i ↦ UInt16.ofNat (Bytes.ofBigEndian (field name (8 + 2 * i) 2))⟩

def wordOf (name : Bytes) (i : Nat) : UInt32 :=
  UInt32.ofNat (Bytes.ofLittleEndian (field name i 4))

def decode (f : SockNameFormat) (name : Bytes) : Except IoError SocketAddr :=
  if familyOf name = f.inet then .ok (.v4 (ipv4Of name) (portOf name))
  else if familyOf name = f.inet6 then
    if f.readsFlowAndScope then
      .ok (.v6 (ipv6Of name) (portOf name) (wordOf name 4) (wordOf name 24))
    else .ok (.v6 (ipv6Of name) (portOf name) 0 0)
  else .error (.custom .invalidData f.unsupported)

end SockNameFormat

end PollReactor.Net
