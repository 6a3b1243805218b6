import PollReactor.Net.Address.Parser
import PollReactor.Simulation.World

namespace PollReactor.Simulation

inductive Happening where
  | connect (text : String) (flow : Option UInt32)
  | send (peer : Nat) (bs : Bytes)
  | finish (peer : Nat)
  | reset (peer : Nat)
  | urgent (peer : Nat) (b : UInt8)
  | window (peer : Nat) (credit : Option Nat)
  | drain (peer : Nat)
  | fault (f : Fault)
  /-- The next report of a descriptor has these bits in any case. -/
  | force (target : Target) (bits : UInt16)
  | advance (ms : Nat)
  deriving DecidableEq, Repr

inductive PeerState where
  | pending
  | accepted
  | shut
  | closed
  deriving DecidableEq, Repr

inductive Told where
  | nothing
  | peer (i : Nat)
  | drained (bs : Bytes) (state : PeerState)
  deriving DecidableEq, Repr

def localName : Bytes := [1, 0]

def nameOf (text : String) (flow : Option UInt32) : Option Bytes :=
  if text = "unix" then some localName
  else do
    let addr ← Net.SocketAddr.parse? text
    return Net.SockNameFormat.posix.encode (flow.elim addr addr.withFlow)

namespace World

variable (w : World)

def peerState (p : Peer) : PeerState :=
  match p.fd with
  | none => .pending
  | some fd =>
    if (w.openDescriptor? fd).isNone then .closed else if p.shut then .shut else .accepted

def connect (name : Bytes) : Nat × World :=
  let i := w.peers.size
  (i, { w with peers := w.peers.push { name }, pending := w.pending ++ [i] })

def changePeer (i : Nat) (f : Peer → Peer) : Option (Told × World) := do
  let p ← w.peers[i]?
  return (.nothing, w.setPeer i (f p))

/-- Lets something happen. There is none of it if it names no peer, or no address. -/
def happen : Happening → Option (Told × World)
  | .connect text flow => do
    let (i, w) := w.connect (← nameOf text flow)
    return (.peer i, w)
  | .send i bs => w.changePeer i fun p ↦
    if bs = [] then p else { p with segments := p.segments ++ [bs] }
  | .finish i => w.changePeer i fun p ↦ { p with fin := true }
  | .reset i => w.changePeer i fun p ↦ { p with reset := true }
  | .urgent i b => w.changePeer i fun p ↦ { p with urgent := some b }
  | .window i credit => w.changePeer i fun p ↦ { p with window := credit }
  | .drain i => do
    let p ← w.peers[i]?
    return (.drained p.taken (w.peerState p), w.setPeer i { p with taken := [] })
  | .fault f => some (.nothing, { w with faults := w.faults ++ [f] })
  | .force target bits => some (.nothing, { w with forced := w.forced ++ [(target, bits)] })
  | .advance ms => some (.nothing, { w with clock := w.clock + ms })

def openFds : List Fd :=
  ((List.range w.descriptors.size).map fun (n : Nat) ↦ firstFd + n).filter fun fd ↦
    (w.openDescriptor? fd).isSome

def listening (name : Bytes) : Fd × World := w.create (.socket name true)

end World

end PollReactor.Simulation
