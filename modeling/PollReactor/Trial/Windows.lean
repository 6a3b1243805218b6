import PollReactor.Simulation.WinWorld
import PollReactor.WinSock.Multiplexer

namespace PollReactor.Trial

open Simulation WinSock

inductive WinOp where
  | parse (text : String)
  | decode (raw : Bytes)
  | socket (family : Int)
  | setNonblocking (s : Fd)
  | allowReuse (s : Fd)
  | allowIpv4 (s : Fd) (family : Int)
  | bind (s : Fd) (text : String)
  | listen (s : Fd) (backlog : Int)
  | shutdown (s : Fd) (how : Direction)
  | localAddr (s : Fd)
  | accept (s : Fd)
  | recv (s : Fd) (room : Nat)
  | recvUrgent (s : Fd)
  | send (s : Fd) (bs : Bytes)
  | close (s : Fd)
  | make
  | drop
  | clear
  | register (s : Fd) (token : Nat) (i : Interest)
  | wait (timeout : Nat)
  | wake
  | reset
  | isSignaled
  | reply (call : String) (r : WinReply)
  deriving DecidableEq, Repr

inductive WinTold where
  | nothing
  | ok
  | socket (s : Fd)
  | accepted (s : Fd) (peer : Net.SocketAddr)
  | address (a : Net.SocketAddr)
  | name (family : Nat) (raw : Bytes) (back : Net.SocketAddr)
  | bytes (bs : Bytes)
  | urgent (b : Option UInt8)
  | count (n : Nat)
  | pair (receiver sender : Fd)
  | waited (result : Except IoError Nat) (events : List Event)
  | flag (b : Bool)
  | failed (e : IoError)
  | noMultiplexer

structure WinState where
  win : Win WinWorld
  multiplexer : Option Multiplexer

abbrev WinTrialM := StateM WinState

namespace WinTrialM

def run {α : Type} (act : WinM WinWorld α) : WinTrialM α := fun s ↦
  let (a, win) := act s.win
  (a, { s with win })

def report {α : Type} (act : WinExcept WinWorld α) (told : α → WinTold) : WinTrialM WinTold := do
  match ← run act.run with
  | .ok a => return told a
  | .error e => return .failed e

def withMultiplexer (act : Multiplexer → WinTrialM WinTold) : WinTrialM WinTold := do
  match (← get).multiplexer with
  | none => return .noMultiplexer
  | some m => act m

def setMultiplexer (m : Option Multiplexer) : WinTrialM Unit :=
  modify ({ · with multiplexer := m })

def dropMultiplexer : WinTrialM Unit := do
  match (← get).multiplexer with
  | none => return
  | some m =>
    setMultiplexer none
    run m.dispose

def makeMultiplexer : WinTrialM WinTold := do
  match ← run Multiplexer.make.run with
  | .error e => return .failed e
  | .ok m =>
    dropMultiplexer
    setMultiplexer (some m)
    return .pair m.waker.receiver m.waker.sender

def change (act : Multiplexer → WinM WinWorld Multiplexer) : WinTrialM WinTold :=
  withMultiplexer fun m ↦ do
    setMultiplexer (some (← run (act m)))
    return .nothing

def named (text : String) : WinExcept WinWorld (Nat × Bytes × Net.SocketAddr) := do
  let (family, raw) ← ExceptT.mk (return parseName text)
  return (family, raw, ← decodeName raw)

def bindTo (s : Fd) (text : String) : WinExcept WinWorld Unit := do
  let (_, raw) ← ExceptT.mk (return parseName text)
  WinSock.bind s raw

def perform : WinOp → WinTrialM WinTold
  | .parse text => report (named text) fun (family, raw, back) ↦ .name family raw back
  | .decode raw => report (decodeName raw) .address
  | .socket family => report (openSocket family) .socket
  | .setNonblocking s => report (WinSock.setNonblocking s) fun () ↦ .ok
  | .allowReuse s => report (WinSock.allowReuse s) fun () ↦ .ok
  | .allowIpv4 s family => report (WinSock.allowIpv4 s family) fun () ↦ .ok
  | .bind s text => report (bindTo s text) fun () ↦ .ok
  | .listen s backlog => report (WinSock.listen s backlog) fun () ↦ .ok
  | .shutdown s how => report (WinSock.shutdown s how) fun () ↦ .ok
  | .localAddr s => report (WinSock.localAddr s) .address
  | .accept s => report (WinSock.accept s) fun (client, peer) ↦ .accepted client peer
  | .recv s room => report (WinSock.recv s room) .bytes
  | .recvUrgent s => report (WinSock.recvUrgent s) .urgent
  | .send s bs => report (WinSock.send s bs) .count
  | .close s => do
    run (WinSock.close s)
    return .nothing
  | .make => makeMultiplexer
  | .drop => do
    dropMultiplexer
    return .nothing
  | .clear => change fun m ↦ return m.clear
  | .register s token i => change fun m ↦ return m.register s token i
  | .wait timeout => withMultiplexer fun m ↦ do
    let (result, events) ← run (m.wait timeout [])
    return .waited result events
  | .wake => change Multiplexer.wake
  | .reset => change Multiplexer.reset
  | .isSignaled => withMultiplexer fun m ↦ return .flag m.waker.signaled
  | .reply call r => do
    modify fun s ↦ { s with win.machine.replies := s.win.machine.replies ++ [(call, r)] }
    return .nothing

def performAll : List WinOp → WinTrialM (List WinTold)
  | [] => return []
  | op :: ops => do
    let told ← perform op
    return told :: (← performAll ops)

end WinTrialM

inductive WinField where
  | text (s : String)
  | number (n : Int)
  | watched (list : List (Fd × UInt16))

structure WinLine where
  name : String
  args : List WinField
  returned : Except Errno Int

def Direction.number : Direction → Nat
  | .read => 0
  | .write => 1
  | .both => 2

def nonblockingRequest : Int := -2147195266

namespace WinLine

def nat (n : Nat) : WinField := .number n

def hex (bs : Bytes) : WinField := .text (Bytes.toHex bs)

def argsOf : WinCall → List WinField
  | .socket family => [.number family, nat 1, nat 0]
  | .datagramSocket => [nat 2, nat 2, nat 17, nat 0, nat 0]
  | .setNonblocking s => [.number s, .number nonblockingRequest, nat 1]
  | .bind s name => [.number s, hex name]
  | .connect s name => [.number s, hex name]
  | .listen s backlog => [.number s, .number backlog]
  | .setOption s level option value =>
    [.number s, nat level, nat option, hex (Bytes.littleEndian 4 value)]
  | .localName s room => [.number s, nat room]
  | .accept s room => [.number s, nat room]
  | .shutdown s how => [.number s, nat (Direction.number how)]
  | .closeSocket s => [.number s]
  | .recv s room urgent => [.number s, nat room, nat urgent.toNat]
  | .send s bs => [.number s, hex bs, nat 0]
  | .poll fds timeout => [.watched (fds.map fun e ↦ (e.fd, e.events)), nat timeout]

def returnedBy : (call : WinCall) → call.Result → Int
  | .socket _, s | .datagramSocket, s => s
  | .setNonblocking _, _ | .bind .., _ | .connect .., _ | .listen .., _ | .setOption .., _
  | .localName .., _ | .shutdown .., _ | .closeSocket _, _ => 0
  | .accept .., (client, _) => client
  | .recv .., bs => bs.1.length
  | .send .., n => n
  | .poll .., (n, _) => n

def ofEntry (e : WinEntry) : WinLine where
  name := e.call.name
  args := argsOf e.call
  returned := (e.answer.map (returnedBy e.call)).elim (.error e.lastError) .ok

end WinLine

structure WinReport where
  told : List WinTold
  trace : List WinLine
  stillOpen : List Fd

def winTrial (replies : List (String × WinReply)) (ops : List WinOp) : WinReport :=
  let trial : WinTrialM (List WinTold) := do
    let told ← WinTrialM.performAll ops
    WinTrialM.dropMultiplexer
    return told
  let (told, s) := trial ⟨⟨{ replies }, []⟩, none⟩
  ⟨told, s.win.journal.reverse.map .ofEntry, s.win.machine.openSockets⟩

end PollReactor.Trial
