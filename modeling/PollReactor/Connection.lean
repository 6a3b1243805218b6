import PollReactor.Connection.Channel
import PollReactor.Pool

namespace PollReactor

/-- A descriptor. Negative numbers are none. -/
abbrev Fd := Int

structure Stream where
  fd : Option Fd
  /-- Both directions were shut down; the descriptor is still open. -/
  shut : Bool
  deriving DecidableEq, Repr

namespace Stream

def empty : Stream := ⟨none, false⟩

def isConnected (s : Stream) : Bool := s.fd.isSome && !s.shut

end Stream

/-- A channel gets its identifier, peer and socket when a reactor admits it; the identifier of a
channel that was never admitted is zero. -/
structure Conn extends Channel where
  id : Nat
  peer : Net.SocketAddr
  socket : Option (Token Stream)

inductive Width where
  | one
  | two
  | four
  | eight
  deriving DecidableEq, Repr

def Width.bytes : Width → Nat
  | one => 1
  | two => 2
  | four => 4
  | eight => 8

inductive BatchOp where
  | write (bs : Bytes)
  | writeLine (s : String)
  | free
  | len
  | isEmpty
  | isConnected
  | close (immediate : Bool)
  deriving DecidableEq, Repr

inductive BatchAnswer where
  | flag (b : Bool)
  | count (n : Nat)
  | done
  deriving DecidableEq, Repr

inductive Release where
  | finish
  | cancel
  | drop
  | abandon
  deriving DecidableEq, Repr

def Release.wakes : Release → Bool
  | cancel => false
  | _ => true

structure Status where
  id : Nat
  peer : Net.SocketAddr
  available : Nat
  pending : Nat
  free : Nat
  readLow : Bool
  readHigh : Bool
  writeLow : Bool
  writeHigh : Bool
  urgent : Bool
  connected : Bool
  closing : Bool
  deriving DecidableEq, Repr

def Status.text (s : Status) : String :=
  "Connection \x7b " ++
    s!"id: {s.id}, peer_addr: {s.peer.text}, read_available: {s.available}, " ++
    s!"write_pending: {s.pending}, close_pending: {s.closing}" ++ " \x7d"

inductive ConnOp where
  | read (n : Nat) (fully : Bool)
  | peek (n : Nat)
  | readLine (most : Nat)
  | readUInt (w : Width)
  | readUrgent
  | write (bs : Bytes)
  | writeLine (s : String)
  | writeUInt (w : Width) (n : Nat)
  | batch (ops : List BatchOp) (release : Release)
  | close (immediate : Bool)
  | status
  deriving DecidableEq, Repr

@[reducible]
def ConnOp.Answer : ConnOp → Type
  | read .. => Bytes
  | peek _ => Bytes
  | readLine _ => Option String
  | readUInt _ => Option Nat
  | readUrgent => Option UInt8
  | write _ => Bool
  | writeLine _ => Bool
  | writeUInt .. => Bool
  | batch .. => List BatchAnswer
  | close _ => Unit
  | status => Status

inductive Effect where
  | shutdown (fd : Fd)
  | wake
  deriving DecidableEq, Repr

namespace Conn

variable (c : Conn)

def fd? : Option Fd := c.socket.bind (·.value.fd)

def isConnected : Bool := c.socket.any (·.value.isConnected)

def status : Status where
  id := c.id
  peer := c.peer
  available := c.input.len
  pending := c.output.len
  free := c.output.free
  readLow := c.isReadLow
  readHigh := c.isReadHigh
  writeLow := c.isWriteLow
  writeHigh := c.outputHigh
  urgent := c.urgent.isSome
  connected := c.isConnected
  closing := c.closePending

def shutdown : Conn × List Effect :=
  match c.socket with
  | none => (c, [])
  | some t =>
    match t.value.fd with
    | none => (c, [])
    | some fd =>
      if t.value.shut then (c, [])
      else ({ c with socket := some { t with value := { t.value with shut := true } } },
        [.shutdown fd])

/-- An immediate close shuts the socket down; any other waits until the output is sent. Either way
the reactor is to look at the connection. -/
def close (immediate : Bool) : Conn × List Effect :=
  if immediate then
    let (c, effects) := c.shutdown
    (c, effects ++ [.wake])
  else ({ c with closePending := true }, [.wake])

def wakeIf (b : Bool) : List Effect := if b then [.wake] else []

def withChannel (ch : Channel) : Conn := { c with toChannel := ch }

def consumed (ch : Channel) : Conn × List Effect :=
  (c.withChannel ch, wakeIf (ch.resumedSince c.toChannel))

def queued (accepted : Bool) (ch : Channel) : Conn × List Effect :=
  (c.withChannel ch, wakeIf accepted)

def batchOp : BatchOp → BatchAnswer × Conn × List Effect
  | .write bs =>
    let (b, ch) := c.toChannel.write bs
    (.flag b, c.withChannel ch, [])
  | .writeLine s =>
    let (b, ch) := c.toChannel.writeLine s
    (.flag b, c.withChannel ch, [])
  | .free => (.count c.output.free, c, [])
  | .len => (.count c.output.len, c, [])
  | .isEmpty => (.flag c.output.isEmpty, c, [])
  | .isConnected => (.flag c.isConnected, c, [])
  | .close immediate => (.done, c.close immediate)

def batchOps : Conn → List BatchOp → List BatchAnswer × Conn × List Effect
  | c, [] => ([], c, [])
  | c, op :: ops =>
    let (a, c, effects) := c.batchOp op
    let (as, c, more) := batchOps c ops
    (a :: as, c, effects ++ more)

def perform (c : Conn) : (op : ConnOp) → op.Answer × Conn × List Effect
  | .read n fully =>
    let (bs, ch) := c.toChannel.read n fully
    (bs, c.consumed ch)
  | .peek n => (c.input.peek n, c, [])
  | .readLine most =>
    let (line, ch) := c.toChannel.readLine most
    (line, c.consumed ch)
  | .readUInt w =>
    let (n, ch) := c.toChannel.readUInt w.bytes
    (n, c.consumed ch)
  | .readUrgent =>
    let (b, ch) := c.toChannel.takeUrgent
    (b, c.withChannel ch, wakeIf b.isSome)
  | .write bs =>
    let (b, ch) := c.toChannel.write bs
    (b, c.queued b ch)
  | .writeLine s =>
    let (b, ch) := c.toChannel.writeLine s
    (b, c.queued b ch)
  | .writeUInt w n =>
    let (b, ch) := c.toChannel.writeUInt w.bytes n
    (b, c.queued b ch)
  | .batch ops release =>
    let (as, c, effects) := c.batchOps ops
    (as, c, effects ++ wakeIf release.wakes)
  | .close immediate => ((), c.close immediate)
  | .status => (c.status, c, [])

end Conn

end PollReactor
