import PollReactor.Kernel
import PollReactor.Net.SockName
import PollReactor.Simulation.Fault

namespace PollReactor.Simulation

inductive Object where
  | pipeReader (pipe : Nat)
  | pipeWriter (pipe : Nat)
  | socket (name : Bytes) (listening : Bool)
  | stream (peer : Nat)
  deriving DecidableEq, Repr

structure Descriptor where
  object : Object
  statusFlags : Nat := 2
  flags : Nat := 0
  isOpen : Bool := true
  deriving DecidableEq, Repr

structure Peer where
  name : Bytes
  segments : List Bytes := []
  fin : Bool := false
  reset : Bool := false
  shut : Bool := false
  urgent : Option UInt8 := none
  window : Option Nat := none
  taken : Bytes := []
  fd : Option Fd := none
  deriving DecidableEq, Repr

inductive Target where
  | peer (i : Nat)
  | listener
  | waker
  deriving DecidableEq, Repr

structure World where
  descriptors : Array Descriptor := #[]
  pipes : List Nat := []
  peers : Array Peer := #[]
  pending : List Nat := []
  faults : List Fault := []
  clock : Nat := 0
  nextPort : Nat := 40000
  /-- Bits to be reported by the next wait, whatever the state. -/
  forced : List (Target × UInt16) := []

namespace World

def firstFd : Int := 1000

variable (w : World)

def descriptor? (fd : Fd) : Option Descriptor :=
  if fd < firstFd then none else w.descriptors[(fd - firstFd).toNat]?

def openDescriptor? (fd : Fd) : Option Descriptor :=
  (w.descriptor? fd).filter (·.isOpen)

def object? (fd : Fd) : Option Object := (w.openDescriptor? fd).map (·.object)

def setDescriptor (fd : Fd) (d : Descriptor) : World :=
  { w with descriptors := w.descriptors.setIfInBounds (fd - firstFd).toNat d }

def create (object : Object) : Fd × World :=
  (firstFd + w.descriptors.size, { w with descriptors := w.descriptors.push { object } })

def setPeer (i : Nat) (p : Peer) : World :=
  { w with peers := w.peers.setIfInBounds i p }

def peerOf? (fd : Fd) : Option (Nat × Peer) := do
  match (← w.openDescriptor? fd).object with
  | .stream i => return (i, ← w.peers[i]?)
  | _ => none

def struck {α : Type} (call : CallName) (peer : Option Nat) (zero : α)
    (act : World → Except Errno α × World) : Except Errno α × World :=
  match consult call peer w.faults with
  | (some (.fail e), faults) => (.error e, { w with faults })
  | (some .zero, faults) => (.ok zero, { w with faults })
  | (none, faults) => act { w with faults }

def onDescriptor {α : Type} (fd : Fd) (act : Descriptor → Except Errno α × World) :
    Except Errno α × World :=
  match w.openDescriptor? fd with
  | none => (.error .ebadf, w)
  | some d => act d

def assignPort (name : Bytes) : Bytes × World :=
  if Net.SockNameFormat.portOf name = 0 then
    (Net.SockNameFormat.withPort name w.nextPort, { w with nextPort := w.nextPort + 1 })
  else (name, w)

def bindName (fd : Fd) (name : Bytes) (d : Descriptor) : World :=
  let (name, w) := w.assignPort name
  w.setDescriptor fd { d with object := .socket name false }

def listen (fd : Fd) (d : Descriptor) : World :=
  match d.object with
  | .socket name _ => w.setDescriptor fd { d with object := .socket name true }
  | _ => w

def acceptNext (fd : Fd) : Except Errno (Fd × Bytes) × World :=
  w.onDescriptor fd fun _ ↦
    match w.pending with
    | [] => (.error .eagain, w)
    | i :: rest =>
      match w.peers[i]? with
      | none => (.error .eagain, w)
      | some p =>
        let (client, w) := { w with pending := rest }.create (.stream i)
        (.ok (client, p.name), w.setPeer i { p with fd := some client })

def pipeRead (fd : Fd) (room : Nat) : Except Errno Nat × World :=
  match w.object? fd with
  | some (.pipeReader i) =>
    let held := w.pipes.getD i 0
    if held = 0 then (.error .eagain, w)
    else
      let n := min room held
      (.ok n, { w with pipes := w.pipes.set i (held - n) })
  | _ => (.error .ebadf, w)

def pipeWrite (fd : Fd) (bs : Bytes) : Except Errno Nat × World :=
  match w.object? fd with
  | some (.pipeWriter i) =>
    (.ok bs.length, { w with pipes := w.pipes.set i (w.pipes.getD i 0 + bs.length) })
  | _ => (.error .ebadf, w)

/-- Bytes of the first segment only. -/
def receive (i : Nat) (p : Peer) (room : Nat) :
    Except Errno { bs : Bytes // bs.length ≤ room } × World :=
  match p.segments with
  | segment :: rest =>
    let left := segment.drop room
    (.ok ⟨segment.take room, List.length_take_le ..⟩,
      w.setPeer i { p with segments := if left = [] then rest else left :: rest })
  | [] =>
    if p.reset then (.error .econnreset, w)
    else if p.fin || p.shut then (.ok ⟨[], Nat.zero_le _⟩, w)
    else (.error .eagain, w)

def receiveUrgent (i : Nat) (p : Peer) : Except Errno (Option UInt8) × World :=
  match p.urgent with
  | none => (.error .einval, w)
  | some b => (.ok (some b), w.setPeer i { p with urgent := none })

def send (i : Nat) (p : Peer) (bs : Bytes) : Except Errno { n : Nat // n ≤ bs.length } × World :=
  if p.reset || p.shut then (.error .epipe, w)
  else
    match p.window with
    | none =>
      (.ok ⟨bs.length, Nat.le_refl _⟩, w.setPeer i { p with taken := p.taken ++ bs })
    | some credit =>
      if credit = 0 then (.error .eagain, w)
      else
        let n := min bs.length credit
        (.ok ⟨n, Nat.min_le_left ..⟩,
          w.setPeer i { p with taken := p.taken ++ bs.take n, window := some (credit - n) })

def shutdown (i : Nat) (p : Peer) : Except Errno Unit × World :=
  if p.reset then (.error .enotconn, w)
  else (.ok (), w.setPeer i { p with shut := true })

def close (fd : Fd) : Except Errno Unit × World :=
  w.onDescriptor fd fun d ↦ (.ok (), w.setDescriptor fd { d with isOpen := false })

def answer : (call : SysCall) → World → call.Answer × World
  | .socket _, w => w.struck .socket none 0 fun w ↦
    let (fd, w) := w.create (.socket [] false)
    (.ok fd, w)
  | .pipe, w => w.struck .pipe none (-1, -1) fun w ↦
    let i := w.pipes.length
    let (receiver, w) := { w with pipes := w.pipes ++ [0] }.create (.pipeReader i)
    let (sender, w) := w.create (.pipeWriter i)
    (.ok (receiver, sender), w)
  | .statusFlags fd, w => w.struck .fcntl none 0 fun w ↦
    w.onDescriptor fd fun d ↦ (.ok d.statusFlags, w)
  | .setStatusFlags fd flags, w => w.struck .fcntl none () fun w ↦
    w.onDescriptor fd fun d ↦ (.ok (), w.setDescriptor fd { d with statusFlags := flags })
  | .descriptorFlags fd, w => w.struck .fcntl none 0 fun w ↦
    w.onDescriptor fd fun d ↦ (.ok d.flags, w)
  | .setDescriptorFlags fd flags, w => w.struck .fcntl none () fun w ↦
    w.onDescriptor fd fun d ↦ (.ok (), w.setDescriptor fd { d with flags })
  | .setNonblocking fd, w => w.struck .ioctl none () fun w ↦
    w.onDescriptor fd fun d ↦
      (.ok (), w.setDescriptor fd { d with statusFlags := d.statusFlags ||| 2048 })
  | .setOption fd .., w => w.struck .setsockopt none () fun w ↦
    w.onDescriptor fd fun _ ↦ (.ok (), w)
  | .bind fd name, w => w.struck .bind none () fun w ↦
    w.onDescriptor fd fun d ↦ (.ok (), w.bindName fd name d)
  | .listen fd _, w => w.struck .listen none () fun w ↦
    w.onDescriptor fd fun d ↦ (.ok (), w.listen fd d)
  | .localName fd, w => w.struck .getsockname none [] fun w ↦
    w.onDescriptor fd fun d ↦
      match d.object with
      | .socket name _ => (.ok name, w)
      | _ => (.error .einval, w)
  | .accept fd, w => w.struck .accept none (0, []) (·.acceptNext fd)
  | .read fd room, w => w.struck .read none 0 (·.pipeRead fd room)
  | .write fd bs, w => w.struck .write none 0 (·.pipeWrite fd bs)
  | .recv fd room, w =>
    match w.peerOf? fd with
    | none => (.error .ebadf, w)
    | some (i, p) => w.struck .recv (some i) ⟨[], Nat.zero_le _⟩ (·.receive i p room)
  | .recvUrgent fd, w =>
    match w.peerOf? fd with
    | none => (.error .ebadf, w)
    | some (i, p) => w.struck .recvOob (some i) none (·.receiveUrgent i p)
  | .send fd bs, w =>
    match w.peerOf? fd with
    | none => (.error .ebadf, w)
    | some (i, p) => w.struck .send (some i) ⟨0, Nat.zero_le _⟩ (·.send i p bs)
  | .shutdown fd, w =>
    match w.peerOf? fd with
    | none => (.error .ebadf, w)
    | some (i, p) => w.struck .shutdown (some i) () (·.shutdown i p)
  | .close fd, w => w.close fd
  | .clock, w => (w.clock, w)

end World

end PollReactor.Simulation
