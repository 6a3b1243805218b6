import PollReactor.PollSet

namespace PollReactor

inductive Direction where
  | read
  | write
  | both
  deriving DecidableEq, Repr

inductive WinCall where
  | socket (family : Int)
  | datagramSocket
  | setNonblocking (s : Fd)
  | bind (s : Fd) (name : Bytes)
  | connect (s : Fd) (name : Bytes)
  | listen (s : Fd) (backlog : Int)
  | setOption (s : Fd) (level option value : Nat)
  | localName (s : Fd) (room : Nat)
  | accept (s : Fd) (room : Nat)
  | shutdown (s : Fd) (how : Direction)
  | closeSocket (s : Fd)
  | recv (s : Fd) (room : Nat) (urgent : Bool)
  | send (s : Fd) (bs : Bytes)
  | poll (fds : List PollFd) (timeout : Nat)
  deriving DecidableEq, Repr

def WinCall.name : WinCall → String
  | socket _ => "socket"
  | datagramSocket => "WSASocketW"
  | setNonblocking _ => "ioctlsocket"
  | bind .. => "bind"
  | connect .. => "connect"
  | listen .. => "listen"
  | setOption .. => "setsockopt"
  | localName .. => "getsockname"
  | accept .. => "accept"
  | shutdown .. => "shutdown"
  | closeSocket _ => "closesocket"
  | recv .. => "recv"
  | send .. => "send"
  | poll .. => "WSAPoll"

@[reducible]
def WinCall.Result : WinCall → Type
  | socket _ => Fd
  | datagramSocket => Fd
  | setNonblocking _ => Unit
  | bind .. => Unit
  | connect .. => Unit
  | listen .. => Unit
  | setOption .. => Unit
  | localName .. => Bytes
  | accept .. => Fd × Bytes
  | shutdown .. => Unit
  | closeSocket _ => Unit
  | recv _ room _ => { bs : Bytes // bs.length ≤ room }
  | send .. => Nat
  | poll .. => Nat × List UInt16

/-- A machine that answers calls of Windows sockets. It finds more bytes on a socket that was just
read only finitely often in a row. -/
class WinSock (ω : Type) where
  /-- A call that fails gives nothing. -/
  answer : (call : WinCall) → ω → Option call.Result × ω
  /-- The code of what went wrong last. Any call may change it. -/
  lastError : ω → Errno
  patience : ω → Nat
  recv_found : ∀ {s room urgent w w'} {bs : { bs : Bytes // bs.length ≤ room }},
    answer (.recv s room urgent) w = (some bs, w') → bs.1 ≠ [] → patience w' < patience w

structure WinEntry where
  call : WinCall
  answer : Option call.Result
  lastError : Errno

structure Win (ω : Type) where
  machine : ω
  journal : List WinEntry

namespace Win

variable {ω : Type} [WinSock ω]

def call (c : WinCall) (w : Win ω) : Option c.Result × Win ω :=
  let (a, machine) := WinSock.answer c w.machine
  (a, ⟨machine, ⟨c, a, WinSock.lastError machine⟩ :: w.journal⟩)

def lastError (w : Win ω) : Errno := WinSock.lastError w.machine

end Win

abbrev WinM (ω : Type) := StateM (Win ω)

abbrev WinExcept (ω : Type) := ExceptT IoError (StateM (Win ω))

end PollReactor
