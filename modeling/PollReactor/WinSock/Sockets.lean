import PollReactor.Net.Address.Parser
import PollReactor.Net.SockName
import PollReactor.WinSock

namespace PollReactor.WinSock

open Net

variable {ω : Type} [WinSock ω]

def socketLevel : Nat := 65535

def reuseAddress : Nat := 4

def ipv6Level : Nat := 41

def ipv6Only : Nat := 27

def storageBytes : Nat := 128

def wouldBlock : Errno := ⟨10035⟩

def invalid : Errno := ⟨10022⟩

def notSocket : Errno := ⟨10038⟩

/-- Makes a call. If it fails, the error of the machine is read at once. -/
def demand (c : WinCall) : WinExcept ω c.Result := fun w ↦
  match w.call c with
  | (some a, w) => (.ok a, w)
  | (none, w) => (.error (.os w.lastError), w)

def closeAll : List Fd → WinM ω Unit
  | [] => return
  | s :: ss => do
    let _ ← Win.call (.closeSocket s)
    closeAll ss

def close (s : Fd) : WinM ω Unit := closeAll [s]

def closingOnError {α : Type} (ss : List Fd) (act : WinExcept ω α) : WinExcept ω α := fun w ↦
  match act w with
  | (.ok a, w) => (.ok a, w)
  | (.error e, w) => (.error e, (closeAll ss w).2)

def setNonblocking (s : Fd) : WinExcept ω Unit := demand (.setNonblocking s)

def openSocket (family : Int) : WinExcept ω Fd := do
  let s ← demand (.socket family)
  closingOnError [s] (setNonblocking s)
  return s

def allowReuse (s : Fd) : WinExcept ω Unit :=
  demand (.setOption s socketLevel reuseAddress 1)

def allowIpv4 (s : Fd) (family : Int) : WinExcept ω Unit :=
  if family = SockNameFormat.winsock.inet6 then
    demand (.setOption s ipv6Level ipv6Only 0)
  else return

def parseName (text : String) : Except IoError (Nat × Bytes) :=
  match SocketAddr.parse? text with
  | none => .error .invalidAddress
  | some addr => .ok (SockNameFormat.winsock.family addr, SockNameFormat.winsock.encode addr)

def decodeName (name : Bytes) : WinExcept ω SocketAddr :=
  ExceptT.mk (return SockNameFormat.winsock.decode name)

def bind (s : Fd) (name : Bytes) : WinExcept ω Unit := demand (.bind s name)

def listen (s : Fd) (backlog : Int) : WinExcept ω Unit := demand (.listen s backlog)

def localAddr (s : Fd) : WinExcept ω SocketAddr := do
  decodeName (← demand (.localName s storageBytes))

def accept (s : Fd) : WinExcept ω (Fd × SocketAddr) := do
  let (client, name) ← demand (.accept s storageBytes)
  let peer ← closingOnError [client] do
    setNonblocking client
    decodeName name
  return (client, peer)

def shutdown (s : Fd) (how : Direction) : WinExcept ω Unit :=
  demand (.shutdown s how)

def recv (s : Fd) (room : Nat) : WinExcept ω Bytes := do
  let bs ← demand (.recv s room false)
  return bs.1

def send (s : Fd) (bs : Bytes) : WinExcept ω Nat := demand (.send s bs)

/-- The urgent byte, if there is one. That there is none yet, or none any more, is no failure. -/
def recvUrgent (s : Fd) : WinExcept ω (Option UInt8) := fun w ↦
  match w.call (.recv s 1 true) with
  | (some bs, w) => (.ok bs.1.head?, w)
  | (none, w) =>
    let e := w.lastError
    if e = wouldBlock ∨ e = invalid then (.ok none, w) else (.error (.os e), w)

end PollReactor.WinSock
