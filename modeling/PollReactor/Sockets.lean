import PollReactor.Kernel
import PollReactor.Net.Address.Parser
import PollReactor.Net.SockName

namespace PollReactor.Sockets

open Net

variable {κ μ : Type} [Kernel κ]

def nonblockingFlag : Nat := 2048

def closeOnExecFlag : Nat := 1

def backlog : Nat := 128

def socketLevel : Nat := 1

def reuseAddress : Nat := 2

def ipv6Level : Nat := 41

def ipv6Only : Nat := 26

def setNonblocking (fd : Fd) : OsExcept κ μ Unit := do
  let flags ← demand (sys (.statusFlags fd))
  demand (sys (.setStatusFlags fd (flags ||| nonblockingFlag)))

def setCloseOnExec (fd : Fd) : OsExcept κ μ Unit := do
  let flags ← demand (sys (.descriptorFlags fd))
  demand (sys (.setDescriptorFlags fd (flags ||| closeOnExecFlag)))

def configure (fd : Fd) : OsExcept κ μ Unit := do
  setNonblocking fd
  setCloseOnExec fd

def openPipe : OsExcept κ μ (Fd × Fd) := do
  let (receiver, sender) ← demand (sys .pipe)
  closingOnError [receiver, sender] do
    configure receiver
    configure sender
  return (receiver, sender)

def openSocket (family : Nat) : OsExcept κ μ Fd := do
  let fd ← demand (sys (.socket family))
  closingOnError [fd] (configure fd)
  return fd

def allowIpv4 (fd : Fd) (family : Nat) : OsExcept κ μ Unit :=
  if family = SockNameFormat.posix.inet6 then demand (sys (.setOption fd ipv6Level ipv6Only 0))
  else return

def listenOn (text : String) : OsExcept κ μ Fd := do
  let some addr := SocketAddr.parse? text | throw .invalidAddress
  let family := SockNameFormat.posix.family addr
  let fd ← openSocket family
  closingOnError [fd] do
    demand (sys (.setOption fd socketLevel reuseAddress 1))
    allowIpv4 fd family
    demand (sys (.bind fd (SockNameFormat.posix.encode addr)))
    demand (sys (.listen fd backlog))
  return fd

/-- Takes over a socket that listens already. If it stays blocking, only `accept` will wait. -/
def adopt (fd : Fd) : OsM κ μ Fd := do
  let _ ← (setNonblocking fd).run
  return fd

/-- Takes over a socket that listens already and is owned until then by another part of the program,
which closes it, after a look at whether it is open, if it cannot be made non-blocking. -/
def adoptOwned (fd : Fd) : OsExcept κ μ Fd :=
  fun o ↦
    match demand (sys (.setNonblocking fd)) o with
    | (.ok (), o) => (.ok fd, o)
    | (.error e, o) =>
      let (_, o) := Os.call (.descriptorFlags fd) o
      let (_, o) := Os.call (.close fd) o
      (.error e, o)

def decodeName (name : Bytes) : OsExcept κ μ SocketAddr :=
  ExceptT.mk (return SockNameFormat.posix.decode name)

def localAddr (fd : Fd) : OsExcept κ μ SocketAddr := do
  decodeName (← demand (sys (.localName fd)))

def accept (fd : Fd) : OsExcept κ μ (Fd × SocketAddr) := do
  let (client, name) ← demand (sys (.accept fd))
  closingOnError [client] (configure client)
  let peer ← closingOnError [client] (decodeName name)
  return (client, peer)

end PollReactor.Sockets
