import PollReactor.Waker
import PollReactor.WinSock.Sockets

namespace PollReactor.WinSock

open Net

variable {ω : Type} [WinSock ω]

def ipv4NameBytes : Nat := 16

def anyLocalPort : SocketAddr := .v4 .loopback 0

def openDatagram : WinExcept ω Fd := do
  let s ← demand .datagramSocket
  closingOnError [s] (setNonblocking s)
  return s

def bindLocally (receiver : Fd) : WinExcept ω Bytes := do
  demand (.bind receiver (SockNameFormat.winsock.encode anyLocalPort))
  let name ← demand (.localName receiver ipv4NameBytes)
  return SockNameFormat.field name 0 ipv4NameBytes

def openPair : WinExcept ω (Fd × Fd) := do
  let receiver ← openDatagram
  let name ← closingOnError [receiver] (bindLocally receiver)
  let sender ← closingOnError [receiver] openDatagram
  closingOnError [receiver, sender] (demand (.connect sender name))
  return (receiver, sender)

structure Multiplexer where
  polled : PollSet
  waker : Waker
  deriving DecidableEq, Repr

namespace Multiplexer

def clear (m : Multiplexer) : Multiplexer :=
  { m with polled := .start .winsock m.waker.receiver }

def make : WinExcept ω Multiplexer := do
  let (receiver, sender) ← openPair
  return clear ⟨{}, ⟨receiver, sender, false⟩⟩

def register (m : Multiplexer) (s : Fd) (token : Nat) (i : Interest) : Multiplexer :=
  { m with polled := m.polled.register .winsock s token i }

def longestTimeout : Nat := 2147483647

def wait (m : Multiplexer) (timeout : Nat) : StateT (List Event) (WinM ω) (Except IoError Nat) :=
  fun events w ↦
    let (answer, w) := demand (.poll m.polled.fds (min timeout longestTimeout)) w
    (m.polled.settle .winsock answer events, w)

/-- Sends one datagram unless one was sent since the last reset. -/
def wake (m : Multiplexer) : WinM ω Multiplexer := do
  if m.waker.signaled then return m
  let _ ← Win.call (.send m.waker.sender [1])
  return { m with waker := { m.waker with signaled := true } }

/-- Receives until there is nothing more, or an empty datagram. -/
def drain (s : Fd) (w : Win ω) : Win ω :=
  match h : w.call (.recv s 64 false) with
  | (some bs, w') =>
    if hb : bs.1 = [] then w'
    else
      have : WinSock.patience w'.machine < WinSock.patience w.machine := by
        simp only [Win.call, Prod.mk.injEq] at h
        exact WinSock.recv_found (Prod.ext h.1 (by rw [← h.2])) hb
      drain s w'
  | (none, w') => w'
termination_by WinSock.patience w.machine

def reset (m : Multiplexer) : WinM ω Multiplexer := fun w ↦
  ({ m with waker := { m.waker with signaled := false } }, drain m.waker.receiver w)

def dispose (m : Multiplexer) : WinM ω Unit := closeAll [m.waker.receiver, m.waker.sender]

end Multiplexer

end PollReactor.WinSock
