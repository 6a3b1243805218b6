import PollReactor.Readiness

namespace PollReactor

structure PollFd where
  fd : Fd
  events : UInt16
  deriving DecidableEq, Repr

/-- What a multiplexer waits with, filled anew before every wait. -/
structure PollSet where
  fds : List PollFd := []
  /-- The token of each entry, by place. -/
  tokens : List Nat := []
  deriving DecidableEq, Repr

namespace PollSet

variable (bits : PollBits) (p : PollSet)

def push (fd : Fd) (token : Nat) (i : Interest) : PollSet :=
  ⟨p.fds ++ [⟨fd, bits.request i⟩], p.tokens ++ [token]⟩

def start (receiver : Fd) : PollSet := push bits {} receiver wakeToken .readOnly

def register (fd : Fd) (token : Nat) (i : Interest) : PollSet :=
  if i.isEmpty then p else p.push bits fd token i

def collect (reported : List UInt16) : List Event :=
  ((p.fds.zip reported).zip p.tokens).filterMap fun ((_, word), token) ↦
    if word = 0 then none else some (.ofBits bits token word)

/-- What a wait makes of the answer of the system, and of the buffer of events, which is emptied
before anything else. -/
def settle (answer : Except IoError (Nat × List UInt16)) :
    StateM (List Event) (Except IoError Nat) := do
  set ([] : List Event)
  match answer with
  | .error e => return .error e
  | .ok (n, reported) =>
    modify (· ++ p.collect bits reported)
    return .ok n

end PollSet

end PollReactor
