import PollReactor.Error

namespace PollReactor.Simulation

inductive CallName where
  | socket
  | pipe
  | fcntl
  | ioctl
  | setsockopt
  | bind
  | listen
  | getsockname
  | accept
  | read
  | write
  | recv
  | recvOob
  | send
  | shutdown
  deriving DecidableEq, Repr

def CallName.table : List (String × CallName) :=
  [("socket", socket), ("pipe", pipe), ("fcntl", fcntl), ("ioctl", ioctl),
    ("setsockopt", setsockopt), ("bind", bind), ("listen", listen), ("getsockname", getsockname),
    ("accept", accept), ("read", read), ("write", write), ("recv", recv), ("recv_oob", recvOob),
    ("send", send), ("shutdown", shutdown)]

/-- How a call that was struck answers, without doing anything. -/
inductive Strike where
  | fail (e : Errno)
  | zero
  deriving DecidableEq, Repr

structure Fault where
  /-- The call it is meant for; none if that is one that faults do not reach. -/
  call : Option CallName
  peer : Option Nat
  strike : Strike
  skip : Nat
  times : Nat
  deriving DecidableEq, Repr

def Fault.concerns (f : Fault) (call : CallName) (peer : Option Nat) : Bool :=
  f.times ≠ 0 && f.call = some call && (f.peer.isNone || f.peer = peer)

def consult (call : CallName) (peer : Option Nat) : List Fault → Option Strike × List Fault
  | [] => (none, [])
  | f :: fs =>
    if f.concerns call peer then
      if f.skip = 0 then (some f.strike, { f with times := f.times - 1 } :: fs)
      else (none, { f with skip := f.skip - 1 } :: fs)
    else
      let (strike, fs) := consult call peer fs
      (strike, f :: fs)

def strikesLeft : List Fault → Nat
  | [] => 0
  | f :: fs => f.times + strikesLeft fs

theorem strikesLeft_consult (call : CallName) (peer : Option Nat) (fs : List Fault) :
    strikesLeft (consult call peer fs).2 +
      (if (consult call peer fs).1.isSome then 1 else 0) = strikesLeft fs := by
  induction fs with
  | nil => rfl
  | cons f fs ih =>
    unfold consult
    split
    next h =>
      have : f.times ≠ 0 := by
        simp only [Fault.concerns, Bool.and_eq_true, decide_eq_true_eq, ne_eq] at h
        exact h.1.1
      split
      · simp only [strikesLeft, Option.isSome_some, if_true]
        omega
      · simp [strikesLeft]
    · simp only [strikesLeft] at ih ⊢
      omega

end PollReactor.Simulation
