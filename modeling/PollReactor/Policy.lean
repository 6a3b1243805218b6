import PollReactor.Connection.Draft
import PollReactor.Kernel

namespace PollReactor

/-- What an application asks of a reactor, in a callback or from outside. Connections are named by
their identifiers. -/
inductive Request where
  | conn (id : Nat) (op : ConnOp)
  | idleTime (id : Nat)
  | count
  | broadcast (bs : Bytes)
  | wakeup
  | cancel
  | isCancelled
  | clock
  deriving DecidableEq, Repr

@[reducible]
def Request.Answer : Request → Type
  | conn _ op => Option op.Answer
  | idleTime _ => Option Nat
  | count => Nat
  | broadcast _ => Nat
  | wakeup => Unit
  | cancel => Unit
  | isCancelled => Bool
  | clock => Nat

inductive Callback where
  /-- At least the low mark of input is there. -/
  | dataReceived (id : Nat)
  /-- Less than the low mark of output is left. -/
  | dataSent (id : Nat)
  | urgentReceived (id : Nat)
  | closed (id : Nat)
  | timedOut (id : Nat)
  | failed (id : Nat) (e : IoError)
  deriving DecidableEq, Repr

namespace Callback

def id : Callback → Nat
  | dataReceived id => id
  | dataSent id => id
  | urgentReceived id => id
  | closed id => id
  | timedOut id => id
  | failed id _ => id

def isTerminal : Callback → Bool
  | closed _ => true
  | timedOut _ => true
  | failed .. => true
  | _ => false

end Callback

/-- A sequence of requests, each depending on the answers so far, and of remarks for the journal. -/
inductive Script (ν α : Type) where
  | done (a : α)
  | ask (q : Request) (next : q.Answer → Script ν α)
  | say (v : ν) (next : Script ν α)

namespace Script

variable {ν α β : Type}

protected def bind : Script ν α → (α → Script ν β) → Script ν β
  | done a, f => f a
  | ask q next, f => ask q fun a ↦ (next a).bind f
  | say v next, f => say v (next.bind f)

instance : Monad (Script ν) where
  pure := done
  bind := Script.bind

def request (q : Request) : Script ν q.Answer := ask q done

def remark (v : ν) : Script ν Unit := say v (done ())

end Script

/-- The end of a script: a result or a panic, and what the application remembers. -/
abbrev Outcome (π α : Type) := Except Panic α × π

structure Policy (π ν : Type) where
  /-- A peer connected. The draft of the connection to keep it with, or `none` to refuse it. -/
  ready : Net.SocketAddr → ConnConfig → π → Script ν (Outcome π (Option Draft))
  heard : Callback → π → Script ν (Outcome π Unit)

namespace Policy

variable {ν : Type}

def standard : Policy Unit ν where
  ready _ config _ := do
    let now ← Script.request .clock
    return (.ok (Draft.make config now).toOption, ())
  heard
    | .failed id _, _ => do
      let _ ← Script.request (.conn id (.close true))
      return (.ok (), ())
    | _, _ => return (.ok (), ())

end Policy

inductive Mark (ν : Type) where
  | ready (peer : Net.SocketAddr)
  | admitted (id : Nat) (fd : Option Fd) (d : Draft)
  | callback (cb : Callback)
  | raised (p : Panic)
  | request (q : Request) (answer : q.Answer)
  | called (id : Nat) (before : Conn) (op : ConnOp)
  /-- A descriptor was handed over that was opened elsewhere in the program. -/
  | adopted (fd : Fd)
  | waits
  | said (v : ν)

end PollReactor
