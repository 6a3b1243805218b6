import PollReactor.Policy
import PollReactor.Readiness
import PollReactor.Sockets
import PollReactor.Waker

namespace PollReactor

structure Reactor (κ π ν : Type) where
  os : Os κ (Mark ν)
  app : π
  waker : Waker
  pool : Pool Stream
  listener : Option Fd
  idleLimit : Option Nat
  defaults : ConnConfig
  /-- Every connection ever admitted, in order: the one with identifier `n` is the `n`th. -/
  conns : Array Conn
  /-- The identifiers of the live connections, in order of admission. -/
  live : List Nat
  cancelled : Bool

abbrev ReactorM (κ π ν : Type) := StateM (Reactor κ π ν)

namespace Reactor

variable {κ π ν : Type} [Kernel κ]

def conn? (r : Reactor κ π ν) (id : Nat) : Option Conn :=
  if id = 0 then none else r.conns[id - 1]?

def setConn (r : Reactor κ π ν) (id : Nat) (c : Conn) : Reactor κ π ν :=
  { r with conns := r.conns.setIfInBounds (id - 1) c }

def system {α : Type} (act : OsM κ (Mark ν) α) : ReactorM κ π ν α := fun r ↦
  let (a, os) := act r.os
  (a, { r with os })

def systemExcept {α : Type} (act : OsExcept κ (Mark ν) α) :
    ReactorM κ π ν (Except IoError α) :=
  system act.run

def remark (m : Mark ν) : ReactorM κ π ν Unit :=
  modify fun r ↦ { r with os := r.os.note m }

def wake : ReactorM κ π ν Unit := do
  let waker ← system (← get).waker.wake
  modify fun r ↦ { r with waker }

def act : Effect → ReactorM κ π ν Unit
  | .shutdown fd => system (attempt (.shutdown fd))
  | .wake => wake

def actAll : List Effect → ReactorM κ π ν Unit
  | [] => return
  | e :: es => do
    act e
    actAll es

def callConn (id : Nat) (op : ConnOp) : ReactorM κ π ν (Option op.Answer) := do
  match (← get).conn? id with
  | none => return none
  | some c =>
    let (a, c', effects) := c.perform op
    modify (·.setConn id c')
    remark (.called id c op)
    actAll effects
    return some a

def writeAll (bs : Bytes) : List Nat → ReactorM κ π ν Nat
  | [] => return 0
  | id :: ids => do
    let accepted ← callConn id (.write bs)
    let n ← writeAll bs ids
    return (if accepted = some true then 1 else 0) + n

def respond : (q : Request) → ReactorM κ π ν q.Answer
  | .conn id op => callConn id op
  | .idleTime id => do
    match (← get).conn? id with
    | none => return none
    | some c => return some ((← system (sys .clock)) - c.lastActivity)
  | .count => return (← get).live.length
  | .broadcast bs => do writeAll bs (← get).live
  | .wakeup => wake
  | .cancel => do
    modify fun r ↦ { r with cancelled := true }
    wake
  | .isCancelled => return (← get).cancelled
  | .clock => system (sys .clock)

def request (q : Request) : ReactorM κ π ν q.Answer := do
  let a ← respond q
  remark (.request q a)
  return a

def runScript {α : Type} : Script ν α → ReactorM κ π ν α
  | .done a => return a
  | .ask q next => do runScript (next (← request q))
  | .say v next => do
    remark (.said v)
    runScript next

end Reactor

end PollReactor
