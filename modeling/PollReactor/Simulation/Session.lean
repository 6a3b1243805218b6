import PollReactor.Reactor.Builder
import PollReactor.Reactor.Setup
import PollReactor.Simulation.Kernel
import PollReactor.Simulation.Peers
import PollReactor.Simulation.Readiness
import PollReactor.Simulation.Trace

namespace PollReactor.Simulation

inductive Call where
  | acts (id : Nat) (acts : List Act)
  | wakeup
  | broadcast (bs : Bytes)
  | count
  | cancel
  | isCancelled
  deriving Repr

inductive Listening where
  | fd (fd : Fd)
  | name (text : String) (flow : Option UInt32)
  deriving DecidableEq, Repr

inductive Command where
  | bind (text : String)
  | listen (text : String)
  /-- `owned` if another part of the program owns the socket until then. -/
  | adopt (socket : Listening) (owned : Bool)
  | localAddr
  | call (c : Call)
  | cleanup
  | policyCalls
  | policyReset
  deriving Repr

inductive Action where
  | happening (h : Happening)
  | call (c : Call)
  | command (c : Command)
  | run
  | wait (failure : Option Errno)
  | unknown
  deriving Repr

structure Step where
  label : String
  action : Action
  deriving Repr

structure WaitReport where
  set : List (Fd × UInt16)
  timeout : Nat
  ready : List (Fd × UInt16)
  deriving DecidableEq, Repr

inductive Result where
  | nothing
  | number (n : Nat)
  | flag (b : Bool)
  | text (s : String)
  | drained (bs : Bytes) (state : PeerState)
  | acts (rs : List ActResult)
  | waited (w : WaitReport)
  | failure (f : Failure)
  | panic (p : Panic)
  | running
  | notRunning
  | unknownConnection
  | malformed

namespace Result

def ofExcept {α : Type} (ok : α → Result) : Except Failure α → Result
  | .ok a => ok a
  | .error f => failure f

def done : Except Failure Unit → Result := ofExcept fun () ↦ text "ok"

def address : Except Failure Net.SocketAddr → Result := ofExcept fun a ↦ text a.text

def ended : Except Halt Unit → Result
  | .ok () => text "ok"
  | .error (.failure f) => failure f
  | .error (.panic p) => panic p

def told : Told → Result
  | .nothing => nothing
  | .peer i => number i
  | .drained bs state => drained bs state

end Result

structure StepReport where
  label : String
  result : Result
  log : List Line

/-- A policy together with what a session wants to know of its memory. -/
structure Audience (π : Type) where
  policy : Policy π Note
  start : π
  known : π → List Nat
  calls : π → Option Nat
  resetCalls : π → π

namespace Audience

def standard : Audience Unit where
  policy := .standard
  start := ()
  known _ := []
  calls _ := none
  resetCalls := id

def ofPlaybook (b : Playbook) : Audience Memory where
  policy := b.policy
  start := {}
  known := Memory.known
  calls m := some m.calls
  resetCalls m := { m with calls := 0 }

end Audience

structure Session (π : Type) where
  reactor : Reactor World π Note
  blocked : Option Wait
  verbose : Bool
  reports : List StepReport

abbrev SessionM (π : Type) := StateM (Session π)

namespace Session

variable {π : Type}

def react {α : Type} (act : ReactorM World π Note α) : SessionM π α := fun s ↦
  let (a, reactor) := act s.reactor
  (a, { s with reactor })

def around {α : Type} (act : World → α × World) : SessionM π α := fun s ↦
  let (a, kernel) := act s.reactor.os.kernel
  (a, { s with reactor.os.kernel := kernel })

def record (label : String) (result : Result) : SessionM π Unit :=
  modify fun s ↦ { s with
    reactor.os.journal := []
    reports := ⟨label, result, traceOf s.verbose s.reactor.os.journal⟩ :: s.reports }

variable (a : Audience π)

def call : Call → SessionM π Result
  | .acts id acts => do
    let known := a.known (← get).reactor.app
    if id ∈ known then
      match ← react (Reactor.runScript (Act.scripts known id acts)) with
      | .ok rs => return .acts rs
      | .error p => return .panic p
    else return .unknownConnection
  | .wakeup => do
    react (Reactor.request .wakeup)
    return .nothing
  | .broadcast bs => return .number (← react (Reactor.request (.broadcast bs)))
  | .count => return .number (← react (Reactor.request .count))
  | .cancel => do
    react (Reactor.request .cancel)
    return .nothing
  | .isCancelled => return .flag (← react (Reactor.request .isCancelled))

def happen (h : Happening) : SessionM π Result := do
  match (← get).reactor.os.kernel.happen h with
  | none => return .malformed
  | some (told, kernel) =>
    around fun _ ↦ ((), kernel)
    return .told told

def listening : Listening → SessionM π (Option Fd)
  | .fd fd => return some fd
  | .name text flow =>
    match nameOf text flow with
    | none => return none
    | some name => return some (← around (·.listening name))

def command : Command → SessionM π Result
  | .bind text => return .address (← react (Reactor.bind text))
  | .listen text => return .done (← react (Reactor.listen text))
  | .adopt socket owned => do
    match ← listening socket with
    | none => return .malformed
    | some fd => return .done (← react (if owned then Reactor.adoptOwned fd else Reactor.adopt fd))
  | .localAddr => return .address (← react Reactor.localAddr)
  | .call c => call a c
  | .cleanup => do
    match ← react (Reactor.cleanup a.policy) with
    | .ok () => return .nothing
    | .error p => return .panic p
  | .policyCalls => return (a.calls (← get).reactor.app).elim .nothing .number
  | .policyReset => do
    modify fun s ↦ { s with reactor.app := a.resetCalls s.reactor.app }
    return .nothing

def settle (label : String) (result : Result) : Progress → SessionM π Unit
  | .waiting w => do
    record label result
    modify ({ · with blocked := some w })
  | .ended r => do
    record label result
    modify ({ · with blocked := none })
    record "run_end" (.ended r)

def watchedFds (list : WatchList) (words : List UInt16) : List (Fd × UInt16) :=
  (list.map (·.fd)).zip words

def endWait (label : String) (w : Wait) : SessionM π Unit := do
  let reported ← around (·.poll w.list Reactor.waitLimit)
  let result := .waited {
    set := watchedFds w.list (w.list.map (·.events))
    timeout := Reactor.waitLimit
    ready := (watchedFds w.list reported).filter (·.2 ≠ 0) }
  settle label result (← react (Reactor.resume a.policy w (.ok reported)))

def failWait (label : String) (w : Wait) (e : Errno) : SessionM π Unit := do
  settle label .nothing (← react (Reactor.resume a.policy w (.error e)))

def stepBlocked (w : Wait) (s : Step) : SessionM π Unit := do
  match s.action with
  | .happening h => record s.label (← happen h)
  | .call c => record s.label (← call a c)
  | .wait none => endWait a s.label w
  | .wait (some e) => failWait a s.label w e
  | .command _ | .run | .unknown => record s.label .running

def stepIdle (s : Step) : SessionM π Unit := do
  match s.action with
  | .happening h => record s.label (← happen h)
  | .call c => record s.label (← call a c)
  | .command c => record s.label (← command a c)
  | .run => settle s.label .nothing (← react (Reactor.start a.policy))
  | .wait _ => record s.label .notRunning
  | .unknown => record s.label .malformed

def step (s : Step) : SessionM π Unit := do
  match (← get).blocked with
  | some w => stepBlocked a w s
  | none => stepIdle a s

def steps : List Step → SessionM π Unit
  | [] => return
  | s :: rest => do
    step a s
    steps rest

/-- Cancels a run that still waits, and ends its wait. -/
def finish : SessionM π Unit := do
  match (← get).blocked with
  | none => return
  | some w =>
    react (Reactor.request .cancel)
    endWait a "end" w

end Session

structure PeerReport where
  got : Bytes
  closed : Bool
  deriving DecidableEq, Repr

structure SessionReport where
  steps : List StepReport
  dropped : List Fd
  stillOpen : List Fd
  peers : List PeerReport

def Session.close {π : Type} (s : Session π) : SessionReport :=
  let before := s.reactor.os.kernel.openFds
  let after := (Reactor.dispose s.reactor).2.os.kernel
  { steps := s.reports.reverse
    dropped := before.filter (· ∉ after.openFds)
    stillOpen := after.openFds
    peers := after.peers.toList.map fun p ↦ ⟨p.taken, after.peerState p = .closed⟩ }

end PollReactor.Simulation
