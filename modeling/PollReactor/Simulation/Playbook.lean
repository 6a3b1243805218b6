import PollReactor.Simulation.Act

namespace PollReactor.Simulation

inductive Welcome where
  | refuse
  | giveUp
  | keep (config : Option ConnConfig.Choice) (acts : List Act)

structure Playbook where
  /-- For one peer after the other; the last is for all further ones. -/
  ready : List Welcome := []
  dataReceived : List Act := []
  dataSent : List Act := []
  urgentReceived : List Act := []
  closed : List Act := []
  timedOut : List Act := []
  failed : List Act := []

inductive Note where
  | ready (peer : Net.SocketAddr) (capacity : Nat)
  | callback (cb : Callback) (available pending : Nat)
  | act (name : String) (result : ActResult)
  | invalid (f : Failure)

structure Memory where
  calls : Nat := 0
  admissions : Nat := 0
  known : List Nat := []

namespace Playbook

variable (b : Playbook)

def welcome (n : Nat) : Welcome :=
  (b.ready[n]?.or b.ready.getLast?).getD (.keep none [])

def acts : Callback → List Act
  | .dataReceived _ => b.dataReceived
  | .dataSent _ => b.dataSent
  | .urgentReceived _ => b.urgentReceived
  | .closed _ => b.closed
  | .timedOut _ => b.timedOut
  | .failed .. => b.failed

def play (known : List Nat) (id : Nat) : List Act → Script Note (Except Panic Unit)
  | [] => return .ok ()
  | act :: acts => do
    match ← act.script known id with
    | .error p => return .error p
    | .ok r =>
      Script.remark (.act act.name r)
      play known id acts

def meet (peer : Net.SocketAddr) (offered : ConnConfig) (m : Memory) :
    Script Note (Outcome Memory (Option Draft)) := do
  let welcome := b.welcome m.admissions
  let m := { m with calls := m.calls + 1, admissions := m.admissions + 1 }
  Script.remark (.ready peer offered.capacity)
  match welcome with
  | .refuse => return (.ok none, m)
  | .giveUp => return (.error policyPanic, m)
  | .keep choice acts =>
    match choice.elim (.ok offered) (·.config) with
    | .error p => return (.error p, m)
    | .ok config =>
      match Draft.make config (← Script.request .clock) with
      | .error f =>
        Script.remark (.invalid f)
        return (.ok none, m)
      | .ok d =>
        let (result, d) ← withDraft (play m.known draftId acts) d
        return (result.map fun () ↦ some d, m)

def hear (cb : Callback) (m : Memory) : Script Note (Outcome Memory Unit) := do
  let m := { m with calls := m.calls + 1, known := m.known.insert cb.id }
  match ← Script.request (.conn cb.id .status) with
  | none => return (.ok (), m)
  | some s =>
    Script.remark (.callback cb s.available s.pending)
    return (← play m.known cb.id (b.acts cb), m)

def policy : Policy Memory Note where
  ready := b.meet
  heard := b.hear

end Playbook

end PollReactor.Simulation
