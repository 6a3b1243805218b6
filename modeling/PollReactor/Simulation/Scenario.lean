import PollReactor.Settings.Tree
import PollReactor.Simulation.Session

namespace PollReactor.Simulation

structure BuilderChoice where
  settings : Option (Settings.Tree × String) := none
  maxConnections : Option Nat := none
  idleLimit : Option Nat := none
  bufferCapacity : Option Nat := none
  connection : Option ConnConfig.Choice := none

namespace BuilderChoice

variable (c : BuilderChoice)

def base : Except Halt Builder :=
  match c.settings with
  | none => .ok {}
  | some (fields, name) =>
    match Settings.read fields name with
    | .error e => .error (.failure (.settings e))
    | .ok s => (Builder.ofSettings s).mapError .panic

/-- Each choice goes before what was chosen by the ones above it. -/
def builder : Except Halt Builder := do
  let b ← c.base
  let b := { b with
    maxConnections := c.maxConnections.getD b.maxConnections
    idleLimit := c.idleLimit.or b.idleLimit }
  let b ← match c.bufferCapacity with
    | none => .ok b
    | some n => (b.withBufferCapacity n).mapError .panic
  match c.connection with
  | none => return b
  | some choice => return { b with defaults := ← choice.config.mapError .panic }

end BuilderChoice

structure Scenario where
  builder : BuilderChoice
  playbook : Option Playbook
  steps : List Step
  verbose : Bool
  faults : List Fault

inductive ScenarioReport where
  | halted (h : Halt)
  | unbuilt (f : Failure) (log : List Line) (stillOpen : List Fd)
  | played (r : SessionReport)

namespace Scenario

variable (s : Scenario)

def playFor {π : Type} (a : Audience π) (b : Builder) : ScenarioReport :=
  match b.build a.start ⟨{ faults := s.faults }, []⟩ with
  | (.error (.panic p), _) => .halted (.panic p)
  | (.error (.failure f), os) =>
    .unbuilt f (traceOf s.verbose os.journal) os.kernel.openFds
  | (.ok reactor, _) =>
    let session : SessionM π Unit := do
      Session.record "build" .nothing
      Session.steps a s.steps
      Session.finish a
    .played (session ⟨reactor, none, s.verbose, []⟩).2.close

def play : ScenarioReport :=
  match s.builder.builder with
  | .error h => .halted h
  | .ok b =>
    match s.playbook with
    | none => s.playFor .standard b
    | some p => s.playFor (.ofPlaybook p) b

end Scenario

end PollReactor.Simulation
