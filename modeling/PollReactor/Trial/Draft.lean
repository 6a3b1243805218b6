import PollReactor.Simulation.Playbook

namespace PollReactor.Trial

open Simulation

inductive DraftStep where
  | act (a : Act)
  | advance (ms : Nat)
  deriving Repr

def absent (now : Nat) : (q : Request) → q.Answer
  | .conn .. => none
  | .idleTime _ => none
  | .count => 0
  | .broadcast _ => 0
  | .wakeup => ()
  | .cancel => ()
  | .isCancelled => false
  | .clock => now

def alone {α : Type} (now : Nat) : Script Note α → α
  | .done a => a
  | .ask q next => alone now (next (absent now q))
  | .say _ next => alone now next

def performAct (now : Nat) (d : Draft) (a : Act) : ActResult × Draft :=
  match alone now (withDraft (a.script [] draftId) d) with
  | (.ok r, d) => (r, d)
  | (.error p, d) => (.panicked p, d)

def draftSteps (now : Nat) (d : Draft) : List DraftStep → List ActResult × Draft
  | [] => ([], d)
  | .advance ms :: rest =>
    let (rs, d) := draftSteps (now + ms) d rest
    (.done :: rs, d)
  | .act a :: rest =>
    let (r, d) := performAct now d a
    let (rs, d) := draftSteps now d rest
    (r :: rs, d)

structure DraftReport where
  results : List ActResult
  status : Status

def draftTrial (config : ConnConfig) (steps : List DraftStep) : Except Failure DraftReport :=
  (Draft.make config 0).map fun d ↦
    let (results, d) := draftSteps 0 d steps
    ⟨results, d.status⟩

end PollReactor.Trial
