import PollReactor.Reactor.Run

namespace PollReactor

/-- What a reactor is built from. An idle limit of zero is none. -/
structure Builder where
  maxConnections : Nat := defaultMaxConnections
  idleLimit : Option Nat := none
  defaults : ConnConfig := .standard
  deriving DecidableEq, Repr

namespace Builder

def withBufferCapacity (b : Builder) (n : Nat) : Except Panic Builder := do
  return { b with defaults := ← ConnConfig.withCapacity n }

def ofSettings (s : Settings) : Except Panic Builder :=
  Builder.withBufferCapacity { maxConnections := s.maxConnections, idleLimit := s.idleLimit }
    s.bufferCapacity

def slotBytes : Nat := 12

/-- A pool with an unused place for each connection. Its table must fit one allocation. -/
def pool (b : Builder) : Except Halt (Pool Stream) :=
  if Word.largestAllocation < b.maxConnections * slotBytes then .error (.panic .capacityOverflow)
  else (Pool.make 0 (List.replicate b.maxConnections .empty)).mapError .failure

variable {κ π ν : Type} [Kernel κ]

def build (b : Builder) (app : π) (os : Os κ (Mark ν)) :
    Except Halt (Reactor κ π ν) × Os κ (Mark ν) :=
  match b.defaults.check with
  | .error f => (.error (.failure f), os)
  | .ok () =>
    match b.pool with
    | .error h => (.error h, os)
    | .ok pool =>
      match Sockets.openPipe os with
      | (.error e, os) => (.error (.failure (.poll e)), os)
      | (.ok (receiver, sender), os) =>
        (.ok {
          os
          app
          waker := ⟨receiver, sender, false⟩
          pool
          listener := none
          idleLimit := b.idleLimit.filter (· ≠ 0)
          defaults := b.defaults
          conns := #[]
          live := []
          cancelled := false }, os)

end Builder

end PollReactor
