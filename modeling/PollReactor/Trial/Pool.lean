import PollReactor.Pool
import PollReactor.Word

namespace PollReactor.Trial

inductive PoolOp where
  | make (capacity : Nat)
  | reserve (pool : Nat)
  | release (pool token : Nat)
  | measure (pool : Nat)
  | set (token : Nat) (value : Int)
  | drop (token : Nat)
  | get (token : Nat)
  deriving DecidableEq, Repr

inductive PoolTold where
  | made (objects : Nat)
  | token (number slot : Nat) (value : Int)
  | object (slot : Nat) (value : Int)
  | nothing
  | failure (f : Failure)
  | panic (p : Panic)
  | unknownToken
  | unknownPool

structure PoolMeasure where
  capacity : Nat
  available : Nat
  inUse : Nat
  deriving DecidableEq, Repr

structure PoolStep where
  told : PoolTold
  measure : Option PoolMeasure

structure PoolState where
  pools : Array (Pool Int) := #[]
  /-- A token that was lost or given back leaves its number unused. -/
  tokens : Array (Option (Token Int)) := #[]
  objects : Nat := 0

namespace PoolState

variable (s : PoolState)

def token? (n : Nat) : Option (Token Int) := (s.tokens[n]?).join

def setToken (n : Nat) (t : Option (Token Int)) : PoolState :=
  { s with tokens := s.tokens.setIfInBounds n t }

def measure (n : Nat) : Option PoolMeasure :=
  (s.pools[n]?).map fun p ↦ ⟨p.capacity, p.available, p.inUse⟩

def slotBytes : Nat := 16

/-- The table of a pool must fit one allocation. -/
def make (capacity : Nat) : PoolTold × PoolState :=
  if Word.largestAllocation < capacity * slotBytes then (.panic .capacityOverflow, s)
  else
    let values := (List.range capacity).map fun i ↦ ((s.objects + i + 1 : Nat) : Int)
    match Pool.make s.pools.size values with
    | .error f => (.failure f, s)
    | .ok p =>
      (.made (s.objects + capacity),
        { s with pools := s.pools.push p, objects := s.objects + capacity })

def reserve (n : Nat) (p : Pool Int) : PoolTold × PoolState :=
  match p.reserve with
  | .exhausted => (.failure (.poolExhausted p.capacity), s)
  | .vacantSlot _ => (.panic .vacantSlot, s)
  | .token t p =>
    (.token s.tokens.size t.slot t.value,
      { s with pools := s.pools.setIfInBounds n p, tokens := s.tokens.push (some t) })

def release (n : Nat) (p : Pool Int) (token : Nat) : PoolTold × PoolState :=
  match s.token? token with
  | none => (.unknownToken, s)
  | some t =>
    (.nothing, { s.setToken token none with pools := s.pools.setIfInBounds n (p.release t).2 })

def withPool (n : Nat) (act : Pool Int → PoolTold × PoolState) : PoolTold × PoolState :=
  match s.pools[n]? with
  | none => (.unknownPool, s)
  | some p => act p

def withToken (n : Nat) (act : Token Int → PoolTold × PoolState) : PoolTold × PoolState :=
  match s.token? n with
  | none => (.unknownToken, s)
  | some t => act t

def perform : PoolOp → PoolTold × PoolState
  | .make capacity => s.make capacity
  | .reserve n => s.withPool n (s.reserve n)
  | .release n token => s.withPool n (s.release n · token)
  | .measure n => s.withPool n fun _ ↦ (.nothing, s)
  | .set token value => s.withToken token fun t ↦
    (.nothing, s.setToken token (some { t with value }))
  | .drop token => s.withToken token fun _ ↦ (.nothing, s.setToken token none)
  | .get token => s.withToken token fun t ↦ (.object t.slot t.value, s)

end PoolState

def PoolOp.pool? : PoolOp → Option Nat
  | reserve n => some n
  | release n _ => some n
  | measure n => some n
  | _ => none

def poolTrial (s : PoolState) : List PoolOp → Except Panic (List PoolStep)
  | [] => .ok []
  | op :: ops =>
    match s.perform op with
    | (.panic p, _) => .error p
    | (told, s) => (poolTrial s ops).map (⟨told, op.pool?.bind s.measure⟩ :: ·)

end PollReactor.Trial
