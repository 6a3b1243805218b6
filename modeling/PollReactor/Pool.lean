import PollReactor.Failure

namespace PollReactor

/-- A checked-out object, with the pool and the slot that it goes back to. -/
structure Token (α : Type) where
  pool : Nat
  slot : Nat
  value : α

structure Pool (α : Type) where
  id : Nat
  /-- The parked objects; a slot is empty while its object is checked out. -/
  slots : Array (Option α)
  /-- The slots whose object is parked, the next one to hand out first. -/
  free : List Nat

namespace Pool

variable {α : Type}

def ofList (id : Nat) (objects : List α) : Pool α where
  id := id
  slots := (objects.map some).toArray
  free := List.range objects.length

def make (id : Nat) (objects : List α) : Except Failure (Pool α) :=
  if objects.isEmpty then .error (.invalidCapacity .pool) else .ok (ofList id objects)

variable (p : Pool α)

def capacity : Nat := p.slots.size

def available : Nat := p.free.length

def inUse : Nat := p.capacity - p.available

inductive Reserved (α : Type) where
  | token (t : Token α) (p : Pool α)
  | exhausted
  | vacantSlot (slot : Nat)

def reserve : Reserved α :=
  match p.free with
  | [] => .exhausted
  | slot :: free =>
    match (p.slots[slot]?).join with
    | some value =>
      .token ⟨p.id, slot, value⟩ { p with slots := p.slots.setIfInBounds slot none, free }
    | none => .vacantSlot slot

inductive Returned where
  | parked
  | foreign
  | occupied
  deriving DecidableEq

/-- Parks the object of a token of this pool. The object of any other token is lost. -/
def release (t : Token α) : Returned × Pool α :=
  if t.pool ≠ p.id then (.foreign, p)
  else
    match p.slots[t.slot]? with
    | some none =>
      (.parked, { p with
        slots := p.slots.setIfInBounds t.slot (some t.value)
        free := t.slot :: p.free })
    | _ => (.occupied, p)

end Pool

end PollReactor
