import PollReactor.Failure
import PollReactor.Word

namespace PollReactor

/-- Two byte counts on one buffer: below `low` it is nearly empty, from `high` on nearly full. -/
structure Watermarks where
  low : Nat
  high : Nat
  deriving DecidableEq, Repr

namespace Watermarks

def Valid (m : Watermarks) (capacity : Nat) : Prop :=
  0 < m.low ∧ m.low < m.high ∧ m.high ≤ capacity

instance (m : Watermarks) (capacity : Nat) : Decidable (m.Valid capacity) :=
  inferInstanceAs (Decidable (_ ∧ _))

/-- One byte, and three quarters of the capacity. Three times the capacity must fit a word. -/
def forCapacity (capacity : Nat) : Except Panic Watermarks :=
  if Word.size ≤ capacity * 3 then .error .multiplyOverflow
  else .ok ⟨1, max (capacity * 3 / 4) 2⟩

def check (m : Watermarks) (capacity : Nat) : Except Failure Unit :=
  if m.Valid capacity then .ok () else .error (.invalidWatermarks m.low m.high capacity)

end Watermarks

structure ConnConfig where
  capacity : Nat
  read : Watermarks
  write : Watermarks
  /-- Milliseconds of idleness allowed, in place of the reactor's limit. -/
  idleLimit : Option Nat := none
  deriving DecidableEq, Repr

namespace ConnConfig

def withCapacity (capacity : Nat) : Except Panic ConnConfig := do
  let marks ← Watermarks.forCapacity capacity
  return { capacity, read := marks, write := marks }

def standard : ConnConfig where
  capacity := defaultBufferCapacity
  read := ⟨1, 3072⟩
  write := ⟨1, 3072⟩

theorem withCapacity_defaultBufferCapacity :
    withCapacity defaultBufferCapacity = .ok standard := rfl

structure Choice where
  capacity : Option Nat
  read : Option Watermarks
  write : Option Watermarks
  idleLimit : Option Nat
  deriving DecidableEq, Repr

def Choice.config (c : Choice) : Except Panic ConnConfig := do
  let base ← c.capacity.elim (.ok .standard) withCapacity
  return { base with
    read := c.read.getD base.read
    write := c.write.getD base.write
    idleLimit := c.idleLimit }

def check (c : ConnConfig) : Except Failure Unit := do
  if c.capacity = 0 then throw (.invalidCapacity .connectionBuffer)
  c.read.check c.capacity
  c.write.check c.capacity

theorem capacity_pos_of_check {c : ConnConfig} (h : c.check = .ok ()) : 0 < c.capacity := by
  by_cases h0 : c.capacity = 0
  · simp [check, h0, throw, throwThe, MonadExceptOf.throw, bind, Except.bind] at h
  · exact Nat.pos_of_ne_zero h0

end ConnConfig

end PollReactor
