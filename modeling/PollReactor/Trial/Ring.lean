import PollReactor.Ring.Transfer

namespace PollReactor.Trial

inductive Mishap where
  | interrupted
  | wouldBlock
  | reset
  | other
  deriving DecidableEq, Repr

def Mishap.error : Mishap → IoError
  | interrupted => .custom .interrupted "operation interrupted"
  | wouldBlock => .custom .wouldBlock "operation would block"
  | reset => .custom .connectionReset "connection reset"
  | other => .custom .other "scripted failure"

inductive SourceAnswer where
  | data (bs : Bytes)
  | endOfStream
  | fail (m : Mishap)
  deriving DecidableEq, Repr

/-- A source with the answers it is still to give, and the room it was offered so far, the latest
first. -/
structure SourceTape where
  answers : List SourceAnswer
  offered : List Nat
  deriving DecidableEq, Repr

def SourceTape.pull (room : Nat) (t : SourceTape) :
    Except IoError { bs : Bytes // bs.length ≤ room } × SourceTape :=
  let offered := room :: t.offered
  match t.answers with
  | [] => (.ok ⟨[], Nat.zero_le _⟩, ⟨[], offered⟩)
  | .endOfStream :: rest => (.ok ⟨[], Nat.zero_le _⟩, ⟨rest, offered⟩)
  | .fail m :: rest => (.error m.error, ⟨rest, offered⟩)
  | .data bs :: rest =>
    let left := bs.drop room
    (.ok ⟨bs.take room, List.length_take_le ..⟩,
      ⟨if left = [] then rest else .data left :: rest, offered⟩)

def SourceTape.source : Source SourceTape where
  pull := SourceTape.pull
  patience t := t.answers.length
  patience_lt {room t e t'} h _ := by
    unfold SourceTape.pull at h
    dsimp only at h
    split at h
    · simp at h
    · simp at h
    next rest ht =>
      simp only [Prod.mk.injEq] at h
      simp [← h.2, ht]
    · simp at h

inductive SinkAnswer where
  | accept (n : Nat)
  | fail (m : Mishap)
  deriving DecidableEq, Repr

structure SinkTape where
  answers : List SinkAnswer
  offered : List Nat
  taken : Bytes
  deriving DecidableEq, Repr

def SinkTape.push (bs : Bytes) (t : SinkTape) :
    Except IoError { n : Nat // n ≤ bs.length } × SinkTape :=
  let offered := bs.length :: t.offered
  match t.answers with
  | [] => (.error Mishap.wouldBlock.error, { t with offered })
  | .fail m :: rest => (.error m.error, { t with answers := rest, offered })
  | .accept n :: rest =>
    (.ok ⟨min n bs.length, Nat.min_le_right ..⟩, ⟨rest, offered, t.taken ++ bs.take n⟩)

def SinkTape.sink : Sink SinkTape where
  push := SinkTape.push
  patience t := t.answers.length
  patience_lt {bs t e t'} h he := by
    unfold SinkTape.push at h
    dsimp only at h
    split at h
    · simp only [Prod.mk.injEq, Except.error.injEq] at h
      rw [← h.1] at he
      cases he
    next rest ht =>
      simp only [Prod.mk.injEq] at h
      simp [← h.2, ht]
    · simp at h

inductive RingOp where
  | write (bs : Bytes)
  | read (n : Nat)
  | peek (n : Nat)
  | get (i : Nat)
  | peekUntil (delimiter : UInt8) (limit : Nat)
  | consume (n : Nat)
  | clear
  | fill (answers : List SourceAnswer)
  | flush (answers : List SinkAnswer)
  deriving DecidableEq, Repr

inductive RingTold where
  | count (n : Nat)
  | bytes (bs : Bytes)
  | found (n : Option Nat)
  | nothing
  | filled (moved : Except IoError Nat) (offered : List Nat)
  | flushed (moved : Except IoError Nat) (offered : List Nat) (taken : Bytes)

def RingOp.perform (r : Ring) : RingOp → RingTold × Ring
  | write bs =>
    let (n, r) := r.write bs
    (.count n, r)
  | read n =>
    let (bs, r) := r.read n
    (.bytes bs, r)
  | peek n => (.bytes (r.peek n), r)
  | get i => (.found ((r.get? i).map UInt8.toNat), r)
  | peekUntil delimiter limit => (.found (r.peekUntil delimiter limit), r)
  | consume n => (.nothing, r.consume n)
  | clear => (.nothing, r.clear)
  | fill answers =>
    let (moved, r, t) := r.fill SourceTape.source ⟨answers, []⟩
    (.filled moved t.offered.reverse, r)
  | flush answers =>
    let (moved, r, t) := r.flush SinkTape.sink ⟨answers, [], []⟩
    (.flushed moved t.offered.reverse t.taken, r)

structure RingStep where
  told : RingTold
  len : Nat
  free : Nat
  isEmpty : Bool
  isFull : Bool

def ringSteps (r : Ring) : List RingOp → List RingStep × Ring
  | [] => ([], r)
  | op :: ops =>
    let (told, r) := op.perform r
    let (steps, last) := ringSteps r ops
    (⟨told, r.len, r.free, r.isEmpty, r.isFull⟩ :: steps, last)

def ringTrial (capacity : Nat) (ops : List RingOp) : Except Panic (List RingStep × Ring) :=
  (Ring.make capacity).map (ringSteps · ops)

end PollReactor.Trial
