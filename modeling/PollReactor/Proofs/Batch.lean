import PollReactor.Proofs.Announce
import PollReactor.Proofs.Marks

namespace PollReactor

/-- A connection behind the lock of its output. -/
structure Guarded where
  conn : Conn
  held : Bool
  poisoned : Bool

namespace Guarded

/-- A lock that is held is not to be had. A poisoned one comes as an error. -/
def acquire (g : Guarded) : Option (Except Guarded Guarded) :=
  if g.held then none
  else if g.poisoned then some (.error { g with held := true })
  else some (.ok { g with held := true })

def lock (g : Guarded) : Option Guarded :=
  g.acquire.map fun
    | .ok g => g
    | .error g => g

/-- Who is unwinding when he gives the lock back poisons it. -/
def unlock (unwinding : Bool) (g : Guarded) : Guarded :=
  { g with held := false, poisoned := g.poisoned || unwinding }

theorem lock_eq (c : Conn) (poisoned : Bool) :
    lock ⟨c, false, poisoned⟩ = some ⟨c, true, poisoned⟩ := by
  cases poisoned <;> rfl

end Guarded

/-- What holds the lock during a batch. It is engaged until it gave the lock back. -/
structure Guard where
  side : Guarded
  engaged : Bool

def BatchOp.idle? : BatchOp → Option BatchAnswer
  | write _ => some (.flag false)
  | writeLine _ => some (.flag false)
  | free => some (.count 0)
  | len => some (.count 0)
  | isEmpty => some (.flag true)
  | isConnected => none
  | close _ => none

namespace Guard

def operate (h : Guard) (op : BatchOp) : BatchAnswer × Guard × List Effect :=
  match h.engaged, op.idle? with
  | false, some a => (a, h, [])
  | _, _ =>
    let (a, conn, effects) := h.side.conn.batchOp op
    (a, { h with side := { h.side with conn } }, effects)

def run : Guard → List BatchOp → List BatchAnswer × Guard × List Effect
  | h, [] => ([], h, [])
  | h, op :: ops =>
    let (a, h, effects) := h.operate op
    let (as, h, more) := run h ops
    (a :: as, h, effects ++ more)

/-- Gives the lock back and then asks for a wakeup, if it was not given back before. -/
def release (wake unwinding : Bool) (h : Guard) : Guard × List Effect :=
  if h.engaged then (⟨h.side.unlock unwinding, false⟩, Conn.wakeIf wake) else (h, [])

def drop (unwinding : Bool) (h : Guard) : Guard × List Effect := h.release true unwinding

def leave (h : Guard) : Release → Guard × List Effect
  | .finish =>
    let (h, effects) := h.release true false
    let (h, more) := h.drop false
    (h, effects ++ more)
  | .cancel =>
    let (h, effects) := h.release false false
    let (h, more) := h.drop false
    (h, effects ++ more)
  | .drop => h.drop false
  | .abandon => h.drop true

theorem operate_eq (g : Guarded) (op : BatchOp) : operate ⟨g, true⟩ op = ((g.conn.batchOp op).1,
    ⟨{ g with conn := (g.conn.batchOp op).2.1 }, true⟩, (g.conn.batchOp op).2.2) := rfl

theorem run_eq (g : Guarded) (ops : List BatchOp) : run ⟨g, true⟩ ops =
    ((g.conn.batchOps ops).1, ⟨{ g with conn := (g.conn.batchOps ops).2.1 }, true⟩,
      (g.conn.batchOps ops).2.2) := by
  induction ops generalizing g with
  | nil => rfl
  | cons op ops ih =>
    rw [run, operate_eq]
    simp only [ih]
    rfl

theorem leave_eq (g : Guarded) (ending : Release) : leave ⟨g, true⟩ ending =
    (⟨g.unlock (ending = .abandon), false⟩, Conn.wakeIf ending.wakes) := by
  -- The drop behind a finish or a cancellation finds the guard disengaged.
  cases ending <;> rfl

end Guard

def ConnOp.locks : ConnOp → Bool
  | write _ => true
  | writeLine _ => true
  | writeUInt .. => true
  | batch .. => true
  | status => true
  | _ => false

def ConnOp.abandons : ConnOp → Bool
  | batch _ .abandon => true
  | _ => false

/-- What becomes of a connection in a row of calls. -/
def Conn.calls : Conn → List ConnOp → List (Σ op : ConnOp, op.Answer) × Conn × List Effect
  | c, [] => ([], c, [])
  | c, op :: ops =>
    let (a, c, effects) := c.perform op
    let (as, c, more) := calls c ops
    (⟨op, a⟩ :: as, c, effects ++ more)

namespace Guarded

def perform (g : Guarded) (op : ConnOp) : op.Answer × Guarded × List Effect :=
  let (a, conn, effects) := g.conn.perform op
  (a, { g with conn }, effects)

def batch (g : Guarded) (ops : List BatchOp) (ending : Release) :
    Option (List BatchAnswer × Guarded × List Effect) :=
  g.lock.map fun g ↦
    let (answers, h, effects) := Guard.run ⟨g, true⟩ ops
    let (h, released) := h.leave ending
    (answers, h.side, effects ++ released)

/-- There is no answer to a call that waits for the lock. -/
def call (g : Guarded) : (op : ConnOp) → Option (op.Answer × Guarded × List Effect)
  | .batch ops ending => g.batch ops ending
  | op =>
    if op.locks then
      g.lock.map fun g ↦
        let (a, g, effects) := g.perform op
        (a, g.unlock false, effects)
    else some (g.perform op)

def calls : Guarded → List ConnOp →
    Option (List (Σ op : ConnOp, op.Answer) × Guarded × List Effect)
  | g, [] => some ([], g, [])
  | g, op :: ops => do
    let (a, g, effects) ← g.call op
    let (as, g, more) ← calls g ops
    some (⟨op, a⟩ :: as, g, effects ++ more)

variable (c : Conn) (poisoned : Bool)

theorem batch_eq (ops : List BatchOp) (ending : Release) :
    batch ⟨c, false, poisoned⟩ ops ending = some ((c.perform (.batch ops ending)).1,
      ⟨(c.perform (.batch ops ending)).2.1, false, poisoned || ending = .abandon⟩,
      (c.perform (.batch ops ending)).2.2) := by
  simp only [batch, lock_eq, Option.map_some, Guard.run_eq, Guard.leave_eq]
  rfl

theorem call_of_unlocked {op : ConnOp} (ho : ∀ ops ending, op ≠ .batch ops ending) :
    call ⟨c, false, poisoned⟩ op =
      some ((c.perform op).1, ⟨(c.perform op).2.1, false, poisoned⟩, (c.perform op).2.2) := by
  have hunlock (c : Conn) (held : Bool) :
      unlock false ⟨c, held, poisoned⟩ = ⟨c, false, poisoned⟩ := by
    rw [unlock, Bool.or_false]
  cases op with
  | batch ops ending => exact absurd rfl (ho ops ending)
  | write bs => simp [call, ConnOp.locks, lock_eq, perform, hunlock]
  | writeLine s => simp [call, ConnOp.locks, lock_eq, perform, hunlock]
  | writeUInt w n => simp [call, ConnOp.locks, lock_eq, perform, hunlock]
  | status => simp [call, ConnOp.locks, lock_eq, perform, hunlock]
  | _ => rfl

theorem call_of_held {op : ConnOp} (ho : op.locks) : call ⟨c, true, poisoned⟩ op = none := by
  cases op with
  | write bs => rfl
  | writeLine s => rfl
  | writeUInt w n => rfl
  | batch ops ending => rfl
  | status => rfl
  | _ => cases ho

theorem call_eq (op : ConnOp) : call ⟨c, false, poisoned⟩ op = some ((c.perform op).1,
    ⟨(c.perform op).2.1, false, poisoned || op.abandons⟩, (c.perform op).2.2) := by
  cases op with
  | batch ops ending =>
    refine (batch_eq c poisoned ops ending).trans ?_
    cases ending <;> rfl
  | _ =>
    refine (call_of_unlocked c poisoned fun _ _ h ↦ by cases h).trans ?_
    rw [ConnOp.abandons, Bool.or_false]
    intro _ h
    cases h

theorem calls_eq (c : Conn) (poisoned : Bool) (ops : List ConnOp) :
    calls ⟨c, false, poisoned⟩ ops = some ((c.calls ops).1,
      ⟨(c.calls ops).2.1, false, poisoned || ops.any (·.abandons)⟩, (c.calls ops).2.2) := by
  induction ops generalizing c poisoned with
  | nil =>
    rw [List.any_nil, Bool.or_false]
    rfl
  | cons op ops ih =>
    rw [calls, call_eq, Option.bind_eq_bind, Option.bind_some]
    dsimp only
    rw [ih, Option.bind_eq_bind, Option.bind_some, List.any_cons, Bool.or_assoc]
    rfl

end Guarded

namespace Conn

variable (c : Conn)

def behind (ops : List BatchOp) : Conn := (c.batchOps ops).2.1

theorem batchOps_cons (op : BatchOp) (ops : List BatchOp) : c.batchOps (op :: ops) =
    ((c.batchOp op).1 :: ((c.batchOp op).2.1.batchOps ops).1, (c.batchOp op).2.1.behind ops,
      (c.batchOp op).2.2 ++ ((c.batchOp op).2.1.batchOps ops).2.2) := rfl

theorem batchOps_append (c : Conn) (ops ops' : List BatchOp) : c.batchOps (ops ++ ops') =
    ((c.batchOps ops).1 ++ ((c.behind ops).batchOps ops').1, (c.behind ops).behind ops',
      (c.batchOps ops).2.2 ++ ((c.behind ops).batchOps ops').2.2) := by
  induction ops generalizing c with
  | nil => rfl
  | cons op ops ih =>
    rw [List.cons_append, batchOps_cons, behind, ih, ← List.append_assoc]
    rfl

theorem behind_concat (ops : List BatchOp) (op : BatchOp) :
    c.behind (ops ++ [op]) = ((c.behind ops).batchOp op).2.1 :=
  congrArg (fun out ↦ out.2.1) (c.batchOps_append ops [op])

theorem length_batchOps (c : Conn) (ops : List BatchOp) :
    (c.batchOps ops).1.length = ops.length := by
  induction ops generalizing c with
  | nil => rfl
  | cons op ops ih => exact congrArg (· + 1) (ih (c.batchOp op).2.1)

theorem batchOps_answer (before rest : List BatchOp) (op : BatchOp) :
    (c.batchOps (before ++ op :: rest)).1[before.length]? =
      some ((c.behind before).batchOp op).1 := by
  rw [batchOps_append, ← c.length_batchOps before, List.getElem?_append_right (Nat.le_refl _),
    Nat.sub_self]
  rfl

/-- The bytes are queued whole or, where there is no room for all of them, not at all; `c'` is what
becomes of the connection. -/
structure Queues (bs : Bytes) (a : BatchAnswer) (c' : Conn) : Prop where
  whole : bs.length ≤ c.output.free → a = .flag true ∧
    c'.output.toList = c.output.toList ++ bs ∧
    c'.outputHigh = (c.outputHigh || c.writeMarks.high ≤ c'.output.len) ∧
    c' = c.withChannel { c.toChannel with output := c'.output, outputHigh := c'.outputHigh }
  none : c.output.free < bs.length → a = .flag false ∧ c' = c

end Conn

def BatchOp.Does (c : Conn) (a : BatchAnswer) (c' : Conn) : BatchOp → Prop
  | write bs => c.Queues bs a c'
  | writeLine s => c.Queues (Text.Utf8.encode s ++ Channel.lineEnd) a c'
  | free => a = .count (c.output.capacity - c.output.toList.length) ∧ c' = c
  | len => a = .count c.output.toList.length ∧ c' = c
  | isEmpty => a = .flag (c.output.toList = []) ∧ c' = c
  | isConnected => a = .flag c.isConnected ∧ c' = c
  | close immediate => a = .done ∧ c' = (c.close immediate).1

def BatchOp.direct? : BatchOp → Option ConnOp
  | write bs => some (.write bs)
  | writeLine s => some (.writeLine s)
  | close immediate => some (.close immediate)
  | _ => none

namespace Conn

variable (c : Conn)

theorem append_queues (parts : List Bytes) : c.Queues parts.flatten
    (.flag (c.toChannel.append parts).1) (c.withChannel (c.toChannel.append parts).2) := by
  have hout := c.toChannel.append_output parts
  unfold Channel.append at hout ⊢
  by_cases hroom : c.output.free < parts.flatten.length
  · rw [if_pos hroom]
    exact ⟨fun h ↦ absurd h (Nat.not_le.2 hroom), fun _ ↦ ⟨rfl, rfl⟩⟩
  · rw [if_neg hroom] at hout ⊢
    exact ⟨fun _ ↦ ⟨rfl, hout, rfl, rfl⟩, fun h ↦ absurd h hroom⟩

theorem batchOp_does (op : BatchOp) : op.Does c (c.batchOp op).1 (c.batchOp op).2.1 := by
  cases op with
  | write bs =>
    have h := c.append_queues [bs]
    rw [List.flatten_singleton] at h
    exact h
  | writeLine s =>
    have h := c.append_queues [Text.Utf8.encode s, Channel.lineEnd]
    rw [List.flatten_cons, List.flatten_singleton] at h
    exact h
  | free => exact ⟨by rw [Ring.length_toList]; rfl, rfl⟩
  | len => exact ⟨by rw [Ring.length_toList]; rfl, rfl⟩
  | isEmpty =>
    refine ⟨congrArg BatchAnswer.flag (decide_eq_decide.2 ?_), rfl⟩
    rw [← List.length_eq_zero_iff, Ring.length_toList]
  | isConnected => exact ⟨rfl, rfl⟩
  | close immediate => exact ⟨rfl, rfl⟩

theorem behind_room (ops : List BatchOp) :
    (c.behind ops).output.free + (c.behind ops).output.len = c.output.capacity := by
  have hcap := congrArg Sizes.output (c.sizes_batchOps ops)
  have hle : (c.behind ops).output.len ≤ (c.behind ops).output.capacity :=
    (c.behind ops).output.len_le
  rw [Ring.free, Nat.sub_add_cancel hle]
  exact hcap

theorem behind_direct (c : Conn) (ops : List BatchOp) :
    c.behind ops = (c.calls (ops.filterMap BatchOp.direct?)).2.1 := by
  induction ops generalizing c with
  | nil => rfl
  | cons op ops ih =>
    have hbehind : c.behind (op :: ops) = (c.batchOp op).2.1.behind ops := rfl
    rw [hbehind, ih]
    cases op <;> rfl

theorem count_wake_close (immediate : Bool) : (c.close immediate).2.count .wake = 1 := by
  cases immediate with
  | false => rfl
  | true =>
    have hs : c.shutdown.2.count .wake = 0 := by
      unfold shutdown
      split
      · rfl
      · split
        · rfl
        · split <;> rfl
    show (c.shutdown.2 ++ [Effect.wake]).count .wake = 1
    rw [List.count_append, hs]
    rfl

theorem count_wake_batchOps (c : Conn) (ops : List BatchOp) : (c.batchOps ops).2.2.count .wake =
    ops.countP fun op ↦ op.closes true || op.closes false := by
  induction ops generalizing c with
  | nil => rfl
  | cons op ops ih =>
    rw [batchOps_cons, List.count_append, ih, List.countP_cons, Nat.add_comm]
    congr 1
    cases op with
    | close immediate =>
      refine (c.count_wake_close immediate).trans ?_
      cases immediate <;> rfl
    | _ => rfl

end Conn

/-- What a batch answers, what it makes of the connection and what it asks the reactor for. -/
structure Batched (c : Conn) (ops : List BatchOp) (ending : Release) (answers : List BatchAnswer)
    (c' : Conn) (effects : List Effect) : Prop where
  length : answers.length = ops.length
  each : ∀ before op rest, ops = before ++ op :: rest → ∃ a, answers[before.length]? = some a ∧
    op.Does (c.behind before) a (c.behind (before ++ [op]))
  room : ∀ before rest, ops = before ++ rest →
    (c.behind before).output.free + (c.behind before).output.len = c.output.capacity
  output : c'.output.toList =
    c.output.toList ++ (List.zipWith BatchOp.appended ops answers).flatten
  direct : c' = (c.calls (ops.filterMap BatchOp.direct?)).2.1
  released : effects = (c.batchOps ops).2.2 ++ if ending = .cancel then [] else [.wake]
  closes : (c.batchOps ops).2.2.count .wake =
    ops.countP fun op ↦ op.closes true || op.closes false

theorem Conn.batched (c : Conn) (ops : List BatchOp) (ending : Release) :
    Batched c ops ending (c.perform (.batch ops ending)).1 (c.perform (.batch ops ending)).2.1
      (c.perform (.batch ops ending)).2.2 where
  length := c.length_batchOps ops
  each := by
    rintro before op rest rfl
    refine ⟨_, c.batchOps_answer before rest op, ?_⟩
    rw [behind_concat]
    exact (c.behind before).batchOp_does op
  room before _ _ := c.behind_room before
  output := c.batchOps_output ops
  direct := c.behind_direct ops
  released := by cases ending <;> rfl
  closes := c.count_wake_batchOps ops

/-- However a batch ends, it goes as one call of its operations: nobody else gets at the output in
between, the guard is released once, and every call behind it is answered as if there were no
lock. -/
theorem Guarded.batch_atomic (c : Conn) (poisoned : Bool) (ops : List BatchOp)
    (ending : Release) : ∃ answers c' effects,
      Guarded.batch ⟨c, false, poisoned⟩ ops ending =
        some (answers, ⟨c', false, poisoned || ending = .abandon⟩, effects) ∧
      c.perform (.batch ops ending) = (answers, c', effects) ∧
      Batched c ops ending answers c' effects ∧
      (∀ before rest, ops = before ++ rest → ∀ op : ConnOp, op.locks →
        (Guard.run ⟨⟨c, true, poisoned⟩, true⟩ before).2.1.side.call op = none) ∧
      ∀ later, ∃ poisoned',
        Guarded.calls ⟨c', false, poisoned || ending = .abandon⟩ later =
          some ((c'.calls later).1, ⟨(c'.calls later).2.1, false, poisoned'⟩,
            (c'.calls later).2.2) := by
  refine ⟨_, _, _, batch_eq c poisoned ops ending, rfl, c.batched ops ending, ?_,
    fun later ↦ ⟨_, calls_eq _ _ later⟩⟩
  intro before rest _ op ho
  rw [Guard.run_eq]
  exact call_of_held _ _ ho

end PollReactor
