import Mathlib.Logic.Function.Iterate
import Mathlib.Logic.Relation
import PollReactor.Proofs.Journal
import PollReactor.Reactor.Builder
import PollReactor.Reactor.Setup
import PollReactor.Simulation.Kernel

namespace PollReactor

/-- A stretch of an operation in which the application has no say. -/
inductive Task (π ν : Type) where
  | accept (listener : Fd)
  /-- Go on asking the application whether to keep a peer. -/
  | meet (t : Token Stream) (peer : Net.SocketAddr) (script : Script ν (Outcome π (Option Draft)))
  | settle (events : List Event)
  /-- Look at the clock, then serve the connections in order. -/
  | serveAll (events : List Event) (watched : List Watched)
  | serve (w : Watched) (event : Event) (now : Nat)
  | hear (script : Script ν (Outcome π Unit))
  | hasten (id : Nat)
  | check (id : Nat)
  | finalize (id : Nat) (why : Teardown)
  | proceed
  | closeListener

inductive Phase (π ν : Type) where
  | idle
  | waiting (w : Wait)
  | busy (first : Task π ν) (rest : List (Task π ν))

namespace Phase

variable {π ν : Type}

def ofTasks : List (Task π ν) → Phase π ν
  | [] => idle
  | first :: rest => busy first rest

def ofProgress : Progress → Phase π ν
  | .waiting w => waiting w
  | .ended _ => idle

def waits (f : Wait → Bool) : Phase π ν → Bool
  | waiting w => f w
  | _ => false

theorem exists_of_waits {phase : Phase π ν} {f : Wait → Bool} (h : phase.waits f) :
    ∃ w, phase = waiting w ∧ f w := by
  cases phase with
  | waiting w => exact ⟨w, rfl, h⟩
  | _ => cases h

theorem eq_of_waits {phase : Phase π ν} {w : Wait}
    (h : phase.waits fun w' ↦ w'.watched = w.watched ∧ w'.list = w.list) : phase = waiting w := by
  obtain ⟨⟨watched, list⟩, rfl, he⟩ := exists_of_waits h
  obtain ⟨rfl, rfl⟩ := of_decide_eq_true he
  rfl

end Phase

/-- What follows a task. -/
inductive Next (π ν : Type) where
  | go (ts : List (Task π ν))
  | only (ts : List (Task π ν))
  | wait (w : Wait)

def Next.phase {π ν : Type} (rest : List (Task π ν)) : Next π ν → Phase π ν
  | go ts => .ofTasks (ts ++ rest)
  | only ts => .ofTasks ts
  | wait w => .waiting w

/-- A reactor between two tasks, where the application may act in a callback or from another thread,
and what is still to be done. -/
structure Moment (κ π ν : Type) where
  reactor : Reactor κ π ν
  phase : Phase π ν

def Moment.journal {κ π ν : Type} (m : Moment κ π ν) : Journal ν := m.reactor.os.journal

namespace Reactor

variable {κ π ν : Type} [Kernel κ] (P : Policy π ν)

def tell (cb : Callback) (ts : List (Task π ν)) (r : Reactor κ π ν) :
    Reactor κ π ν × List (Task π ν) :=
  ((remark (.callback cb) r).2, .hear (P.heard cb r.app) :: ts)

def attendInput (id : Nat) (c : Conn) (r : Reactor κ π ν) : Reactor κ π ν × List (Task π ν) :=
  let ((result, c), r) := system c.receive r
  let r := r.setConn id c
  match result with
  | .error e => (r, [.finalize id (.failed e)])
  | .ok .endOfStream => (r, [.finalize id .closed])
  | .ok (.bytes n) =>
    if 0 < n ∧ !c.isReadLow then tell P (.dataReceived id) [.check id] r else (r, [.check id])

def attendOutput (id : Nat) (c : Conn) (r : Reactor κ π ν) : Reactor κ π ν × List (Task π ν) :=
  let ((result, c), r) := system c.transmit r
  let r := r.setConn id c
  match result with
  | .error e => (r, [.finalize id (.failed e)])
  | .ok n =>
    if 0 < n ∧ c.isWriteLow then tell P (.dataSent id) [.hasten id, .check id] r
    else (r, [.hasten id, .check id])

def attendUrgent (id : Nat) (c : Conn) (r : Reactor κ π ν) : Reactor κ π ν × List (Task π ν) :=
  let ((result, c), r) := system c.receiveUrgent r
  let r := r.setConn id c
  match result with
  | .error e => (r, [.finalize id (.failed e)])
  | .ok stored => if stored then tell P (.urgentReceived id) [.check id] r else (r, [.check id])

/-- Serves a connection up to the callback that this leads to. -/
def attend (w : Watched) (event : Event) (now : Nat) (r : Reactor κ π ν) :
    Reactor κ π ν × List (Task π ν) :=
  match r.conn? w.id with
  | none => (r, [.check w.id])
  | some c =>
    if c.closePending ∧ c.output.isEmpty then (r, [.finalize w.id .closed])
    else if event.readable ∧ w.interest.read then attendInput P w.id c r
    else if event.writable ∧ w.interest.write then attendOutput P w.id c r
    else if event.urgent ∧ w.interest.urgent then attendUrgent P w.id c r
    else if event.hangup then (r.setConn w.id { c with hungUp := true }, [.check w.id])
    else if c.isIdle now r.idleLimit then (r, [.finalize w.id .timedOut])
    else (r, [.check w.id])

/-- Takes a socket from the pool and a peer from the listening socket, up to the question whether to
keep the peer. -/
def welcome (listener : Fd) (r : Reactor κ π ν) : Reactor κ π ν × Next π ν :=
  match r.pool.reserve with
  | .vacantSlot _ => (r, .only [])
  | .exhausted => ((turnAway listener r).2, .go [])
  | .token t pool =>
    match systemExcept (Sockets.accept listener) { r with pool } with
    | (.error _, r) => ((release t r).2, .go [])
    | (.ok (fd, peer), r) =>
      let (s, r) := system (t.value.attach fd) r
      ((remark (.ready peer) r).2,
        .go [.meet { t with value := s } peer (P.ready peer r.defaults r.app)])

def decide (t : Token Stream) (peer : Net.SocketAddr) (r : Reactor κ π ν) :
    Except Panic (Option Draft) → Reactor κ π ν × Next π ν
  | .ok (some d) => ((enroll t peer d r).2, .go [])
  | .ok none => ((closeAndRelease t r).2, .go [])
  | .error p => ((system t.value.close (remark (.raised p) r).2).2, .only [])

/-- Closes the socket of a connection and takes it off the list. -/
def part (id : Nat) (r : Reactor κ π ν) : Reactor κ π ν :=
  let r := (detach id r).2
  { r with live := r.live.filter (· ≠ id) }

def serves (events : List Event) (now : Nat) : List Watched → (place : Nat) → List (Task π ν)
  | [], _ => []
  | w :: rest, place => .serve w (eventOf events place) now :: serves events now rest (place + 1)

/-- Does one task, or one request of a callback. -/
def advance : Task π ν → Reactor κ π ν → Reactor κ π ν × Next π ν
  | .accept listener, r => welcome P listener r
  | .meet t peer (.ask q next), r =>
    let (a, r) := request q r
    (r, .go [.meet t peer (next a)])
  | .meet t peer (.say v next), r => ((remark (.said v) r).2, .go [.meet t peer next])
  | .meet t peer (.done (result, app)), r => decide t peer { r with app } result
  | .settle events, r => ((settleWaker events r).2, .go [])
  | .serveAll events watched, r =>
    let (now, r) := system (sys .clock) r
    (r, .go (serves events now watched 0))
  | .serve w event now, r =>
    let (r, ts) := attend P w event now r
    (r, .go ts)
  | .hear (.ask q next), r =>
    let (a, r) := request q r
    (r, .go [.hear (next a)])
  | .hear (.say v next), r => ((remark (.said v) r).2, .go [.hear next])
  | .hear (.done (.ok (), app)), r => ({ r with app }, .go [])
  | .hear (.done (.error p, app)), r => ((remark (.raised p) { r with app }).2, .only [])
  | .hasten id, r =>
    match r.conn? id with
    | none => (r, .go [])
    | some c => if c.closePending ∧ c.output.isEmpty then ((wake r).2, .go []) else (r, .go [])
  | .check id, r =>
    match r.conn? id with
    | none => (r, .go [])
    | some c => (r, .go (if c.isConnected then [] else [.finalize id .closed]))
  | .finalize id why, r =>
    let (r, ts) := tell P (why.callback id) [] (part id r)
    (r, .go ts)
  | .proceed, r =>
    if r.cancelled then (r, .only (r.live.map (.finalize · .closed)))
    else ((remark .waits r).2, .wait r.prepare)
  | .closeListener, r => ((closeListener r).2, .go [])

def turnTasks (w : Wait) (events : List Event) (r : Reactor κ π ν) : List (Task π ν) :=
  (if isReported events listenerToken then r.listener.toList.map .accept else []) ++
    [.settle events, .serveAll events w.watched, .proceed]

def cleanupTasks (r : Reactor κ π ν) : List (Task π ν) :=
  r.live.map (.finalize · .closed) ++ [.closeListener]

/-- Outside its operations, the descriptor belongs to the reactor. -/
def Owns (r : Reactor κ π ν) (fd : Fd) : Prop :=
  r.waker.receiver = fd ∨ r.waker.sender = fd ∨ r.listener = some fd ∨
    ∃ id c, r.conn? id = some c ∧ c.fd? = some fd

/-- The operations that give a reactor a listening socket. A socket that is handed over is open and
belongs to nobody else; only the bound one may be handed over again. -/
inductive SetUp (r : Reactor κ π ν) : Reactor κ π ν → Prop where
  | bind (text : String) : SetUp r (bind text r).2
  | listen (text : String) : SetUp r (listen text r).2
  | init (fd : Fd) (ho : Journal.IsOpen fd r.os.journal)
      (h : ¬ r.Owns fd ∨ r.listener = some fd) : SetUp r (init fd r).2
  | adopt (fd : Fd) (h : ¬ r.Owns fd ∨ r.listener = some fd) : SetUp r (adopt fd r).2
  | adoptOwned (fd : Fd) (h : ¬ r.Owns fd) : SetUp r (adoptOwned fd r).2
  | localAddr : SetUp r (localAddr r).2

end Reactor

namespace Moment

variable {κ π ν : Type} [Kernel κ] (P : Policy π ν) (outside : Phase π ν → Prop)

/-- The smallest steps of a life. In the phases `outside`, other threads may make requests. -/
inductive Step : Moment κ π ν → Moment κ π ν → Prop where
  | kernel (r : Reactor κ π ν) (phase : Phase π ν) (k : κ) :
      Step ⟨r, phase⟩ ⟨{ r with os.kernel := k }, phase⟩
  | listener (r : Reactor κ π ν) (phase : Phase π ν) (text : String) :
      Step ⟨r, phase⟩ ⟨(Reactor.systemExcept (Sockets.listenOn text) r).2, phase⟩
  | request (r : Reactor κ π ν) (phase : Phase π ν) (q : Request) (h : outside phase) :
      Step ⟨r, phase⟩ ⟨(Reactor.request q r).2, phase⟩
  | setUp {r r' : Reactor κ π ν} (h : r.SetUp r') : Step ⟨r, .idle⟩ ⟨r', .idle⟩
  | memory (r : Reactor κ π ν) (app : π) : Step ⟨r, .idle⟩ ⟨{ r with app }, .idle⟩
  | start (r : Reactor κ π ν) (h : r.listener.isSome) : Step ⟨r, .idle⟩ ⟨r, .busy .proceed []⟩
  | wake (r : Reactor κ π ν) (w : Wait) (reported : List UInt16) :
      Step ⟨r, .waiting w⟩
        ⟨r, .ofTasks (Reactor.turnTasks w (Event.ofReport .posix w.list reported) r)⟩
  | fail (r : Reactor κ π ν) (w : Wait) : Step ⟨r, .waiting w⟩ ⟨r, .idle⟩
  | cleanup (r : Reactor κ π ν) : Step ⟨r, .idle⟩ ⟨r, .ofTasks r.cleanupTasks⟩
  | task (r : Reactor κ π ν) (first : Task π ν) (rest : List (Task π ν)) :
      Step ⟨r, .busy first rest⟩
        ⟨(Reactor.advance P first r).1, (Reactor.advance P first r).2.phase rest⟩

/-- Steps large and small: the operations of a reactor as they are carried out, and the steps that
they consist of. -/
inductive Act : Moment κ π ν → Moment κ π ν → Prop where
  | step {m m' : Moment κ π ν} (h : Step P outside m m') : Act m m'
  | start (r : Reactor κ π ν) :
      Act ⟨r, .idle⟩ ⟨(Reactor.start P r).2, .ofProgress (Reactor.start P r).1⟩
  | resume (r : Reactor κ π ν) (w : Wait) (report : Except Errno (List UInt16)) :
      Act ⟨r, .waiting w⟩
        ⟨(Reactor.resume P w report r).2, .ofProgress (Reactor.resume P w report r).1⟩
  | cleanup (r : Reactor κ π ν) : Act ⟨r, .idle⟩ ⟨(Reactor.cleanup P r).2, .idle⟩

/-- The moment is one of the life of a reactor that `b` built. -/
def Occurs (b : Builder) (m : Moment κ π ν) : Prop :=
  ∃ app os r os', b.build app os = (.ok r, os') ∧ os.journal = [] ∧
    Relation.ReflTransGen (Act P outside) ⟨r, .idle⟩ m

end Moment

namespace Moment

variable {κ π ν : Type} [Kernel κ] {P : Policy π ν} {outside : Phase π ν → Prop} {b : Builder}
  {m m' : Moment κ π ν}

theorem Occurs.act (h : Occurs P outside b m) (ha : Act P outside m m') :
    Occurs P outside b m' := by
  obtain ⟨app, os, r, os', hb, hj, h⟩ := h
  exact ⟨app, os, r, os', hb, hj, h.tail ha⟩

theorem Occurs.request (h : Occurs P outside b m) (ho : outside m.phase) (q : Request) :
    Occurs P outside b ⟨(Reactor.request q m.reactor).2, m.phase⟩ := by
  rcases m with ⟨r, phase⟩
  exact h.act (.step (.request r phase q ho))

def woken (move : κ → κ) (reported : List UInt16) (m : Moment κ π ν) : Moment κ π ν :=
  let r := { m.reactor with os.kernel := move m.reactor.os.kernel }
  match m.phase with
  | .waiting w => ⟨r, .ofTasks (Reactor.turnTasks w (Event.ofReport .posix w.list reported) r)⟩
  | phase => ⟨r, phase⟩

theorem Occurs.woken (h : Occurs P outside b m) (move : κ → κ) (reported : List UInt16) :
    Occurs P outside b (woken move reported m) := by
  rcases m with ⟨r, phase⟩
  have hk := h.act (.step (.kernel r phase (move r.os.kernel)))
  cases phase with
  | waiting w => exact hk.act (.step (.wake _ w reported))
  | idle => exact hk
  | busy first rest => exact hk

def tasked (P : Policy π ν) (m : Moment κ π ν) : Moment κ π ν :=
  match m.phase with
  | .busy first rest =>
    ⟨(Reactor.advance P first m.reactor).1, (Reactor.advance P first m.reactor).2.phase rest⟩
  | phase => ⟨m.reactor, phase⟩

theorem Occurs.tasked (h : Occurs P outside b m) : Occurs P outside b (tasked P m) := by
  rcases m with ⟨r, phase⟩
  cases phase with
  | busy first rest => exact h.act (.step (.task r first rest))
  | idle => exact h
  | waiting w => exact h

theorem Occurs.attended {w : Watched} {event : Event} {now : Nat} {rest ts : List (Task π ν)}
    {r : Reactor κ π ν} (h : Occurs P outside b m) (hm : m.phase = .busy (.serve w event now) rest)
    (ha : Reactor.attend P w event now m.reactor = (r, ts)) :
    Occurs P outside b ⟨r, .ofTasks (ts ++ rest)⟩ := by
  have hocc := h.tasked
  unfold Moment.tasked at hocc
  rw [hm] at hocc
  simp only [Reactor.advance, ha, Next.phase] at hocc
  exact hocc

theorem Occurs.tasks (h : Occurs P outside b m) (n : Nat) :
    Occurs P outside b ((Moment.tasked P)^[n] m) := by
  induction n with
  | zero => exact h
  | succ n ih =>
    rw [Function.iterate_succ_apply']
    exact ih.tasked

end Moment

namespace Visit

open Simulation

/-- A system with a listening socket, to which one peer has connected. -/
def world : World where
  descriptors := #[{ object := .socket [2, 0] true }]
  peers := #[{ name := [2, 0] }]
  pending := [0]

def builder : Builder where
  maxConnections := 1
  defaults := ⟨4, ⟨1, 3⟩, ⟨1, 3⟩, none⟩

def policy : Policy Unit Unit := .standard

def built : Reactor World Unit Unit where
  os := (Sockets.openPipe ⟨world, []⟩).2
  app := ()
  waker := ⟨1001, 1002, false⟩
  pool := .ofList 0 [.empty]
  listener := none
  idleLimit := none
  defaults := builder.defaults
  conns := #[]
  live := []
  cancelled := false

def started : Reactor World Unit Unit := (Reactor.start policy (Reactor.adopt 1000 built).2).2

def turned : Progress × Reactor World Unit Unit :=
  Reactor.resume policy started.prepare (.ok [0, 1]) started

def kept : Moment World Unit Unit := ⟨turned.2, .ofProgress turned.1⟩

theorem built_not_owns : ¬ built.Owns 1000 := by
  rintro (h | h | h | ⟨id, c, hc, -⟩)
  · cases h
  · cases h
  · cases h
  · unfold Reactor.conn? at hc
    split at hc <;> cases hc

theorem kept_occurs (outside : Phase Unit Unit → Prop) :
    Moment.Occurs policy outside builder kept := by
  refine ⟨(), ⟨world, []⟩, built, built.os, rfl, rfl, ?_⟩
  have hs := Reactor.SetUp.adopt 1000 (.inl built_not_owns)
  refine .tail (.tail (.tail .refl (.step (.setUp hs))) (.start _)) ?_
  exact .resume started started.prepare (.ok [0, 1])

theorem kept_waits : ∃ w, kept.phase = .waiting w := by
  have hwaits {p : Progress} (h : (match p with
      | .waiting _ => true
      | .ended _ => false) = true) : ∃ w, p = .waiting w := by
    cases p with
    | waiting w => exact ⟨w, rfl⟩
    | ended _ => cases h
  obtain ⟨w, hw⟩ := hwaits (p := turned.1) (by decide +kernel)
  refine ⟨w, ?_⟩
  rw [kept, hw, Phase.ofProgress]

-- From here on, only the kernel is to compute the turn.
attribute [irreducible] turned

def wrote : Moment World Unit Unit :=
  ⟨(Reactor.request (.conn 1 (.write [7, 8])) kept.reactor).2, kept.phase⟩

theorem wrote_occurs (outside : Phase Unit Unit → Prop) (h : outside kept.phase) :
    Moment.Occurs policy outside builder wrote :=
  (kept_occurs outside).request h (.conn 1 (.write [7, 8]))

def rested : Moment World Unit Unit := ⟨kept.reactor, .idle⟩

theorem rested_occurs (outside : Phase Unit Unit → Prop) :
    Moment.Occurs policy outside builder rested := by
  obtain ⟨w, hw⟩ := kept_waits
  obtain ⟨app, os, r, os', hb, hj, h⟩ := kept_occurs outside
  have hf (m : Moment World Unit Unit) (hm : m.phase = .waiting w) :
      Moment.Act policy outside m ⟨m.reactor, .idle⟩ := by
    rcases m with ⟨r', phase⟩
    obtain rfl : phase = _ := hm
    exact .step (.fail r' w)
  exact ⟨app, os, r, os', hb, hj, h.tail (hf kept hw)⟩

def left : Moment World Unit Unit := ⟨(Reactor.cleanup policy kept.reactor).2, .idle⟩

theorem ok_of_val {α : Type} [DecidableEq α] {p : α → Prop} {x : Except Errno { a : α // p a }}
    {a : α} (h : (match x with
      | .ok a' => decide (a'.1 = a)
      | .error _ => false) = true) : ∃ ha, x = .ok ⟨a, ha⟩ := by
  cases x with
  | ok a' =>
    obtain rfl : a'.1 = a := of_decide_eq_true h
    exact ⟨a'.2, rfl⟩
  | error e => cases h

theorem serve_due (m : Moment World Unit Unit) (f : Watched → Event → Nat → Bool)
    (h : (match m.phase with
      | .busy (.serve w event now) [.proceed] => f w event now
      | _ => false) = true) :
    ∃ w event now, m.phase = .busy (.serve w event now) [.proceed] ∧ f w event now := by
  split at h
  · rename_i w event now hphase
    exact ⟨w, event, now, hphase, h⟩
  · cases h

end Visit

end PollReactor
