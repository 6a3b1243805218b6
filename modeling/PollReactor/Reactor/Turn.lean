import PollReactor.Connection.Transfer
import PollReactor.Reactor

namespace PollReactor

namespace Stream

variable {κ μ : Type} [Kernel κ]

def close (s : Stream) : OsM κ μ Stream := do
  match s.fd with
  | none => return empty
  | some fd =>
    attempt (.close fd)
    return empty

def attach (s : Stream) (fd : Fd) : OsM κ μ Stream := do
  let s ← s.close
  return { s with fd := some fd }

end Stream

inductive Teardown where
  | closed
  | timedOut
  | failed (e : IoError)
  deriving DecidableEq, Repr

def Teardown.callback (id : Nat) : Teardown → Callback
  | closed => .closed id
  | timedOut => .timedOut id
  | failed e => .failed id e

namespace Reactor

/-- Steps in which the application may panic. -/
abbrev PassM (κ π ν : Type) := ExceptT Panic (StateM (Reactor κ π ν))

variable {κ π ν : Type} [Kernel κ] (P : Policy π ν)

def calmly {α : Type} (act : ReactorM κ π ν α) : PassM κ π ν α := ExceptT.lift act

def consult {α : Type} (script : π → Script ν (Outcome π α)) :
    ReactorM κ π ν (Except Panic α) := do
  let (result, app) ← runScript (script (← get).app)
  modify fun r ↦ { r with app }
  match result with
  | .ok a => return .ok a
  | .error p =>
    remark (.raised p)
    return .error p

def notify (cb : Callback) : PassM κ π ν Unit := ExceptT.mk do
  remark (.callback cb)
  consult (P.heard cb)

def release (t : Token Stream) : ReactorM κ π ν Unit :=
  modify fun r ↦ { r with pool := (r.pool.release t).2 }

def closeAndRelease (t : Token Stream) : ReactorM κ π ν Unit := do
  let s ← system t.value.close
  release { t with value := s }

def enroll (t : Token Stream) (peer : Net.SocketAddr) (d : Draft) : ReactorM κ π ν Unit := do
  let id := (← get).conns.size + 1
  let c ← system (Conn.touch { d.channel with id, peer, socket := some t })
  modify fun r ↦ { r with conns := r.conns.push c, live := r.live ++ [id] }
  remark (.admitted id t.value.fd d)

def turnAway (listener : Fd) : ReactorM κ π ν Unit := do
  match ← systemExcept (Sockets.accept listener) with
  | .ok (fd, _) => system (attempt (.close fd))
  | .error _ => return

def introduce (t : Token Stream) (peer : Net.SocketAddr) : PassM κ π ν Unit := ExceptT.mk do
  let defaults := (← get).defaults
  remark (.ready peer)
  match ← consult (P.ready peer defaults) with
  | .ok (some d) => return .ok (← enroll t peer d)
  | .ok none => return .ok (← closeAndRelease t)
  | .error p =>
    -- The token is gone with the panic, and its socket with it.
    let _ ← system t.value.close
    return .error p

def acceptPeer (listener : Fd) : PassM κ π ν Unit := do
  match (← get).pool.reserve with
  | .vacantSlot _ => throw .vacantSlot
  | .exhausted => calmly (turnAway listener)
  | .token t pool =>
    calmly (modify fun r ↦ { r with pool })
    match ← calmly (systemExcept (Sockets.accept listener)) with
    | .error _ => calmly (release t)
    | .ok (fd, peer) =>
      let s ← calmly (system (t.value.attach fd))
      introduce P { t with value := s } peer

/-- A connection as it stands, or the default of `α` if there is none of that identifier. -/
def withConn {α : Type} [Inhabited α] (id : Nat) (f : Conn → PassM κ π ν α) : PassM κ π ν α := do
  match (← get).conn? id with
  | none => return default
  | some c => f c

def serveInput (id : Nat) : PassM κ π ν (Option Teardown) :=
  withConn id fun c ↦ do
    let (result, c) ← calmly (system c.receive)
    calmly (modify (·.setConn id c))
    match result with
    | .error e => return some (.failed e)
    | .ok .endOfStream => return some .closed
    | .ok (.bytes n) =>
      if 0 < n ∧ !c.isReadLow then notify P (.dataReceived id)
      return none

/-- Wakes the reactor when a graceful close has nothing left to send. -/
def hastenClose (id : Nat) : PassM κ π ν Unit :=
  withConn id fun c ↦ do
    if c.closePending ∧ c.output.isEmpty then calmly wake

def serveOutput (id : Nat) : PassM κ π ν (Option Teardown) :=
  withConn id fun c ↦ do
    let (result, c) ← calmly (system c.transmit)
    calmly (modify (·.setConn id c))
    match result with
    | .error e => return some (.failed e)
    | .ok n =>
      if 0 < n ∧ c.isWriteLow then notify P (.dataSent id)
      hastenClose id
      return none

def serveUrgent (id : Nat) : PassM κ π ν (Option Teardown) :=
  withConn id fun c ↦ do
    let (result, c) ← calmly (system c.receiveUrgent)
    calmly (modify (·.setConn id c))
    match result with
    | .error e => return some (.failed e)
    | .ok stored =>
      if stored then notify P (.urgentReceived id)
      return none

/-- Serves a connection by the first of these that applies: a graceful close that has come to its
end, input, output, an urgent byte, a hang-up, idleness. -/
def dispatch (id : Nat) (event : Event) (interest : Interest) (now : Nat) :
    PassM κ π ν (Option Teardown) :=
  withConn id fun c ↦ do
    if c.closePending ∧ c.output.isEmpty then return some .closed
    else if event.readable ∧ interest.read then serveInput P id
    else if event.writable ∧ interest.write then serveOutput P id
    else if event.urgent ∧ interest.urgent then serveUrgent P id
    else if event.hangup then
      calmly (modify (·.setConn id { c with hungUp := true }))
      return none
    else if c.isIdle now (← get).idleLimit then return some .timedOut
    else return none

def detach (id : Nat) : ReactorM κ π ν Unit := do
  match (← get).conn? id with
  | none => return
  | some c =>
    modify (·.setConn id { c with socket := none })
    match c.socket with
    | none => return
    | some t => closeAndRelease t

/-- Ends a connection: its socket is closed and it is no longer live when the application hears
of it. -/
def finalize (id : Nat) (why : Teardown) : PassM κ π ν Unit := do
  calmly (detach id)
  calmly (modify fun r ↦ { r with live := r.live.filter (· ≠ id) })
  notify P (why.callback id)

/-- Serves a connection and ends it if it has to be ended, or was shut down meanwhile. -/
def serve (id : Nat) (event : Event) (interest : Interest) (now : Nat) : PassM κ π ν Unit := do
  match ← dispatch P id event interest now with
  | some why => finalize P id why
  | none =>
    match (← get).conn? id with
    | none => return
    | some c => if !c.isConnected then finalize P id .closed

def finalizeAll : List Nat → PassM κ π ν Unit
  | [] => return
  | id :: ids => do
    finalize P id .closed
    finalizeAll ids

def closeConnections : PassM κ π ν Unit := do
  finalizeAll P (← get).live

end Reactor

end PollReactor
