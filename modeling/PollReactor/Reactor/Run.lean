import PollReactor.Reactor.Turn

namespace PollReactor

inductive Halt where
  | failure (f : Failure)
  | panic (p : Panic)
  deriving DecidableEq, Repr

structure Watched where
  id : Nat
  interest : Interest
  deriving DecidableEq, Repr

structure Wait where
  watched : List Watched
  list : WatchList

inductive Progress where
  | waiting (w : Wait)
  | ended (result : Except Halt Unit)

namespace Reactor

/-- Longest wait in milliseconds; idleness and cancellation are looked at this often. -/
def waitLimit : Nat := 1000

variable {κ π ν : Type} [Kernel κ]

def watchedOf (r : Reactor κ π ν) : List (Conn × Watched) :=
  r.live.filterMap fun id ↦ (r.conn? id).map fun c ↦ (c, ⟨id, c.interest⟩)

def watchConns (ws : WatchList) : List (Conn × Watched) → (place : Nat) → WatchList
  | [], _ => ws
  | (c, w) :: rest, place =>
    let ws := match c.fd? with
      | none => ws
      | some fd => ws.register .posix fd place w.interest
    watchConns ws rest (place + 1)

/-- Builds the watch list: the wake channel, the listening socket, the connections. -/
def prepare (r : Reactor κ π ν) : Wait :=
  let ws := WatchList.start .posix r.waker.receiver
  let ws := match r.listener with
    | none => ws
    | some fd => ws.register .posix fd listenerToken .readOnly
  ⟨r.watchedOf.map (·.2), watchConns ws r.watchedOf 0⟩

/-- The event of one connection: the last one with its place for a token. -/
def eventOf (events : List Event) (place : Nat) : Event :=
  ((events.filter fun e ↦ e.isReady && e.token = place).getLast?).getD .none

def isReported (events : List Event) (token : Nat) : Bool :=
  events.any fun e ↦ e.isReady && e.token = token

variable (P : Policy π ν)

def serveAll (events : List Event) (now : Nat) :
    List Watched → (place : Nat) → PassM κ π ν Unit
  | [], _ => return
  | w :: rest, place => do
    serve P w.id (eventOf events place) w.interest now
    serveAll events now rest (place + 1)

/-- Re-arms the waker. It may be signaled before its byte is there. -/
def settleWaker (events : List Event) : ReactorM κ π ν Unit := do
  let waker := (← get).waker
  if isReported events wakeToken || waker.signaled then
    let waker ← system waker.reset
    modify fun r ↦ { r with waker }

def turn (w : Wait) (events : List Event) : PassM κ π ν Unit := do
  if isReported events listenerToken then
    match (← get).listener with
    | none => pure ()
    | some fd => acceptPeer P fd
  calmly (settleWaker events)
  let now ← calmly (system (sys .clock))
  serveAll P events now w.watched 0

def proceed : ReactorM κ π ν Progress := do
  if (← get).cancelled then
    let result ← (closeConnections P).run
    return .ended (result.mapError .panic)
  else
    remark .waits
    return .waiting (← get).prepare

def start : ReactorM κ π ν Progress := do
  if (← get).listener.isNone then return .ended (.error (.failure .notBound))
  else proceed P

/-- Goes on after a wait, with one word for each entry of the watch list, or with the failure of
the wait. An interrupted wait is taken up again as it was. -/
def resume (w : Wait) (report : Except Errno (List UInt16)) : ReactorM κ π ν Progress := do
  match report with
  | .error e =>
    if e.kind = .interrupted then return .waiting w
    else return .ended (.error (.failure (.poll (.os e))))
  | .ok reported =>
    match ← (turn P w (Event.ofReport .posix w.list reported)).run with
    | .error p => return .ended (.error (.panic p))
    | .ok () => proceed P

end Reactor

end PollReactor
