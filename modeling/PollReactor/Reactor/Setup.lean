import PollReactor.Reactor.Turn

namespace PollReactor.Reactor

variable {κ π ν : Type} [Kernel κ]

/-- Takes a listening socket over. The one it has already is no news; any other is closed if there
is one already, or if its address cannot be told. -/
def init (fd : Fd) : ReactorM κ π ν (Except Failure Unit) := do
  match (← get).listener with
  | some bound =>
    if bound = fd then return .ok ()
    else
      let result ← systemExcept (Sockets.localAddr bound)
      system (attempt (.close fd))
      match result with
      | .ok addr => return .error (.alreadyBound addr)
      | .error e => return .error (.io e)
  | none =>
    match ← systemExcept (Sockets.localAddr fd) with
    | .ok _ =>
      modify fun r ↦ { r with listener := some fd }
      return .ok ()
    | .error e =>
      system (attempt (.close fd))
      return .error (.io e)

def bind (text : String) : ReactorM κ π ν (Except Failure Net.SocketAddr) := do
  match ← systemExcept (Sockets.listenOn text) with
  | .error e => return .error (.io e)
  | .ok fd =>
    match ← systemExcept (Sockets.localAddr fd) with
    | .error e =>
      system (attempt (.close fd))
      return .error (.io e)
    | .ok addr =>
      match ← init fd with
      | .error f => return .error f
      | .ok () => return .ok addr

def listen (text : String) : ReactorM κ π ν (Except Failure Unit) := do
  match ← systemExcept (Sockets.listenOn text) with
  | .error e => return .error (.io e)
  | .ok fd => init fd

def adopt (fd : Fd) : ReactorM κ π ν (Except Failure Unit) := do
  remark (.adopted fd)
  init (← system (Sockets.adopt fd))

def adoptOwned (fd : Fd) : ReactorM κ π ν (Except Failure Unit) := do
  remark (.adopted fd)
  match ← systemExcept (Sockets.adoptOwned fd) with
  | .error e => return .error (.io e)
  | .ok fd => init fd

def localAddr : ReactorM κ π ν (Except Failure Net.SocketAddr) := do
  match (← get).listener with
  | none => return .error .notBound
  | some fd => return (← systemExcept (Sockets.localAddr fd)).mapError .io

def closeListener : ReactorM κ π ν Unit := do
  match (← get).listener with
  | none => return
  | some fd =>
    modify fun r ↦ { r with listener := none }
    system (attempt (.close fd))

/-- Ends every connection and closes the listening socket; another may be taken over afterwards. -/
def cleanup (P : Policy π ν) : ReactorM κ π ν (Except Panic Unit) := do
  match ← (closeConnections P).run with
  | .error p => return .error p
  | .ok () => return .ok (← closeListener)

def detachAll : List Nat → ReactorM κ π ν Unit
  | [] => return
  | id :: ids => do
    detach id
    detachAll ids

/-- Takes the reactor down. Connections that are still live are closed without a word. -/
def dispose : ReactorM κ π ν Unit := do
  let live := (← get).live
  modify fun r ↦ { r with live := [] }
  detachAll live
  closeListener
  system (← get).waker.close

end PollReactor.Reactor
