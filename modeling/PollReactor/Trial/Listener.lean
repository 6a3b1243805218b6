import PollReactor.Simulation.Kernel
import PollReactor.Simulation.Peers
import PollReactor.Simulation.Trace
import PollReactor.Sockets

namespace PollReactor.Trial

open Simulation

inductive ListenerPlan where
  | bind (text : String)
  | adopt (name : Bytes) (owned : Bool)
  deriving DecidableEq, Repr

structure ListenerReport where
  socket : Except IoError (Fd × Except IoError Net.SocketAddr)
  trace : List Line
  stillOpen : List Fd

def ListenerPlan.open (plan : ListenerPlan) (w : World) :
    Except IoError Fd × Os World (Mark Note) :=
  match plan with
  | .bind text => Sockets.listenOn text ⟨w, []⟩
  | .adopt name owned =>
    let (fd, w) := w.listening name
    if owned then Sockets.adoptOwned fd ⟨w, []⟩
    else
      let (fd, os) := Sockets.adopt fd ⟨w, []⟩
      (.ok fd, os)

def listenerTrial (plan : ListenerPlan) (faults : List Fault) : ListenerReport :=
  let report socket (os : Os World (Mark Note)) : ListenerReport :=
    ⟨socket, traceOf true os.journal, os.kernel.openFds⟩
  match plan.open { faults } with
  | (.error e, os) => report (.error e) os
  | (.ok fd, os) =>
    let (addr, os) := Sockets.localAddr fd os
    let (_, os) := Os.call (.close fd) os
    report (.ok (fd, addr)) os

end PollReactor.Trial
