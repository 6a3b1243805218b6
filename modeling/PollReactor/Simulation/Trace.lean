import PollReactor.Simulation.Playbook

namespace PollReactor.Simulation

inductive Field where
  | text (s : String)
  | number (n : Int)
  deriving DecidableEq, Repr

namespace Field

def fd (fd : Fd) : Field := .number fd

def nat (n : Nat) : Field := .number n

end Field

structure CallLine where
  name : String
  args : List Field
  returned : Except Errno Int

/-- A call as it is told. Looking at the clock is not. -/
def callLine : (call : SysCall) → call.Answer → Option CallLine
  | .socket family, a => some ⟨"socket", [.nat family, .nat 1, .nat 0], a⟩
  | .pipe, a => some ⟨"pipe", [], a.map fun _ ↦ 0⟩
  | .statusFlags fd, a => some ⟨"fcntl", [.fd fd, .text "getfl"], a.map (↑·)⟩
  | .setStatusFlags fd flags, a =>
    some ⟨"fcntl", [.fd fd, .text "setfl", .nat flags], a.map fun _ ↦ 0⟩
  | .descriptorFlags fd, a => some ⟨"fcntl", [.fd fd, .text "getfd"], a.map (↑·)⟩
  | .setDescriptorFlags fd flags, a =>
    some ⟨"fcntl", [.fd fd, .text "setfd", .nat flags], a.map fun _ ↦ 0⟩
  | .setNonblocking fd, a => some ⟨"ioctl", [.fd fd, .text "fionbio", .nat 1], a.map fun _ ↦ 0⟩
  | .setOption fd level option value, a =>
    some ⟨"setsockopt", [.fd fd, .nat level, .nat option, .nat value], a.map fun _ ↦ 0⟩
  | .bind fd name, a => some ⟨"bind", [.fd fd, .text (Bytes.toHex name)], a.map fun _ ↦ 0⟩
  | .listen fd backlog, a => some ⟨"listen", [.fd fd, .nat backlog], a.map fun _ ↦ 0⟩
  | .localName fd, a => some ⟨"getsockname", [.fd fd], a.map fun _ ↦ 0⟩
  | .accept fd, a => some ⟨"accept", [.fd fd], a.map (·.1)⟩
  | .read fd room, a => some ⟨"read", [.fd fd, .nat room], a.map (↑·)⟩
  | .write fd bs, a => some ⟨"write", [.fd fd, .nat bs.length], a.map (↑·)⟩
  | .recv fd room, a => some ⟨"recv", [.fd fd, .nat room], a.map (↑·.1.length)⟩
  | .recvUrgent fd, a =>
    some ⟨"recv_oob", [.fd fd, .nat 1], a.map fun b ↦ if b.isSome then 1 else 0⟩
  | .send fd bs, a => some ⟨"send", [.fd fd, .nat bs.length], a.map (↑·.1)⟩
  | .shutdown fd, a => some ⟨"shutdown", [.fd fd, .nat 2], a.map fun _ ↦ 0⟩
  | .close fd, a => some ⟨"close", [.fd fd], a.map fun _ ↦ 0⟩
  | .clock, _ => none

/-- The calls that belong to the life of a peer or of the wake channel, rather than to setting a
descriptor up. -/
def transfers : List String :=
  ["accept", "read", "write", "recv", "recv_oob", "send", "shutdown", "close"]

inductive Line where
  | call (c : CallLine)
  | note (n : Note)

/-- The line of a journal entry. Unless the trace is verbose, a call that only sets a descriptor up
has one if it failed. -/
def lineOf (verbose : Bool) : Entry (Mark Note) → Option Line
  | .sys call a => do
    let c ← callLine call a
    if verbose || c.name ∈ transfers || !c.returned.isOk then return .call c else none
  | .remark (.said n) => some (.note n)
  | .remark _ => none

def traceOf (verbose : Bool) (journal : List (Entry (Mark Note))) : List Line :=
  journal.reverse.filterMap (lineOf verbose)

end PollReactor.Simulation
