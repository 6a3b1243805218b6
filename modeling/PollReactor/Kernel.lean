import PollReactor.Connection

namespace PollReactor

inductive SysCall where
  | socket (family : Nat)
  | pipe
  | statusFlags (fd : Fd)
  | setStatusFlags (fd : Fd) (flags : Nat)
  | descriptorFlags (fd : Fd)
  | setDescriptorFlags (fd : Fd) (flags : Nat)
  | setNonblocking (fd : Fd)
  | setOption (fd : Fd) (level option value : Nat)
  | bind (fd : Fd) (name : Bytes)
  | listen (fd : Fd) (backlog : Nat)
  | localName (fd : Fd)
  | accept (fd : Fd)
  | read (fd : Fd) (room : Nat)
  | write (fd : Fd) (bs : Bytes)
  | recv (fd : Fd) (room : Nat)
  | recvUrgent (fd : Fd)
  | send (fd : Fd) (bs : Bytes)
  | shutdown (fd : Fd)
  | close (fd : Fd)
  | clock
  deriving DecidableEq, Repr

@[reducible]
def SysCall.Answer : SysCall → Type
  | socket _ => Except Errno Fd
  | pipe => Except Errno (Fd × Fd)
  | statusFlags _ => Except Errno Nat
  | setStatusFlags .. => Except Errno Unit
  | descriptorFlags _ => Except Errno Nat
  | setDescriptorFlags .. => Except Errno Unit
  | setNonblocking _ => Except Errno Unit
  | setOption .. => Except Errno Unit
  | bind .. => Except Errno Unit
  | listen .. => Except Errno Unit
  | localName _ => Except Errno Bytes
  | accept _ => Except Errno (Fd × Bytes)
  | read .. => Except Errno Nat
  | write .. => Except Errno Nat
  | recv _ room => Except Errno { bs : Bytes // bs.length ≤ room }
  | recvUrgent _ => Except Errno (Option UInt8)
  | send _ bs => Except Errno { n : Nat // n ≤ bs.length }
  | shutdown _ => Except Errno Unit
  | close _ => Except Errno Unit
  | clock => Nat

/-- A machine that answers system calls. It interrupts a transfer, and finds more bytes in a pipe
that was just read, only finitely often in a row. -/
class Kernel (κ : Type) where
  answer : (call : SysCall) → κ → call.Answer × κ
  patience : κ → Nat
  recv_interrupted : ∀ {fd room k e k'}, answer (.recv fd room) k = (.error e, k') →
    e.kind = .interrupted → patience k' < patience k
  send_interrupted : ∀ {fd bs k e k'}, answer (.send fd bs) k = (.error e, k') →
    e.kind = .interrupted → patience k' < patience k
  read_found : ∀ {fd room k n k'}, answer (.read fd room) k = (.ok n, k') →
    n ≠ 0 → patience k' < patience k

/-- One line of the journal: a call with its answer, or a remark made in between. -/
inductive Entry (μ : Type) where
  | sys (call : SysCall) (answer : call.Answer)
  | remark (m : μ)

/-- A machine and the journal of what was asked of it, the latest entry first. -/
structure Os (κ μ : Type) where
  kernel : κ
  journal : List (Entry μ)

namespace Os

variable {κ μ : Type} [Kernel κ]

def call (c : SysCall) (o : Os κ μ) : c.Answer × Os κ μ :=
  let (a, kernel) := Kernel.answer c o.kernel
  (a, ⟨kernel, .sys c a :: o.journal⟩)

def note (m : μ) (o : Os κ μ) : Os κ μ :=
  { o with journal := .remark m :: o.journal }

end Os

abbrev OsM (κ μ : Type) := StateM (Os κ μ)

abbrev OsExcept (κ μ : Type) := ExceptT IoError (StateM (Os κ μ))

variable {κ μ : Type} [Kernel κ]

def sys (c : SysCall) : OsM κ μ c.Answer := Os.call c

def demand {α : Type} (answer : OsM κ μ (Except Errno α)) : OsExcept κ μ α :=
  fun o ↦
    match answer o with
    | (.ok a, o) => (.ok a, o)
    | (.error e, o) => (.error (.os e), o)

def attempt (c : SysCall) : OsM κ μ Unit := do
  let _ ← sys c
  return

def closeAll : List Fd → OsM κ μ Unit
  | [] => return
  | fd :: fds => do
    attempt (.close fd)
    closeAll fds

/-- Runs `act`; if it fails, closes `fds` and fails as it did. -/
def closingOnError {α : Type} (fds : List Fd) (act : OsExcept κ μ α) : OsExcept κ μ α :=
  fun o ↦
    match act o with
    | (.ok a, o) => (.ok a, o)
    | (.error e, o) => (.error e, (closeAll fds o).2)

end PollReactor
