import PollReactor.Kernel

namespace PollReactor

/-- A pipe to one's own wait. However often the waker is called between two resets, one byte is
written. -/
structure Waker where
  receiver : Fd
  sender : Fd
  /-- Set from the first call until the next reset. -/
  signaled : Bool
  deriving DecidableEq, Repr

namespace Waker

variable {κ μ : Type} [Kernel κ]

/-- Writes one byte unless one was written since the last reset. A pipe that is full will end the
wait as it is. -/
def wake (w : Waker) : OsM κ μ Waker := do
  if w.signaled then return w
  attempt (.write w.sender [1])
  return { w with signaled := true }

def drain (fd : Fd) (o : Os κ μ) : Os κ μ :=
  match h : Os.call (.read fd 64) o with
  | (.ok n, o') =>
    if hn : n = 0 then o'
    else
      have : Kernel.patience o'.kernel < Kernel.patience o.kernel := by
        simp only [Os.call, Prod.mk.injEq] at h
        exact Kernel.read_found (Prod.ext h.1 (by rw [← h.2])) hn
      drain fd o'
  | (.error _, o') => o'
termination_by Kernel.patience o.kernel

def reset (w : Waker) : OsM κ μ Waker := fun o ↦
  ({ w with signaled := false }, drain w.receiver o)

def close (w : Waker) : OsM κ μ Unit := closeAll [w.receiver, w.sender]

end Waker

end PollReactor
