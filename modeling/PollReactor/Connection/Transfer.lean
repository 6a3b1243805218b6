import PollReactor.Kernel
import PollReactor.Ring.Transfer

namespace PollReactor

variable {κ μ : Type} [Kernel κ]

def liftErrno {α : Type} : Except Errno α → Except IoError α
  | .ok a => .ok a
  | .error e => .error (.os e)

theorem liftErrno_eq_error {α : Type} {a : Except Errno α} {e : IoError}
    (h : liftErrno a = .error e) : ∃ n, a = .error n ∧ e = .os n := by
  cases a with
  | ok a => cases h
  | error n =>
    cases h
    exact ⟨n, rfl, rfl⟩

def Source.socket (fd : Fd) : Source (Os κ μ) where
  pull room o :=
    let (a, o) := Os.call (.recv fd room) o
    (liftErrno a, o)
  patience o := Kernel.patience o.kernel
  patience_lt {room o e o'} h he := by
    simp only [Prod.mk.injEq] at h
    obtain ⟨n, hn, rfl⟩ := liftErrno_eq_error h.1
    rw [← h.2]
    exact Kernel.recv_interrupted (Prod.ext hn rfl) he

def Sink.socket (fd : Fd) : Sink (Os κ μ) where
  push bs o :=
    let (a, o) := Os.call (.send fd bs) o
    (liftErrno a, o)
  patience o := Kernel.patience o.kernel
  patience_lt {bs o e o'} h he := by
    simp only [Prod.mk.injEq] at h
    obtain ⟨n, hn, rfl⟩ := liftErrno_eq_error h.1
    rw [← h.2]
    exact Kernel.send_interrupted (Prod.ext hn rfl) he

inductive Received where
  /-- So many bytes; zero if there was nothing yet. -/
  | bytes (n : Nat)
  | endOfStream
  deriving DecidableEq, Repr

namespace Conn

def touch (c : Conn) : OsM κ μ Conn := do
  let now ← sys .clock
  return { c with lastActivity := now }

/-- Takes what the socket offers, as far as there is room. Nothing yet is no failure. -/
def receive (c : Conn) : OsM κ μ (Except IoError Received × Conn) := fun o ↦
  match c.fd? with
  | none => ((.error .notConnected, c), o)
  | some fd =>
    if c.input.isFull then ((.ok (.bytes 0), c), o)
    else
      match c.input.fill (.socket fd) o with
      | (.ok 0, input, o) => ((.ok .endOfStream, { c with input }), o)
      | (.ok n, input, o) =>
        let (c, o) := touch { c with input } o
        ((.ok (.bytes n), c), o)
      | (.error e, input, o) =>
        if e.kind = .wouldBlock then ((.ok (.bytes 0), { c with input }), o)
        else ((.error e, { c with input }), o)

/-- Sends what is queued, as far as the socket takes it. The high mark is looked at again unless
the transfer failed. -/
def transmit (c : Conn) : OsM κ μ (Except IoError Nat × Conn) := fun o ↦
  match c.fd? with
  | none => ((.error .notConnected, c), o)
  | some fd =>
    if c.output.isEmpty then ((.ok 0, c), o)
    else
      let settle (n : Nat) (output : Ring) (o : Os κ μ) :=
        let c := { c with
          output
          outputHigh := c.outputHigh && decide (c.writeMarks.low ≤ output.len) }
        if n = 0 then ((.ok 0, c), o)
        else
          let (c, o) := c.touch o
          ((.ok n, c), o)
      match c.output.flush (.socket fd) o with
      | (.ok n, output, o) => settle n output o
      | (.error e, output, o) =>
        if e.kind = .wouldBlock then settle 0 output o
        else ((.error e, { c with output }), o)

/-- Takes an urgent byte, if there is one. That there is none yet, or none any more, is no
failure. -/
def receiveUrgent (c : Conn) : OsM κ μ (Except IoError Bool × Conn) := do
  match c.fd? with
  | none => return (.error .notConnected, c)
  | some fd =>
    match ← sys (.recvUrgent fd) with
    | .ok (some b) =>
      let c ← touch { c with urgent := some b }
      return (.ok true, c)
    | .ok none => return (.ok false, c)
    | .error e =>
      if e = .eagain ∨ e = .einval then return (.ok false, c)
      else return (.error (.os e), c)

inductive Receives (c : Conn) (o : Os κ μ) :
    (Except IoError Received × Conn) × Os κ μ → Prop where
  | unconnected (hfd : c.fd? = none) : Receives c o ((.error .notConnected, c), o)
  | full {fd : Fd} (hfd : c.fd? = some fd) (hfull : c.input.isFull) :
      Receives c o ((.ok (.bytes 0), c), o)
  | ended {fd : Fd} {input : Ring} {o' : Os κ μ} (hfd : c.fd? = some fd)
      (hroom : ¬ c.input.isFull)
      (h : c.input.fillFrom (.socket fd) 0 o = (.ok 0, input, o')) :
      Receives c o ((.ok .endOfStream, { c with input }), o')
  | blocked {fd : Fd} {e : IoError} {input : Ring} {o' : Os κ μ} (hfd : c.fd? = some fd)
      (hroom : ¬ c.input.isFull)
      (h : c.input.fillFrom (.socket fd) 0 o = (.error e, input, o'))
      (he : e.kind = .wouldBlock) : Receives c o ((.ok (.bytes 0), { c with input }), o')
  | failed {fd : Fd} {e : IoError} {input : Ring} {o' : Os κ μ} (hfd : c.fd? = some fd)
      (hroom : ¬ c.input.isFull)
      (h : c.input.fillFrom (.socket fd) 0 o = (.error e, input, o'))
      (he : e.kind ≠ .wouldBlock) : Receives c o ((.error e, { c with input }), o')
  | moved {fd : Fd} {n : Nat} {input : Ring} {o' : Os κ μ} (hfd : c.fd? = some fd)
      (hroom : ¬ c.input.isFull)
      (h : c.input.fillFrom (.socket fd) 0 o = (.ok (n + 1), input, o')) :
      Receives c o ((.ok (.bytes (n + 1)),
        { c with input, lastActivity := (sys .clock o').1 }), (sys .clock o').2)

theorem receive_receives (c : Conn) (o : Os κ μ) : c.Receives o (c.receive o) := by
  unfold receive
  cases hfd : c.fd? with
  | none => exact .unconnected hfd
  | some fd =>
    dsimp only
    by_cases hfull : c.input.isFull
    · rw [if_pos hfull]
      exact .full hfd hfull
    · rw [if_neg hfull]
      unfold Ring.fill
      rcases hfill : Ring.fillFrom (.socket fd) c.input 0 o with ⟨e | _ | n, input, o'⟩
      · dsimp only
        by_cases he : e.kind = .wouldBlock
        · rw [if_pos he]
          exact .blocked hfd hfull hfill he
        · rw [if_neg he]
          exact .failed hfd hfull hfill he
      · exact .ended hfd hfull hfill
      · exact .moved hfd hfull hfill

def eased (c : Conn) (output : Ring) : Conn :=
  { c with output, outputHigh := c.outputHigh && decide (c.writeMarks.low ≤ output.len) }

inductive Transmits (c : Conn) (o : Os κ μ) : (Except IoError Nat × Conn) × Os κ μ → Prop where
  | unconnected (hfd : c.fd? = none) : Transmits c o ((.error .notConnected, c), o)
  | empty {fd : Fd} (hfd : c.fd? = some fd) (hempty : c.output.isEmpty) :
      Transmits c o ((.ok 0, c), o)
  | still {fd : Fd} {output : Ring} {o' : Os κ μ} (hfd : c.fd? = some fd)
      (hmore : ¬ c.output.isEmpty)
      (h : c.output.flushFrom (.socket fd) 0 o = (.ok 0, output, o')) :
      Transmits c o ((.ok 0, c.eased output), o')
  | blocked {fd : Fd} {e : IoError} {output : Ring} {o' : Os κ μ} (hfd : c.fd? = some fd)
      (hmore : ¬ c.output.isEmpty)
      (h : c.output.flushFrom (.socket fd) 0 o = (.error e, output, o'))
      (he : e.kind = .wouldBlock) : Transmits c o ((.ok 0, c.eased output), o')
  | failed {fd : Fd} {e : IoError} {output : Ring} {o' : Os κ μ} (hfd : c.fd? = some fd)
      (hmore : ¬ c.output.isEmpty)
      (h : c.output.flushFrom (.socket fd) 0 o = (.error e, output, o'))
      (he : e.kind ≠ .wouldBlock) : Transmits c o ((.error e, { c with output }), o')
  | moved {fd : Fd} {n : Nat} {output : Ring} {o' : Os κ μ} (hfd : c.fd? = some fd)
      (hmore : ¬ c.output.isEmpty)
      (h : c.output.flushFrom (.socket fd) 0 o = (.ok (n + 1), output, o')) :
      Transmits c o ((.ok (n + 1),
        { c.eased output with lastActivity := (sys .clock o').1 }), (sys .clock o').2)

theorem transmit_transmits (c : Conn) (o : Os κ μ) : c.Transmits o (c.transmit o) := by
  unfold transmit
  cases hfd : c.fd? with
  | none => exact .unconnected hfd
  | some fd =>
    dsimp only
    by_cases hempty : c.output.isEmpty
    · rw [if_pos hempty]
      exact .empty hfd hempty
    · rw [if_neg hempty]
      unfold Ring.flush
      rcases hflush : Ring.flushFrom (.socket fd) c.output 0 o with ⟨e | _ | n, output, o'⟩
      · dsimp only
        by_cases he : e.kind = .wouldBlock
        · rw [if_pos he]
          exact .blocked hfd hempty hflush he
        · rw [if_neg he]
          exact .failed hfd hempty hflush he
      · exact .still hfd hempty hflush
      · exact .moved hfd hempty hflush

end Conn

end PollReactor
