import PollReactor.Connection

namespace PollReactor

structure Place where
  pool : Nat
  slot : Nat
  fd : Option Fd

def Token.place (t : Token Stream) : Place := ⟨t.pool, t.slot, t.value.fd⟩

namespace Conn

def place? (c : Conn) : Option Place := c.socket.map Token.place

theorem fd?_eq (c : Conn) : c.fd? = c.place?.bind (·.fd) := by
  unfold fd? place?
  cases c.socket <;> rfl

variable (c : Conn)

theorem shutdown_place : c.shutdown.1.place? = c.place? := by
  unfold shutdown
  split
  · rfl
  · split
    · rfl
    · split
      · rfl
      · rename_i t hs _ fd hfd hb
        simp only [place?, hs, Option.map_some]
        rfl

theorem close_place (immediate : Bool) : (c.close immediate).1.place? = c.place? := by
  cases immediate
  · rfl
  · exact c.shutdown_place

theorem batchOp_place (op : BatchOp) : (c.batchOp op).2.1.place? = c.place? := by
  cases op with
  | close immediate => exact c.close_place immediate
  | _ => rfl

theorem batchOps_place (c : Conn) (ops : List BatchOp) :
    (c.batchOps ops).2.1.place? = c.place? := by
  induction ops generalizing c with
  | nil => rfl
  | cons op ops ih => exact (ih _).trans (c.batchOp_place op)

theorem perform_place (op : ConnOp) : (c.perform op).2.1.place? = c.place? := by
  cases op with
  | batch ops release => exact batchOps_place c ops
  | close immediate => exact c.close_place immediate
  | _ => rfl

theorem perform_fd? (op : ConnOp) : (c.perform op).2.1.fd? = c.fd? := by
  rw [fd?_eq, c.perform_place, ← fd?_eq]

section

variable {fd : Fd}

theorem shutdown_own (h : .shutdown fd ∈ c.shutdown.2) : c.fd? = some fd := by
  unfold shutdown at h
  split at h
  · cases h
  · rename_i t hs
    split at h
    · cases h
    · rename_i fd' hfd
      split at h
      · cases h
      · cases List.mem_singleton.1 h
        rw [fd?, hs, Option.bind_some, hfd]

theorem not_shutdown_wakeIf (b : Bool) : Effect.shutdown fd ∉ wakeIf b := by
  cases b <;> simp [wakeIf]

theorem close_own {immediate : Bool} (h : .shutdown fd ∈ (c.close immediate).2) :
    c.fd? = some fd := by
  cases immediate with
  | false => cases List.mem_singleton.1 h
  | true =>
    rcases List.mem_append.1 h with h | h
    · exact c.shutdown_own h
    · cases List.mem_singleton.1 h

theorem batchOps_own (c : Conn) {ops : List BatchOp}
    (h : .shutdown fd ∈ (c.batchOps ops).2.2) : c.fd? = some fd := by
  induction ops generalizing c with
  | nil => cases h
  | cons op ops ih =>
    rcases List.mem_append.1 h with h | h
    · cases op with
      | close immediate => exact c.close_own h
      | _ => cases h
    · rw [c.fd?_eq, ← c.batchOp_place op, ← fd?_eq]
      exact ih _ h

theorem perform_own {op : ConnOp} (h : .shutdown fd ∈ (c.perform op).2.2) : c.fd? = some fd := by
  cases op with
  | batch ops release =>
    rcases List.mem_append.1 h with h | h
    · exact batchOps_own c h
    · exact absurd h (not_shutdown_wakeIf _)
  | close immediate => exact c.close_own h
  | peek => cases h
  | status => cases h
  | _ => exact absurd h (not_shutdown_wakeIf _)

end

end Conn

end PollReactor
