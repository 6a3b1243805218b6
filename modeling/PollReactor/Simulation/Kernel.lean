import PollReactor.Simulation.World

namespace PollReactor.Simulation.World

def held : List Nat → Nat
  | [] => 0
  | n :: ns => n + held ns

def patience (w : World) : Nat := strikesLeft w.faults + held w.pipes

theorem struck_error {α : Type} {w w' : World} {call : CallName} {peer : Option Nat} {zero : α}
    {act : World → Except Errno α × World} {e : Errno}
    (h : w.struck call peer zero act = (.error e, w'))
    (hact : ∀ v, (act v).1 ≠ .error e) : w'.patience < w.patience := by
  have hs := strikesLeft_consult call peer w.faults
  unfold struck at h
  split at h
  next faults hc =>
    rw [hc] at hs
    simp only [Prod.mk.injEq] at h
    rw [← h.2]
    simp only [Option.isSome_some, if_true] at hs
    show strikesLeft faults + held w.pipes < strikesLeft w.faults + held w.pipes
    omega
  · simp at h
  next faults hc =>
    exact absurd (congrArg Prod.fst h) (hact _)

theorem kind_ebadf : Errno.ebadf.kind = .uncategorized := by decide

theorem receive_ne_interrupted (w : World) (i : Nat) (p : Peer) (room : Nat) {e : Errno}
    (he : e.kind = .interrupted) : (w.receive i p room).1 ≠ .error e := by
  unfold receive
  split
  · simp
  · split
    · rintro ⟨⟩
      exact absurd he (by decide)
    · split
      · simp
      · rintro ⟨⟩
        exact absurd he (by decide)

theorem send_ne_interrupted (w : World) (i : Nat) (p : Peer) (bs : Bytes) {e : Errno}
    (he : e.kind = .interrupted) : (w.send i p bs).1 ≠ .error e := by
  unfold send
  split
  · rintro ⟨⟩
    exact absurd he (by decide)
  · split
    · simp
    · split
      · rintro ⟨⟩
        exact absurd he (by decide)
      · simp

theorem held_set_lt {l : List Nat} {i n : Nat} (h0 : l.getD i 0 ≠ 0) (hn : n ≠ 0) :
    held (l.set i (l.getD i 0 - n)) < held l := by
  induction l generalizing i with
  | nil => simp at h0
  | cons a l ih =>
    cases i with
    | zero =>
      simp only [List.getD_cons_zero] at h0 ⊢
      simp only [List.set_cons_zero, held]
      omega
    | succ i =>
      simp only [List.getD_cons_succ] at h0 ⊢
      simp only [List.set_cons_succ, held]
      have := ih h0
      omega

theorem pipeRead_found {w w' : World} {fd : Fd} {room n : Nat}
    (h : w.pipeRead fd room = (.ok n, w')) (hn : n ≠ 0) :
    w'.faults = w.faults ∧ held w'.pipes < held w.pipes := by
  unfold pipeRead at h
  split at h
  next i _ =>
    dsimp only at h
    split at h
    · simp at h
    next h0 =>
      simp only [Prod.mk.injEq, Except.ok.injEq] at h
      obtain ⟨rfl, rfl⟩ := h
      exact ⟨rfl, held_set_lt h0 hn⟩
  · simp at h

theorem struck_read_found {w w' : World} {fd : Fd} {room n : Nat}
    (h : w.struck .read none 0 (·.pipeRead fd room) = (.ok n, w')) (hn : n ≠ 0) :
    w'.patience < w.patience := by
  have hs := strikesLeft_consult .read none w.faults
  unfold struck at h
  split at h
  · simp at h
  · simp only [Prod.mk.injEq, Except.ok.injEq] at h
    exact absurd h.1.symm hn
  next faults hc =>
    obtain ⟨hf, hp⟩ := pipeRead_found h hn
    rw [hc] at hs
    simp only [Option.isSome_none, Bool.false_eq_true, if_false] at hs
    unfold patience
    rw [hf]
    show strikesLeft faults + held w'.pipes < strikesLeft w.faults + held w.pipes
    have hp' : held w'.pipes < held w.pipes := hp
    omega

instance : Kernel World where
  answer := answer
  patience := patience
  recv_interrupted {fd room w e w'} h he := by
    simp only [answer] at h
    split at h
    · simp only [Prod.mk.injEq, Except.error.injEq] at h
      rw [← h.1, kind_ebadf] at he
      cases he
    · exact struck_error h fun v ↦ receive_ne_interrupted v _ _ _ he
  send_interrupted {fd bs w e w'} h he := by
    simp only [answer] at h
    split at h
    · simp only [Prod.mk.injEq, Except.error.injEq] at h
      rw [← h.1, kind_ebadf] at he
      cases he
    · exact struck_error h fun v ↦ send_ne_interrupted v _ _ _ he
  read_found h hn := struck_read_found h hn

end PollReactor.Simulation.World
