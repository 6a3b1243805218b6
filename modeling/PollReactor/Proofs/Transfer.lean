import PollReactor.Connection.Transfer
import PollReactor.Proofs.Journal
import PollReactor.Proofs.Ring
import PollReactor.Proofs.Running

namespace PollReactor

variable {κ ν : Type} [Kernel κ]

namespace Entry

inductive OfInput : Option Fd → Entry (Mark ν) → Prop where
  | recv (fd : Fd) (room : Nat) (a : (SysCall.recv fd room).Answer) :
      OfInput (some fd) (.sys (.recv fd room) a)
  | recvUrgent (fd : Fd) (a : (SysCall.recvUrgent fd).Answer) :
      OfInput (some fd) (.sys (.recvUrgent fd) a)
  | clock (fd? : Option Fd) (now : Nat) : OfInput fd? (.sys .clock now)

inductive OfPlainInput : Option Fd → Entry (Mark ν) → Prop where
  | recv (fd : Fd) (room : Nat) (a : (SysCall.recv fd room).Answer) :
      OfPlainInput (some fd) (.sys (.recv fd room) a)
  | clock (fd? : Option Fd) (now : Nat) : OfPlainInput fd? (.sys .clock now)

inductive OfUrgentInput : Option Fd → Entry (Mark ν) → Prop where
  | recvUrgent (fd : Fd) (a : (SysCall.recvUrgent fd).Answer) :
      OfUrgentInput (some fd) (.sys (.recvUrgent fd) a)
  | clock (fd? : Option Fd) (now : Nat) : OfUrgentInput fd? (.sys .clock now)

omit [Kernel κ] in
theorem OfPlainInput.input {fd? : Option Fd} {e : Entry (Mark ν)} (h : e.OfPlainInput fd?) :
    e.OfInput fd? := by
  cases h with
  | recv fd room a => exact .recv fd room a
  | clock _ now => exact .clock _ now

omit [Kernel κ] in
theorem OfUrgentInput.input {fd? : Option Fd} {e : Entry (Mark ν)} (h : e.OfUrgentInput fd?) :
    e.OfInput fd? := by
  cases h with
  | recvUrgent fd a => exact .recvUrgent fd a
  | clock _ now => exact .clock _ now

inductive OfOutput : Option Fd → Entry (Mark ν) → Prop where
  | send (fd : Fd) (bs : Bytes) (a : (SysCall.send fd bs).Answer) :
      OfOutput (some fd) (.sys (.send fd bs) a)
  | clock (fd? : Option Fd) (now : Nat) : OfOutput fd? (.sys .clock now)

def sent (fd : Fd) : Entry (Mark ν) → Bytes
  | .sys (.send fd' bs) (.ok n) => if fd' = fd then bs.take n.1 else []
  | _ => []

end Entry

def Journal.sent (fd : Fd) : Journal ν → Bytes
  | [] => []
  | e :: j => sent fd j ++ e.sent fd

theorem Journal.sent_append (fd : Fd) (new j : Journal ν) :
    sent fd (new ++ j) = sent fd j ++ sent fd new := by
  induction new with
  | nil => simp [sent]
  | cons e new ih => simp [sent, ih]

theorem Journal.sent_eq_nil {fd : Fd} {j : Journal ν} (h : ∀ e ∈ j, e.sent fd = []) :
    sent fd j = [] := by
  induction j with
  | nil => rfl
  | cons e j ih =>
    rw [sent, h e List.mem_cons_self, ih fun e he ↦ h e (List.mem_cons_of_mem _ he)]
    rfl

namespace Ring

theorem front_eq_take (r : Ring) {n : Nat} (h : n ≤ r.front.length) :
    r.front.take n = r.toList.take n := by
  rw [toList, List.take_append_of_le_length h]

theorem push_socket {fd : Fd} {bs : Bytes} {o o' : Os κ (Mark ν)}
    {answer : Except IoError { n : Nat // n ≤ bs.length }}
    (h : (Sink.socket fd).push bs o = (answer, o')) :
    ∃ a : (SysCall.send fd bs).Answer, answer = liftErrno a ∧
      o'.journal = .sys (.send fd bs) a :: o.journal := by
  cases h
  exact ⟨_, rfl, rfl⟩

theorem pull_socket {fd : Fd} {room : Nat} {o o' : Os κ (Mark ν)}
    {answer : Except IoError { bs : Bytes // bs.length ≤ room }}
    (h : (Source.socket fd).pull room o = (answer, o')) :
    Journal.Adds (Entry.OfPlainInput (some fd)) o.journal o'.journal := by
  cases h
  exact .single (.recv fd room _)

/-- What was taken from the queue `r` is what the descriptor took meanwhile. -/
def Flushed (fd : Fd) (r : Ring) (j : Journal ν) (r' : Ring) (j' : Journal ν) : Prop :=
  ∃ new, j' = new ++ j ∧ (∀ e ∈ new, Entry.OfOutput (some fd) e) ∧
    Journal.sent fd new ++ r'.toList = r.toList

namespace Flushed

omit [Kernel κ]

variable {fd : Fd} {r r' r'' : Ring} {j j' j'' : Journal ν}

theorem refl (r : Ring) (j : Journal ν) : Flushed fd r j r j :=
  ⟨[], rfl, fun _ h ↦ (by cases h), rfl⟩

theorem trans (h : Flushed fd r j r' j') (h' : Flushed fd r' j' r'' j'') :
    Flushed fd r j r'' j'' := by
  obtain ⟨new, rfl, hn, hs⟩ := h
  obtain ⟨newer, rfl, hn', hs'⟩ := h'
  refine ⟨newer ++ new, by rw [List.append_assoc], ?_, ?_⟩
  · intro e he
    rcases List.mem_append.1 he with he | he
    · exact hn' e he
    · exact hn e he
  · rw [Journal.sent_append, List.append_assoc, hs', hs]

theorem entry {e : Entry (Mark ν)} (he : Entry.OfOutput (some fd) e)
    (hs : e.sent fd ++ r'.toList = r.toList) : Flushed fd r j r' (e :: j) := by
  refine ⟨[e], rfl, ?_, hs⟩
  intro e' h
  rw [List.mem_singleton.1 h]
  exact he

theorem adds (h : Flushed fd r j r' j') : Journal.Adds (Entry.OfOutput (some fd)) j j' := by
  obtain ⟨new, hj, hn, -⟩ := h
  exact ⟨new, hj, hn⟩

end Flushed

def unsent (r : Ring) : Except IoError { n : Nat // n ≤ r.front.length } → Ring
  | .ok n => r.consume n
  | .error _ => r

theorem flushed_push {fd : Fd} {r : Ring} {o o' : Os κ (Mark ν)}
    {answer : Except IoError { n : Nat // n ≤ r.front.length }}
    (h : (Sink.socket fd).push r.front o = (answer, o')) :
    Flushed fd r o.journal (r.unsent answer) o'.journal := by
  obtain ⟨a, rfl, hj⟩ := push_socket h
  rw [hj]
  refine .entry (.send fd r.front a) ?_
  cases a with
  | ok n =>
    show (if fd = fd then r.front.take n else []) ++ (r.consume n).toList = r.toList
    rw [if_pos rfl, toList_consume, r.front_eq_take n.2, List.take_append_drop]
  | error e => rfl

theorem flushFrom_socket (fd : Fd) (r : Ring) (moved : Nat) (o : Os κ (Mark ν)) :
    Flushed fd r o.journal (flushFrom (Sink.socket fd) r moved o).2.1
      (flushFrom (Sink.socket fd) r moved o).2.2.journal := by
  fun_induction flushFrom (Sink.socket fd) r moved o with
  | case1 r moved o h => exact .refl r _
  | case2 r moved o h o' hn hp =>
    obtain ⟨new, hj, hn, hs⟩ := flushed_push hp
    have h0 : (r.consume 0).toList = r.toList := r.toList_consume 0
    exact ⟨new, hj, hn, (congrArg _ h0.symm).trans hs⟩
  | case3 r moved o h n hn o' hp _ _ ih => exact (flushed_push hp).trans ih
  | case4 r moved o h e o' hp _ _ ih => exact (flushed_push hp).trans ih
  | case5 r moved o h e o' hp => exact flushed_push hp
  | case6 r moved o h e o' hp => exact flushed_push hp

theorem fillFrom_socket (fd : Fd) (r : Ring) (moved : Nat) (o : Os κ (Mark ν)) :
    Journal.Adds (Entry.OfPlainInput (some fd)) o.journal
      (fillFrom (Source.socket fd) r moved o).2.2.journal := by
  fun_induction fillFrom (Source.socket fd) r moved o with
  | case1 => exact .refl _
  | case2 r moved o h hb o' hp => exact pull_socket hp
  | case3 r moved o h bs hb o' hp _ _ ih => exact (pull_socket hp).trans ih
  | case4 r moved o h e o' hp _ _ ih => exact (pull_socket hp).trans ih
  | case5 r moved o h e o' hp => exact pull_socket hp
  | case6 r moved o h e o' hp => exact pull_socket hp

end Ring

namespace Conn

open Journal (Adds)

theorem receive_spec (c : Conn) (o : Os κ (Mark ν)) :
    (∃ input now, (c.receive o).1.2 = { c with input, lastActivity := now }) ∧
      Adds (Entry.OfPlainInput c.fd?) o.journal (c.receive o).2.journal := by
  have hr := c.receive_receives o
  have hadds {fd : Fd} (hfd : c.fd? = some fd) : Adds (Entry.OfPlainInput c.fd?) o.journal
      (c.input.fillFrom (.socket fd) 0 o).2.2.journal := by
    rw [hfd]
    exact c.input.fillFrom_socket fd 0 o
  generalize c.receive o = out at hr ⊢
  cases hr with
  | unconnected | full => exact ⟨⟨_, _, rfl⟩, .refl _⟩
  | ended hfd _ h | blocked hfd _ h | failed hfd _ h =>
    have hadds := hadds hfd
    rw [h] at hadds
    exact ⟨⟨_, _, rfl⟩, hadds⟩
  | moved hfd _ h =>
    have hadds := hadds hfd
    rw [h] at hadds
    exact ⟨⟨_, _, rfl⟩, hadds.cons (.clock _ _)⟩

theorem receiveUrgent_spec (c : Conn) (o : Os κ (Mark ν)) :
    (∃ urgent now, (c.receiveUrgent o).1.2 = { c with urgent, lastActivity := now }) ∧
      Adds (Entry.OfUrgentInput c.fd?) o.journal (c.receiveUrgent o).2.journal := by
  unfold receiveUrgent
  cases hfd : c.fd? with
  | none => exact ⟨⟨_, _, rfl⟩, .refl _⟩
  | some fd =>
    have h : Adds (Entry.OfUrgentInput (some fd)) o.journal (sys (.recvUrgent fd) o).2.journal :=
      .single (.recvUrgent fd _)
    dsimp only
    rw [bind_run]
    generalize sys (.recvUrgent fd) o = out at h ⊢
    rcases out with ⟨e | _ | b, o'⟩
    · dsimp only
      split_ifs
      · exact ⟨⟨_, _, rfl⟩, h⟩
      · exact ⟨⟨_, _, rfl⟩, h⟩
    · exact ⟨⟨_, _, rfl⟩, h⟩
    · exact ⟨⟨_, _, rfl⟩, h.cons (.clock _ _)⟩

theorem transmit_spec (c : Conn) (o : Os κ (Mark ν)) :
    (∃ output outputHigh now,
      (c.transmit o).1.2 = { c with output, outputHigh, lastActivity := now }) ∧
      Adds (Entry.OfOutput c.fd?) o.journal (c.transmit o).2.journal ∧
      ∀ fd, c.fd? = some fd →
        Ring.Flushed fd c.output o.journal (c.transmit o).1.2.output (c.transmit o).2.journal := by
  have ht := c.transmit_transmits o
  have key {fd : Fd} {j' : Journal ν} {output : Ring} (hfd : c.fd? = some fd)
      (h : Ring.Flushed fd c.output o.journal output j') :
      Adds (Entry.OfOutput c.fd?) o.journal j' ∧
        ∀ fd, c.fd? = some fd → Ring.Flushed fd c.output o.journal output j' := by
    rw [hfd]
    exact ⟨h.adds, fun fd' he ↦ by cases he; exact h⟩
  have hflushed (fd : Fd) := c.output.flushFrom_socket fd 0 o
  generalize c.transmit o = out at ht ⊢
  cases ht with
  | unconnected hfd =>
    rw [hfd]
    exact ⟨⟨_, _, _, rfl⟩, .refl _, nofun⟩
  | empty hfd => exact ⟨⟨_, _, _, rfl⟩, key hfd (.refl _ _)⟩
  | @still fd _ _ hfd _ h | @blocked fd _ _ _ hfd _ h | @failed fd _ _ _ hfd _ h =>
    have hflushed := hflushed fd
    rw [h] at hflushed
    exact ⟨⟨_, _, _, rfl⟩, key hfd hflushed⟩
  | @moved fd _ _ _ hfd _ h =>
    have hflushed := hflushed fd
    rw [h] at hflushed
    exact ⟨⟨_, _, _, rfl⟩, key hfd (hflushed.trans (.entry (.clock _ _) rfl))⟩

theorem receive_fd? (c : Conn) (o : Os κ (Mark ν)) : (c.receive o).1.2.fd? = c.fd? := by
  obtain ⟨⟨input, now, he⟩, -⟩ := c.receive_spec o
  rw [he]
  rfl

theorem transmit_fd? (c : Conn) (o : Os κ (Mark ν)) : (c.transmit o).1.2.fd? = c.fd? := by
  obtain ⟨⟨output, high, now, he⟩, -⟩ := c.transmit_spec o
  rw [he]
  rfl

theorem receiveUrgent_fd? (c : Conn) (o : Os κ (Mark ν)) :
    (c.receiveUrgent o).1.2.fd? = c.fd? := by
  obtain ⟨⟨urgent, now, he⟩, -⟩ := c.receiveUrgent_spec o
  rw [he]
  rfl

end Conn

end PollReactor
