import Mathlib.Tactic.SplitIfs
import PollReactor.Proofs.Moment
import PollReactor.Proofs.Still
import PollReactor.Proofs.Transfer

namespace PollReactor

def Entry.OfService {ν : Type} (fd? : Option Fd) (sends : Bool) (e : Entry (Mark ν)) : Prop :=
  if sends then e.OfOutput fd? else e.OfInput fd?

theorem Entry.OfService.input_or_output {ν : Type} {fd? : Option Fd} {sends : Bool}
    {e : Entry (Mark ν)} (h : e.OfService fd? sends) : e.OfInput fd? ∨ e.OfOutput fd? := by
  cases sends with
  | false => exact .inl h
  | true => exact .inr h

theorem Entry.OfService.closes {ν : Type} {fd? : Option Fd} {sends : Bool} {e : Entry (Mark ν)}
    (h : e.OfService fd? sends) : e.closes? = none := by
  rcases h.input_or_output with h | h <;> cases h <;> rfl

inductive Entry.OfSettling {ν : Type} (receiver : Fd) : Entry (Mark ν) → Prop where
  | read (room : Nat) (a : Except Errno Nat) : OfSettling receiver (.sys (.read receiver room) a)

theorem Entry.OfSettling.closes {ν : Type} {receiver : Fd} {e : Entry (Mark ν)}
    (h : e.OfSettling receiver) : e.closes? = none := by
  cases h
  rfl

/-- What a transfer changes of a connection `c`: its buffers and marks. -/
structure Conn.Serviced {ν : Type} (c : Conn) (sends : Bool) (j : Journal ν) (c' : Conn)
    (j' : Journal ν) : Prop where
  socket : c'.socket = c.socket
  closing : c'.closePending = c.closePending
  output : sends = false → c'.output = c.output
  flushed : sends = true → ∀ fd, c.fd? = some fd → Ring.Flushed fd c.output j c'.output j'
  journal : Journal.Adds (Entry.OfService c.fd? sends) j j'

namespace Reactor

variable {κ π ν : Type} [Kernel κ] {P : Policy π ν}

/-- One transfer of a connection, or none; `sends` tells whether it is one of output. -/
inductive Service (r : Reactor κ π ν) (id : Nat) (c : Conn) :
    (sends : Bool) → Reactor κ π ν → Prop where
  | nothing : Service r id c false r
  | input : Service r id c false ((system c.receive r).2.setConn id (system c.receive r).1.2)
  | output : Service r id c true ((system c.transmit r).2.setConn id (system c.transmit r).1.2)
  | urgent : Service r id c false
      ((system c.receiveUrgent r).2.setConn id (system c.receiveUrgent r).1.2)
  | hangup : Service r id c false (r.setConn id { c with hungUp := true })

def afterService (id : Nat) (sends : Bool) : List (Task π ν) :=
  if sends then [.hasten id, .check id] else [.check id]

inductive Attended (P : Policy π ν) (r : Reactor κ π ν) (id : Nat) (c : Conn) :
    Reactor κ π ν × List (Task π ν) → Prop where
  | ended {sends : Bool} {r' : Reactor κ π ν} (h : Service r id c sends r') (why : Teardown) :
      Attended P r id c (r', [.finalize id why])
  | silent {sends : Bool} {r' : Reactor κ π ν} (h : Service r id c sends r')
      (hf : ¬ (c.closePending ∧ c.output.isEmpty)) :
      Attended P r id c (r', afterService id sends)
  | told {sends : Bool} {r' : Reactor κ π ν} (h : Service r id c sends r')
      (hf : ¬ (c.closePending ∧ c.output.isEmpty)) (cb : Callback) (hid : cb.id = id)
      (ht : cb.isTerminal = false) :
      Attended P r id c (tell P cb (afterService id sends) r')

theorem attended_tell {r r' : Reactor κ π ν} {id : Nat} {c : Conn} {sends : Bool}
    (h : Service r id c sends r') (hf : ¬ (c.closePending ∧ c.output.isEmpty)) {cb : Callback}
    (hid : cb.id = id) (ht : cb.isTerminal = false) (b : Prop) [Decidable b] :
    Attended P r id c
      (if b then tell P cb (afterService id sends) r' else (r', afterService id sends)) := by
  split_ifs
  · exact .told h hf cb hid ht
  · exact .silent h hf

theorem attendInput_attended {r : Reactor κ π ν} {id : Nat} {c : Conn}
    (hf : ¬ (c.closePending ∧ c.output.isEmpty)) : Attended P r id c (attendInput P id c r) := by
  have h : Service r id c false _ := .input
  unfold attendInput
  generalize system c.receive r = out at h ⊢
  rcases out with ⟨⟨e | _ | n, c'⟩, r'⟩
  · exact .ended h (.failed e)
  · exact attended_tell h hf rfl rfl _
  · exact .ended h .closed

theorem attendOutput_attended {r : Reactor κ π ν} {id : Nat} {c : Conn}
    (hf : ¬ (c.closePending ∧ c.output.isEmpty)) : Attended P r id c (attendOutput P id c r) := by
  have h : Service r id c true _ := .output
  unfold attendOutput
  generalize system c.transmit r = out at h ⊢
  rcases out with ⟨⟨e | n, c'⟩, r'⟩
  · exact .ended h (.failed e)
  · exact attended_tell h hf rfl rfl _

theorem attendUrgent_attended {r : Reactor κ π ν} {id : Nat} {c : Conn}
    (hf : ¬ (c.closePending ∧ c.output.isEmpty)) : Attended P r id c (attendUrgent P id c r) := by
  have h : Service r id c false _ := .urgent
  unfold attendUrgent
  generalize system c.receiveUrgent r = out at h ⊢
  rcases out with ⟨⟨e | stored, c'⟩, r'⟩
  · exact .ended h (.failed e)
  · exact attended_tell h hf rfl rfl _

theorem attend_attended {w : Watched} {c : Conn} {r : Reactor κ π ν} (hc : r.conn? w.id = some c)
    (event : Event) (now : Nat) : Attended P r w.id c (attend P w event now r) := by
  unfold attend
  rw [hc]
  dsimp only
  split_ifs with hf
  · exact .ended .nothing .closed
  · exact attendInput_attended hf
  · exact attendOutput_attended hf
  · exact attendUrgent_attended hf
  · exact .silent .hangup hf
  · exact .ended .nothing .timedOut
  · exact .silent .nothing hf

theorem attend_of_none {w : Watched} {r : Reactor κ π ν} (hc : r.conn? w.id = none)
    (event : Event) (now : Nat) : attend P w event now r = (r, afterService w.id false) := by
  unfold attend
  rw [hc]
  rfl

inductive IsSequel (id : Nat) : Task π ν → Prop where
  | hear (script : Script ν (Outcome π Unit)) : IsSequel id (.hear script)
  | hasten : IsSequel id (.hasten id)
  | check : IsSequel id (.check id)
  | finalize (why : Teardown) : IsSequel id (.finalize id why)

theorem afterService_sequel {id : Nat} {sends : Bool} {t : Task π ν}
    (h : t ∈ afterService id sends) : IsSequel id t := by
  cases sends with
  | false =>
    obtain rfl := List.mem_singleton.1 h
    exact .check
  | true =>
    rcases List.mem_cons.1 h with rfl | h
    · exact .hasten
    · obtain rfl := List.mem_singleton.1 h
      exact .check

inductive Aftermath (id : Nat) : List (Task π ν) → Prop where
  | ended (why : Teardown) : Aftermath id [.finalize id why]
  | silent (sends : Bool) : Aftermath id (afterService id sends)
  | told (script : Script ν (Outcome π Unit)) (sends : Bool) :
      Aftermath id (.hear script :: afterService id sends)

theorem attend_aftermath (w : Watched) (event : Event) (now : Nat) (r : Reactor κ π ν) :
    Aftermath w.id (attend P w event now r).2 := by
  cases hc : r.conn? w.id with
  | none =>
    rw [attend_of_none hc]
    exact .silent false
  | some c =>
    have ha := attend_attended (P := P) hc event now
    generalize attend P w event now r = out at ha ⊢
    cases ha with
    | ended _ why => exact .ended why
    | silent => exact .silent _
    | told => exact .told _ _

theorem attend_sequel {w : Watched} {event : Event} {now : Nat} {r : Reactor κ π ν}
    {t : Task π ν} (h : t ∈ (attend P w event now r).2) : IsSequel w.id t := by
  have ha := attend_aftermath (P := P) w event now r
  generalize (attend P w event now r).2 = ts at h ha
  cases ha with
  | ended why =>
    obtain rfl := List.mem_singleton.1 h
    exact .finalize why
  | silent sends => exact afterService_sequel h
  | told script sends =>
    rcases List.mem_cons.1 h with rfl | h
    · exact .hear script
    · exact afterService_sequel h

variable {r r' : Reactor κ π ν} {id : Nat} {c : Conn} {sends : Bool}

theorem Service.spec (h : Service r id c sends r') (hc : r.conn? id = some c) :
    ∃ os c', r' = Reactor.setConn { r with os } id c' ∧
      c.Serviced sends r.os.journal c' os.journal := by
  cases h with
  | nothing =>
    refine ⟨r.os, c, (setConn_self hc).symm, rfl, rfl, fun _ ↦ rfl, ?_, .refl _⟩
    exact fun h ↦ by cases h
  | input =>
    obtain ⟨⟨input, now, he⟩, hj⟩ := c.receive_spec r.os
    refine ⟨(c.receive r.os).2, (c.receive r.os).1.2, rfl, ?_, ?_, fun _ ↦ ?_, ?_,
      hj.mono fun _ he ↦ he.input⟩
    · rw [he]
    · rw [he]
    · rw [he]
    · exact fun h ↦ by cases h
  | output =>
    obtain ⟨⟨output, high, now, he⟩, hj, hf⟩ := c.transmit_spec r.os
    refine ⟨(c.transmit r.os).2, (c.transmit r.os).1.2, rfl, ?_, ?_, ?_, fun _ ↦ hf, hj⟩
    · rw [he]
    · rw [he]
    · exact fun h ↦ by cases h
  | urgent =>
    obtain ⟨⟨urgent, now, he⟩, hj⟩ := c.receiveUrgent_spec r.os
    refine ⟨(c.receiveUrgent r.os).2, (c.receiveUrgent r.os).1.2, rfl, ?_, ?_, fun _ ↦ ?_, ?_,
      hj.mono fun _ he ↦ he.input⟩
    · rw [he]
    · rw [he]
    · rw [he]
    · exact fun h ↦ by cases h
  | hangup =>
    refine ⟨r.os, { c with hungUp := true }, rfl, rfl, rfl, fun _ ↦ rfl, ?_, .refl _⟩
    exact fun h ↦ by cases h

theorem Service.still (h : Service r id c sends r') (hc : r.conn? id = some c) :
    Still (Entry.OfService c.fd? sends) r r' := by
  obtain ⟨os, c', rfl, hs⟩ := h.spec hc
  have h1 : Still (Entry.OfService c.fd? sends) r { r with os } :=
    ⟨rfl, rfl, rfl, rfl, rfl, rfl, fun _ ↦ rfl, hs.journal⟩
  refine h1.trans (.setConn (c := c) hc ?_)
  rw [Conn.place?, hs.socket, Conn.place?]

theorem clock_still (r : Reactor κ π ν) :
    Still (Entry.OfService none false) r (system (sys .clock) r).2 :=
  .system r (.single (Entry.OfInput.clock none _))

theorem drain_journal (fd : Fd) (o : Os κ (Mark ν)) :
    Journal.Adds (Entry.OfSettling fd) o.journal (Waker.drain fd o).journal := by
  have hread {o o' : Os κ (Mark ν)} {a : Except Errno Nat} (h : Os.call (.read fd 64) o = (a, o')) :
      Journal.Adds (Entry.OfSettling fd) o.journal o'.journal := by
    cases h
    exact .single (.read 64 _)
  fun_induction Waker.drain fd o with
  | case1 o o' h => exact hread h
  | case2 o n o' h _ _ ih => exact (hread h).trans ih
  | case3 o e o' h => exact hread h

theorem settleWaker_run (events : List Event) (r : Reactor κ π ν) :
    (settleWaker events r).2 = if isReported events wakeToken || r.waker.signaled then
      { r with
        os := Waker.drain r.waker.receiver r.os
        waker := { r.waker with signaled := false } }
    else r := by
  show ((if isReported events wakeToken || r.waker.signaled then _ else _ :
    ReactorM κ π ν PUnit) r).2 = _
  split_ifs <;> rfl

theorem settleWaker_conns (events : List Event) (r : Reactor κ π ν) :
    (settleWaker events r).2.conns = r.conns := by
  rw [settleWaker_run]
  split_ifs <;> rfl

theorem settleWaker_still (events : List Event) (r : Reactor κ π ν) :
    Still (Entry.OfSettling r.waker.receiver) r (settleWaker events r).2 := by
  rw [settleWaker_run]
  split_ifs
  · exact ⟨rfl, rfl, rfl, rfl, rfl, rfl, fun _ ↦ rfl, drain_journal _ _⟩
  · exact .refl r

end Reactor

end PollReactor
