import PollReactor.Proofs.Rousing

namespace PollReactor

variable {κ π ν : Type}

/-- Something was to be written to the pipe. -/
def Entry.knocks (sender : Fd) : Entry (Mark ν) → Bool
  | .sys (.write fd _) _ => fd = sender
  | _ => false

namespace Reactor

/-- The waker was called in between, or it was not. The first call since the last reset writes to
the pipe, and nothing else does. -/
structure Wakes (called : Bool) (r r' : Reactor κ π ν) : Prop where
  sender : r'.waker.sender = r.waker.sender
  signaled : r'.waker.signaled = (r.waker.signaled || called)
  knocks : ∃ new, r'.os.journal = new ++ r.os.journal ∧
    new.countP (·.knocks r.waker.sender) = if called && !r.waker.signaled then 1 else 0

namespace Wakes

variable {called called' : Bool} {r r' r'' : Reactor κ π ν}

theorem quiet (new : Journal ν) (hw : r'.waker = r.waker) (hj : r'.os.journal = new ++ r.os.journal)
    (hn : ∀ e ∈ new, e.knocks r.waker.sender = false) : Wakes false r r' where
  sender := by rw [hw]
  signaled := by rw [hw, Bool.or_false]
  knocks := by
    refine ⟨new, hj, List.countP_eq_zero.2 ?_⟩
    intro e he
    rw [hn e he]
    nofun

theorem refl (r : Reactor κ π ν) : Wakes false r r :=
  quiet [] rfl rfl (List.forall_mem_nil _)

theorem trans (h : Wakes called r r') (h' : Wakes called' r' r'') :
    Wakes (called || called') r r'' where
  sender := h'.sender.trans h.sender
  signaled := by rw [h'.signaled, h.signaled, Bool.or_assoc]
  knocks := by
    obtain ⟨new, hj, hn⟩ := h.knocks
    obtain ⟨newer, hj', hn'⟩ := h'.knocks
    refine ⟨newer ++ new, by rw [hj', hj, List.append_assoc], ?_⟩
    rw [h.sender, h.signaled] at hn'
    rw [List.countP_append, hn, hn']
    cases called <;> cases called' <;> cases r.waker.signaled <;> rfl

end Wakes

theorem setConn_wakes (id : Nat) (c : Conn) (r : Reactor κ π ν) : Wakes false r (r.setConn id c) :=
  .quiet [] rfl rfl (List.forall_mem_nil _)

theorem remark_wakes (m : Mark ν) (r : Reactor κ π ν) : Wakes false r (remark m r).2 :=
  .quiet [.remark m] rfl rfl (List.forall_mem_singleton.2 rfl)

variable [Kernel κ]

theorem wake_wakes (r : Reactor κ π ν) : Wakes true r (wake r).2 := by
  rw [wake_run]
  split_ifs with hs
  · exact ⟨rfl, by rw [hs]; rfl, [], rfl, by rw [hs]; rfl⟩
  · rw [Bool.not_eq_true] at hs
    refine ⟨rfl, by rw [hs]; rfl, [.sys (.write r.waker.sender [1]) _], rfl, ?_⟩
    simp [Entry.knocks, hs]

theorem act_wakes (e : Effect) (r : Reactor κ π ν) : Wakes (e == .wake) r (act e r).2 := by
  cases e with
  | wake => exact wake_wakes r
  | shutdown fd =>
    exact .quiet [.sys (.shutdown fd) _] rfl rfl (List.forall_mem_singleton.2 rfl)

theorem actAll_wakes (es : List Effect) (r : Reactor κ π ν) :
    Wakes (es.contains .wake) r (actAll es r).2 := by
  induction es generalizing r with
  | nil => exact .refl r
  | cons e es ih =>
    rw [List.contains_cons, Bool.beq_comm]
    exact (act_wakes e r).trans (ih (act e r).2)

theorem callConn_answer {id : Nat} {c : Conn} {r : Reactor κ π ν} (hc : r.conn? id = some c)
    (op : ConnOp) : (callConn id op r).1 = some (c.perform op).1 := by
  simp only [callConn, bind_run, get_run, hc, modify_run, pure_run]

theorem callConn_wakes {id : Nat} {c : Conn} {r : Reactor κ π ν} (hc : r.conn? id = some c)
    (op : ConnOp) : Wakes ((c.perform op).2.2.contains .wake) r (callConn id op r).2 := by
  rw [callConn_run hc]
  exact ((setConn_wakes id _ r).trans (remark_wakes _ _)).trans (actAll_wakes _ _)

theorem request_wakes {id : Nat} {c : Conn} {r : Reactor κ π ν} (hc : r.conn? id = some c)
    (op : ConnOp) :
    Wakes ((c.perform op).2.2.contains .wake) r (request (.conn id op) r).2 := by
  rw [← Bool.or_false ((c.perform op).2.2.contains .wake)]
  exact (callConn_wakes hc op).trans (remark_wakes _ _)

theorem request_answer {id : Nat} {c : Conn} {r : Reactor κ π ν} (hc : r.conn? id = some c)
    (op : ConnOp) : (request (.conn id op) r).1 = some (c.perform op).1 :=
  callConn_answer hc op

theorem request_conn? {id : Nat} {c : Conn} {r : Reactor κ π ν} (hc : r.conn? id = some c)
    (op : ConnOp) : (request (.conn id op) r).2.conn? id = some (c.perform op).2.1 := by
  have h := callConn_conn? hc op id
  rw [if_pos rfl] at h
  exact h

end Reactor

end PollReactor
