import Mathlib.Logic.Relation
import Mathlib.Tactic.SplitIfs
import PollReactor.Proofs.Calls
import PollReactor.Proofs.Journal
import PollReactor.Proofs.Running
import PollReactor.Reactor

namespace PollReactor

inductive Entry.OfEffect {ν : Type} (sender : Fd) : Entry (Mark ν) → Prop where
  | write (bs : Bytes) (a : Except Errno Nat) : OfEffect sender (.sys (.write sender bs) a)
  | shutdown (fd : Fd) (a : Except Errno Unit) : OfEffect sender (.sys (.shutdown fd) a)

inductive Entry.OfRequest {ν : Type} (sender : Fd) : Entry (Mark ν) → Prop where
  | effect {e : Entry (Mark ν)} (h : e.OfEffect sender) : OfRequest sender e
  | clock (now : Nat) : OfRequest sender (.sys .clock now)
  | called (id : Nat) (c : Conn) (op : ConnOp) : OfRequest sender (.remark (.called id c op))
  | answered (q : Request) (a : q.Answer) : OfRequest sender (.remark (.request q a))

theorem Entry.OfEffect.closes {ν : Type} {sender : Fd} {e : Entry (Mark ν)}
    (h : e.OfEffect sender) : e.closes? = none := by
  cases h <;> rfl

theorem Entry.OfRequest.closes {ν : Type} {sender : Fd} {e : Entry (Mark ν)}
    (h : e.OfRequest sender) : e.closes? = none := by
  cases h with
  | effect h => exact h.closes
  | _ => rfl

namespace Reactor

variable {κ π ν : Type}

theorem conn?_bounds {r : Reactor κ π ν} {id : Nat} {c : Conn} (h : r.conn? id = some c) :
    0 < id ∧ id ≤ r.conns.size := by
  unfold conn? at h
  split at h
  · cases h
  · obtain ⟨hi, -⟩ := Array.getElem?_eq_some_iff.1 h
    omega

theorem conn?_of_size_lt {r : Reactor κ π ν} {id : Nat} (h : r.conns.size < id) :
    r.conn? id = none := by
  rw [conn?, if_neg (by omega)]
  exact Array.getElem?_eq_none (by omega)

theorem conn?_of_empty {r : Reactor κ π ν} (h : r.conns = #[]) (id : Nat) : r.conn? id = none := by
  rw [conn?, h]
  split_ifs <;> rfl

theorem conn?_congr {r r' : Reactor κ π ν} (h : r'.conns = r.conns) (id : Nat) :
    r'.conn? id = r.conn? id := by
  rw [conn?, conn?, h]

theorem conn?_push {r r' : Reactor κ π ν} {c : Conn} (h : r'.conns = r.conns.push c) (id : Nat) :
    r'.conn? id = if id = r.conns.size + 1 then some c else r.conn? id := by
  unfold conn?
  rw [h, Array.getElem?_push]
  split_ifs with h0 h1 h2 h3
  · omega
  · rfl
  · rfl
  · omega
  · omega
  · rfl

theorem conn?_setConn {r : Reactor κ π ν} {id : Nat} {c : Conn} (h : r.conn? id = some c)
    (c' : Conn) (id' : Nat) :
    (r.setConn id c').conn? id' = if id' = id then some c' else r.conn? id' := by
  obtain ⟨h0, hle⟩ := conn?_bounds h
  unfold conn? setConn
  split_ifs with h1 h2 h2
  · omega
  · rfl
  · rw [h2, Array.getElem?_setIfInBounds_self, if_pos (by omega)]
  · exact Array.getElem?_setIfInBounds_ne (by omega)

theorem setConn_self {r : Reactor κ π ν} {id : Nat} {c : Conn} (h : r.conn? id = some c) :
    r.setConn id c = r := by
  obtain ⟨h0, -⟩ := conn?_bounds h
  rw [conn?, if_neg (by omega)] at h
  obtain ⟨hlt, rfl⟩ := Array.getElem?_eq_some_iff.1 h
  unfold setConn
  rw [Array.setIfInBounds, dif_pos hlt, Array.set_getElem_self]

def place? (r : Reactor κ π ν) (id : Nat) : Option Place :=
  (r.conn? id).bind Conn.place?

theorem place?_push {r r' : Reactor κ π ν} {c : Conn} (h : r'.conns = r.conns.push c) (id : Nat) :
    r'.place? id = if id = r.conns.size + 1 then c.place? else r.place? id := by
  unfold place?
  rw [conn?_push h]
  split_ifs <;> rfl

/-- Sockets stay in their places, and only entries of the class `C` are written down. -/
structure Still (C : Entry (Mark ν) → Prop) (r r' : Reactor κ π ν) : Prop where
  pool : r'.pool = r.pool
  live : r'.live = r.live
  listener : r'.listener = r.listener
  receiver : r'.waker.receiver = r.waker.receiver
  sender : r'.waker.sender = r.waker.sender
  size : r'.conns.size = r.conns.size
  place : ∀ id, r'.place? id = r.place? id
  journal : Journal.Adds C r.os.journal r'.os.journal

namespace Still

variable {C D : Entry (Mark ν) → Prop} {r r' r'' : Reactor κ π ν}

theorem refl (r : Reactor κ π ν) : Still C r r :=
  ⟨rfl, rfl, rfl, rfl, rfl, rfl, fun _ ↦ rfl, .refl _⟩

theorem trans (h : Still C r r') (h' : Still C r' r'') : Still C r r'' where
  pool := h'.pool.trans h.pool
  live := h'.live.trans h.live
  listener := h'.listener.trans h.listener
  receiver := h'.receiver.trans h.receiver
  sender := h'.sender.trans h.sender
  size := h'.size.trans h.size
  place id := (h'.place id).trans (h.place id)
  journal := h.journal.trans h'.journal

theorem mono (h : Still C r r') (hCD : ∀ e, C e → D e) : Still D r r' :=
  { h with journal := h.journal.mono hCD }

theorem remark (r : Reactor κ π ν) {m : Mark ν} (h : C (.remark m)) :
    Still C r (Reactor.remark m r).2 :=
  ⟨rfl, rfl, rfl, rfl, rfl, rfl, fun _ ↦ rfl, .single h⟩

theorem app (r : Reactor κ π ν) (app : π) : Still C r { r with app } :=
  ⟨rfl, rfl, rfl, rfl, rfl, rfl, fun _ ↦ rfl, .refl _⟩

theorem kernel (r : Reactor κ π ν) (k : κ) : Still C r { r with os.kernel := k } :=
  ⟨rfl, rfl, rfl, rfl, rfl, rfl, fun _ ↦ rfl, .refl _⟩

theorem system {α : Type} {act : OsM κ (Mark ν) α} (r : Reactor κ π ν)
    (h : Journal.Adds C r.os.journal (act r.os).2.journal) : Still C r (Reactor.system act r).2 :=
  ⟨rfl, rfl, rfl, rfl, rfl, rfl, fun _ ↦ rfl, h⟩

theorem setConn {id : Nat} {c c' : Conn} (h : r.conn? id = some c) (hp : c'.place? = c.place?) :
    Still C r (r.setConn id c') := by
  refine ⟨rfl, rfl, rfl, rfl, rfl, Array.size_setIfInBounds, ?_, .refl _⟩
  intro id'
  unfold place?
  rw [conn?_setConn h]
  split_ifs with hi
  · rw [hi, h]
    exact hp
  · rfl

end Still

variable [Kernel κ]

inductive Stir (r : Reactor κ π ν) : Reactor κ π ν → Prop where
  | called (id : Nat) (c : Conn) (op : ConnOp) (h : r.conn? id = some c) :
      Stir r (callConn id op r).2
  | wake : Stir r (wake r).2
  | cancel : Stir r (Reactor.wake { r with cancelled := true }).2
  | clock : Stir r (system (sys .clock) r).2
  | answered (q : Request) (a : q.Answer) (h : q = .cancel → r.cancelled) :
      Stir r (remark (.request q a) r).2

theorem callConn_of_none {id : Nat} {r : Reactor κ π ν} (h : r.conn? id = none) (op : ConnOp) :
    (callConn id op r).2 = r := by
  unfold callConn
  rw [bind_run, get_run, h]
  rfl

theorem callConn_stirs (id : Nat) (op : ConnOp) (r : Reactor κ π ν) :
    Relation.ReflTransGen Stir r (callConn id op r).2 := by
  cases hc : r.conn? id with
  | some c => exact .single (.called id c op hc)
  | none => rw [callConn_of_none hc]

theorem writeAll_stirs (bs : Bytes) (ids : List Nat) (r : Reactor κ π ν) :
    Relation.ReflTransGen Stir r (writeAll bs ids r).2 := by
  induction ids generalizing r with
  | nil => exact .refl
  | cons id ids ih => exact (callConn_stirs id (.write bs) r).trans (ih _)

theorem respond_stirs (q : Request) (r : Reactor κ π ν) :
    Relation.ReflTransGen Stir r (respond q r).2 := by
  cases q with
  | conn id op => exact callConn_stirs id op r
  | idleTime id =>
    cases hc : r.conn? id with
    | none =>
      have h : (respond (.idleTime id) r).2 = r := by
        simp only [respond, bind_run, get_run, hc, pure_run]
      rw [h]
    | some c =>
      have h : (respond (.idleTime id) r).2 = (system (sys .clock) r).2 := by
        simp only [respond, bind_run, get_run, hc, pure_run]
      rw [h]
      exact .single .clock
  | count => exact .refl
  | broadcast bs => exact writeAll_stirs bs r.live r
  | wakeup => exact .single .wake
  | cancel => exact .single .cancel
  | isCancelled => exact .refl
  | clock => exact .single .clock

theorem wake_cancelled (r : Reactor κ π ν) : (wake r).2.cancelled = r.cancelled := rfl

theorem request_stirs (q : Request) (r : Reactor κ π ν) :
    Relation.ReflTransGen Stir r (request q r).2 := by
  refine (respond_stirs q r).tail (.answered q _ ?_)
  rintro rfl
  exact wake_cancelled { r with cancelled := true }

theorem wake_still (r : Reactor κ π ν) :
    Still (Entry.OfEffect r.waker.sender) r (wake r).2 := by
  unfold wake
  rw [bind_run, get_run, bind_run, modify_run]
  unfold Waker.wake
  cases r.waker.signaled
  · exact ⟨rfl, rfl, rfl, rfl, rfl, rfl, fun _ ↦ rfl, .single (.write _ _)⟩
  · exact .refl r

theorem act_still (e : Effect) (r : Reactor κ π ν) :
    Still (Entry.OfEffect r.waker.sender) r (act e r).2 := by
  cases e with
  | shutdown fd => exact .system r (.single (.shutdown fd _))
  | wake => exact wake_still r

theorem actAll_still (es : List Effect) (r : Reactor κ π ν) :
    Still (Entry.OfEffect r.waker.sender) r (actAll es r).2 := by
  induction es generalizing r with
  | nil => exact .refl r
  | cons e es ih =>
    have h := act_still e r
    have h' := ih (act e r).2
    rw [h.sender] at h'
    exact h.trans h'

theorem callConn_run {id : Nat} {c : Conn} {r : Reactor κ π ν} (h : r.conn? id = some c)
    (op : ConnOp) : (callConn id op r).2 = (actAll (c.perform op).2.2
      (remark (.called id c op) (r.setConn id (c.perform op).2.1)).2).2 := by
  simp only [callConn, bind_run, get_run, h, modify_run, pure_run]

theorem wake_conns (r : Reactor κ π ν) : (wake r).2.conns = r.conns := by
  unfold wake
  rw [bind_run, get_run, bind_run, modify_run]
  unfold Waker.wake
  cases r.waker.signaled <;> rfl

theorem actAll_conns (es : List Effect) (r : Reactor κ π ν) : (actAll es r).2.conns = r.conns := by
  induction es generalizing r with
  | nil => rfl
  | cons e es ih =>
    refine (ih (act e r).2).trans ?_
    cases e with
    | shutdown fd => rfl
    | wake => exact wake_conns r

theorem callConn_conn? {id : Nat} {c : Conn} {r : Reactor κ π ν} (h : r.conn? id = some c)
    (op : ConnOp) (id' : Nat) : (callConn id op r).2.conn? id' =
      if id' = id then some (c.perform op).2.1 else r.conn? id' := by
  rw [callConn_run h, conn?_congr (actAll_conns _ _)]
  exact conn?_setConn h _ id'

theorem writeAll_conn? (bs : Bytes) {ids : List Nat} {id : Nat} (h : id ∉ ids)
    (r : Reactor κ π ν) : (writeAll bs ids r).2.conn? id = r.conn? id := by
  induction ids generalizing r with
  | nil => rfl
  | cons id' ids ih =>
    rw [List.mem_cons, not_or] at h
    refine (ih h.2 (callConn id' (.write bs) r).2).trans ?_
    cases hc : r.conn? id' with
    | none => rw [callConn_of_none hc]
    | some c => rw [callConn_conn? hc, if_neg h.1]

theorem Stir.still {r r' : Reactor κ π ν} (h : Stir r r') :
    Still (Entry.OfRequest r.waker.sender) r r' := by
  cases h with
  | called id c op hc =>
    rw [callConn_run hc]
    have h := Still.setConn (C := Entry.OfRequest r.waker.sender) hc (c.perform_place op)
    have h := h.trans (.remark _ (.called id c op))
    have he := actAll_still (c.perform op).2.2
      (remark (.called id c op) (r.setConn id (c.perform op).2.1)).2
    rw [h.sender] at he
    exact h.trans (he.mono fun _ ↦ .effect)
  | wake => exact (wake_still r).mono fun _ ↦ .effect
  | cancel => exact { (wake_still { r with cancelled := true }).mono fun _ ↦ .effect with }
  | clock => exact .system r (.single (.clock _))
  | answered q a _ => exact .remark r (.answered q a)

theorem request_still (q : Request) (r : Reactor κ π ν) :
    Still (Entry.OfRequest r.waker.sender) r (request q r).2 := by
  have hs := request_stirs q r
  generalize (request q r).2 = r' at hs ⊢
  induction hs with
  | refl => exact .refl r
  | tail _ h ih =>
    have h := h.still
    rw [ih.sender] at h
    exact ih.trans h

end Reactor

end PollReactor
