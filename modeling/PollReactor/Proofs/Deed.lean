import PollReactor.Proofs.Admission

namespace PollReactor

open Journal (Adds Fresh Returned)

variable {κ π ν : Type} [Kernel κ]

def Mark.isAside : Mark ν → Bool
  | raised _ => true
  | waits => true
  | said _ => true
  | _ => false

def SysCall.isTransfer : SysCall → Bool
  | recv .. => true
  | recvUrgent _ => true
  | send .. => true
  | _ => false

namespace Entry

omit [Kernel κ]

/-- The reactor minds what is its own: its pipe, or a descriptor that it sets up, takes over, shuts
down or closes. -/
inductive IsChore : Entry (Mark ν) → Prop where
  | call {c : SysCall} (h : c.isTransfer = false) (a : c.Answer) : IsChore (.sys c a)
  | adopted (fd : Fd) : IsChore (.remark (.adopted fd))

variable {e : Entry (Mark ν)}

theorem OfEffect.chore {sender : Fd} (h : e.OfEffect sender) : e.IsChore := by
  cases h <;> exact .call rfl _

theorem OfSettling.chore {receiver : Fd} (h : e.OfSettling receiver) : e.IsChore := by
  cases h
  exact .call rfl _

theorem chore_of_isSetup (h : e.isSetup) : e.IsChore := by
  cases e with
  | sys c a => cases c <;> first | exact .call rfl a | cases h
  | remark m => cases h

theorem OfSetup.chore (h : e.OfSetup) : e.IsChore := by
  rcases h with h | h
  · exact chore_of_isSetup h
  · cases e with
    | sys c a => cases h
    | remark m => cases m <;> first | exact .adopted _ | cases h

end Entry

namespace Reactor

variable {P : Policy π ν} {r r' : Reactor κ π ν}

/-- What doing the task `first` comes to, apart from what the application remembers. -/
inductive Deed (first : Task π ν) (r : Reactor κ π ν) : Reactor κ π ν → Prop where
  | nothing : Deed first r r
  | aside (m : Mark ν) (hm : m.isAside) : Deed first r (remark m r).2
  | request (q : Request) : Deed first r (Reactor.request q r).2
  | wake : Deed first r (Reactor.wake r).2
  | settled (events : List Event) (hfirst : first = .settle events) :
      Deed first r (settleWaker events r).2
  | clock : Deed first r (system (sys .clock) r).2
  | repooled {r' : Reactor κ π ν} (h : Repool r r') : Deed first r r'
  | enrolled (t : Token Stream) (peer : Net.SocketAddr) (d : Draft) (now : Nat)
      {script : Script ν (Outcome π (Option Draft))} (hfirst : first = .meet t peer script) :
      Deed first r (Reactor.enrolled t peer d now r)
  | served {w : Watched} {event : Event} {now : Nat} (hfirst : first = .serve w event now)
      {c : Conn} (hc : r.conn? w.id = some c) {sends : Bool} {r' : Reactor κ π ν}
      (hs : Service r w.id c sends r') : Deed first r r'
  | told {w : Watched} {event : Event} {now : Nat} (hfirst : first = .serve w event now)
      {c : Conn} (hc : r.conn? w.id = some c) {sends : Bool} {r' : Reactor κ π ν}
      (hs : Service r w.id c sends r') (cb : Callback) (hid : cb.id = w.id)
      (ht : cb.isTerminal = false) : Deed first r (remark (.callback cb) r').2
  | ended {id : Nat} {why : Teardown} (hfirst : first = .finalize id why) :
      Deed first r (remark (.callback (why.callback id)) (part id r)).2
  | relistened {r' : Reactor κ π ν} (h : Relisten r r') : Deed first r r'

theorem attend_deed (w : Watched) (event : Event) (now : Nat) (r : Reactor κ π ν) :
    Deed (.serve w event now) r (attend P w event now r).1 := by
  cases hc : r.conn? w.id with
  | none =>
    rw [attend_of_none hc]
    exact .nothing
  | some c =>
    have ha := attend_attended (P := P) hc event now
    generalize attend P w event now r = out at ha ⊢
    cases ha with
    | ended hs => exact .served rfl hc hs
    | silent hs => exact .served rfl hc hs
    | told hs _ cb hid ht => exact .told rfl hc hs cb hid ht

theorem advance_deed (first : Task π ν) (r : Reactor κ π ν) :
    ∃ app, Deed first { r with app } (advance P first r).1 := by
  cases first with
  | accept listener => exact ⟨r.app, .repooled (welcome_repool listener r)⟩
  | meet t peer script =>
    cases script with
    | done out =>
      refine ⟨out.2, ?_⟩
      rcases decide_spec t peer { r with app := out.2 } out.1 with h | ⟨d, now, h⟩
      · exact .repooled h
      · show Deed _ _ (decide t peer { r with app := out.2 } out.1).1
        rw [h]
        exact .enrolled t peer d now rfl
    | ask q next => exact ⟨r.app, .request q⟩
    | say v next => exact ⟨r.app, .aside (.said v) rfl⟩
  | settle events => exact ⟨r.app, .settled events rfl⟩
  | serveAll events watched => exact ⟨r.app, .clock⟩
  | serve w event now => exact ⟨r.app, attend_deed w event now r⟩
  | hear script =>
    cases script with
    | done out =>
      rcases out with ⟨p | ⟨⟩, app⟩
      · exact ⟨app, .aside (.raised p) rfl⟩
      · exact ⟨app, .nothing⟩
    | ask q next => exact ⟨r.app, .request q⟩
    | say v next => exact ⟨r.app, .aside (.said v) rfl⟩
  | hasten id =>
    refine ⟨r.app, ?_⟩
    simp only [advance]
    split
    · exact .nothing
    · split_ifs
      · exact .wake
      · exact .nothing
  | check id =>
    refine ⟨r.app, ?_⟩
    simp only [advance]
    split <;> exact .nothing
  | finalize id why => exact ⟨r.app, .ended rfl⟩
  | proceed =>
    refine ⟨r.app, ?_⟩
    simp only [advance]
    split_ifs
    · exact .nothing
    · exact .aside .waits rfl
  | closeListener => exact ⟨r.app, .relistened (closeListener_relisten r)⟩

omit [Kernel κ] in
theorem not_returned_raised (p : Panic) (j : Journal ν) : ¬ Returned (.remark (.raised p) :: j) :=
  fun h ↦ nomatch h _ List.mem_cons_self

inductive Advanced (P : Policy π ν) (r : Reactor κ π ν) :
    Task π ν → Reactor κ π ν × Next π ν → Prop where
  | done (first : Task π ν) (r' : Reactor κ π ν) : Advanced P r first (r', .go [])
  | vacant (listener : Fd) {slot : Nat} (h : r.pool.reserve = .vacantSlot slot) :
      Advanced P r (.accept listener) (r, .only [])
  | raised (first : Task π ν) {r' : Reactor κ π ν} (h : ¬ Returned r'.os.journal) :
      Advanced P r first (r', .only [])
  | welcomed (listener : Fd) (r' : Reactor κ π ν) (t : Token Stream) (peer : Net.SocketAddr)
      (script : Script ν (Outcome π (Option Draft))) :
      Advanced P r (.accept listener) (r', .go [.meet t peer script])
  | met (t : Token Stream) (peer : Net.SocketAddr)
      (script script' : Script ν (Outcome π (Option Draft))) (r' : Reactor κ π ν) :
      Advanced P r (.meet t peer script) (r', .go [.meet t peer script'])
  | heard (first : Task π ν) (r' : Reactor κ π ν) (script : Script ν (Outcome π Unit)) :
      Advanced P r first (r', .go [.hear script])
  | shared (events : List Event) (watched : List Watched) (now : Nat) (r' : Reactor κ π ν) :
      Advanced P r (.serveAll events watched) (r', .go (serves events now watched 0))
  | attended (w : Watched) (event : Event) (now : Nat) :
      Advanced P r (.serve w event now)
        ((attend P w event now r).1, .go (attend P w event now r).2)
  | dropped (id : Nat) {c : Conn} (hc : r.conn? id = some c) (hs : c.isConnected = false) :
      Advanced P r (.check id) (r, .go [.finalize id .closed])
  | cleared (h : r.cancelled) :
      Advanced P r .proceed (r, .only (r.live.map (.finalize · .closed)))
  | waits : Advanced P r .proceed ((remark .waits r).2, .wait r.prepare)

theorem welcome_advanced (listener : Fd) (r : Reactor κ π ν) :
    Advanced P r (.accept listener) (welcome P listener r) := by
  unfold welcome
  cases h : r.pool.reserve with
  | vacantSlot slot => exact .vacant listener h
  | exhausted => exact .done _ _
  | token t pool =>
    dsimp only
    rcases systemExcept (Sockets.accept listener) { r with pool } with ⟨_ | ⟨fd, peer⟩, r₁⟩
    · exact .done _ _
    · exact .welcomed listener _ _ peer _

theorem advance_advanced (first : Task π ν) (r : Reactor κ π ν) :
    Advanced P r first (advance P first r) := by
  cases first with
  | accept listener => exact welcome_advanced listener r
  | meet t peer script =>
    cases script with
    | done out =>
      rcases out with ⟨p | _ | d, app⟩
      · refine .raised _ fun h ↦ not_returned_raised p r.os.journal ?_
        exact (adds_close t.value _).returned h
      · exact .done _ _
      · exact .done _ _
    | ask q next => exact .met t peer _ _ _
    | say v next => exact .met t peer _ _ _
  | settle events => exact .done _ _
  | serveAll events watched => exact .shared events watched _ _
  | serve w event now => exact .attended w event now
  | hear script =>
    cases script with
    | done out =>
      rcases out with ⟨p | ⟨⟩, app⟩
      · exact .raised _ (not_returned_raised p r.os.journal)
      · exact .done _ _
    | ask q next => exact .heard _ _ _
    | say v next => exact .heard _ _ _
  | hasten id =>
    simp only [advance]
    split
    · exact .done _ _
    · split_ifs <;> exact .done _ _
  | check id =>
    simp only [advance]
    split
    · exact .done _ _
    · split_ifs with hs
      · exact .done _ _
      · exact .dropped id ‹_› (Bool.eq_false_iff.2 hs)
  | finalize id why => exact .heard _ _ _
  | proceed =>
    simp only [advance]
    split_ifs with h
    · exact .cleared h
    · exact .waits
  | closeListener => exact .done _ _

structure Grows (r r' : Reactor κ π ν) : Prop where
  journal : Adds (fun _ ↦ True) r.os.journal r'.os.journal
  receiver : r'.waker.receiver = r.waker.receiver
  sender : r'.waker.sender = r.waker.sender

omit [Kernel κ] in
theorem Grows.refl (r : Reactor κ π ν) : Grows r r := ⟨.refl _, rfl, rfl⟩

omit [Kernel κ] in
theorem Grows.trans {r'' : Reactor κ π ν} (h : Grows r r') (h' : Grows r' r'') : Grows r r'' where
  journal := h.journal.trans h'.journal
  receiver := h'.receiver.trans h.receiver
  sender := h'.sender.trans h.sender

omit [Kernel κ] in
theorem Still.grows {C : Entry (Mark ν) → Prop} (h : Still C r r') : Grows r r' :=
  ⟨h.journal.mono fun _ _ ↦ trivial, h.receiver, h.sender⟩

omit [Kernel κ] in
theorem Relisten.grows (h : Relisten r r') : Grows r r' := by
  obtain ⟨os, listener, rfl, hj⟩ := h
  exact ⟨hj.mono fun _ _ ↦ trivial, rfl, rfl⟩

omit [Kernel κ] in
theorem grows_remark (m : Mark ν) (r : Reactor κ π ν) : Grows r (remark m r).2 :=
  ⟨.single trivial, rfl, rfl⟩

omit [Kernel κ] in
theorem Repool.grows (h : Repool r r') : Grows r r' := by
  obtain ⟨os, pool, rfl, hj⟩ := h
  exact ⟨hj.mono fun _ _ ↦ trivial, rfl, rfl⟩

theorem part_grows (id : Nat) (r : Reactor κ π ν) : Grows r (part id r) := by
  obtain ⟨os, pool, conns, he, -, -, hj⟩ := part_spec id r
  rw [he]
  exact ⟨hj.mono fun _ _ ↦ trivial, rfl, rfl⟩

theorem Deed.grows {first : Task π ν} (h : Deed first r r') : Grows r r' := by
  cases h with
  | nothing => exact .refl r
  | aside m _ => exact grows_remark m r
  | request q => exact (request_still q r).grows
  | wake => exact (wake_still r).grows
  | settled events => exact (settleWaker_still events r).grows
  | clock => exact (clock_still r).grows
  | repooled h => exact h.grows
  | enrolled t peer d now => exact ⟨⟨[_, _], rfl, fun _ _ ↦ trivial⟩, rfl, rfl⟩
  | served _ hc hs => exact (hs.still hc).grows
  | told _ hc hs => exact (hs.still hc).grows.trans (grows_remark _ _)
  | @ended id => exact (part_grows id r).trans (grows_remark _ _)
  | relistened h => exact h.grows

theorem grows_advance (first : Task π ν) (r : Reactor κ π ν) : Grows r (advance P first r).1 := by
  obtain ⟨app, h⟩ := advance_deed (P := P) first r
  exact ⟨h.grows.journal, h.grows.receiver, h.grows.sender⟩

end Reactor

namespace Moment

open Reactor

variable {outside : Phase π ν → Prop} {m m' : Moment κ π ν}

theorem Step.grows (h : Step P outside m m') : Grows m.reactor m'.reactor := by
  cases h with
  | kernel => exact ⟨.refl _, rfl, rfl⟩
  | listener r phase text => exact (relisten_opening (Sockets.listenOn_opening text) r).grows
  | request r phase q _ => exact (request_still q r).grows
  | setUp hs => exact hs.relisten.grows
  | memory => exact ⟨.refl _, rfl, rfl⟩
  | start => exact .refl _
  | wake => exact .refl _
  | fail => exact .refl _
  | cleanup => exact .refl _
  | task r first rest => exact grows_advance first r

theorem Step.fresh (h : Step P outside m m') (hf : Fresh m'.journal) : Fresh m.journal :=
  h.grows.journal.fresh hf

theorem Step.returned (h : Step P outside m m') (hr : Returned m'.journal) : Returned m.journal :=
  h.grows.journal.returned hr

end Moment

end PollReactor
