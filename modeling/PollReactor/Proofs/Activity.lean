import PollReactor.Proofs.Pass

namespace PollReactor

open Journal (Adds Fresh fdOf)

variable {κ π ν : Type}

namespace Entry

def isPassive (e : Entry (Mark ν)) : Bool := e.isIdle && !(e matches .remark (.admitted ..))

theorem passive_of_quiet {e : Entry (Mark ν)} (h : e.isIdle) (hq : e.isQuiet) : e.isPassive := by
  cases e with
  | sys c a => simpa [isPassive] using h
  | remark m => cases m <;> first | rfl | cases hq

theorem OfRequest.passive {sender : Fd} {e : Entry (Mark ν)} (h : e.OfRequest sender) :
    e.isPassive :=
  passive_of_quiet h.idle h.quiet

theorem OfSetup.passive {e : Entry (Mark ν)} (h : e.OfSetup) : e.isPassive :=
  passive_of_quiet h.chore.idle h.chore.quiet

theorem isIdle_of_isPassive {e : Entry (Mark ν)} (h : e.isPassive) : e.isIdle :=
  (Bool.and_eq_true_iff.1 h).1

end Entry

namespace Journal

def clock? : Journal ν → Option Nat
  | [] => none
  | .sys .clock now :: _ => some now
  | _ :: j => clock? j

def stirred (id : Nat) : Journal ν → Bool
  | [] => false
  | .sys .clock _ :: _ => false
  | e :: j => stirred id j || (fdOf id j).any (e.stirs ·)

/-- When a byte of the connection last moved, by the clock as it was looked at next. If none has
moved yet, when the connection was admitted. -/
def activity (id : Nat) : Journal ν → Option Nat
  | [] => none
  | .sys .clock now :: j => if stirred id j then some now else activity id j
  | .remark (.admitted id' _ _) :: j => if id' = id then clock? j else activity id j
  | _ :: j => activity id j

def Active (id : Nat) (time : Nat) (j : Journal ν) : Prop :=
  stirred id j = false ∧ activity id j = some time

variable {j j' : Journal ν} {id time : Nat}

theorem Active.cons {e : Entry (Mark ν)} (h : Active id time j)
    (hs : (fdOf id j).any (e.stirs ·) = false) (ha : e.admits id = false) :
    Active id time (e :: j) := by
  obtain ⟨hstirred, hactivity⟩ := h
  cases e with
  | sys c a =>
    cases c with
    | clock =>
      refine ⟨rfl, ?_⟩
      rw [activity, hstirred]
      exact hactivity
    | _ => exact ⟨by simp [stirred, hstirred, hs], hactivity⟩
  | remark m =>
    refine ⟨by simp [stirred, hstirred, hs], ?_⟩
    cases m with
    | admitted id' fd d =>
      rw [activity, if_neg (of_decide_eq_false ha)]
      exact hactivity
    | _ => exact hactivity

variable {fd : Fd} {way : Way} {new : Journal ν}

theorem fdOf_unadmitted (hn : ∀ e ∈ new, e.admits id = false)
    (h : fdOf id (new ++ j) = some fd) : fdOf id j = some fd := by
  induction new with
  | nil => exact h
  | cons e new ih =>
    obtain ⟨he, hn⟩ := List.forall_mem_cons.1 hn
    refine ih hn ?_
    have hcons {e : Entry (Mark ν)} (h : (if e.parts id then none else fdOf id (new ++ j)) =
        some fd) : fdOf id (new ++ j) = some fd := by
      split_ifs at h
      exact h
    cases e with
    | sys => exact hcons h
    | remark m =>
      cases m with
      | admitted id' fd' d =>
        rw [List.cons_append, fdOf, if_neg (of_decide_eq_false he)] at h
        exact h
      | _ => exact hcons h

theorem Active.still (h : Active id time j) (hn : ∀ e ∈ new, e.admits id = false)
    (hs : ∀ fd, fdOf id j = some fd → ∀ e ∈ new, e.stirs fd = false) :
    Active id time (new ++ j) := by
  induction new with
  | nil => exact h
  | cons e new ih =>
    obtain ⟨he, hn⟩ := List.forall_mem_cons.1 hn
    refine (ih hn fun fd hfd e he ↦ hs fd hfd e (List.mem_cons_of_mem _ he)).cons ?_ he
    cases hfd : fdOf id (new ++ j) with
    | none => rfl
    | some fd => exact hs fd (fdOf_unadmitted hn hfd) e List.mem_cons_self

theorem Active.passive (h : Active id time j) (hj : Adds (·.isPassive) j j') :
    Active id time j' := by
  obtain ⟨new, rfl, hn⟩ := hj
  refine h.still (fun e he ↦ ?_) fun fd _ e he ↦
    Entry.stirs_of_isIdle (Entry.isIdle_of_isPassive (hn e he)) fd
  have he := hn e he
  cases e with
  | sys => rfl
  | remark m => cases m <;> first | rfl | cases he

theorem fdOf_moves (h : ∀ e ∈ new, e.moves? = some (way, fd)) (id : Nat) :
    fdOf id (new ++ j) = fdOf id j := by
  refine fdOf_quiet ⟨new, rfl, fun e he ↦ ?_⟩ id
  have he := h e he
  cases e with
  | remark => cases he
  | sys => rfl

theorem Active.transfer (h : Active id time j) (hn : ∀ e ∈ new, e.moves? = some (way, fd))
    (hs : fdOf id j = some fd → ∀ e ∈ new, e.stirs fd = false) : Active id time (new ++ j) := by
  refine h.still (fun e he ↦ ?_) fun fd' hfd e he ↦ ?_
  · have he := hn e he
    cases e with
    | sys => rfl
    | remark => cases he
  · by_cases hne : fd = fd'
    · subst hne
      exact hs hfd e he
    · exact Entry.stirs_of_moves (hn e he) hne

theorem stirred_of_moves (hn : ∀ e ∈ new, e.moves? = some (way, fd)) (hfd : fdOf id j = some fd)
    (hs : ∃ e ∈ new, e.stirs fd) : stirred id (new ++ j) := by
  induction new with
  | nil => simp at hs
  | cons e new ih =>
    have he := hn e List.mem_cons_self
    have hn : ∀ e ∈ new, e.moves? = some (way, fd) := fun e he ↦ hn e (List.mem_cons_of_mem _ he)
    have hstirred : stirred id (e :: (new ++ j)) = (stirred id (new ++ j) || e.stirs fd) := by
      have hany : (fdOf id (new ++ j)).any (e.stirs ·) = e.stirs fd := by
        rw [fdOf_moves hn, hfd]
        rfl
      cases e with
      | remark => cases he
      | sys c a => cases c <;> first | exact congrArg (_ || ·) hany | cases he
    rw [List.cons_append, hstirred, Bool.or_eq_true]
    obtain ⟨e', hmem, hs⟩ := hs
    rcases List.mem_cons.1 hmem with rfl | hmem
    · exact .inr hs
    · exact .inl (ih hn ⟨e', hmem, hs⟩)

theorem active_of_moved (hn : ∀ e ∈ new, e.moves? = some (way, fd)) (hfd : fdOf id j = some fd)
    (hs : ∃ e ∈ new, e.stirs fd) (now : Nat) : Active id now (.sys .clock now :: (new ++ j)) :=
  ⟨rfl, if_pos (stirred_of_moves hn hfd hs)⟩

end Journal

open Journal (Active)

namespace Conn

variable {fd : Fd} {way : Way} {c c' : Conn} {upshot : Upshot} {j j' : Journal ν}

theorem Outcome.active_other (h : Outcome fd way c j upshot c' j') {id time : Nat}
    (ha : Active id time j) (hfd : fdOf id j ≠ some fd) : Active id time j' := by
  have hmoved {new : Journal ν} {c' : Conn} (h : Moved fd way c new c') :
      Active id time (new ++ j) := ha.transfer h.entries fun h ↦ absurd h hfd
  cases h with
  | moved h => exact (hmoved h).passive (.single rfl)
  | still h => exact hmoved h
  | failed h => exact hmoved h

theorem Outcome.active_self (h : Outcome fd way c j upshot c' j') {id : Nat}
    (ha : Active id c.lastActivity j) (hfd : fdOf id j = some fd) :
    (∃ e, upshot = .failed e) ∨ Active id c'.lastActivity j' := by
  cases h with
  | moved h hs now => exact .inr (Journal.active_of_moved h.entries hfd hs now)
  | still h hs hlast =>
    rw [hlast]
    exact .inr (ha.transfer h.entries fun _ ↦ hs)
  | @failed _ _ _ _ e => exact .inl ⟨e, rfl⟩

theorem perform_lastActivity (c : Conn) (op : ConnOp) :
    (c.perform op).2.1.lastActivity = c.lastActivity := by
  by_cases h : op = .readUrgent
  · rw [h]
    rfl
  · obtain ⟨_, _, _, _, _, hc⟩ := c.differs_perform h
    rw [hc]

end Conn

namespace Reactor

variable {r r' : Reactor κ π ν}

structure Rests (r r' : Reactor κ π ν) : Prop where
  conns : ∀ id c' fd, r'.conn? id = some c' → c'.fd? = some fd →
    ∃ c, r.conn? id = some c ∧ c.fd? = some fd ∧ c'.lastActivity = c.lastActivity
  journal : Adds (·.isPassive) r.os.journal r'.os.journal

theorem Rests.apart (hc : r'.conns = r.conns) (hj : Adds (·.isPassive) r.os.journal r'.os.journal) :
    Rests r r' :=
  ⟨fun _ c' _ h hfd ↦ ⟨c', (conn?_congr hc _).symm.trans h, hfd, rfl⟩, hj⟩

theorem Rests.trans {r'' : Reactor κ π ν} (h : Rests r r') (h' : Rests r' r'') : Rests r r'' := by
  refine ⟨fun id c'' fd hc hfd ↦ ?_, h.journal.trans h'.journal⟩
  obtain ⟨c', hc, hfd, he'⟩ := h'.conns id c'' fd hc hfd
  obtain ⟨c, hc, hfd, he⟩ := h.conns id c' fd hc hfd
  exact ⟨c, hc, hfd, he'.trans he⟩

def Timely (r : Reactor κ π ν) (id : Nat) : Prop :=
  ∀ c fd, r.conn? id = some c → c.fd? = some fd → Active id c.lastActivity r.os.journal

theorem Rests.timely (h : Rests r r') {id : Nat} (ht : Timely r id) : Timely r' id := by
  intro c' fd hc hfd
  obtain ⟨c, hc, hfd, he⟩ := h.conns id c' fd hc hfd
  rw [he]
  exact (ht c fd hc hfd).passive h.journal

theorem Relisten.rests (h : Relisten r r') : Rests r r' := by
  obtain ⟨os, listener, rfl, hj⟩ := h
  exact .apart rfl (hj.mono fun _ he ↦ he.passive)

variable [Kernel κ] {P : Policy π ν}

theorem wake_rests (r : Reactor κ π ν) : Rests r (wake r).2 :=
  .apart (wake_conns r) ((wake_still r).journal.mono fun _ he ↦ (Entry.OfRequest.effect he).passive)

theorem Stir.rests (h : Stir r r') : Rests r r' := by
  cases h with
  | called id c op hc =>
    have hs := (Stir.called id c op hc).still
    refine ⟨fun id' c' fd hc' hfd ↦ ?_, hs.journal.mono fun _ he ↦ he.passive⟩
    rw [callConn_conn? hc] at hc'
    split_ifs at hc' with he
    · obtain rfl := Option.some.inj hc'
      rw [c.perform_fd?] at hfd
      exact ⟨c, he ▸ hc, hfd, c.perform_lastActivity op⟩
    · exact ⟨c', hc', hfd, rfl⟩
  | wake => exact wake_rests r
  | cancel =>
    have hc : Rests r { r with cancelled := true } := .apart rfl (.refl _)
    exact hc.trans (wake_rests _)
  | clock => exact .apart rfl (.single rfl)
  | answered q a _ => exact .apart rfl (.single rfl)

theorem request_rests (q : Request) (r : Reactor κ π ν) : Rests r (request q r).2 := by
  have hs := request_stirs q r
  generalize (request q r).2 = r' at hs ⊢
  induction hs with
  | refl => exact .apart rfl (.refl _)
  | tail _ hs ih => exact ih.trans hs.rests

theorem ended_rests (id : Nat) (why : Teardown) (r : Reactor κ π ν) :
    Rests r (remark (.callback (why.callback id)) (part id r)).2 := by
  obtain ⟨os, pool, conns, he, -, hconn, hj⟩ := part_spec id r
  have hpart : Rests r (part id r) := by
    refine ⟨fun id' c' fd hc' hfd ↦ ?_, ?_⟩
    · rw [hconn] at hc'
      split_ifs at hc'
      · obtain ⟨c, -, rfl⟩ := Option.map_eq_some_iff.1 hc'
        cases hfd
      · exact ⟨c', hc', hfd, rfl⟩
    · rw [he]
      exact hj.mono fun _ he ↦
        Entry.passive_of_quiet (Entry.chore_of_isSetup he).idle (Entry.chore_of_isSetup he).quiet
  exact hpart.trans (.apart rfl (.single rfl))

theorem timely_ended (id : Nat) (why : Teardown) (r : Reactor κ π ν) :
    Timely (remark (.callback (why.callback id)) (part id r)).2 id := by
  obtain ⟨os, pool, conns, -, -, hconn, -⟩ := part_spec id r
  intro c fd hc hfd
  have hc : (part id r).conn? id = some c := hc
  rw [hconn, if_pos rfl] at hc
  obtain ⟨_, -, rfl⟩ := Option.map_eq_some_iff.1 hc
  cases hfd

theorem Deed.rests {first : Task π ν} (h : Deed first r r')
    (hs : ∀ x event now, first ≠ .serve x event now) :
    Rests r r' ∨ ∃ t peer d now, r' = Reactor.enrolled t peer d now r := by
  cases h with
  | nothing => exact .inl (.apart rfl (.refl _))
  | aside m hm => exact .inl (.apart rfl (.single (by cases m <;> first | rfl | cases hm)))
  | request q => exact .inl (request_rests q r)
  | wake => exact .inl (wake_rests r)
  | settled events =>
    exact .inl (.apart (settleWaker_conns events r) ((settleWaker_still events r).journal.mono
      fun _ he ↦ Entry.passive_of_quiet he.chore.idle he.chore.quiet))
  | clock => exact .inl (.apart rfl (.single rfl))
  | repooled h =>
    obtain ⟨os, pool, rfl, hj⟩ := h
    exact .inl (.apart rfl (hj.mono fun _ he ↦ Entry.passive_of_quiet he.idle he.quiet))
  | enrolled t peer d now => exact .inr ⟨t, peer, d, now, rfl⟩
  | served hfirst => exact absurd hfirst (hs _ _ _)
  | told hfirst => exact absurd hfirst (hs _ _ _)
  | @ended id why => exact .inl (ended_rests id why r)
  | relistened h => exact .inl h.rests

theorem timely_enrolled (t : Token Stream) (peer : Net.SocketAddr) (d : Draft) (now : Nat)
    {id : Nat} (ht : Timely r id) : Timely (enrolled t peer d now r) id := by
  intro c fd hc hfd
  have hnone (j : Journal ν) (m : Mark ν) :
      (fdOf id j).any ((Entry.remark m).stirs ·) = false := by
    cases fdOf id j <;> rfl
  rw [conn?_enrolled] at hc
  split_ifs at hc with he
  · obtain rfl := Option.some.inj hc
    subst he
    refine ⟨hnone _ _, ?_⟩
    exact if_pos rfl
  · refine ((ht c fd hc hfd).passive (.single rfl)).cons (hnone _ _) ?_
    exact decide_eq_false (Ne.symm he)

section

variable {id : Nat} {c : Conn} {fd : Fd} {way : Way}

omit [Kernel κ] in
theorem timely_outcome {upshot : Conn.Upshot} {c' : Conn} {os : Os κ (Mark ν)}
    (h : c.Outcome fd way r.os.journal upshot c' os.journal) (hc : r.conn? id = some c)
    (hfd : c.fd? = some fd) (hown : ∀ id', fdOf id' r.os.journal = some fd ↔ id' = id)
    (ht : ∀ id', Timely r id') (id' : Nat) :
    Timely (setConn { r with os } id c') id' ∨ id' = id ∧ ∃ e, upshot = .failed e := by
  have hconn := conn?_setConn (r := { r with os }) hc c'
  by_cases he : id' = id
  · subst he
    have ha := h.active_self (ht id' c fd hc hfd) ((hown id').2 rfl)
    refine ha.symm.imp (fun ha c'' fd' hc'' _ ↦ ?_) fun hu ↦ ⟨rfl, hu⟩
    rw [hconn, if_pos rfl] at hc''
    exact Option.some.inj hc'' ▸ ha
  · refine .inl fun c'' fd' hc'' hfd' ↦ ?_
    rw [hconn, if_neg he] at hc''
    exact h.active_other (ht id' c'' fd' hc'' hfd') (mt (hown id').1 he)

omit [Kernel κ] in
theorem Transferred.timely {out : Reactor κ π ν × List (Task π ν)}
    (h : Transferred P r id c fd way out) (hc : r.conn? id = some c) (hfd : c.fd? = some fd)
    (hown : ∀ id', fdOf id' r.os.journal = some fd ↔ id' = id) (ht : ∀ id', Timely r id')
    (id' : Nat) : Timely out.1 id' ∨ id' = id ∧ ∃ e, out.2 = [.finalize id (.failed e)] := by
  cases h with
  | @failed e _ _ h => exact (timely_outcome h hc hfd hown ht id').imp_right fun h ↦ ⟨h.1, e, rfl⟩
  | ended _ h =>
    rcases timely_outcome h hc hfd hown ht id' with h | ⟨-, _, ⟨⟩⟩
    exact .inl h
  | silent h hu =>
    rcases timely_outcome h hc hfd hown ht id' with h | ⟨-, _, rfl⟩
    · exact .inl h
    · rcases hu with hu | ⟨hu, -⟩ <;> cases hu
  | @told c' os h =>
    rcases timely_outcome h hc hfd hown ht id' with h | ⟨-, _, ⟨⟩⟩
    have hr : Rests (setConn { r with os } id c')
        (remark (.callback (way.callback id)) (setConn { r with os } id c')).2 :=
      .apart rfl (.single (by cases way <;> rfl))
    exact .inl (hr.timely h)

theorem attend_timely {x : Watched} (hc : r.conn? x.id = some c) (hfd : c.fd? = some fd)
    (hown : ∀ id', fdOf id' r.os.journal = some fd ↔ id' = x.id) (ht : ∀ id', Timely r id')
    (event : Event) (now : Nat) (id : Nat) : Timely (attend P x event now r).1 id ∨
      id = x.id ∧ ∃ e, (attend P x event now r).2 = [.finalize x.id (.failed e)] := by
  have h := attend_attendance (P := P) hc hfd event now
  generalize attend P x event now r = out at h ⊢
  cases h with
  | leaves | idles | rests => exact .inl (ht id)
  | transfers _ way _ h => exact h.timely hc hfd hown ht id
  | hangs =>
    have hr : Rests r (r.setConn x.id { c with hungUp := true }) := by
      refine ⟨fun id' c' fd' hc' hfd' ↦ ?_, .refl _⟩
      rw [conn?_setConn hc] at hc'
      split_ifs at hc' with he
      · obtain rfl := Option.some.inj hc'
        exact ⟨c, he ▸ hc, hfd', rfl⟩
      · exact ⟨c', hc', hfd', rfl⟩
    exact .inl (hr.timely (ht id))

end

end Reactor

/-- The connection that has failed and is to be ended at once. -/
def Phase.failing? : Phase π ν → Option Nat
  | busy (.finalize id (.failed _)) _ => some id
  | _ => none

namespace Moment

open Reactor

variable [Kernel κ] {P : Policy π ν} {outside : Phase π ν → Prop} {m m' : Moment κ π ν}

/-- Every connection was last active when it says, unless it has failed. -/
def Timed (m : Moment κ π ν) : Prop := ∀ id, m.phase.failing? ≠ some id → m.reactor.Timely id

theorem Step.timed {n : Nat} (h : Step P outside m m') (ha : Agrees n m) (hs : Settled m)
    (hf : Fresh m'.journal) (hacc : Accounted m.reactor) (ht : Timed m) : Timed m' := by
  have hl := ha.sound.ledger (h.fresh hf)
  have hrests {r r' : Reactor κ π ν} {phase phase' : Phase π ν} (ht : Timed ⟨r, phase⟩)
      (hr : Rests r r') (hp : phase.failing? = none ∨ phase'.failing? = phase.failing?) :
      Timed ⟨r', phase'⟩ := by
    refine fun id hid ↦ hr.timely (ht id ?_)
    rcases hp with hp | hp
    · exact fun h ↦ nomatch hp.symm.trans h
    · exact hp ▸ hid
  have hself (r : Reactor κ π ν) : Rests r r := .apart rfl (.refl _)
  cases h with
  | kernel r phase k => exact hrests ht (.apart rfl (.refl _)) (.inr rfl)
  | listener r phase text =>
    exact hrests ht (relisten_opening (Sockets.listenOn_opening text) r).rests (.inr rfl)
  | request r phase q _ => exact hrests ht (request_rests q r) (.inr rfl)
  | setUp hr => exact hrests ht hr.relisten.rests (.inl rfl)
  | memory r app => exact hrests ht (.apart rfl (.refl _)) (.inl rfl)
  | start r _ | wake r | fail r | cleanup r => exact hrests ht (hself r) (.inl rfl)
  | task r first rest =>
    -- Bytes move in services only, and of a connection that fails in one, nothing is claimed.
    by_cases hserves : ∃ x event now, first = .serve x event now
    · obtain ⟨x, event, now, rfl⟩ := hserves
      obtain ⟨c, -, -, hc, -⟩ := ha.sound.holding.live (hs.alive x.id List.mem_cons_self)
      obtain ⟨fd, hfd⟩ := ha.sound.holding.fd?_of_live (hs.alive x.id List.mem_cons_self) hc
      intro id hid
      rcases attend_timely (P := P) hc hfd (hacc.fdOf_iff hl hc hfd) (fun id ↦ ht id nofun) event
        now id with h | ⟨rfl, e, he⟩
      · exact h
      · refine absurd ?_ hid
        show (Phase.ofTasks ((attend P x event now r).2 ++ rest)).failing? = _
        rw [he]
        rfl
    · by_cases hends : ∃ id why, first = .finalize id why
      · obtain ⟨id, why, rfl⟩ := hends
        intro id' _
        by_cases he : id' = id
        · exact he ▸ timely_ended id why r
        · refine (ended_rests id why r).timely (ht id' fun h ↦ he ?_)
          cases why <;> cases h
          rfl
      · have hnone : (Phase.busy first rest).failing? = none := by
          cases first with
          | finalize id why => exact absurd ⟨id, why, rfl⟩ hends
          | _ => rfl
        have ht (id : Nat) : Timely r id := ht id (hnone ▸ nofun)
        obtain ⟨app, hdeed⟩ := advance_deed (P := P) first r
        rcases hdeed.rests fun x event now he ↦ hserves ⟨x, event, now, he⟩ with
          hr | ⟨t, peer, d, now, hr⟩
        · exact fun id _ ↦ hr.timely (ht id)
        · intro id _
          dsimp only
          rw [hr]
          exact timely_enrolled t peer d now (ht id)

theorem Occurs.timed {b : Builder} (h : Occurs P outside b m) (hf : Fresh m.journal) :
    Timed m := by
  refine h.step_induction (motive := fun m ↦ Fresh m.journal → Timed m) ?_
    (fun m m' ho hs ht hf ↦ ?_) hf
  · intro app os r os' hb hj _ id _ c fd hc _
    rw [conn?_of_empty (built_bare hb hj).1] at hc
    cases hc
  · have hf₀ := hs.fresh hf
    exact hs.timed ho.agrees ho.settled hf (ho.accounted hf₀) (ht hf₀)

end Moment

end PollReactor
