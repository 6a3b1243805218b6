import PollReactor.Proofs.Appends
import PollReactor.Proofs.Farewell

namespace PollReactor

open Journal (Adds Fresh)

variable {κ π ν : Type}

namespace Entry

def appended (id : Nat) : Entry (Mark ν) → Bytes
  | .remark (.called id' c op) => if id' = id then op.appended (c.perform op).1 else []
  | .remark (.admitted id' _ d) => if id' = id then d.channel.output.toList else []
  | _ => []

def isMute : Entry (Mark ν) → Bool
  | .sys (.send ..) _ => false
  | .remark (.admitted ..) => false
  | .remark (.called ..) => false
  | _ => true

theorem appended_of_isMute {e : Entry (Mark ν)} (h : e.isMute) (id : Nat) : e.appended id = [] := by
  cases e with
  | sys => rfl
  | remark m => cases m <;> first | rfl | cases h

theorem sent_of_isMute {e : Entry (Mark ν)} (h : e.isMute) (fd : Fd) : e.sent fd = [] := by
  cases e with
  | sys c a => cases c <;> first | rfl | cases h
  | remark => rfl

theorem OfOutput.sent_of_ne {fd fd' : Fd} {e : Entry (Mark ν)} (h : e.OfOutput (some fd))
    (hne : fd ≠ fd') : e.sent fd' = [] := by
  cases h with
  | send _ bs a =>
    cases a with
    | ok n => exact if_neg hne
    | error e => rfl
  | clock => rfl

theorem IsChore.mute {e : Entry (Mark ν)} (h : e.IsChore) : e.isMute := by
  cases h with
  | @call c h a => cases c <;> first | rfl | cases h
  | adopted => rfl

theorem OfInput.mute {fd? : Option Fd} {e : Entry (Mark ν)} (h : e.OfInput fd?) : e.isMute := by
  cases h <;> rfl

theorem OfAdmission.mute {e : Entry (Mark ν)} (h : e.OfAdmission) : e.isMute := by
  cases h with
  | setup h => exact (chore_of_isSetup h).mute
  | _ => rfl

end Entry

namespace Journal

/-- The descriptor of a connection, from its admission to its last callback. -/
def fdOf (id : Nat) : Journal ν → Option Fd
  | [] => none
  | .remark (.admitted id' fd _) :: j => if id' = id then fd else fdOf id j
  | e :: j => if e.parts id then none else fdOf id j

def taken (id : Nat) : Journal ν → Bytes
  | [] => []
  | e :: j => taken id j ++ ((fdOf id j).map (e.sent ·)).getD []

/-- The bytes that were appended to the output of a connection, in order. -/
def appended (id : Nat) : Journal ν → Bytes
  | [] => []
  | e :: j => appended id j ++ e.appended id

variable {j j' : Journal ν}

theorem fdOf_cons {e : Entry (Mark ν)} (h : ∀ id fd d, e ≠ .remark (.admitted id fd d)) (id : Nat)
    (j : Journal ν) : fdOf id (e :: j) = if e.parts id then none else fdOf id j := by
  cases e with
  | sys => rfl
  | remark m =>
    cases m with
    | admitted id' fd d => exact absurd rfl (h id' fd d)
    | _ => rfl

theorem fdOf_quiet (h : Adds (·.isQuiet) j j') (id : Nat) : fdOf id j' = fdOf id j := by
  obtain ⟨new, rfl, hn⟩ := h
  induction new with
  | nil => rfl
  | cons e new ih =>
    have he := hn e List.mem_cons_self
    refine (fdOf_cons ?_ id _).trans ?_
    · rintro id' fd d rfl
      cases he
    · rw [Entry.parts_of_isQuiet he, if_neg nofun]
      exact ih fun e he ↦ hn e (List.mem_cons_of_mem _ he)

theorem taken_quiet {new : Journal ν} (h : ∀ e ∈ new, e.isQuiet) (id : Nat) :
    taken id (new ++ j) = taken id j ++ ((fdOf id j).map (sent · new)).getD [] := by
  induction new with
  | nil =>
    show taken id j = _
    cases fdOf id j <;> simp [sent]
  | cons e new ih =>
    have hn : ∀ e ∈ new, e.isQuiet := fun e he ↦ h e (List.mem_cons_of_mem _ he)
    rw [List.cons_append, taken, ih hn, fdOf_quiet ⟨new, rfl, hn⟩]
    cases fdOf id j <;> simp [sent]

theorem appended_append {new : Journal ν} {id : Nat} (h : ∀ e ∈ new, e.appended id = []) :
    appended id (new ++ j) = appended id j := by
  induction new with
  | nil => rfl
  | cons e new ih =>
    rw [List.cons_append, appended, h e List.mem_cons_self, List.append_nil]
    exact ih fun e he ↦ h e (List.mem_cons_of_mem _ he)

theorem taken_mute (h : Adds (·.isMute) j j') (id : Nat) : taken id j' = taken id j := by
  obtain ⟨new, rfl, hn⟩ := h
  induction new with
  | nil => rfl
  | cons e new ih =>
    have hs : ((fdOf id (new ++ j)).map (e.sent ·)).getD [] = [] := by
      cases fdOf id (new ++ j) with
      | none => rfl
      | some fd => exact Entry.sent_of_isMute (hn e List.mem_cons_self) fd
    rw [List.cons_append, taken, hs, List.append_nil]
    exact ih fun e he ↦ hn e (List.mem_cons_of_mem _ he)

theorem appended_mute (h : Adds (·.isMute) j j') (id : Nat) : appended id j' = appended id j := by
  obtain ⟨new, rfl, hn⟩ := h
  exact appended_append fun e he ↦ Entry.appended_of_isMute (hn e he) id

end Journal

open Journal (fdOf taken appended)

namespace Reactor

variable {r r' : Reactor κ π ν}

def queued (r : Reactor κ π ν) (id : Nat) : Bytes :=
  ((r.conn? id).map (·.output.toList)).getD []

/-- The journal accounts for the descriptor and the output of every connection. -/
structure Accounted (r : Reactor κ π ν) : Prop where
  fd : ∀ id, fdOf id r.os.journal = r.owned none (.conn id)
  bytes : ∀ id, taken id r.os.journal ++ r.queued id = appended id r.os.journal

theorem Accounted.mute (h : Accounted r) (hp : ∀ id, r'.place? id = r.place? id)
    (hq : ∀ id, r'.queued id = r.queued id)
    (hj : Adds (fun e ↦ e.isQuiet ∧ e.isMute) r.os.journal r'.os.journal) : Accounted r' where
  fd id := by
    rw [Journal.fdOf_quiet (hj.mono fun _ he ↦ he.1), h.fd, owned_conn, owned_conn, hp]
  bytes id := by
    have hm := hj.mono fun _ he ↦ he.2
    rw [Journal.taken_mute hm, Journal.appended_mute hm, hq, h.bytes]

theorem Accounted.same (h : Accounted r) (hc : r'.conns = r.conns)
    (hj : Adds (fun e ↦ e.isQuiet ∧ e.isMute) r.os.journal r'.os.journal) : Accounted r' := by
  refine h.mute ?_ ?_ hj
  · intro id
    rw [place?, place?, conn?_congr hc]
  · intro id
    rw [queued, queued, conn?_congr hc]

theorem Accounted.repool (h : Accounted r) (hr : Repool r r') : Accounted r' := by
  obtain ⟨os, pool, rfl, hj⟩ := hr
  exact h.same rfl (hj.mono fun _ he ↦ ⟨he.quiet, he.mute⟩)

theorem Accounted.relisten (h : Accounted r) (hr : Relisten r r') : Accounted r' := by
  obtain ⟨os, listener, rfl, hj⟩ := hr
  exact h.same rfl (hj.mono fun _ he ↦ ⟨he.chore.quiet, he.chore.mute⟩)

theorem Accounted.remark (h : Accounted r) {m : Mark ν}
    (hp : ∀ id, (Entry.remark m).parts id = false) (hm : (Entry.remark m).isMute) :
    Accounted (remark m r).2 := by
  have hj : Adds (·.isMute) r.os.journal (.remark m :: r.os.journal) := .single hm
  constructor
  · intro id
    refine (Journal.fdOf_cons ?_ id _).trans ?_
    · rintro id' fd d he
      cases he
      cases hm
    · rw [hp, if_neg nofun]
      exact h.fd id
  · intro id
    show taken id (.remark m :: r.os.journal) ++ r.queued id =
      appended id (.remark m :: r.os.journal)
    rw [Journal.taken_mute hj, Journal.appended_mute hj, h.bytes]

theorem queued_set {id : Nat} {c : Conn}
    (hconn : ∀ id', r'.conn? id' = if id' = id then some c else r.conn? id') (id' : Nat) :
    r'.queued id' = if id' = id then c.output.toList else r.queued id' := by
  rw [queued, hconn, queued]
  split_ifs <;> rfl

theorem conn?_of_queued {id : Nat} {b : UInt8} {bs : Bytes} (h : r.queued id = b :: bs) :
    ∃ c, r.conn? id = some c ∧ c.output.toList = b :: bs := by
  unfold queued at h
  cases hc : r.conn? id with
  | none =>
    rw [hc] at h
    cases h
  | some c =>
    rw [hc] at h
    exact ⟨c, rfl, h⟩

theorem queued_of_conn? {id : Nat} {c : Conn} (h : r.conn? id = some c) :
    r.queued id = c.output.toList := by
  rw [queued, h]
  rfl

variable [Kernel κ] {P : Policy π ν}

theorem Accounted.called (h : Accounted r) {id : Nat} {c : Conn} (hc : r.conn? id = some c)
    (op : ConnOp) : Accounted (callConn id op r).2 := by
  have hplace := Still.setConn (C := fun _ ↦ False) hc (c.perform_place op)
  have hqueued := queued_set (conn?_setConn hc (c.perform op).2.1)
  have h1 : Accounted
      (PollReactor.Reactor.remark (.called id c op) (r.setConn id (c.perform op).2.1)).2 := by
    constructor
    · intro id'
      refine (h.fd id').trans ?_
      rw [owned_conn, ← hplace.place]
      rfl
    · intro id'
      show (taken id' r.os.journal ++ ((fdOf id' r.os.journal).map fun _ ↦ []).getD []) ++
        (r.setConn id (c.perform op).2.1).queued id' =
          appended id' r.os.journal ++ if id = id' then op.appended (c.perform op).1 else []
      have h0 : ((fdOf id' r.os.journal).map fun _ ↦ ([] : Bytes)).getD [] = [] := by
        cases fdOf id' r.os.journal <;> rfl
      rw [h0, List.append_nil, hqueued, ← h.bytes]
      by_cases he : id' = id
      · rw [if_pos he, if_pos he.symm, c.perform_output, he, queued_of_conn? hc, List.append_assoc]
      · rw [if_neg he, if_neg (Ne.symm he), List.append_nil]
  rw [callConn_run hc]
  refine h1.same (actAll_conns _ _) ((actAll_still _ _).journal.mono ?_)
  intro _ he
  exact ⟨he.chore.quiet, he.chore.mute⟩

theorem Accounted.wake (h : Accounted r) : Accounted (Reactor.wake r).2 :=
  h.same (wake_conns r) ((wake_still r).journal.mono fun _ he ↦ ⟨he.chore.quiet, he.chore.mute⟩)

theorem Accounted.stir (h : Accounted r) (hs : Stir r r') : Accounted r' := by
  cases hs with
  | called id c op hc => exact h.called hc op
  | wake => exact h.wake
  | cancel =>
    have hc : Accounted { r with cancelled := true } := h.same rfl (.refl _)
    exact hc.wake
  | clock => exact h.same rfl (.single ⟨rfl, rfl⟩)
  | answered q a _ => exact h.remark (fun _ ↦ rfl) rfl

theorem Accounted.request (h : Accounted r) (q : Request) : Accounted (Reactor.request q r).2 := by
  have hs := request_stirs q r
  generalize (Reactor.request q r).2 = r' at hs ⊢
  induction hs with
  | refl => exact h
  | tail _ hs ih => exact ih.stir hs

theorem Accounted.enrolled (h : Accounted r) (t : Token Stream) (peer : Net.SocketAddr) (d : Draft)
    (now : Nat) : Accounted (Reactor.enrolled t peer d now r) := by
  have hclock : Accounted { r with os.journal := .sys .clock now :: r.os.journal } :=
    h.same rfl (.single ⟨rfl, rfl⟩)
  constructor
  · intro id
    rw [owned_conn, place?_enrolled]
    show (if r.conns.size + 1 = id then t.value.fd
      else fdOf id (.sys .clock now :: r.os.journal)) = _
    by_cases he : id = r.conns.size + 1
    · rw [if_pos he, if_pos he.symm]
      rfl
    · rw [if_neg he, if_neg (Ne.symm he)]
      exact hclock.fd id
  · intro id
    show (taken id (.sys .clock now :: r.os.journal) ++
      ((fdOf id (.sys .clock now :: r.os.journal)).map fun _ ↦ []).getD []) ++
        (Reactor.enrolled t peer d now r).queued id =
          appended id (.sys .clock now :: r.os.journal) ++
            if r.conns.size + 1 = id then d.channel.output.toList else []
    have h0 (o : Option Fd) : (o.map fun _ ↦ ([] : Bytes)).getD [] = [] := by cases o <;> rfl
    rw [h0, List.append_nil, queued_set (conn?_enrolled t peer d now r), ← hclock.bytes]
    by_cases he : id = r.conns.size + 1
    · have hq : r.queued id = [] := by
        rw [queued, conn?_of_size_lt (by omega)]
        rfl
      rw [if_pos he, if_pos he.symm]
      show _ = (_ ++ r.queued id) ++ _
      rw [hq, List.append_nil]
      rfl
    · rw [if_neg he, if_neg (Ne.symm he), List.append_nil]
      rfl

theorem Accounted.service (h : Accounted r) (hl : Ledger r none) {id : Nat} {c : Conn} {fd : Fd}
    {sends : Bool} (hc : r.conn? id = some c) (hfd : c.fd? = some fd)
    (hs : Service r id c sends r') : Accounted r' := by
  have hstill := hs.still hc
  obtain ⟨os, c', rfl, hserved⟩ := hs.spec hc
  have hqueued := queued_set (conn?_setConn (r := { r with os }) hc c')
  have hquiet : Adds (·.isQuiet) r.os.journal os.journal :=
    hserved.journal.mono fun _ he ↦ he.quiet
  cases sends with
  | false =>
    refine h.mute hstill.place ?_ ?_
    · intro id'
      rw [hqueued]
      split_ifs with he
      · rw [hserved.output rfl, he, queued_of_conn? hc]
      · rfl
    · refine hserved.journal.mono fun e he ↦ ⟨he.quiet, ?_⟩
      have he : e.OfInput c.fd? := he
      exact he.mute
  | true =>
    obtain ⟨new, hj, hn, hsent⟩ := hserved.flushed rfl fd hfd
    have hq : ∀ e ∈ new, e.isQuiet := hquiet.of_append hj
    constructor
    · intro id'
      rw [owned_conn, hstill.place]
      exact (Journal.fdOf_quiet hquiet id').trans (h.fd id')
    · intro id'
      show taken id' os.journal ++ _ = appended id' os.journal
      have happ : ∀ e ∈ new, e.appended id' = [] := by
        intro e he
        cases hn e he <;> rfl
      rw [hj, Journal.taken_quiet hq, Journal.appended_append happ, hqueued, ← h.bytes, h.fd]
      by_cases he : id' = id
      · have hown : r.owned none (.conn id) = some fd := owned_of_fd? hc hfd
        rw [if_pos he, he, hown, queued_of_conn? hc, ← hsent, List.append_assoc]
        rfl
      · rw [if_neg he]
        have h0 : ((r.owned none (.conn id')).map (Journal.sent · new)).getD [] = [] := by
          cases ho : r.owned none (.conn id') with
          | none => rfl
          | some fd' =>
            have hne : fd ≠ fd' := fun hf ↦ he (Owner.conn.inj
              (hl.apart (.conn id') (.conn id) fd' ho (hf ▸ owned_of_fd? hc hfd)))
            exact Journal.sent_eq_nil fun e hmem ↦ (hn e hmem).sent_of_ne hne
        rw [h0, List.append_nil]
        rfl

theorem Accounted.ended (h : Accounted r) (id : Nat) (why : Teardown) :
    Accounted (PollReactor.Reactor.remark (.callback (why.callback id)) (part id r)).2 := by
  obtain ⟨os, pool, conns, he, -, hconn, hj⟩ := part_spec id r
  have hmute := hj.mono (D := fun e ↦ e.isQuiet ∧ e.isMute) fun _ he ↦
    ⟨(Entry.chore_of_isSetup he).quiet, (Entry.chore_of_isSetup he).mute⟩
  have hos : (part id r).os = os := congrArg (·.os) he
  have hplace (id' : Nat) : (part id r).place? id' = if id' = id then none else r.place? id' := by
    rw [place?, hconn, place?]
    split_ifs
    · cases r.conn? id <;> rfl
    · rfl
  have hqueued (id' : Nat) : (part id r).queued id' = r.queued id' := by
    rw [queued, hconn, queued]
    split_ifs with hid
    · rw [hid]
      cases r.conn? id <;> rfl
    · rfl
  have hparts (id' : Nat) :
      (Entry.remark (Mark.callback (ν := ν) (why.callback id))).parts id' ↔ id' = id := by
    cases why <;> simp [Entry.parts, Entry.callback?, Teardown.callback, Callback.isTerminal,
      Callback.id, eq_comm]
  constructor
  · intro id'
    show fdOf id' (.remark (.callback (why.callback id)) :: (part id r).os.journal) =
      (part id r).owned none (.conn id')
    rw [Journal.fdOf_cons (fun _ _ _ he ↦ by cases he), owned_conn, hplace, hos]
    by_cases hid : id' = id
    · rw [if_pos ((hparts id').2 hid), if_pos hid]
      rfl
    · rw [if_neg (mt (hparts id').1 hid), if_neg hid,
        Journal.fdOf_quiet (hmute.mono fun _ he ↦ he.1), h.fd]
      rfl
  · intro id'
    have hadds : Adds (·.isMute) r.os.journal
        (.remark (.callback (why.callback id)) :: (part id r).os.journal) := by
      rw [hos]
      exact (hmute.mono fun _ he ↦ he.2).cons rfl
    show taken id' (.remark (.callback (why.callback id)) :: (part id r).os.journal) ++
      (part id r).queued id' =
        appended id' (.remark (.callback (why.callback id)) :: (part id r).os.journal)
    rw [Journal.taken_mute hadds, Journal.appended_mute hadds, hqueued, h.bytes]

theorem Accounted.deed {first : Task π ν} (h : Accounted r) (hh : Holding r first.token?)
    (hl : Ledger r first.token?) (hlive : ∀ id ∈ first.subjects, id ∈ r.live)
    (hd : Deed first r r') : Accounted r' := by
  cases hd with
  | nothing => exact h
  | aside m hm =>
    exact h.remark (fun id ↦ by cases m <;> first | rfl | cases hm)
      (by cases m <;> first | rfl | cases hm)
  | request q => exact h.request q
  | wake => exact h.wake
  | settled events =>
    have hst := settleWaker_still events r
    exact h.same (settleWaker_conns events r)
      (hst.journal.mono fun _ he ↦ ⟨he.chore.quiet, he.chore.mute⟩)
  | clock => exact h.same rfl (.single ⟨rfl, rfl⟩)
  | repooled hr => exact h.repool hr
  | enrolled t peer d now => exact h.enrolled t peer d now
  | served hfirst hc hs =>
    subst hfirst
    obtain ⟨fd, hfd⟩ := hh.fd?_of_live (hlive _ List.mem_cons_self) hc
    exact h.service hl hc hfd hs
  | told hfirst hc hs cb hid ht =>
    subst hfirst
    obtain ⟨fd, hfd⟩ := hh.fd?_of_live (hlive _ List.mem_cons_self) hc
    refine (h.service hl hc hfd hs).remark ?_ rfl
    intro id
    show (cb.isTerminal && _) = false
    rw [ht]
    rfl
  | @ended id why _ => exact h.ended id why
  | relistened hr => exact h.relisten hr

theorem advance_accounted (first : Task π ν) (h : Accounted r) (hh : Holding r first.token?)
    (hl : Ledger r first.token?) (hlive : ∀ id ∈ first.subjects, id ∈ r.live) :
    Accounted (advance P first r).1 := by
  obtain ⟨app, hd⟩ := advance_deed (P := P) first r
  have happ : Still (fun _ ↦ False) r { r with app } := .app r app
  have ha : Accounted { r with app } := h.same rfl (.refl _)
  exact ha.deed (hh.still happ) (hl.still happ fun _ he ↦ he.elim) hlive hd

end Reactor

namespace Moment

open Reactor

variable [Kernel κ] {P : Policy π ν} {outside : Phase π ν → Prop} {m m' : Moment κ π ν}

theorem Step.accounted {n : Nat} (h : Step P outside m m') (ha : Agrees n m) (hs : Settled m)
    (hf : Fresh m'.journal) (hacc : Accounted m.reactor) : Accounted m'.reactor := by
  have hl := ha.sound.ledger (h.fresh hf)
  cases h with
  | kernel r phase k => exact hacc.same rfl (.refl _)
  | listener r phase text =>
    exact hacc.relisten (relisten_opening (Sockets.listenOn_opening text) r)
  | request r phase q _ => exact hacc.request q
  | setUp hr => exact hacc.relisten hr.relisten
  | memory r app => exact hacc.same rfl (.refl _)
  | start => exact hacc
  | wake => exact hacc
  | fail => exact hacc
  | cleanup => exact hacc
  | task r first rest =>
    exact advance_accounted first hacc ha.sound.holding hl fun id hid ↦
      hs.alive id (List.mem_append_left _ hid)

omit [Kernel κ] in
theorem accounted_of_empty {r : Reactor κ π ν} (hconns : r.conns = #[])
    (hj : Adds (fun e ↦ e.isQuiet ∧ e.isMute) [] r.os.journal) : Accounted r := by
  have h : Accounted (ν := ν) { r with os := ⟨r.os.kernel, []⟩ } := by
    have hnone (id : Nat) : conn? (ν := ν) { r with os := ⟨r.os.kernel, []⟩ } id = none :=
      conn?_of_empty hconns id
    constructor
    · intro id
      rw [owned_conn, place?, hnone]
      rfl
    · intro id
      rw [queued, hnone]
      rfl
  exact h.same rfl hj

theorem built_accounted {b : Builder} {app : π} {os os' : Os κ (Mark ν)} {r : Reactor κ π ν}
    (h : b.build app os = (.ok r, os')) (hj : os.journal = []) : Accounted r := by
  obtain ⟨hconns, hsetup⟩ := built_bare h hj
  refine accounted_of_empty hconns (hsetup.mono ?_)
  intro _ he
  exact ⟨(Entry.chore_of_isSetup he).quiet, (Entry.chore_of_isSetup he).mute⟩

theorem Occurs.accounted {b : Builder} (h : Occurs P outside b m) (hf : Fresh m.journal) :
    Accounted m.reactor := by
  refine h.step_induction (motive := fun m ↦ Fresh m.journal → Accounted m.reactor)
    (fun _ _ _ _ hb hj _ ↦ built_accounted hb hj) ?_ hf
  exact fun m m' ho hs hacc hf ↦ hs.accounted ho.agrees ho.settled hf (hacc (hs.fresh hf))

/-- If the system never gives out a descriptor that is in use, the output of a connection is a
stream: what the system took and what is queued are together what was appended, in order. What came
along with the draft of the connection was appended to that. -/
theorem Occurs.output_stream {b : Builder} (h : Occurs P outside b m) (hf : Fresh m.journal) :
    (∀ id c, m.reactor.conn? id = some c → fdOf id m.journal = c.fd? ∧
      taken id m.journal ++ c.output.toList = appended id m.journal) ∧
    ∀ d : Draft, ∃ config now new ops, Channel.make config now = .ok new ∧
      d.channel = new.afterCalls ops ∧ d.channel.output.toList = new.appends ops := by
  have ha := h.accounted hf
  refine ⟨fun id c hc ↦ ⟨?_, ?_⟩, fun d ↦ d.drafted.output⟩
  · refine (ha.fd id).trans ?_
    rw [owned_conn, place?, hc, Option.bind_some, ← Conn.fd?_eq]
  · have hb := ha.bytes id
    rw [queued_of_conn? hc] at hb
    exact hb

end Moment

theorem Visit.wrote_stream : Moment.Occurs policy (fun _ ↦ True) builder wrote ∧
    Fresh wrote.journal ∧ ∃ c, wrote.reactor.conn? 1 = some c ∧ c.output.toList ≠ [] ∧
      taken 1 wrote.journal ++ c.output.toList = [7, 8] := by
  have ho := wrote_occurs (fun _ ↦ True) trivial
  have hf : Fresh wrote.journal := by decide +kernel
  have happ : appended 1 wrote.journal = [7, 8] := by decide +kernel
  obtain ⟨c, hc, hout⟩ : ∃ c, wrote.reactor.conn? 1 = some c ∧ c.output.toList = [7, 8] :=
    Reactor.conn?_of_queued (by decide +kernel)
  exact ⟨ho, hf, c, hc, hout ▸ nofun, ((ho.output_stream hf).1 1 c hc).2.trans happ⟩

end PollReactor
