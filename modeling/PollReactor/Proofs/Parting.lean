import PollReactor.Proofs.Input
import PollReactor.Proofs.Rousing

namespace PollReactor

open Journal (Adds Fresh fdOf asked taken appended)

variable {κ π ν : Type}

def Entry.ends (fd : Fd) : Entry (Mark ν) → Bool
  | .sys (.recv fd' _) (.ok bs) => fd' = fd && bs.1.isEmpty
  | _ => false

namespace Journal

def ended (id : Nat) : Journal ν → Bool
  | [] => false
  | e :: j => ended id j || (fdOf id j).any (e.ends ·)

variable {C : Entry (Mark ν) → Prop} {j j' : Journal ν} {id : Nat}

theorem ended_adds (h : Adds C j j') (he : ended id j) : ended id j' := by
  obtain ⟨new, rfl, -⟩ := h
  induction new with
  | nil => exact he
  | cons e new ih => simp [ended, ih]

theorem ended_quiet {fd : Fd} {new : Journal ν} (hq : ∀ e ∈ new, e.isQuiet)
    (hfd : fdOf id j = some fd) (he : ∃ e ∈ new, e.ends fd) : ended id (new ++ j) := by
  induction new with
  | nil => simp at he
  | cons e new ih =>
    have hn : ∀ e ∈ new, e.isQuiet := fun e he ↦ hq e (List.mem_cons_of_mem _ he)
    rw [List.cons_append, ended, Bool.or_eq_true]
    obtain ⟨e', hmem, he⟩ := he
    rcases List.mem_cons.1 hmem with rfl | hmem
    · refine .inr ?_
      rw [fdOf_quiet ⟨new, rfl, hn⟩, hfd]
      exact he
    · exact .inl (ih hn ⟨e', hmem, he⟩)

theorem asked_adds {immediate : Bool} (h : Adds C j j') (ha : asked id immediate j) :
    asked id immediate j' := by
  obtain ⟨new, rfl, -⟩ := h
  rw [asked, List.any_append, Bool.or_eq_true]
  exact .inr ha

end Journal

theorem Ring.toList_of_isEmpty {r : Ring} (h : r.isEmpty) : r.toList = [] := by
  have hlen : r.toList.length = 0 := r.length_toList.trans (of_decide_eq_true h)
  exact List.length_eq_zero_iff.1 hlen

section Transfers

variable [Kernel κ]

theorem Ring.fillFrom_ended (fd : Fd) (r : Ring) (moved : Nat) (o : Os κ (Mark ν))
    (h : (fillFrom (Source.socket fd) r moved o).1 = .ok 0) :
    moved = 0 ∧ (r.isFull ∨ ∃ new, (fillFrom (Source.socket fd) r moved o).2.2.journal =
      new ++ o.journal ∧ ∃ e ∈ new, e.ends fd) := by
  fun_induction fillFrom (Source.socket fd) r moved o with
  | case1 r moved o hfull =>
    cases h
    exact ⟨rfl, .inl hfull⟩
  | case2 r moved o hroom hb o' hp =>
    cases h
    obtain ⟨a, ha, hj⟩ := pull_entry hp
    refine ⟨rfl, .inr ⟨[_], hj, _, List.mem_cons_self, ?_⟩⟩
    cases a with
    | ok bs =>
      cases ha
      simp [Entry.ends]
    | error e => cases ha
  | case3 r moved o hroom bs hb o' hp hne _ ih =>
    have hlen := (ih h).1
    exact absurd (List.length_eq_zero_iff.1 (by omega)) hne
  | case4 r moved o hroom e o' hp _ _ ih =>
    obtain ⟨rfl, hfull | ⟨new, hj, e', he, hends⟩⟩ := ih h
    · exact absurd hfull hroom
    · obtain ⟨a, -, hj'⟩ := pull_entry hp
      refine ⟨rfl, .inr ⟨new ++ [.sys (.recv fd r.vacant) a], ?_, e',
        List.mem_append_left _ he, hends⟩⟩
      rw [hj, hj', List.append_assoc]
      rfl
  | case5 r moved o hroom e o' hp _ hblock =>
    cases h
    exact absurd hblock.2 (Nat.lt_irrefl 0)
  | case6 r moved o hroom e o' hp => cases h

theorem Conn.receive_ended {c c' : Conn} {o o' : Os κ (Mark ν)}
    (h : c.receive o = ((.ok .endOfStream, c'), o')) :
    ∃ fd new, c.fd? = some fd ∧ o'.journal = new ++ o.journal ∧ ∃ e ∈ new, e.ends fd := by
  have hr := c.receive_receives o
  rw [h] at hr
  cases hr with
  | @ended fd _ _ hfd hroom hs =>
    have hend := c.input.fillFrom_ended fd 0 o
    rw [hs] at hend
    obtain ⟨new, hj, he⟩ := (hend rfl).2.resolve_left hroom
    exact ⟨fd, new, hfd, hj, he⟩

end Transfers

namespace Conn

variable (c : Conn)

theorem batchOps_connected (c : Conn) {ops : List BatchOp} (h : ops.any (·.closes true) = false) :
    (c.batchOps ops).2.1.isConnected = c.isConnected := by
  induction ops generalizing c with
  | nil => rfl
  | cons op ops ih =>
    rw [List.any_cons, Bool.or_eq_false_iff] at h
    refine (ih (c.batchOp op).2.1 h.2).trans ?_
    cases op with
    | close immediate =>
      cases immediate with
      | false => rfl
      | true => cases h.1
    | _ => rfl

theorem perform_connected {op : ConnOp} (h : op.closes true = false) :
    (c.perform op).2.1.isConnected = c.isConnected := by
  cases op with
  | batch ops release => exact c.batchOps_connected h
  | close immediate =>
    cases immediate with
    | false => rfl
    | true => cases h
  | _ => rfl

end Conn

namespace Reactor

variable {r r' : Reactor κ π ν}

/-- A live connection that is shut down was asked to be. -/
def Candid (r : Reactor κ π ν) : Prop :=
  ∀ id ∈ r.live, ∀ c, r.conn? id = some c → c.isConnected ∨ asked id true r.os.journal

theorem Candid.same (h : Candid r) (hl : r'.live = r.live) (hc : r'.conns = r.conns)
    (hj : Adds (fun _ ↦ True) r.os.journal r'.os.journal) : Candid r' := by
  intro id hid c hconn
  rw [conn?_congr hc] at hconn
  exact (h id (hl ▸ hid) c hconn).imp_right (Journal.asked_adds hj)

/-- A connection may be ended as closed: nothing is queued for it, or it was shut down, or its peer
let the stream end. -/
def Done (r : Reactor κ π ν) (id : Nat) : Prop :=
  r.queued id = [] ∨ asked id true r.os.journal ∨ Journal.ended id r.os.journal

theorem Done.same {id : Nat} (h : r.Done id) (hc : r'.conns = r.conns)
    (hj : Adds (fun _ ↦ True) r.os.journal r'.os.journal) : r'.Done id := by
  refine h.imp (fun hq ↦ ?_) (Or.imp (Journal.asked_adds hj) (Journal.ended_adds hj))
  rw [queued, conn?_congr hc]
  exact hq

end Reactor

def Task.isEnd : Task π ν → Bool
  | finalize .. => true
  | _ => false

/-- No connection is about to be ended. -/
def Phase.IsSparing : Phase π ν → Prop
  | busy first _ => first.isEnd = false
  | _ => True

namespace Reactor

variable {r r' : Reactor κ π ν}

/-- A connection is ended behind the task in hand only if all of them are. -/
def Sweeps (r : Reactor κ π ν) (ts : List (Task π ν)) : Prop :=
  ∀ id why later, .finalize id why :: later <:+ ts → r.cancelled ∨ .closeListener ∈ later

namespace Sweeps

variable {ts : List (Task π ν)}

theorem tail {t : Task π ν} (h : r.Sweeps (t :: ts)) : r.Sweeps ts :=
  fun id why later hs ↦ h id why later (hs.trans (List.suffix_cons t ts))

theorem mono (h : r.Sweeps ts) (hx : r.cancelled → r'.cancelled) : r'.Sweeps ts :=
  fun id why later hs ↦ (h id why later hs).imp_left hx

theorem append {new : List (Task π ν)} (h : r.Sweeps ts) (hn : ∀ t ∈ new, t.isEnd = false) :
    r.Sweeps (new ++ ts) := by
  induction new with
  | nil => exact h
  | cons t new ih =>
    intro id why later hs
    rcases List.suffix_cons_iff.1 hs with he | hs
    · cases he
      cases hn _ List.mem_cons_self
    · exact ih (fun t ht ↦ hn t (List.mem_cons_of_mem _ ht)) id why later hs

theorem nil : r.Sweeps ([] : List (Task π ν)) :=
  fun _ _ _ hs ↦ by cases List.suffix_nil.1 hs

theorem of_none (hn : ∀ t ∈ ts, t.isEnd = false) : r.Sweeps ts := by
  have h := (nil (r := r)).append hn
  rw [List.append_nil] at h
  exact h

theorem cleanup (ids : List Nat) :
    r.Sweeps (ids.map (.finalize · .closed) ++ [Task.closeListener (π := π) (ν := ν)]) := by
  induction ids with
  | nil => exact of_none (by simp [Task.isEnd])
  | cons id ids ih =>
    intro id' why later hs
    rcases List.suffix_cons_iff.1 hs with he | hs
    · cases he
      exact .inr (List.mem_append_right _ List.mem_cons_self)
    · exact ih id' why later hs

end Sweeps

/-- A connection is ended as closed when it is done, or when all are ended. -/
def Seemly (r : Reactor κ π ν) : Phase π ν → Prop
  | .busy first rest => r.Sweeps rest ∧
      ∀ id, first = .finalize id .closed → r.Done id ∨ r.cancelled ∨ .closeListener ∈ rest
  | _ => True

theorem seemly_ofTasks {ts : List (Task π ν)} (h : r.Sweeps ts) : Seemly r (.ofTasks ts) := by
  cases ts with
  | nil => trivial
  | cons first rest =>
    refine ⟨h.tail, ?_⟩
    rintro id rfl
    exact .inr (h id .closed rest (List.suffix_refl _))

theorem Seemly.same {phase : Phase π ν} (h : Seemly r phase) (hx : r'.cancelled = r.cancelled)
    (hc : r'.conns = r.conns) (hj : Adds (fun _ ↦ True) r.os.journal r'.os.journal) :
    Seemly r' phase := by
  cases phase with
  | busy first rest =>
    refine ⟨h.1.mono fun h ↦ hx ▸ h, ?_⟩
    intro id hfirst
    rw [hx]
    exact (h.2 id hfirst).imp_left fun hd ↦ hd.same hc hj
  | _ => trivial

theorem Seemly.relisten {phase : Phase π ν} (h : Seemly r phase) (hr : Relisten r r') :
    Seemly r' phase := by
  obtain ⟨os, listener, rfl, hj⟩ := hr
  exact h.same rfl rfl (hj.mono fun _ _ ↦ trivial)

inductive Ends (r : Reactor κ π ν) : Next π ν → Prop where
  | none {ts : List (Task π ν)} (h : ∀ t ∈ ts, t.isEnd = false) : Ends r (.go ts)
  | one (id : Nat) (why : Teardown) (h : why = .closed → r.Done id) :
      Ends r (.go [.finalize id why])
  | all (ts : List (Task π ν)) (h : r.cancelled) : Ends r (.only ts)
  | stop : Ends r (.only [])
  | wait (w : Wait) : Ends r (.wait w)

theorem Ends.seemly {next : Next π ν} {rest : List (Task π ν)} (h : Ends r next)
    (hs : r.Sweeps rest) : Seemly r (next.phase rest) := by
  cases h with
  | none hn => exact seemly_ofTasks (hs.append hn)
  | one id why hd =>
    refine ⟨hs, ?_⟩
    intro id' he
    cases he
    exact .inl (hd rfl)
  | all ts hx => exact seemly_ofTasks fun _ _ _ _ ↦ .inl hx
  | stop => trivial
  | wait w => trivial

variable [Kernel κ] {P : Policy π ν}

omit [Kernel κ] in
theorem afterService_none (id : Nat) (sends : Bool) :
    ∀ t ∈ afterService (π := π) (ν := ν) id sends, t.isEnd = false := by
  cases sends <;> simp [afterService, Task.isEnd]

omit [Kernel κ] in
theorem tell_ends (cb : Callback) {ts : List (Task π ν)} (h : ∀ t ∈ ts, t.isEnd = false)
    (r : Reactor κ π ν) : Ends (tell P cb ts r).1 (.go (tell P cb ts r).2) := by
  refine .none fun t ht ↦ ?_
  rcases List.mem_cons.1 ht with rfl | ht
  · rfl
  · exact h t ht

theorem attendInput_ends {id : Nat} {c : Conn} (h : Accounted r) (hc : r.conn? id = some c) :
    Ends (attendInput P id c r).1 (.go (attendInput P id c r).2) := by
  have hin : Service r id c false _ := .input
  have hstill := hin.still hc
  have hend {c' : Conn} {os : Os κ (Mark ν)} (h : c.receive r.os = ((.ok .endOfStream, c'), os)) :=
    Conn.receive_ended h
  unfold attendInput
  unfold system at hstill ⊢
  generalize c.receive r.os = out at hstill hend ⊢
  rcases out with ⟨⟨e | _ | n, c'⟩, os⟩
  · exact .one id (.failed e) nofun
  · dsimp only
    split_ifs
    · exact tell_ends _ (afterService_none id false) _
    · exact .none (afterService_none id false)
  · obtain ⟨fd, new, hfd, hj, he⟩ := hend rfl
    refine .one id .closed fun _ ↦ .inr (.inr ?_)
    show Journal.ended id os.journal
    rw [hj]
    have hown : fdOf id r.os.journal = some fd := (h.fd id).trans (owned_of_fd? hc hfd)
    refine Journal.ended_quiet (fun e he ↦ ?_) hown he
    exact (hstill.journal.of_append hj e he).quiet

theorem attendOutput_ends (id : Nat) (c : Conn) (r : Reactor κ π ν) :
    Ends (attendOutput P id c r).1 (.go (attendOutput P id c r).2) := by
  unfold attendOutput
  rcases system c.transmit r with ⟨⟨e | n, c'⟩, r'⟩
  · exact .one id (.failed e) nofun
  · dsimp only
    split_ifs
    · exact tell_ends _ (afterService_none id true) _
    · exact .none (afterService_none id true)

theorem attendUrgent_ends (id : Nat) (c : Conn) (r : Reactor κ π ν) :
    Ends (attendUrgent P id c r).1 (.go (attendUrgent P id c r).2) := by
  unfold attendUrgent
  rcases system c.receiveUrgent r with ⟨⟨e | stored, c'⟩, r'⟩
  · exact .one id (.failed e) nofun
  · dsimp only
    split_ifs
    · exact tell_ends _ (afterService_none id false) _
    · exact .none (afterService_none id false)

theorem attend_ends (w : Watched) (event : Event) (now : Nat) (h : Accounted r) :
    Ends (attend P w event now r).1 (.go (attend P w event now r).2) := by
  unfold attend
  cases hc : r.conn? w.id with
  | none => exact .none (afterService_none w.id false)
  | some c =>
    dsimp only
    split_ifs with hflushed
    · refine .one w.id .closed fun _ ↦ .inl ?_
      rw [queued_of_conn? hc]
      exact Ring.toList_of_isEmpty hflushed.2
    · exact attendInput_ends h hc
    · exact attendOutput_ends w.id c r
    · exact attendUrgent_ends w.id c r
    · exact .none (afterService_none w.id false)
    · exact .one w.id .timedOut nofun
    · exact .none (afterService_none w.id false)

theorem advance_ends (first : Task π ν) (h : Accounted r) (hcand : Candid r)
    (hlive : ∀ id ∈ first.subjects, id ∈ r.live) :
    Ends (advance P first r).1 (advance P first r).2 := by
  have hadv := advance_advanced (P := P) first r
  generalize advance P first r = out at hadv ⊢
  cases hadv with
  | done => exact .none (List.forall_mem_nil _)
  | vacant | raised => exact .stop
  | welcomed | met | heard => exact .none (List.forall_mem_singleton.2 rfl)
  | shared events watched now =>
    refine .none fun t ht ↦ ?_
    obtain ⟨w, event, rfl⟩ := mem_serves ht
    rfl
  | attended w event now => exact attend_ends w event now h
  | @dropped id c hc hs =>
    refine .one id .closed fun _ ↦ .inr (.inl ?_)
    refine (hcand id (hlive id List.mem_cons_self) c hc).resolve_left ?_
    simp [hs]
  | cleared hx => exact .all _ hx
  | waits => exact .wait _

theorem Candid.called (h : Candid r) {id : Nat} {c : Conn} (hc : r.conn? id = some c)
    (op : ConnOp) : Candid (callConn id op r).2 := by
  have hs := (Stir.called id c op hc).still
  have hj := callConn_journal hc op
  intro id' hid c' hc'
  rw [callConn_conn? hc] at hc'
  split_ifs at hc' with he
  · obtain rfl := Option.some.inj hc'
    cases hop : op.closes true with
    | true =>
      refine .inr (Journal.asked_adds hj ?_)
      simp [asked, Entry.asks, hop, he]
    | false =>
      rw [c.perform_connected hop]
      exact (h id' (hs.live ▸ hid) c (he ▸ hc)).imp_right (Journal.asked_adds hs.journal)
  · exact (h id' (hs.live ▸ hid) c' hc').imp_right (Journal.asked_adds hs.journal)

theorem Candid.wake (h : Candid r) : Candid (Reactor.wake r).2 :=
  h.same (wake_still r).live (wake_conns r) ((wake_still r).journal.mono fun _ _ ↦ trivial)

theorem Candid.request (h : Candid r) (q : Request) : Candid (Reactor.request q r).2 := by
  have hs := request_stirs q r
  generalize (Reactor.request q r).2 = r' at hs ⊢
  induction hs with
  | refl => exact h
  | @tail r₁ r₂ _ hs ih =>
    cases hs with
    | called id c op hc => exact ih.called hc op
    | wake => exact ih.wake
    | cancel =>
      have hx : Candid { r₁ with cancelled := true } := ih
      exact hx.wake
    | clock => exact ih.same rfl rfl (.single trivial)
    | answered q a _ => exact ih.same rfl rfl (.single trivial)

theorem Candid.service (h : Candid r) {id : Nat} {c : Conn} {sends : Bool}
    (hc : r.conn? id = some c) (hs : Service r id c sends r') : Candid r' := by
  have hstill := hs.still hc
  obtain ⟨os, c', rfl, hserved⟩ := hs.spec hc
  intro id' hid c'' hc''
  rw [conn?_setConn (r := { r with os }) hc c'] at hc''
  split_ifs at hc'' with he
  · obtain rfl := Option.some.inj hc''
    rw [Conn.isConnected, hserved.socket]
    exact (h id' hid c (he ▸ hc)).imp_right (Journal.asked_adds hstill.journal)
  · exact (h id' hid c'' hc'').imp_right (Journal.asked_adds hstill.journal)

omit [Kernel κ] in
theorem Candid.relisten (h : Candid r) (hr : Relisten r r') : Candid r' := by
  obtain ⟨os, listener, rfl, hj⟩ := hr
  exact h.same rfl rfl (hj.mono fun _ _ ↦ trivial)

theorem Candid.enrolled (h : Candid r) {t : Token Stream} (ht : t.value.isConnected)
    (peer : Net.SocketAddr) (d : Draft) (now : Nat) :
    Candid (Reactor.enrolled t peer d now r) := by
  have hj : Adds (fun _ ↦ True) r.os.journal (Reactor.enrolled t peer d now r).os.journal :=
    ⟨[_, _], rfl, fun _ _ ↦ trivial⟩
  intro id hid c hc
  rw [conn?_enrolled] at hc
  split_ifs at hc with he
  · obtain rfl := Option.some.inj hc
    exact .inl ht
  · have hold : id ∈ r.live := by
      rcases List.mem_append.1 hid with hid | hid
      · exact hid
      · exact absurd (List.mem_singleton.1 hid) he
    exact (h id hold c hc).imp_right (Journal.asked_adds hj)

theorem Candid.part (h : Candid r) (id : Nat) : Candid (part id r) := by
  obtain ⟨os, pool, conns, he, -, hconn, hj⟩ := part_spec id r
  intro id' hid c hc
  rw [part_live, List.mem_filter] at hid
  rw [hconn, if_neg (of_decide_eq_true hid.2)] at hc
  refine (h id' hid.1 c hc).imp_right fun ha ↦ ?_
  rw [he]
  exact Journal.asked_adds hj ha

theorem Candid.deed {first : Task π ν} (h : Candid r) (hd : Deed first r r')
    (ht : ∀ t, first.token? = some t → t.value.isConnected) : Candid r' := by
  have hremark {r : Reactor κ π ν} (h : Candid r) (m : Mark ν) : Candid (remark m r).2 :=
    h.same rfl rfl (.single trivial)
  cases hd with
  | nothing => exact h
  | aside m hm => exact hremark h m
  | request q => exact h.request q
  | wake => exact h.wake
  | settled events =>
    have hs := settleWaker_still events r
    exact h.same hs.live (settleWaker_conns events r) (hs.journal.mono fun _ _ ↦ trivial)
  | clock => exact h.same rfl rfl (.single trivial)
  | repooled hr =>
    obtain ⟨os, pool, rfl, hj⟩ := hr
    exact h.same rfl rfl (hj.mono fun _ _ ↦ trivial)
  | enrolled t peer d now hfirst => exact h.enrolled (ht t (hfirst ▸ rfl)) peer d now
  | served _ hc hs => exact h.service hc hs
  | told _ hc hs cb => exact hremark (h.service hc hs) _
  | @ended id why _ => exact hremark (h.part id) _
  | relistened hr => exact h.relisten hr

theorem request_cancelled (q : Request) (h : r.cancelled) : (request q r).2.cancelled := by
  have hs := request_stirs q r
  generalize (request q r).2 = r' at hs ⊢
  induction hs with
  | refl => exact h
  | @tail r₁ r₂ _ hs ih =>
    cases hs with
    | called id c op hc =>
      rw [callConn_run hc, actAll_cancelled]
      exact ih
    | wake => exact ih
    | cancel => rfl
    | clock => exact ih
    | answered => exact ih

theorem Deed.cancelled {first : Task π ν} (hd : Deed first r r') (h : r.cancelled) :
    r'.cancelled := by
  cases hd with
  | nothing => exact h
  | aside => exact h
  | request q => exact request_cancelled q h
  | wake => exact h
  | settled events =>
    rw [settleWaker_run]
    split_ifs <;> exact h
  | clock => exact h
  | repooled hr =>
    obtain ⟨os, pool, rfl, -⟩ := hr
    exact h
  | enrolled => exact h
  | served _ hc hs =>
    obtain ⟨os, c', rfl, -⟩ := hs.spec hc
    exact h
  | told _ hc hs =>
    obtain ⟨os, c', rfl, -⟩ := hs.spec hc
    exact h
  | @ended id =>
    obtain ⟨os, pool, conns, he, -⟩ := part_spec id r
    show (part id r).cancelled
    rw [he]
    exact h
  | relistened hr =>
    obtain ⟨os, listener, rfl, -⟩ := hr
    exact h

theorem advance_hand (first : Task π ν) (hh : Holding r first.token?)
    (h : ∀ t, first.token? = some t → t.value.isConnected) :
    ∀ t, Next.token? (advance P first r).2 = some t → t.value.isConnected := by
  have hproper := advance_proper (P := P) first r
  cases first with
  | accept listener =>
    show ∀ t, Next.token? (welcome P listener r).2 = some t → t.value.isConnected
    obtain ⟨os, he, -⟩ | ⟨slot, free, os, client, peer, -, -, -, he⟩ :=
      welcome_spec (P := P) hh listener
    · rw [he]
      exact nofun
    · rw [he]
      rintro t ht
      cases ht
      rfl
  | meet t peer script =>
    cases script with
    | done out => rcases out with ⟨_ | _ | d, app⟩ <;> exact nofun
    | ask q next => exact h
    | say v next => exact h
  | _ =>
    rw [hproper.token?_eq_none rfl]
    exact nofun

end Reactor

namespace Moment

open Reactor

variable [Kernel κ] {P : Policy π ν} {m m' : Moment κ π ν}

/-- No live connection is shut down unasked, nor will one be admitted that is. -/
structure Frank (m : Moment κ π ν) : Prop where
  hand : ∀ t, m.phase.hand = some t → t.value.isConnected
  candid : Candid m.reactor

/-- The phase of a moment ends no connection before it is done. -/
structure Kept (m : Moment κ π ν) : Prop extends Frank m where
  seemly : Seemly m.reactor m.phase

theorem Step.frank {outside : Phase π ν → Prop} {n : Nat} (h : Step P outside m m')
    (ha : Agrees n m) (hk : Frank m) : Frank m' := by
  cases h with
  | kernel r phase k => exact ⟨hk.hand, hk.candid.same rfl rfl (.refl _)⟩
  | listener r phase text =>
    exact ⟨hk.hand, hk.candid.relisten (relisten_opening (Sockets.listenOn_opening text) r)⟩
  | request r phase q _ => exact ⟨hk.hand, hk.candid.request q⟩
  | setUp hr => exact ⟨hk.hand, hk.candid.relisten hr.relisten⟩
  | memory r app => exact ⟨hk.hand, hk.candid.same rfl rfl (.refl _)⟩
  | start r _ => exact ⟨nofun, hk.candid⟩
  | wake r w reported =>
    have hphase := turnTasks_phase w (Event.ofReport .posix w.list reported) r
    refine ⟨?_, hk.candid⟩
    rw [hphase.2]
    exact nofun
  | fail r w => exact ⟨nofun, hk.candid⟩
  | cleanup r =>
    refine ⟨?_, hk.candid⟩
    rw [Phase.hand_ofTasks (cleanupTasks_proper r)]
    exact nofun
  | task r first rest =>
    obtain ⟨app, hd⟩ := advance_deed (P := P) first r
    have hhand := (advance_proper (P := P) first r).phase ha.orderly
    refine ⟨?_, ?_⟩
    · rw [hhand.2]
      exact advance_hand first ha.sound.holding hk.hand
    · have happ : Candid { r with app } := hk.candid.same rfl rfl (.refl _)
      exact happ.deed hd hk.hand

theorem built_frank {b : Builder} {app : π} {os os' : Os κ (Mark ν)} {r : Reactor κ π ν}
    (h : b.build app os = (.ok r, os')) : Frank (⟨r, .idle⟩ : Moment κ π ν) := by
  obtain ⟨receiver, sender, -, -, rfl⟩ := build_eq h
  exact ⟨nofun, nofun⟩

theorem Occurs.frank {outside : Phase π ν → Prop} {b : Builder} (h : Occurs P outside b m) :
    Frank m :=
  h.step_induction (fun _ _ _ _ hb _ ↦ built_frank hb) fun _ _ ho hs hk ↦ hs.frank ho.agrees hk

omit [Kernel κ] in
theorem turnTasks_none (w : Wait) (events : List Event) (r : Reactor κ π ν) :
    ∀ t ∈ turnTasks w events r, t.isEnd = false := by
  unfold turnTasks
  split_ifs <;> cases r.listener <;> simp [Task.isEnd]

theorem Step.kept {n : Nat} (h : Step P Phase.IsSparing m m') (ha : Agrees n m) (hs : Settled m)
    (hacc : Accounted m.reactor) (hk : Kept m) : Kept m' := by
  refine { h.frank ha hk.toFrank with seemly := ?_ }
  cases h with
  | kernel r phase k => exact hk.seemly.same rfl rfl (.refl _)
  | listener r phase text =>
    exact hk.seemly.relisten (relisten_opening (Sockets.listenOn_opening text) r)
  | request r phase q hsparing =>
    cases phase with
    | busy first rest =>
      refine ⟨hk.seemly.1.mono (request_cancelled q), ?_⟩
      rintro id rfl
      cases hsparing
    | _ => trivial
  | setUp => trivial
  | memory => trivial
  | start => exact ⟨.nil, nofun⟩
  | wake r w reported => exact seemly_ofTasks (.of_none (turnTasks_none w _ r))
  | fail => trivial
  | cleanup r => exact seemly_ofTasks (.cleanup r.live)
  | task r first rest =>
    obtain ⟨app, hd⟩ := advance_deed (P := P) first r
    have hends := advance_ends (P := P) first hacc hk.candid fun id hid ↦
      hs.alive id (List.mem_append_left _ hid)
    exact hends.seemly (hk.seemly.1.mono hd.cancelled)

theorem Occurs.kept {b : Builder} (h : Occurs P Phase.IsSparing b m) (hf : Fresh m.journal) :
    Kept m := by
  refine h.step_induction (motive := fun m ↦ Fresh m.journal → Kept m)
    (fun _ _ _ _ hb _ _ ↦ ⟨built_frank hb, trivial⟩) (fun m m' ho hs hk hf ↦ ?_) hf
  have hf := hs.fresh hf
  exact hs.kept ho.agrees ho.settled (ho.accounted hf) (hk hf)

/-- If the system never gives out a descriptor that is in use, a graceful close loses no output:
when a connection hears that it is closed, all that was appended was sent, and nothing is queued.
The reactor is not cancelled or cleaned up, the connection was not shut down, and its peer did not
let the stream end. Other threads may make requests whenever no connection is about to be ended. -/
theorem Occurs.graceful_close {b : Builder} {id : Nat} {rest : List (Task π ν)}
    (h : Occurs P Phase.IsSparing b m) (hf : Fresh m.journal)
    (hphase : m.phase = .busy (.finalize id .closed) rest) (hrun : m.reactor.cancelled = false)
    (hrest : .closeListener ∉ rest) (hshut : asked id true m.journal = false)
    (hended : Journal.ended id m.journal = false) :
    ∃ c j, m.reactor.conn? id = some c ∧ c.output.toList = [] ∧
      (Moment.tasked P m).journal = .remark (.callback (.closed id)) :: j ∧
        taken id j = appended id j := by
  have hkept := h.kept hf
  have hset := h.settled
  have hagrees := h.agrees
  have hacc := h.accounted hf
  rcases m with ⟨r, phase⟩
  obtain rfl : phase = _ := hphase
  have hempty : r.queued id = [] := by
    have hdone := (hkept.seemly.2 id rfl).resolve_right
      (not_or.2 ⟨Bool.eq_false_iff.1 hrun, hrest⟩)
    refine hdone.resolve_right ?_
    rintro (ha | he)
    · cases ha.symm.trans hshut
    · cases he.symm.trans hended
  obtain ⟨c, -, -, hc, -⟩ := hagrees.sound.holding.live (hset.alive id List.mem_cons_self)
  obtain ⟨os, pool, conns, he, -, -, hj⟩ := part_spec id r
  have hmute := hj.mono fun _ he ↦ (Entry.chore_of_isSetup he).mute
  refine ⟨c, os.journal, hc, (queued_of_conn? hc).symm.trans hempty, ?_, ?_⟩
  · show .remark (.callback (.closed id)) :: (part id r).os.journal = _
    rw [he]
  · have hb := hacc.bytes id
    rw [hempty, List.append_nil] at hb
    rw [Journal.taken_mute hmute, Journal.appended_mute hmute]
    exact hb

end Moment

section Transfers

variable [Kernel κ] {P : Policy π ν}

omit [Kernel κ] in
theorem Ring.fill_ended {σ : Type} {src : Source σ} {r : Ring} {s s' : σ} (hr : r.isFull = false)
    (h : src.pull r.vacant s = (.ok ⟨[], Nat.zero_le _⟩, s')) : r.fill src s = (.ok 0, r, s') := by
  rw [fill_pulled hr h, if_pos rfl]

omit [Kernel κ] in
theorem Ring.flush_all {σ : Type} {snk : Sink σ} {r : Ring} {s s' : σ}
    {n : { n : Nat // n ≤ r.front.length }} (hr : r.isEmpty = false) (hn : n.1 ≠ 0)
    (h : snk.push r.front s = (.ok n, s')) (he : (r.consume n.1).isEmpty) :
    r.flush snk s = (.ok n.1, r.consume n.1, s') := by
  have hstop : flushFrom snk (r.consume n.1) (0 + n.1) s' = (.ok (0 + n.1), r.consume n.1, s') := by
    rw [flushFrom, if_pos he]
  rw [flush, flushFrom, if_neg (by simp [hr])]
  split
  · rename_i n' hle s₂ h'
    cases h.symm.trans h'
    rw [dif_neg hn, hstop, Nat.zero_add]
  · rename_i e s₂ h'
    cases h.symm.trans h'

namespace Conn

theorem receive_end {c : Conn} {fd : Fd} {o : Os κ (Mark ν)} (hfd : c.fd? = some fd)
    (hr : c.input.isFull = false)
    (h : (Os.call (.recv fd c.input.vacant) o).1 = .ok ⟨[], Nat.zero_le _⟩) :
    c.receive o = ((.ok .endOfStream, c), (Os.call (.recv fd c.input.vacant) o).2) := by
  unfold receive
  rw [hfd]
  dsimp only
  rw [if_neg (by simp [hr]), Ring.fill_ended hr (Ring.pull_answered h)]
  rfl

theorem transmit_all {c : Conn} {fd : Fd} {o : Os κ (Mark ν)}
    {n : { n : Nat // n ≤ c.output.front.length }} (hfd : c.fd? = some fd)
    (hr : c.output.isEmpty = false) (hn : n.1 ≠ 0)
    (h : (Os.call (.send fd c.output.front) o).1 = .ok n) (he : (c.output.consume n.1).isEmpty) :
    c.transmit o =
      let output := c.output.consume n.1
      let (now, o) := sys .clock (Os.call (.send fd c.output.front) o).2
      ((.ok n.1, { c with
        output
        outputHigh := c.outputHigh && decide (c.writeMarks.low ≤ output.len)
        lastActivity := now }), o) := by
  have hpush : (Sink.socket fd).push c.output.front o =
      (.ok n, (Os.call (.send fd c.output.front) o).2) := by
    simp only [Sink.socket, h, liftErrno]
  unfold transmit
  rw [hfd]
  dsimp only
  rw [if_neg (by simp [hr]), Ring.flush_all hr hn hpush he]
  dsimp only
  rw [if_neg hn]
  rfl

end Conn

namespace Reactor

variable {r : Reactor κ π ν}

theorem attend_output {w : Watched} {event : Event} {now : Nat} {c : Conn}
    (hc : r.conn? w.id = some c) (hclose : ¬ (c.closePending ∧ c.output.isEmpty))
    (hin : ¬ (event.readable ∧ w.interest.read)) (hout : event.writable ∧ w.interest.write) :
    attend P w event now r = attendOutput P w.id c r := by
  unfold attend
  rw [hc]
  dsimp only
  rw [if_neg hclose, if_neg hin, if_pos hout]

theorem attendInput_ended {id : Nat} {c c' : Conn} {os : Os κ (Mark ν)}
    (h : c.receive r.os = ((.ok .endOfStream, c'), os)) :
    attendInput P id c r = (({ r with os }).setConn id c', [.finalize id .closed]) := by
  unfold attendInput system
  rw [h]

theorem attendOutput_told {id n : Nat} {c c' : Conn} {os : Os κ (Mark ν)}
    (h : c.transmit r.os = ((.ok n, c'), os)) (hn : 0 < n) (hlow : c'.isWriteLow) :
    attendOutput P id c r =
      tell P (.dataSent id) [.hasten id, .check id] (({ r with os }).setConn id c') := by
  unfold attendOutput system
  rw [h]
  dsimp only
  rw [if_pos ⟨hn, hlow⟩]

end Reactor

end Transfers

namespace Visit

open Simulation Moment

def closing : Moment World Unit Unit :=
  ⟨(Reactor.request (.conn 1 (.close false)) wrote.reactor).2, wrote.phase⟩

theorem wrote_sparing : Phase.IsSparing wrote.phase := by
  obtain ⟨w, hw⟩ := kept_waits
  show Phase.IsSparing kept.phase
  rw [hw]
  trivial

theorem closing_occurs : Occurs policy Phase.IsSparing builder closing :=
  (wrote_occurs _ wrote_sparing).request wrote_sparing _

def finish (k : World) : World := { k with peers := k.peers.map ({ · with fin := true }) }

/-- The peer half-closes before the reactor watches for output. -/
def halved : Moment World Unit Unit := (tasked policy)^[2] (woken finish [0, 0, 1] closing)

theorem halved_occurs : Occurs policy Phase.IsSparing builder halved :=
  (closing_occurs.woken _ _).tasks 2

def halvedConn : Conn := (halved.reactor.conn? 1).get (by decide +kernel)

def unsent : Moment World Unit Unit :=
  let os := (Os.call (.recv 1003 halvedConn.input.vacant) halved.reactor.os).2
  ⟨({ halved.reactor with os }).setConn 1 halvedConn, .busy (.finalize 1 .closed) [.proceed]⟩

theorem recv_halved : (Os.call (.recv 1003 halvedConn.input.vacant) halved.reactor.os).1 =
    .ok ⟨[], Nat.zero_le _⟩ := by
  obtain ⟨_, h⟩ := ok_of_val
    (x := (Os.call (.recv 1003 halvedConn.input.vacant) halved.reactor.os).1) (a := [])
    (by decide +kernel)
  exact h

theorem unsent_occurs : Occurs policy Phase.IsSparing builder unsent := by
  obtain ⟨w, event, now, hphase, hw⟩ := serve_due halved
    (fun w event _ ↦ w.id == 1 && event.readable && w.interest.read) (by decide +kernel)
  simp only [Bool.and_eq_true, beq_iff_eq] at hw
  obtain ⟨⟨hid, hread⟩, hint⟩ := hw
  have hc : halved.reactor.conn? w.id = some halvedConn := by
    rw [hid, halvedConn, Option.some_get]
  have hs : Reactor.attend policy w event now halved.reactor =
      (unsent.reactor, [.finalize 1 .closed]) := by
    rw [Reactor.attend_input hc (by decide +kernel) ⟨hread, hint⟩, Reactor.attendInput_ended
      (Conn.receive_end (by decide +kernel) (by decide +kernel) recv_halved), hid]
    rfl
  exact halved_occurs.attended hphase hs

/-- Output is lost if the peer lets the stream end: the connection of the visit is ended as closed
with all of its output still queued. -/
theorem unsent_lost : Occurs policy Phase.IsSparing builder unsent ∧ Fresh unsent.journal ∧
    unsent.phase = .busy (.finalize 1 .closed) [.proceed] ∧ unsent.reactor.cancelled = false ∧
    asked 1 true unsent.journal = false ∧ asked 1 false unsent.journal ∧
    ∃ c, unsent.reactor.conn? 1 = some c ∧ c.output.toList = [7, 8] ∧
      taken 1 unsent.journal = [] ∧ appended 1 unsent.journal = [7, 8] := by
  obtain ⟨c, hc, hout⟩ : ∃ c, unsent.reactor.conn? 1 = some c ∧ c.output.toList = [7, 8] :=
    Reactor.conn?_of_queued (by decide +kernel)
  exact ⟨unsent_occurs, by decide +kernel, rfl, by decide +kernel, by decide +kernel,
    by decide +kernel, c, hc, hout, by decide +kernel, by decide +kernel⟩

def writable : Moment World Unit Unit :=
  (tasked policy)^[2] (woken id [0, 0, 4] ((tasked policy)^[5] (woken id [1, 0, 0] closing)))

theorem writable_occurs : Occurs policy Phase.IsSparing builder writable :=
  (((closing_occurs.woken _ _).tasks 5).woken _ _).tasks 2

def writableConn : Conn := (writable.reactor.conn? 1).get (by decide +kernel)

def flushed : Moment World Unit Unit :=
  let c := writableConn
  let output := c.output.consume 2
  let (lastActivity, os) := sys .clock (Os.call (.send 1003 c.output.front) writable.reactor.os).2
  let outputHigh := c.outputHigh && decide (c.writeMarks.low ≤ output.len)
  let r := ({ writable.reactor with os }).setConn 1 { c with output, outputHigh, lastActivity }
  let (r, ts) := Reactor.tell policy (.dataSent 1) [.hasten 1, .check 1] r
  ⟨r, .ofTasks (ts ++ [.proceed])⟩

theorem send_writable : (Os.call (.send 1003 writableConn.output.front) writable.reactor.os).1 =
    .ok ⟨2, by decide +kernel⟩ := by
  obtain ⟨_, h⟩ := ok_of_val
    (x := (Os.call (.send 1003 writableConn.output.front) writable.reactor.os).1) (a := 2)
    (by decide +kernel)
  exact h

theorem flushed_occurs : Occurs policy Phase.IsSparing builder flushed := by
  obtain ⟨w, event, now, hphase, hw⟩ := serve_due writable
    (fun w event _ ↦ w.id == 1 && !event.readable && event.writable && w.interest.write)
    (by decide +kernel)
  simp only [Bool.and_eq_true, beq_iff_eq, Bool.not_eq_true'] at hw
  obtain ⟨⟨⟨hid, hread⟩, hwrite⟩, hint⟩ := hw
  have hc : writable.reactor.conn? w.id = some writableConn := by
    rw [hid, writableConn, Option.some_get]
  refine writable_occurs.attended hphase ?_
  rw [Reactor.attend_output hc (by decide +kernel) (by simp [hread]) ⟨hwrite, hint⟩,
    Reactor.attendOutput_told (Conn.transmit_all (by decide +kernel) (by decide +kernel)
      (by decide) send_writable (by decide +kernel)) (by decide) (by decide +kernel), hid]
  rfl

def drained : Moment World Unit Unit :=
  (tasked policy)^[3] (woken id [1, 0, 0] ((tasked policy)^[4] flushed))

theorem finalize_due (m : Moment World Unit Unit) (id : Nat)
    (h : (match m.phase with
      | .busy (.finalize id' .closed) [.proceed] => decide (id' = id)
      | _ => false) = true) : m.phase = .busy (.finalize id .closed) [.proceed] := by
  split at h
  · rename_i hm
    exact of_decide_eq_true h ▸ hm
  · cases h

theorem drained_closed : Occurs policy Phase.IsSparing builder drained ∧ Fresh drained.journal ∧
    drained.phase = .busy (.finalize 1 .closed) [.proceed] ∧ drained.reactor.cancelled = false ∧
    asked 1 true drained.journal = false ∧ Journal.ended 1 drained.journal = false ∧
    ∃ c j, drained.reactor.conn? 1 = some c ∧ c.output.toList = [] ∧
      (tasked policy drained).journal = .remark (.callback (.closed 1)) :: j ∧
        taken 1 j = [7, 8] := by
  have hocc : Occurs policy Phase.IsSparing builder drained :=
    ((flushed_occurs.tasks 4).woken _ _).tasks 3
  have hphase : drained.phase = .busy (.finalize 1 .closed) [.proceed] :=
    finalize_due drained 1 (by decide +kernel)
  have hf : Fresh drained.journal := by decide +kernel
  have hrun : drained.reactor.cancelled = false := by decide +kernel
  have hshut : asked 1 true drained.journal = false := by decide +kernel
  have hended : Journal.ended 1 drained.journal = false := by decide +kernel
  obtain ⟨c, j, hc, hout, hj, ht⟩ :=
    hocc.graceful_close hf hphase hrun (by simp) hshut hended
  refine ⟨hocc, hf, hphase, hrun, hshut, hended, c, j, hc, hout, hj, ht.trans ?_⟩
  have happ : appended 1 (tasked policy drained).journal = [7, 8] := by decide +kernel
  rw [hj] at happ
  exact (List.append_nil _).symm.trans happ

end Visit

end PollReactor
