import PollReactor.Proofs.Pass

namespace PollReactor

open Journal (Adds Fresh fdOf story along)

variable {κ π ν : Type}

inductive Urge where
  | came (b : UInt8)
  | told
  deriving DecidableEq, Repr

def Urge.byte? : Urge → Option UInt8
  | came b => some b
  | told => none

def ConnOp.urgentTaken (c : Conn) : ConnOp → Bytes
  | readUrgent => (c.perform .readUrgent).1.toList
  | _ => []

def Request.urgentTaken (id : Nat) : (q : Request) → (a : q.Answer) → Bytes
  | .conn id' .readUrgent, a => if id' = id then a.join.toList else []
  | _, _ => []

namespace Entry

def urges (id : Nat) (fd? : Option Fd) : Entry (Mark ν) → List Urge
  | .sys (.recvUrgent fd) (.ok (some b)) => if fd? = some fd then [.came b] else []
  | .remark (.callback (.urgentReceived id')) => if id' = id then [.told] else []
  | _ => []

def urgentTaken (id : Nat) : Entry (Mark ν) → Bytes
  | .remark (.called id' c op) => if id' = id then op.urgentTaken c else []
  | _ => []

theorem urges_of_isImpersonal {e : Entry (Mark ν)} (h : e.isImpersonal) (id : Nat)
    (fd? : Option Fd) : e.urges id fd? = [] := by
  cases e with
  | sys c a => cases c <;> first | rfl | cases h
  | remark m => cases m <;> first | rfl | cases h

theorem urgentTaken_of_isImpersonal {e : Entry (Mark ν)} (h : e.isImpersonal) (id : Nat) :
    e.urgentTaken id = [] := by
  cases e with
  | sys => rfl
  | remark m => cases m <;> first | rfl | cases h

theorem urges_of_moves {e : Entry (Mark ν)} {way : Way} {fd : Fd} (h : e.moves? = some (way, fd))
    (id : Nat) (fd? : Option Fd) :
    e.urges id fd? = if fd? = some fd then ((e.urgent? fd).map .came).toList else [] := by
  cases e with
  | remark => cases h
  | sys c a =>
    cases c with
    | recvUrgent =>
      cases h
      rcases a with _ | _ | b <;> simp [urges, urgent?]
    | recv | send => exact (ite_self _).symm
    | _ => cases h

theorem urgent?_isSome {e : Entry (Mark ν)} {fd : Fd} (h : e.moves? = some (.urgent, fd)) :
    (e.urgent? fd).isSome = e.stirs fd := by
  cases e with
  | remark => cases h
  | sys c a =>
    cases c with
    | recvUrgent =>
      cases h
      rcases a with _ | _ | _ <;> simp [urgent?, stirs]
    | _ => cases h

theorem urgentTaken_of_moves {e : Entry (Mark ν)} {way : Way} {fd : Fd}
    (h : e.moves? = some (way, fd)) (id : Nat) : e.urgentTaken id = [] := by
  cases e with
  | remark => cases h
  | sys => rfl

theorem byte?_urges (e : Entry (Mark ν)) (id : Nat) (fd? : Option Fd) :
    (e.urges id fd?).filterMap Urge.byte? =
      (fd?.map fun fd ↦ (e.urgent? fd).toList).getD [] := by
  have hnone (h : ∀ fd, e.urgent? fd = none) :
      [] = (fd?.map fun fd ↦ (e.urgent? fd).toList).getD [] := by
    cases fd? <;> simp [h]
  cases e with
  | remark m =>
    refine Eq.trans ?_ (hnone fun _ ↦ rfl)
    cases m with
    | callback cb =>
      cases cb with
      | urgentReceived id' =>
        simp only [urges]
        split_ifs <;> rfl
      | _ => rfl
    | _ => rfl
  | sys c a =>
    cases c with
    | recvUrgent fd =>
      rcases a with _ | _ | b
      · exact hnone fun _ ↦ rfl
      · exact hnone fun _ ↦ rfl
      · cases fd? with
        | none => rfl
        | some fd' =>
          by_cases h : fd = fd'
          · simp [urges, urgent?, h, Urge.byte?]
          · simp [urges, urgent?, h, Ne.symm h]
    | _ => exact hnone fun _ ↦ rfl

end Entry

namespace Journal

/-- What happened with the urgent bytes of a connection, in order. -/
def urges (id : Nat) : Journal ν → List Urge
  | [] => []
  | e :: j => urges id j ++ e.urges id (fdOf id j)

/-- The urgent bytes that came in for a connection, in order. -/
def urgentReceived (id : Nat) : Journal ν → Bytes := along (fun fd e ↦ (e.urgent? fd).toList) id

/-- The urgent bytes that the application took of a connection, in order. -/
def urgentTaken (id : Nat) : Journal ν → Bytes := story (Entry.urgentTaken id)

variable {j j' : Journal ν}

theorem urges_silent (h : Adds (fun e ↦ ∀ id fd?, e.urges id fd? = []) j j') (id : Nat) :
    urges id j' = urges id j := by
  obtain ⟨new, rfl, hn⟩ := h
  induction new with
  | nil => rfl
  | cons e new ih =>
    rw [List.cons_append, urges, hn e List.mem_cons_self, List.append_nil]
    exact ih fun e he ↦ hn e (List.mem_cons_of_mem _ he)

theorem byte?_urges (id : Nat) (j : Journal ν) :
    (urges id j).filterMap Urge.byte? = urgentReceived id j := by
  induction j with
  | nil => rfl
  | cons e j ih =>
    rw [urges, List.filterMap_append, ih, e.byte?_urges]
    rfl

end Journal

namespace Conn

variable {fd : Fd} {way : Way} {c c' : Conn} {j j' new : Journal ν}

theorem Moved.urges (h : Moved fd way c new c') (id : Nat) (j : Journal ν) :
    Journal.urges id (new ++ j) = Journal.urges id j ++
      if fdOf id j = some fd then ((new.findSome? (·.urgent? fd)).map .came).toList else [] := by
  by_cases hw : way = .urgent
  · obtain ⟨e, rfl⟩ := List.length_eq_one_iff.1 (h.once hw)
    have he := h.entries e List.mem_cons_self
    rw [List.findSome?_singleton, ← e.urges_of_moves he id]
    rfl
  · have hnone {e : Entry (Mark ν)} (he : e ∈ new) : e.urgent? fd = none :=
      Entry.urgent?_of_moves (h.entries e he) (absurd · hw)
    have hadds : Adds (fun e ↦ ∀ id fd?, e.urges id fd? = []) j (new ++ j) := by
      refine ⟨new, rfl, fun e he id fd? ↦ ?_⟩
      rw [e.urges_of_moves (h.entries e he), hnone he]
      exact ite_self _
    rw [Journal.urges_silent hadds, List.findSome?_eq_none_iff.2 fun _ ↦ hnone]
    simp

theorem Outcome.urges {upshot : Upshot} (h : Outcome fd way c j upshot c' j') : ∃ b? : Option UInt8,
    c'.urgent = b?.or c.urgent ∧ (b?.isSome ↔ way = .urgent ∧ upshot = .moved) ∧
      ∀ id, Journal.urges id j' = Journal.urges id j ++
          (if fdOf id j = some fd then (b?.map .came).toList else []) ∧
        Journal.urgentTaken id j' = Journal.urgentTaken id j := by
  have htaken {new : Journal ν} {c' : Conn} (h : Moved fd way c new c') (id : Nat) :
      Journal.urgentTaken id (new ++ j) = Journal.urgentTaken id j :=
    Journal.story_silent ⟨new, rfl, fun e he ↦ Entry.urgentTaken_of_moves (h.entries e he) id⟩
  have hnone {new : Journal ν} {c' : Conn} (h : Moved fd way c new c')
      (hs : way = .urgent → ∀ e ∈ new, e.stirs fd = false) :
      new.findSome? (·.urgent? fd) = none := by
    refine List.findSome?_eq_none_iff.2 fun e he ↦ ?_
    by_cases hw : way = .urgent
    · subst hw
      rw [← Option.not_isSome_iff_eq_none, Entry.urgent?_isSome (h.entries e he), hs rfl e he]
      nofun
    · exact Entry.urgent?_of_moves (h.entries e he) (absurd · hw)
  cases h with
  | @moved new c' h hs now =>
    refine ⟨new.findSome? (·.urgent? fd), h.urgent, ?_, fun id ↦ ⟨?_, ?_⟩⟩
    · simp only [and_true]
      constructor
      · intro hb
        obtain ⟨e, he, hb⟩ := List.findSome?_isSome_iff.1 hb
        by_contra hw
        rw [Entry.urgent?_of_moves (h.entries e he) (absurd · hw)] at hb
        cases hb
      · rintro rfl
        obtain ⟨e, he, hs⟩ := hs
        rw [← Entry.urgent?_isSome (h.entries e he)] at hs
        exact List.findSome?_isSome_iff.2 ⟨e, he, hs⟩
    · rw [← h.urges id j]
      exact Journal.urges_silent (.single fun _ _ ↦ rfl) id
    · rw [← htaken h id]
      exact Journal.story_silent (.single rfl)
  | still h hs =>
    have hnone := hnone h fun _ ↦ hs
    refine ⟨none, ?_, by simp, fun id ↦ ⟨?_, htaken h id⟩⟩
    · rw [h.urgent, hnone]
    · rw [h.urges, hnone]
  | failed h hs =>
    have hnone := hnone h hs
    refine ⟨none, ?_, by simp, fun id ↦ ⟨?_, htaken h id⟩⟩
    · rw [h.urgent, hnone]
    · rw [h.urges, hnone]

theorem perform_urgent (c : Conn) (op : ConnOp) :
    op.urgentTaken c ++ (c.perform op).2.1.urgent.toList = c.urgent.toList := by
  by_cases h : op = .readUrgent
  · rw [h]
    exact List.append_nil _
  · have hnone : op.urgentTaken c = [] := by
      cases op <;> first | rfl | exact absurd rfl h
    obtain ⟨_, _, _, _, _, hc⟩ := c.differs_perform h
    rw [hnone, hc]
    rfl

end Conn

theorem Channel.Drafted.urgent {ch : Channel} (h : Drafted ch) : ch.urgent = none := by
  induction h with
  | @made config now ch h =>
    unfold make at h
    split at h
    · cases h
    · cases h
      rfl
  | @called ch op _ ih =>
    have h := (Conn.detached ch).perform_urgent op
    have hnone : (Conn.detached ch).urgent = none := ih
    rw [hnone] at h
    simpa using (List.append_eq_nil_iff.1 h).2

namespace Reactor

variable {r r' : Reactor κ π ν}

/-- The urgent byte of a connection that the application has not taken yet. -/
def urgent? (r : Reactor κ π ν) (id : Nat) : Option UInt8 := (r.conn? id).bind (·.urgent)

theorem urgent?_of_conn? {id : Nat} {c : Conn} (h : r.conn? id = some c) :
    r.urgent? id = c.urgent := by
  simp [urgent?, h]

theorem urgent?_set {id : Nat} {c : Conn}
    (hconn : ∀ id', r'.conn? id' = if id' = id then some c else r.conn? id') (id' : Nat) :
    r'.urgent? id' = if id' = id then c.urgent else r.urgent? id' := by
  rw [urgent?, hconn, urgent?]
  split_ifs <;> rfl

/-- The application was told of every urgent byte as it came in, and each was taken or is there. -/
def Delivered (r : Reactor κ π ν) : Prop :=
  ∀ id, Journal.urges id r.os.journal =
    (Journal.urgentTaken id r.os.journal ++ (r.urgent? id).toList).flatMap fun b ↦ [.came b, .told]

theorem Delivered.same (h : Delivered r) (hu : ∀ id, r'.urgent? id = r.urgent? id)
    (hj : ∀ id, Journal.urges id r'.os.journal = Journal.urges id r.os.journal ∧
      Journal.urgentTaken id r'.os.journal = Journal.urgentTaken id r.os.journal) :
    Delivered r' := by
  intro id
  rw [(hj id).1, (hj id).2, hu, h]

theorem Delivered.apart (h : Delivered r) (hu : ∀ id, r'.urgent? id = r.urgent? id)
    (hj : Adds (·.isImpersonal) r.os.journal r'.os.journal) : Delivered r' :=
  h.same hu fun id ↦
    ⟨Journal.urges_silent (hj.mono fun _ he ↦ Entry.urges_of_isImpersonal he) id,
      Journal.story_silent (hj.mono fun _ he ↦ Entry.urgentTaken_of_isImpersonal he id)⟩

/-- No urgent byte is there for connections for which there was none. -/
def Wanes (r r' : Reactor κ π ν) : Prop := ∀ id, r.urgent? id = none → r'.urgent? id = none

/-- What happens to urgent bytes while none comes in. -/
def Spends (r r' : Reactor κ π ν) : Prop := Wanes r r' ∧ (Delivered r → Delivered r')

theorem Spends.apart (hu : ∀ id, r'.urgent? id = r.urgent? id)
    (hj : Adds (·.isImpersonal) r.os.journal r'.os.journal) : Spends r r' :=
  ⟨fun id h ↦ (hu id).trans h, fun h ↦ h.apart hu hj⟩

theorem Spends.trans {r'' : Reactor κ π ν} (h : Spends r r') (h' : Spends r' r'') : Spends r r'' :=
  ⟨fun id hid ↦ h'.1 id (h.1 id hid), fun hd ↦ h'.2 (h.2 hd)⟩

theorem spends_called {id : Nat} {c : Conn} (hc : r.conn? id = some c) (op : ConnOp) :
    Spends r (remark (.called id c op) (r.setConn id (c.perform op).2.1)).2 := by
  have hset := urgent?_set (conn?_setConn hc (c.perform op).2.1)
  have hop := c.perform_urgent op
  refine ⟨fun id' hid ↦ ?_, fun h id' ↦ ?_⟩
  · show (r.setConn id (c.perform op).2.1).urgent? id' = none
    rw [hset]
    split_ifs with he
    · subst he
      rw [urgent?_of_conn? hc] at hid
      rw [hid] at hop
      simpa using (List.append_eq_nil_iff.1 hop).2
    · exact hid
  · have hj : Journal.urges id' (.remark (.called id c op) :: r.os.journal) =
        Journal.urges id' r.os.journal := Journal.urges_silent (.single fun _ _ ↦ rfl) id'
    have ht : Journal.urgentTaken id' (.remark (.called id c op) :: r.os.journal) =
        Journal.urgentTaken id' r.os.journal ++ if id = id' then op.urgentTaken c else [] :=
      Journal.story_cons _ _ _
    show Journal.urges id' (.remark (.called id c op) :: r.os.journal) =
      (Journal.urgentTaken id' (.remark (.called id c op) :: r.os.journal) ++
        ((r.setConn id (c.perform op).2.1).urgent? id').toList).flatMap _
    rw [hj, ht, hset, h id', List.append_assoc]
    by_cases he : id' = id
    · rw [if_pos he, if_pos he.symm, hop, he, urgent?_of_conn? hc]
    · rw [if_neg he, if_neg (Ne.symm he), List.nil_append]

variable [Kernel κ] {P : Policy π ν}

theorem spends_wake (r : Reactor κ π ν) : Spends r (wake r).2 :=
  .apart (fun id ↦ by rw [urgent?, conn?_congr (wake_conns r), urgent?])
    ((wake_still r).journal.mono fun _ he ↦ he.chore.impersonal)

theorem Stir.spends (h : Stir r r') : Spends r r' := by
  cases h with
  | called id c op hc =>
    rw [callConn_run hc]
    have hact := actAll_still (c.perform op).2.2
      (remark (.called id c op) (r.setConn id (c.perform op).2.1)).2
    refine (spends_called hc op).trans (.apart (fun id' ↦ ?_) ?_)
    · rw [urgent?, conn?_congr (actAll_conns _ _), urgent?]
    · exact hact.journal.mono fun _ he ↦ he.chore.impersonal
  | wake => exact spends_wake r
  | cancel =>
    have hc : Spends r { r with cancelled := true } := .apart (fun _ ↦ rfl) (.refl _)
    exact hc.trans (spends_wake _)
  | clock => exact .apart (fun _ ↦ rfl) (.single rfl)
  | answered q a _ => exact .apart (fun _ ↦ rfl) (.single rfl)

theorem request_spends (q : Request) (r : Reactor κ π ν) : Spends r (request q r).2 := by
  have hs := request_stirs q r
  generalize (request q r).2 = r' at hs ⊢
  induction hs with
  | refl => exact .apart (fun _ ↦ rfl) (.refl _)
  | tail _ hs ih => exact ih.trans hs.spends

theorem callConn_urgentTaken {id : Nat} {c : Conn} (hc : r.conn? id = some c) (op : ConnOp)
    (id' : Nat) : Journal.urgentTaken id' (callConn id op r).2.os.journal =
      Journal.urgentTaken id' r.os.journal ++ if id = id' then op.urgentTaken c else [] := by
  rw [callConn_run hc]
  have hact := actAll_still (c.perform op).2.2
    (remark (.called id c op) (r.setConn id (c.perform op).2.1)).2
  have he : Journal.urgentTaken id' _ = _ := Journal.story_silent
    (hact.journal.mono fun _ he ↦ Entry.urgentTaken_of_isImpersonal he.chore.impersonal id')
  exact he.trans (Journal.story_cons _ _ _)

theorem writeAll_urgentTaken (bs : Bytes) (ids : List Nat) (r : Reactor κ π ν) (id : Nat) :
    Journal.urgentTaken id (writeAll bs ids r).2.os.journal =
      Journal.urgentTaken id r.os.journal := by
  induction ids generalizing r with
  | nil => rfl
  | cons id' ids ih =>
    refine (ih (callConn id' (.write bs) r).2).trans ?_
    cases hc : r.conn? id' with
    | none => rw [callConn_of_none hc]
    | some c =>
      rw [callConn_urgentTaken hc]
      show _ ++ (if id' = id then [] else []) = _
      rw [ite_self, List.append_nil]

theorem callConn_takes (id' : Nat) (op : ConnOp) (r : Reactor κ π ν) (id : Nat) :
    Journal.urgentTaken id (callConn id' op r).2.os.journal =
      Journal.urgentTaken id r.os.journal ++
        Request.urgentTaken id (.conn id' op) (callConn id' op r).1 := by
  cases hc : r.conn? id' with
  | none =>
    have hnone : (callConn id' op r).1 = none := by
      unfold callConn
      rw [bind_run, get_run, hc]
      rfl
    rw [callConn_of_none hc, hnone]
    cases op <;> simp [Request.urgentTaken]
  | some c =>
    have hsome : (callConn id' op r).1 = some (c.perform op).1 := by
      simp only [callConn, bind_run, get_run, hc, modify_run, pure_run]
    rw [callConn_urgentTaken hc, hsome]
    cases op <;> simp [Request.urgentTaken, ConnOp.urgentTaken]

theorem wake_urgentTaken (r : Reactor κ π ν) (id : Nat) :
    Journal.urgentTaken id (wake r).2.os.journal = Journal.urgentTaken id r.os.journal :=
  Journal.story_silent
    ((wake_still r).journal.mono fun _ he ↦
      Entry.urgentTaken_of_isImpersonal he.chore.impersonal id)

theorem request_urgentTaken (q : Request) (r : Reactor κ π ν) (id : Nat) :
    Journal.urgentTaken id (request q r).2.os.journal =
      Journal.urgentTaken id r.os.journal ++ q.urgentTaken id (request q r).1 := by
  have hmark : Journal.urgentTaken id (request q r).2.os.journal =
      Journal.urgentTaken id (respond q r).2.os.journal := Journal.story_silent (.single rfl)
  rw [hmark]
  show _ = _ ++ q.urgentTaken id (respond q r).1
  cases q with
  | conn id' op => exact callConn_takes id' op r id
  | broadcast bs => exact (writeAll_urgentTaken bs r.live r id).trans (List.append_nil _).symm
  | wakeup => exact (wake_urgentTaken r id).trans (List.append_nil _).symm
  | cancel =>
    exact (wake_urgentTaken { r with cancelled := true } id).trans (List.append_nil _).symm
  | idleTime id' =>
    have hclock : Journal.urgentTaken id (respond (.idleTime id') r).2.os.journal =
        Journal.urgentTaken id r.os.journal := by
      cases hc : r.conn? id' with
      | none => simp only [respond, bind_run, get_run, hc, pure_run]
      | some c =>
        simp only [respond, bind_run, get_run, hc, pure_run]
        exact Journal.story_silent (.single rfl)
    rw [hclock]
    exact (List.append_nil _).symm
  | clock =>
    have hclock : Journal.urgentTaken id (system (sys .clock) r).2.os.journal = _ :=
      Journal.story_silent (.single rfl)
    exact hclock.trans (List.append_nil _).symm
  | count | isCancelled => exact (List.append_nil _).symm

theorem spends_enrolled (t : Token Stream) (peer : Net.SocketAddr) (d : Draft) (now : Nat)
    (r : Reactor κ π ν) : Spends r (enrolled t peer d now r) := by
  have hu (id : Nat) : (enrolled t peer d now r).urgent? id = r.urgent? id := by
    rw [urgent?_set (conn?_enrolled t peer d now r)]
    split_ifs with he
    · have hnone : r.conn? id = none := conn?_of_size_lt (by omega)
      rw [urgent?, hnone]
      exact d.drafted.urgent
    · rfl
  refine ⟨fun id h ↦ (hu id).trans h, fun h ↦ h.same hu fun id ↦ ?_⟩
  exact ⟨Journal.urges_silent ⟨[_, _], rfl, by simp [Entry.urges]⟩ id,
    Journal.story_silent ⟨[_, _], rfl, by simp [Entry.urgentTaken]⟩⟩

theorem spends_ended (id : Nat) (why : Teardown) (r : Reactor κ π ν) :
    Spends r (remark (.callback (why.callback id)) (part id r)).2 := by
  obtain ⟨os, pool, conns, he, -, hconn, hj⟩ := part_spec id r
  have hu (id' : Nat) : (part id r).urgent? id' = r.urgent? id' := by
    rw [urgent?, hconn, urgent?]
    split_ifs with hid
    · rw [hid]
      cases r.conn? id <;> rfl
    · rfl
  have hpart : Spends r (part id r) := by
    refine .apart hu ?_
    rw [he]
    exact hj.mono fun _ he ↦ (Entry.chore_of_isSetup he).impersonal
  refine hpart.trans ⟨fun _ h ↦ h, fun h ↦ h.same (fun _ ↦ rfl) fun id' ↦ ⟨?_, ?_⟩⟩
  · exact Journal.urges_silent (.single fun _ _ ↦ by cases why <;> rfl) id'
  · exact Journal.story_silent (.single rfl)

theorem Deed.spends {first : Task π ν} (h : Deed first r r')
    (hs : ∀ x event now, first ≠ .serve x event now) : Spends r r' := by
  cases h with
  | nothing => exact .apart (fun _ ↦ rfl) (.refl _)
  | aside m hm =>
    exact .apart (fun _ ↦ rfl) (.single (by cases m <;> first | rfl | cases hm))
  | request q => exact request_spends q r
  | wake => exact spends_wake r
  | settled events =>
    refine .apart (fun id ↦ ?_)
      ((settleWaker_still events r).journal.mono fun _ he ↦ he.chore.impersonal)
    rw [urgent?, conn?_congr (settleWaker_conns events r), urgent?]
  | clock => exact .apart (fun _ ↦ rfl) (.single rfl)
  | repooled h =>
    obtain ⟨os, pool, rfl, hj⟩ := h
    exact .apart (fun _ ↦ rfl) (hj.mono fun _ he ↦ he.impersonal)
  | enrolled t peer d now => exact spends_enrolled t peer d now r
  | served hfirst => exact absurd hfirst (hs _ _ _)
  | told hfirst => exact absurd hfirst (hs _ _ _)
  | @ended id why => exact spends_ended id why r
  | relistened h =>
    obtain ⟨os, listener, rfl, hj⟩ := h
    exact .apart (fun _ ↦ rfl) (hj.mono fun _ he ↦ he.chore.impersonal)

section

variable {id : Nat} {c : Conn} {fd : Fd} {way : Way} (hd : Delivered r)
  (hc : r.conn? id = some c)

omit [Kernel κ]
include hd hc

theorem Delivered.unurged {upshot : Conn.Upshot} {c' : Conn} {os : Os κ (Mark ν)}
    (h : c.Outcome fd way r.os.journal upshot c' os.journal)
    (hu : ¬ (way = .urgent ∧ upshot = .moved)) : Delivered (setConn { r with os } id c') := by
  obtain ⟨b?, hurgent, hb, hj⟩ := h.urges
  obtain rfl : b? = none := Option.not_isSome_iff_eq_none.1 (mt hb.1 hu)
  refine hd.same (fun id' ↦ ?_) fun id' ↦ ⟨?_, (hj id').2⟩
  · rw [urgent?_set (conn?_setConn (r := { r with os }) hc c'), hurgent, Option.none_or]
    split_ifs with he
    · rw [he, urgent?_of_conn? hc]
    · rfl
  · refine (hj id').1.trans ?_
    simp

variable (hown : ∀ id', fdOf id' r.os.journal = some fd ↔ id' = id)

include hown

theorem Delivered.urged {c' : Conn} {os : Os κ (Mark ν)}
    (h : c.Outcome fd .urgent r.os.journal .moved c' os.journal) (hvacant : c.urgent = none) :
    Delivered (remark (.callback (.urgentReceived id)) (setConn { r with os } id c')).2 := by
  obtain ⟨b?, hurgent, hb, hj⟩ := h.urges
  obtain ⟨b, rfl⟩ := Option.isSome_iff_exists.1 (hb.2 ⟨rfl, rfl⟩)
  intro id'
  show Journal.urges id' os.journal ++ (if id = id' then [.told] else []) =
    (Journal.urgentTaken id' (.remark (.callback (.urgentReceived id)) :: os.journal) ++
      ((setConn { r with os } id c').urgent? id').toList).flatMap _
  have ht : Journal.urgentTaken id' (.remark (.callback (.urgentReceived id)) :: os.journal) =
      Journal.urgentTaken id' os.journal := Journal.story_silent (.single rfl)
  have hid := hd id'
  rw [ht, (hj id').1, (hj id').2, urgent?_set (conn?_setConn (r := { r with os }) hc c'), hid]
  by_cases he : id' = id
  · rw [he, urgent?_of_conn? hc, hvacant, if_pos ((hown id).2 rfl), if_pos rfl, if_pos rfl,
      hurgent]
    simp
  · rw [if_neg (mt (hown id').1 he), if_neg (Ne.symm he), if_neg he, List.append_nil,
      List.append_nil]
    rfl

theorem Delivered.transferred {out : Reactor κ π ν × List (Task π ν)}
    (h : Transferred P r id c fd way out) (hvacant : way = .urgent → c.urgent = none) :
    Delivered out.1 ∧ ∀ id' ≠ id, out.1.urgent? id' = r.urgent? id' := by
  have hothers (os : Os κ (Mark ν)) (c' : Conn) :
      ∀ id' ≠ id, (setConn { r with os } id c').urgent? id' = r.urgent? id' :=
    fun id' hne ↦ (urgent?_set (conn?_setConn (r := { r with os }) hc c') id').trans (if_neg hne)
  cases h with
  | failed h => exact ⟨hd.unurged hc h nofun, hothers _ _⟩
  | ended _ h => exact ⟨hd.unurged hc h nofun, hothers _ _⟩
  | silent h hu =>
    refine ⟨hd.unurged hc h ?_, hothers _ _⟩
    rintro ⟨hw, rfl⟩
    rcases hu with hu | hu
    · cases hu
    · exact hu.2 hw
  | @told c' os h =>
    refine ⟨?_, hothers os c'⟩
    by_cases hw : way = .urgent
    · subst hw
      exact hd.urged hc hown h (hvacant rfl)
    · refine (hd.unurged hc h fun hu ↦ hw hu.1).same (fun _ ↦ rfl) fun id' ↦ ⟨?_, ?_⟩
      · refine Journal.urges_silent (.single fun _ _ ↦ ?_) id'
        cases way with
        | urgent => exact absurd rfl hw
        | _ => rfl
      · exact Journal.story_silent (.single rfl)

end

theorem Delivered.attended {x : Watched} {c : Conn} {fd : Fd} (hd : Delivered r)
    (hc : r.conn? x.id = some c) (hfd : c.fd? = some fd)
    (hown : ∀ id', fdOf id' r.os.journal = some fd ↔ id' = x.id)
    (hvacant : x.interest.urgent → c.urgent = none) (event : Event) (now : Nat) :
    Delivered (attend P x event now r).1 ∧
      ∀ id' ≠ x.id, (attend P x event now r).1.urgent? id' = r.urgent? id' := by
  have h := attend_attendance (P := P) hc hfd event now
  generalize attend P x event now r = out at h ⊢
  cases h with
  | leaves | idles | rests => exact ⟨hd, fun _ _ ↦ rfl⟩
  | transfers hl way hw h =>
    refine hd.transferred hc hown h ?_
    rintro rfl
    exact hvacant hw.2
  | hangs =>
    have hset := urgent?_set (conn?_setConn hc { c with hungUp := true })
    refine ⟨hd.apart (fun id' ↦ ?_) (.refl _), fun id' hne ↦ (hset id').trans (if_neg hne)⟩
    rw [hset]
    split_ifs with he
    · rw [he, urgent?_of_conn? hc]
    · rfl

end Reactor

namespace Moment

open Reactor

variable [Kernel κ] {P : Policy π ν} {outside : Phase π ν → Prop} {m m' : Moment κ π ν}

def Vacant (m : Moment κ π ν) : Prop :=
  ∀ x ∈ m.phase.watches, x.interest.urgent → m.reactor.urgent? x.id = none

omit [Kernel κ] in
theorem Vacant.wanes {r r' : Reactor κ π ν} {phase phase' : Phase π ν} (h : Vacant ⟨r, phase⟩)
    (hr : Wanes r r') (hp : phase'.watches ⊆ phase.watches) : Vacant ⟨r', phase'⟩ :=
  fun x hx hu ↦ hr x.id (h x (hp hx) hu)

omit [Kernel κ] in
theorem vacant_idle {r : Reactor κ π ν} : Vacant ⟨r, .idle⟩ := List.forall_mem_nil _

omit [Kernel κ] in
theorem vacant_prepare {r r' : Reactor κ π ν} (hr : Wanes r r') :
    Vacant ⟨r', .waiting r.prepare⟩ := by
  intro x hx hu
  obtain ⟨c, hc, hi⟩ := watched_prepare hx
  apply hr
  rw [urgent?_of_conn? hc]
  rw [hi] at hu
  simpa using (Bool.and_eq_true_iff.1 hu).1

theorem serve_delivered {n : Nat} {r : Reactor κ π ν} {x : Watched} {event : Event} {now : Nat}
    {rest : List (Task π ν)} (ha : Agrees n ⟨r, .busy (.serve x event now) rest⟩)
    (hs : Settled ⟨r, .busy (.serve x event now) rest⟩) (hl : Ledger r none) (hacc : Accounted r)
    (hd : Delivered r) (hv : Vacant ⟨r, .busy (.serve x event now) rest⟩) :
    Delivered (attend P x event now r).1 ∧
      Vacant ⟨(attend P x event now r).1, .ofTasks ((attend P x event now r).2 ++ rest)⟩ := by
  obtain ⟨c, -, fd, hc, -, -, -⟩ := ha.sound.holding.live (hs.alive x.id List.mem_cons_self)
  obtain ⟨fd, hfd⟩ := ha.sound.holding.fd?_of_live (hs.alive x.id List.mem_cons_self) hc
  have hvacant (hu : x.interest.urgent) : c.urgent = none := by
    rw [← urgent?_of_conn? hc]
    exact hv x List.mem_cons_self hu
  have hdel := hd.attended (P := P) hc hfd (hacc.fdOf_iff hl hc hfd) hvacant event now
  refine ⟨hdel.1, fun y hy hu ↦ ?_⟩
  have hnone : (attend P x event now r).2.flatMap Task.watches = [] := by
    refine List.flatMap_eq_nil_iff.2 fun t ht ↦ Task.watches_eq_nil ?_
    cases attend_sequel ht <;> rfl
  rw [Phase.watches_ofTasks, List.flatMap_append, hnone, List.nil_append] at hy
  obtain ⟨t, ht, hyt⟩ := List.mem_flatMap.1 hy
  have hne : y.id ≠ x.id := by
    intro he
    refine (List.nodup_cons.1 hs.ahead).1 ?_
    exact he ▸ List.mem_flatMap.2 ⟨t, ht, Task.watches_subjects hyt⟩
  refine (hdel.2 y.id hne).trans (hv y ?_ hu)
  exact List.mem_append_right _ hy

theorem Step.delivered {n : Nat} (h : Step P outside m m') (ha : Agrees n m) (hs : Settled m)
    (hf : Fresh m'.journal) (hacc : Accounted m.reactor) (hd : Delivered m.reactor)
    (hv : Vacant m) : Delivered m'.reactor ∧ Vacant m' := by
  have hl := ha.sound.ledger (h.fresh hf)
  have hapart {r r' : Reactor κ π ν} {phase phase' : Phase π ν} (hd : Delivered r)
      (hv : Vacant ⟨r, phase⟩) (hr : Spends r r') (hp : phase'.watches ⊆ phase.watches) :
      Delivered r' ∧ Vacant ⟨r', phase'⟩ :=
    ⟨hr.2 hd, hv.wanes hr.1 hp⟩
  have hself (r : Reactor κ π ν) : Spends r r := .apart (fun _ ↦ rfl) (.refl _)
  have hrelisten {r r' : Reactor κ π ν} (hr : Relisten r r') : Spends r r' := by
    obtain ⟨os, listener, rfl, hj⟩ := hr
    exact .apart (fun _ ↦ rfl) (hj.mono fun _ he ↦ he.chore.impersonal)
  cases h with
  | kernel r phase k =>
    exact hapart hd hv (.apart (fun _ ↦ rfl) (.refl _)) (List.Subset.refl _)
  | listener r phase text =>
    exact hapart hd hv (hrelisten (relisten_opening (Sockets.listenOn_opening text) r))
      (List.Subset.refl _)
  | request r phase q _ => exact hapart hd hv (request_spends q r) (List.Subset.refl _)
  | setUp hr => exact hapart hd hv (hrelisten hr.relisten) (List.Subset.refl _)
  | memory r app => exact hapart hd hv (.apart (fun _ ↦ rfl) (.refl _)) (List.Subset.refl _)
  | start r _ => exact hapart hd hv (hself r) (List.Subset.refl _)
  | wake r w reported =>
    refine hapart hd hv (hself r) ?_
    rw [Phase.watches_ofTasks, watches_turnTasks]
    exact List.Subset.refl _
  | fail r w => exact hapart hd hv (hself r) (List.nil_subset _)
  | cleanup r =>
    refine hapart hd hv (hself r) ?_
    rw [Phase.watches_ofTasks, cleanupTasks, List.flatMap_append,
      List.flatMap_eq_nil_iff.2 (by simp [Task.watches])]
    exact List.Subset.refl _
  | task r first rest =>
    have hwatches := advance_watches (P := P) first r rest
    by_cases hserves : ∃ x event now, first = .serve x event now
    · obtain ⟨x, event, now, rfl⟩ := hserves
      exact serve_delivered ha hs hl hacc hd hv
    · obtain ⟨app, hdeed⟩ := advance_deed (P := P) first r
      have hsp := hdeed.spends fun x event now he ↦ hserves ⟨x, event, now, he⟩
      have hwanes : Wanes r (advance P first r).1 := fun id hid ↦ hsp.1 id hid
      refine ⟨hsp.2 hd, ?_⟩
      -- The services ahead become fewer, or a wait is prepared, which asks for no urgent byte
      -- where there is one.
      rcases hwatches with hsub | hprep
      · exact hv.wanes hwanes hsub
      · rw [hprep]
        exact vacant_prepare hwanes

theorem Occurs.delivered {b : Builder} (h : Occurs P outside b m) (hf : Fresh m.journal) :
    Delivered m.reactor := by
  refine (h.step_induction (motive := fun m ↦ Fresh m.journal → Delivered m.reactor ∧ Vacant m) ?_
    (fun m m' ho hs hd hf ↦ ?_) hf).1
  · intro app os r os' hb hj _
    refine ⟨?_, vacant_idle⟩
    obtain ⟨hconns, hsetup⟩ := built_bare hb hj
    have hj' := hsetup.mono fun _ he ↦ (Entry.chore_of_isSetup he).impersonal
    intro id
    have hu := Journal.urges_silent (hj'.mono fun _ he ↦ Entry.urges_of_isImpersonal he) id
    have ht : Journal.urgentTaken id _ = _ :=
      Journal.story_silent (hj'.mono fun _ he ↦ Entry.urgentTaken_of_isImpersonal he id)
    rw [hu, ht, urgent?, conn?_of_empty hconns]
    rfl
  · have hf₀ := hs.fresh hf
    obtain ⟨hd, hv⟩ := hd hf₀
    exact hs.delivered ho.agrees ho.settled hf (ho.accounted hf₀) hd hv

/-- If the system never gives out a descriptor that is in use, urgent bytes are delivered once each:
those that came in for a connection are, in order, those that the application took and the one that
is there, and it was told of each as it came in. What it takes is what its requests answer. -/
theorem Occurs.urgent_once {b : Builder} (h : Occurs P outside b m) (hf : Fresh m.journal) :
    (∀ id c, m.reactor.conn? id = some c → fdOf id m.journal = c.fd? ∧
      Journal.urgentReceived id m.journal = Journal.urgentTaken id m.journal ++ c.urgent.toList ∧
      Journal.urges id m.journal =
        (Journal.urgentReceived id m.journal).flatMap fun b ↦ [.came b, .told]) ∧
    ∀ (q : Request) (r : Reactor κ π ν) (id : Nat),
      Journal.urgentTaken id (Reactor.request q r).2.os.journal =
        Journal.urgentTaken id r.os.journal ++ q.urgentTaken id (Reactor.request q r).1 := by
  have hbytes (bs : Bytes) : (bs.flatMap fun b ↦ [.came b, .told]).filterMap Urge.byte? = bs := by
    induction bs with
    | nil => rfl
    | cons b bs ih => exact congrArg (b :: ·) ih
  refine ⟨fun id c hc ↦ ?_, request_urgentTaken⟩
  have hd := h.delivered hf id
  rw [urgent?_of_conn? hc] at hd
  have hreceived : Journal.urgentReceived id m.journal =
      Journal.urgentTaken id m.journal ++ c.urgent.toList := by
    rw [← Journal.byte?_urges]
    exact (congrArg (·.filterMap Urge.byte?) hd).trans (hbytes _)
  refine ⟨?_, hreceived, ?_⟩
  · refine ((h.accounted hf).fd id).trans ?_
    rw [owned_conn, place?, hc, Option.bind_some, ← Conn.fd?_eq]
  · rw [hreceived]
    exact hd

end Moment

namespace Visit

open Simulation Moment

def urged (b : UInt8) (m : Moment World Unit Unit) : Moment World Unit Unit :=
  (tasked policy)^[3] (woken
    (fun k ↦ { k with peers := k.peers.map ({ · with urgent := some b }) }) [0, 0, 2] m)

def tookUrgent : Moment World Unit Unit :=
  ⟨(Reactor.request (.conn 1 .readUrgent) (urged 9 kept).reactor).2, (urged 9 kept).phase⟩

def urgedAgain : Moment World Unit Unit := urged 5 ((tasked policy)^[3] tookUrgent)

theorem urgedAgain_occurs : Occurs policy (fun _ ↦ True) builder urgedAgain :=
  (((((kept_occurs _).woken _ _).tasks 3).request trivial (.conn 1 .readUrgent)).tasks 3
    |>.woken _ _).tasks 3

theorem urgedAgain_once : Occurs policy (fun _ ↦ True) builder urgedAgain ∧
    Fresh urgedAgain.journal ∧ ∃ c, urgedAgain.reactor.conn? 1 = some c ∧ c.urgent = some 5 ∧
      Journal.urgentTaken 1 urgedAgain.journal = [9] ∧
      Journal.urgentReceived 1 urgedAgain.journal = [9, 5] ∧
      Journal.urges 1 urgedAgain.journal = [.came 9, .told, .came 5, .told] := by
  have hf : Fresh urgedAgain.journal := by decide +kernel
  have htaken : Journal.urgentTaken 1 urgedAgain.journal = [9] := by decide +kernel
  obtain ⟨c, hc, hu⟩ : ∃ c, urgedAgain.reactor.conn? 1 = some c ∧ c.urgent = some 5 :=
    Option.bind_eq_some_iff.1 (by decide +kernel)
  obtain ⟨-, hreceived, hurges⟩ := (urgedAgain_occurs.urgent_once hf).1 1 c hc
  rw [htaken, hu] at hreceived
  rw [hreceived] at hurges
  exact ⟨urgedAgain_occurs, hf, c, hc, hu, htaken, hreceived, hurges⟩

end Visit

end PollReactor
