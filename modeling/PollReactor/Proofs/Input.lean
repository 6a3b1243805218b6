import PollReactor.Proofs.Change
import PollReactor.Proofs.Consumption

namespace PollReactor

open Journal (Adds Fresh fdOf)

variable {κ π ν : Type}

namespace Entry

def received (fd : Fd) : Entry (Mark ν) → Bytes
  | .sys (.recv fd' _) (.ok bs) => if fd' = fd then bs.1 else []
  | _ => []

def consumed (id : Nat) : Entry (Mark ν) → Bytes
  | .remark (.called id' c op) => if id' = id then op.consumed c else []
  | _ => []

theorem received_of_isImpersonal {e : Entry (Mark ν)} (h : e.isImpersonal) (fd : Fd) :
    e.received fd = [] := by
  cases e with
  | sys c a => cases c <;> first | rfl | cases h
  | remark => rfl

theorem consumed_of_isImpersonal {e : Entry (Mark ν)} (h : e.isImpersonal) (id : Nat) :
    e.consumed id = [] := by
  cases e with
  | sys => rfl
  | remark m => cases m <;> first | rfl | cases h

theorem OfService.received_of_ne {fd fd' : Fd} {sends : Bool} {e : Entry (Mark ν)}
    (h : e.OfService (some fd) sends) (hne : fd ≠ fd') : e.received fd' = [] := by
  rcases h.input_or_output with h | h
  · cases h with
    | recv _ room a =>
      cases a with
      | ok bs => exact if_neg hne
      | error e => rfl
    | _ => rfl
  · cases h <;> rfl

theorem OfService.consumed_eq_nil {fd? : Option Fd} {sends : Bool} {e : Entry (Mark ν)}
    (h : e.OfService fd? sends) (id : Nat) : e.consumed id = [] := by
  rcases h.input_or_output with h | h <;> cases h <;> rfl

end Entry

namespace Journal

def story (f : Entry (Mark ν) → Bytes) (j : Journal ν) : Bytes := j.reverse.flatMap f

/-- What the entries tell of a descriptor while it is that of the connection. -/
def along (f : Fd → Entry (Mark ν) → Bytes) (id : Nat) : Journal ν → Bytes
  | [] => []
  | e :: j => along f id j ++ ((fdOf id j).map (f · e)).getD []

/-- The bytes that were received for a connection, in order. -/
def received (id : Nat) : Journal ν → Bytes := along Entry.received id

/-- The bytes that the application consumed of a connection, in order. -/
def consumed (id : Nat) : Journal ν → Bytes := story (Entry.consumed id)

variable {j j' : Journal ν}

@[simp]
theorem story_nil (f : Entry (Mark ν) → Bytes) : story f [] = [] := rfl

@[simp]
theorem story_append (f : Entry (Mark ν) → Bytes) (new j : Journal ν) :
    story f (new ++ j) = story f j ++ story f new := by
  simp [story]

@[simp]
theorem story_cons (f : Entry (Mark ν) → Bytes) (e : Entry (Mark ν)) (j : Journal ν) :
    story f (e :: j) = story f j ++ f e := by
  simp [story]

theorem story_eq_nil {f : Entry (Mark ν) → Bytes} (h : ∀ e ∈ j, f e = []) : story f j = [] := by
  simpa [story] using h

theorem story_silent {f : Entry (Mark ν) → Bytes} (h : Adds (f · = []) j j') :
    story f j' = story f j := by
  obtain ⟨new, rfl, hn⟩ := h
  simp [story_eq_nil hn]

theorem along_quiet {f : Fd → Entry (Mark ν) → Bytes} {new : Journal ν}
    (h : ∀ e ∈ new, e.isQuiet) (id : Nat) :
    along f id (new ++ j) =
      along f id j ++ ((fdOf id j).map fun fd ↦ story (f fd) new).getD [] := by
  induction new with
  | nil => cases fdOf id j <;> simp
  | cons e new ih =>
    have hn : ∀ e ∈ new, e.isQuiet := fun e he ↦ h e (List.mem_cons_of_mem _ he)
    rw [List.cons_append, along, ih hn, fdOf_quiet ⟨new, rfl, hn⟩]
    cases fdOf id j <;> simp

theorem along_silent {f : Fd → Entry (Mark ν) → Bytes} (h : Adds (fun e ↦ ∀ fd, f fd e = []) j j')
    (id : Nat) : along f id j' = along f id j := by
  obtain ⟨new, rfl, hn⟩ := h
  induction new with
  | nil => rfl
  | cons e new ih =>
    have he := hn e List.mem_cons_self
    have ih := ih fun e he ↦ hn e (List.mem_cons_of_mem _ he)
    rw [List.cons_append, along, ih]
    cases h : fdOf id (new ++ j) <;> simp [he]

end Journal

open Journal (story along story_eq_nil)

section Transfers

variable [Kernel κ]

namespace Ring

/-- What the queue `r` gained is what came in on the descriptor meanwhile. -/
def Filled (fd : Fd) (r : Ring) (j : Journal ν) (r' : Ring) (j' : Journal ν) : Prop :=
  ∃ new, j' = new ++ j ∧ (∀ e ∈ new, Entry.OfInput (some fd) e) ∧
    r'.toList = r.toList ++ story (Entry.received fd) new

omit [Kernel κ] in
theorem Filled.refl (fd : Fd) (r : Ring) (j : Journal ν) : Filled fd r j r j :=
  ⟨[], rfl, by simp, by simp⟩

omit [Kernel κ] in
theorem Filled.trans {fd : Fd} {r r' r'' : Ring} {j j' j'' : Journal ν} (h : Filled fd r j r' j')
    (h' : Filled fd r' j' r'' j'') : Filled fd r j r'' j'' := by
  obtain ⟨new, rfl, hn, hr⟩ := h
  obtain ⟨newer, rfl, hn', hr'⟩ := h'
  refine ⟨newer ++ new, by simp, ?_, by simp [hr', hr]⟩
  intro e he
  rcases List.mem_append.1 he with he | he
  · exact hn' e he
  · exact hn e he

def taking (r : Ring) {room : Nat} : Except IoError { bs : Bytes // bs.length ≤ room } → Ring
  | .ok bs => (r.write bs).2
  | .error _ => r

theorem pull_entry {fd : Fd} {room : Nat} {o o' : Os κ (Mark ν)}
    {answer : Except IoError { bs : Bytes // bs.length ≤ room }}
    (h : (Source.socket fd).pull room o = (answer, o')) :
    ∃ a : (SysCall.recv fd room).Answer, answer = liftErrno a ∧
      o'.journal = .sys (.recv fd room) a :: o.journal := by
  cases h
  exact ⟨_, rfl, rfl⟩

theorem pull_answered {fd : Fd} {room : Nat} {o : Os κ (Mark ν)}
    {bs : { bs : Bytes // bs.length ≤ room }} (h : (Os.call (.recv fd room) o).1 = .ok bs) :
    (Source.socket fd).pull room o = (.ok bs, (Os.call (.recv fd room) o).2) := by
  simp only [Source.socket, h, liftErrno]

theorem filled_pull {fd : Fd} {r : Ring} {o o' : Os κ (Mark ν)}
    {answer : Except IoError { bs : Bytes // bs.length ≤ r.vacant }}
    (h : (Source.socket fd).pull r.vacant o = (answer, o')) :
    Filled fd r o.journal (r.taking answer) o'.journal := by
  obtain ⟨a, rfl, hj⟩ := pull_entry h
  refine ⟨[_], hj, by simpa using .recv fd r.vacant a, ?_⟩
  cases a with
  | ok bs =>
    have hall : (r.write bs).1 = bs.1.length := by
      rw [write_fst, Nat.min_eq_left (Nat.le_trans bs.2 r.vacant_le_free)]
    show (r.write bs).2.toList = _
    simp [toList_write, hall, Entry.received]
  | error e => simp [Entry.received, taking, liftErrno]

theorem fillFrom_filled (fd : Fd) (r : Ring) (moved : Nat) (o : Os κ (Mark ν)) :
    Filled fd r o.journal (fillFrom (Source.socket fd) r moved o).2.1
      (fillFrom (Source.socket fd) r moved o).2.2.journal := by
  fun_induction fillFrom (Source.socket fd) r moved o with
  | case1 => exact .refl fd _ _
  | case2 r moved o h hb o' hp =>
    obtain ⟨new, hj, hn, hs⟩ := filled_pull hp
    refine ⟨new, hj, hn, ?_⟩
    rw [← hs]
    show r.toList = (r.write []).2.toList
    simp [toList_write]
  | case3 r moved o h bs hb o' hp _ _ ih => exact (filled_pull hp).trans ih
  | case4 r moved o h e o' hp _ _ ih => exact (filled_pull hp).trans ih
  | case5 r moved o h e o' hp => exact filled_pull hp
  | case6 r moved o h e o' hp => exact filled_pull hp

omit [Kernel κ] in
theorem fill_pulled {σ : Type} {src : Source σ} {r : Ring} {s s' : σ}
    {bs : { bs : Bytes // bs.length ≤ r.vacant }} (hr : r.isFull = false)
    (h : src.pull r.vacant s = (.ok bs, s')) : r.fill src s =
      if bs.1 = [] then (.ok 0, r, s') else fillFrom src (r.write bs.1).2 bs.1.length s' := by
  rw [fill, fillFrom, if_neg (by simp [hr])]
  split
  · rename_i bs' hle s₂ h'
    cases h.symm.trans h'
    split_ifs
    · rfl
    · rw [Nat.zero_add]
  · rename_i e s₂ h'
    cases h.symm.trans h'

omit [Kernel κ] in
theorem fill_full {σ : Type} {src : Source σ} {r : Ring} {s s' : σ}
    {bs : { bs : Bytes // bs.length ≤ r.vacant }} (hr : r.isFull = false) (hb : bs.1 ≠ [])
    (h : src.pull r.vacant s = (.ok bs, s')) (hf : (r.write bs.1).2.isFull) :
    r.fill src s = (.ok bs.1.length, (r.write bs.1).2, s') := by
  rw [fill_pulled hr h, if_neg hb, fillFrom, if_pos hf]

end Ring

namespace Conn

theorem receive_filled (c : Conn) (fd : Fd) (hfd : c.fd? = some fd) (o : Os κ (Mark ν)) :
    Ring.Filled fd c.input o.journal (c.receive o).1.2.input (c.receive o).2.journal := by
  have hr := c.receive_receives o
  have hfilled := c.input.fillFrom_filled fd 0 o
  generalize c.receive o = out at hr ⊢
  cases hr with
  | unconnected | full => exact .refl fd _ _
  | ended hfd' _ h | blocked hfd' _ h | failed hfd' _ h =>
    cases hfd.symm.trans hfd'
    rw [h] at hfilled
    exact hfilled
  | moved hfd' _ h =>
    cases hfd.symm.trans hfd'
    rw [h] at hfilled
    obtain ⟨new, hj, hn, hs⟩ := hfilled
    refine ⟨.sys .clock _ :: new, congrArg _ hj, ?_, ?_⟩
    · simpa using ⟨.clock _ _, hn⟩
    · show _ = _
      simpa [Entry.received] using hs

theorem receive_full {c : Conn} {fd : Fd} {o : Os κ (Mark ν)}
    {bs : { bs : Bytes // bs.length ≤ c.input.vacant }} (hfd : c.fd? = some fd)
    (hr : c.input.isFull = false) (hb : bs.1 ≠ [])
    (h : (Os.call (.recv fd c.input.vacant) o).1 = .ok bs) (hf : (c.input.write bs.1).2.isFull) :
    c.receive o =
      let (now, o) := sys .clock (Os.call (.recv fd c.input.vacant) o).2
      ((.ok (.bytes bs.1.length), { c with input := (c.input.write bs.1).2, lastActivity := now }),
        o) := by
  have hn : bs.1.length ≠ 0 := by simpa using hb
  unfold receive
  rw [hfd]
  dsimp only
  rw [if_neg (by simp [hr]), Ring.fill_full hr hb (Ring.pull_answered h) hf]
  generalize bs.1.length = n at hn
  cases n with
  | zero => exact absurd rfl hn
  | succ n => rfl

theorem receiveUrgent_silent (c : Conn) (o : Os κ (Mark ν)) :
    Adds (fun e ↦ ∀ fd, e.received fd = []) o.journal (c.receiveUrgent o).2.journal := by
  unfold receiveUrgent
  cases c.fd? with
  | none => exact .refl _
  | some fd =>
    have h : Adds (fun e ↦ ∀ fd, e.received fd = []) o.journal
      (sys (.recvUrgent fd) o).2.journal := .single fun _ ↦ rfl
    dsimp only
    rw [bind_run]
    generalize sys (.recvUrgent fd) o = out at h ⊢
    rcases out with ⟨e | _ | b, o'⟩
    · dsimp only
      split_ifs <;> exact h
    · exact h
    · exact h.cons fun _ ↦ rfl

end Conn

theorem Reactor.Service.filled {r r' : Reactor κ π ν} {id : Nat} {c : Conn} {fd : Fd} {sends : Bool}
    (h : Service r id c sends r') (hc : r.conn? id = some c) (hfd : c.fd? = some fd) :
    ∃ c' new, (∀ id', r'.conn? id' = if id' = id then some c' else r.conn? id') ∧
      r'.os.journal = new ++ r.os.journal ∧
        c'.input.toList = c.input.toList ++ story (Entry.received fd) new := by
  have hset (os : Os κ (Mark ν)) (c' : Conn) := conn?_setConn (r := { r with os }) hc c'
  cases h with
  | nothing =>
    refine ⟨c, [], fun id' ↦ ?_, rfl, by simp⟩
    split_ifs with h
    · rw [h, hc]
    · rfl
  | input =>
    obtain ⟨new, hj, -, hs⟩ := c.receive_filled fd hfd r.os
    exact ⟨_, new, hset _ _, hj, hs⟩
  | output =>
    obtain ⟨⟨output, high, now, hc'⟩, ⟨new, hj, hn⟩, -⟩ := c.transmit_spec r.os
    rw [hfd] at hn
    refine ⟨_, new, hset _ _, hj, ?_⟩
    have hnone : ∀ e ∈ new, e.received fd = [] := by
      intro e he
      cases hn e he <;> rfl
    show (c.transmit r.os).1.2.input.toList = _
    simp [hc', story_eq_nil hnone]
  | urgent =>
    obtain ⟨⟨urgent, now, hc'⟩, -⟩ := c.receiveUrgent_spec r.os
    obtain ⟨new, hj, hn⟩ := c.receiveUrgent_silent r.os
    refine ⟨_, new, hset _ _, hj, ?_⟩
    have hnone : ∀ e ∈ new, e.received fd = [] := fun e he ↦ hn e he fd
    show (c.receiveUrgent r.os).1.2.input.toList = _
    simp [hc', story_eq_nil hnone]
  | hangup => exact ⟨{ c with hungUp := true }, [], hset _ _, rfl, by simp⟩

namespace Reactor

variable {P : Policy π ν} {r : Reactor κ π ν}

theorem attend_input {w : Watched} {event : Event} {now : Nat} {c : Conn}
    (hc : r.conn? w.id = some c) (hout : ¬ (c.closePending ∧ c.output.isEmpty))
    (hin : event.readable ∧ w.interest.read) :
    attend P w event now r = attendInput P w.id c r := by
  unfold attend
  rw [hc]
  dsimp only
  rw [if_neg hout, if_pos hin]

theorem attendInput_told {id n : Nat} {c c' : Conn} {os : Os κ (Mark ν)}
    (h : c.receive r.os = ((.ok (.bytes n), c'), os)) (hn : 0 < n) (hlow : c'.isReadLow = false) :
    attendInput P id c r =
      tell P (.dataReceived id) [.check id] (({ r with os }).setConn id c') := by
  unfold attendInput system
  rw [h]
  dsimp only
  rw [if_pos ⟨hn, by simp [hlow]⟩]

end Reactor

end Transfers

namespace Reactor

variable {r r' : Reactor κ π ν}

def buffered (r : Reactor κ π ν) (id : Nat) : Bytes :=
  ((r.conn? id).map (·.input.toList)).getD []

theorem buffered_of_conn? {id : Nat} {c : Conn} (h : r.conn? id = some c) :
    r.buffered id = c.input.toList := by
  simp [buffered, h]

theorem conn?_of_buffered {id : Nat} {b : UInt8} {bs : Bytes} (h : r.buffered id = b :: bs) :
    ∃ c, r.conn? id = some c ∧ c.input.toList = b :: bs := by
  unfold buffered at h
  cases hc : r.conn? id with
  | none => simp [hc] at h
  | some c => exact ⟨c, rfl, by simpa [hc] using h⟩

theorem buffered_set {id : Nat} {c : Conn}
    (hconn : ∀ id', r'.conn? id' = if id' = id then some c else r.conn? id') (id' : Nat) :
    r'.buffered id' = if id' = id then c.input.toList else r.buffered id' := by
  rw [buffered, hconn, buffered]
  split_ifs <;> rfl

/-- What was received for a connection is what was consumed of it and what is still there. -/
def Credited (r : Reactor κ π ν) : Prop :=
  ∀ id, Journal.received id r.os.journal = Journal.consumed id r.os.journal ++ r.buffered id

def IsStill (e : Entry (Mark ν)) : Prop :=
  (∀ fd, e.received fd = []) ∧ ∀ id, e.consumed id = []

theorem Credited.still (h : Credited r) (hb : ∀ id, r'.buffered id = r.buffered id)
    (hj : Adds IsStill r.os.journal r'.os.journal) : Credited r' := by
  intro id
  have hin : Journal.received id r'.os.journal = Journal.received id r.os.journal :=
    Journal.along_silent (hj.mono fun _ he ↦ he.1) id
  have hout : Journal.consumed id r'.os.journal = Journal.consumed id r.os.journal :=
    Journal.story_silent (hj.mono fun _ he ↦ he.2 id)
  rw [hin, hout, hb, h]

theorem Credited.called (h : Credited r) {id : Nat} {c : Conn} (hc : r.conn? id = some c)
    (op : ConnOp) :
    Credited (remark (.called id c op) (r.setConn id (c.perform op).2.1)).2 := by
  intro id'
  have hin : Journal.received id' (.remark (.called id c op) :: r.os.journal) =
      Journal.received id' r.os.journal := Journal.along_silent (.single fun _ ↦ rfl) id'
  have hout : Journal.consumed id' (.remark (.called id c op) :: r.os.journal) =
      Journal.consumed id' r.os.journal ++ if id = id' then op.consumed c else [] :=
    Journal.story_cons _ _ _
  have hb := buffered_set (conn?_setConn hc (c.perform op).2.1) id'
  refine hin.trans ((h id').trans (Eq.symm ?_))
  show Journal.consumed id' (.remark (.called id c op) :: r.os.journal) ++
    (r.setConn id (c.perform op).2.1).buffered id' = _
  rw [hout, hb]
  by_cases he : id' = id
  · rw [if_pos he.symm, if_pos he, List.append_assoc, c.perform_takes, he, buffered_of_conn? hc]
  · rw [if_neg (Ne.symm he), if_neg he, List.append_nil]

variable [Kernel κ]

theorem Credited.enrolled (h : Credited r) (t : Token Stream) (peer : Net.SocketAddr) (d : Draft)
    (now : Nat) : Credited (Reactor.enrolled t peer d now r) := by
  refine h.still ?_ ⟨[_, _], rfl, ?_⟩
  · intro id
    rw [buffered_set (conn?_enrolled t peer d now r)]
    split_ifs with he
    · have hnone : r.conn? id = none := conn?_of_size_lt (by omega)
      rw [buffered, hnone]
      exact d.drafted.input
    · rfl
  · simp [IsStill, Entry.received, Entry.consumed]

theorem Credited.served (h : Credited r) {id : Nat} {c : Conn} {fd : Fd} {sends : Bool}
    (hc : r.conn? id = some c) (hfd : c.fd? = some fd)
    (hown : ∀ id', fdOf id' r.os.journal = some fd ↔ id' = id) (hs : Service r id c sends r') :
    Credited r' := by
  obtain ⟨c', new, hconn, hj, hfilled⟩ := hs.filled hc hfd
  have hclass : ∀ e ∈ new, Entry.OfService (some fd) sends e := by
    rw [← hfd]
    exact (hs.still hc).journal.of_append hj
  have hout (id' : Nat) : ∀ e ∈ new, e.consumed id' = [] :=
    fun e he ↦ (hclass e he).consumed_eq_nil id'
  intro id'
  rw [Journal.received, Journal.consumed, hj,
    Journal.along_quiet (fun e he ↦ (hclass e he).quiet), Journal.story_append,
    story_eq_nil (hout id'), List.append_nil, buffered_set hconn]
  have h := h id'
  rw [Journal.received, Journal.consumed] at h
  by_cases he : id' = id
  · rw [(hown id').2 he, if_pos he, hfilled, h, he, buffered_of_conn? hc]
    simp
  · have hnone : ((fdOf id' r.os.journal).map fun fd' ↦ story (Entry.received fd') new).getD [] =
        [] := by
      cases hfd' : fdOf id' r.os.journal with
      | none => rfl
      | some fd' =>
        have hne : fd ≠ fd' := fun hf ↦ he ((hown id').1 (hf ▸ hfd'))
        exact story_eq_nil fun e hmem ↦ (hclass e hmem).received_of_ne hne
    rw [if_neg he, h, hnone, List.append_nil]

theorem Credited.parted (h : Credited r) (id : Nat) : Credited (part id r) := by
  obtain ⟨os, pool, conns, he, -, hconn, hj⟩ := part_spec id r
  refine h.still ?_ ?_
  · intro id'
    rw [buffered, hconn, buffered]
    split_ifs with hid
    · rw [hid]
      cases r.conn? id <;> rfl
    · rfl
  · rw [he]
    refine hj.mono fun e he ↦ ?_
    have he := (Entry.chore_of_isSetup he).impersonal
    exact ⟨Entry.received_of_isImpersonal he, Entry.consumed_of_isImpersonal he⟩

theorem Change.credited (h : Change r r') (hc : Credited r) : Credited r' := by
  cases h with
  | apart hconns hj =>
    refine hc.still (fun id ↦ ?_) (hj.mono fun e he ↦ ?_)
    · rw [buffered, buffered, conn?_congr hconns]
    · exact ⟨Entry.received_of_isImpersonal he, Entry.consumed_of_isImpersonal he⟩
  | called id c op hconn => exact hc.called hconn op
  | enrolled t peer d now => exact hc.enrolled t peer d now
  | served hconn hfd hown hs => exact hc.served hconn hfd hown hs
  | parted id => exact hc.parted id
  | told cb => exact hc.still (fun _ ↦ rfl) (.single ⟨fun _ ↦ rfl, fun _ ↦ rfl⟩)

end Reactor

namespace Moment

open Reactor

variable [Kernel κ] {P : Policy π ν} {outside : Phase π ν → Prop} {m : Moment κ π ν}

theorem Occurs.credited {b : Builder} (h : Occurs P outside b m) (hf : Fresh m.journal) :
    Credited m.reactor := by
  refine h.changing hf (fun r hconns hj ↦ ?_) fun _ _ hc hcred ↦ hc.credited hcred
  intro id
  have hin : Journal.received id r.os.journal = [] :=
    Journal.along_silent (hj.mono fun _ he ↦ Entry.received_of_isImpersonal he) id
  have hout : Journal.consumed id r.os.journal = [] :=
    Journal.story_silent (hj.mono fun _ he ↦ Entry.consumed_of_isImpersonal he id)
  simp [hin, hout, buffered, conn?_of_empty hconns]

/-- If the system never gives out a descriptor that is in use, the input of a connection is a
stream: what was received for it is, in order, what the application consumed of it and what is
buffered. A call consumes from the front of what is buffered what its answer is read off from. -/
theorem Occurs.input_stream {b : Builder} (h : Occurs P outside b m) (hf : Fresh m.journal) :
    (∀ id c, m.reactor.conn? id = some c → fdOf id m.journal = c.fd? ∧
      Journal.received id m.journal = Journal.consumed id m.journal ++ c.input.toList) ∧
    ∀ (c : Conn) (op : ConnOp), op.ReadsOff (c.perform op).1 (op.consumed c) ∧
      op.consumed c ++ (c.perform op).2.1.input.toList = c.input.toList := by
  refine ⟨fun id c hc ↦ ⟨?_, ?_⟩, fun c op ↦ ⟨c.perform_readsOff op, c.perform_takes op⟩⟩
  · refine ((h.accounted hf).fd id).trans ?_
    rw [owned_conn, place?, hc, Option.bind_some, ← Conn.fd?_eq]
  · rw [← buffered_of_conn? hc]
    exact h.credited hf id

end Moment

namespace Visit

open Simulation Moment

def offered : Moment World Unit Unit :=
  tasked policy (tasked policy (woken
    (fun k ↦ { k with peers := k.peers.map ({ · with segments := [[104, 105, 10, 7]] }) })
    [0, 0, 1] kept))

theorem offered_occurs : Occurs policy (fun _ ↦ True) builder offered :=
  ((kept_occurs _).woken _ _).tasked.tasked

def conn : Conn := (offered.reactor.conn? 1).get (by decide +kernel)

def served : Reactor World Unit Unit :=
  let (now, os) := sys .clock (Os.call (.recv 1003 conn.input.vacant) offered.reactor.os).2
  let c := { conn with input := (conn.input.write [104, 105, 10, 7]).2, lastActivity := now }
  (Reactor.remark (.callback (.dataReceived 1)) (({ offered.reactor with os }).setConn 1 c)).2

theorem recv_offered : (Os.call (.recv 1003 conn.input.vacant) offered.reactor.os).1 =
    .ok ⟨[104, 105, 10, 7], by decide +kernel⟩ := by
  obtain ⟨_, h⟩ := ok_of_val (x := (Os.call (.recv 1003 conn.input.vacant) offered.reactor.os).1)
    (a := [104, 105, 10, 7]) (by decide +kernel)
  exact h

theorem offered_served : tasked policy offered =
    ⟨served, .busy (.hear (policy.heard (.dataReceived 1) ())) [.check 1, .proceed]⟩ := by
  obtain ⟨w, event, now, hphase, hw⟩ := serve_due offered
    (fun w event _ ↦ w.id == 1 && event.readable && w.interest.read) (by decide +kernel)
  simp only [Bool.and_eq_true, beq_iff_eq] at hw
  obtain ⟨⟨hid, hread⟩, hint⟩ := hw
  have hc : offered.reactor.conn? w.id = some conn := by
    rw [hid, conn, Option.some_get]
  have hs : Reactor.attend policy w event now offered.reactor =
      (served, [.hear (policy.heard (.dataReceived 1) ()), .check 1]) := by
    rw [Reactor.attend_input hc (by decide +kernel) ⟨hread, hint⟩,
      Reactor.attendInput_told (Conn.receive_full (by decide +kernel) (by decide +kernel)
        (by decide) recv_offered (by decide +kernel)) (by decide) (by decide +kernel), hid]
    rfl
  unfold tasked
  rw [hphase]
  simp only [Reactor.advance, hs]
  rfl

theorem served_occurs : ∃ phase, Occurs policy (fun _ ↦ True) builder ⟨served, phase⟩ :=
  ⟨_, offered_served ▸ offered_occurs.tasked⟩

def read : Reactor World Unit Unit := (Reactor.request (.conn 1 (.readLine 3)) served).2

theorem read_stream : ∃ phase, Occurs policy (fun _ ↦ True) builder ⟨read, phase⟩ ∧
    Fresh read.os.journal ∧ ∃ c, read.conn? 1 = some c ∧ c.input.toList = [7] ∧
      Journal.consumed 1 read.os.journal = [104, 105, 10] ∧
      Journal.received 1 read.os.journal = [104, 105, 10, 7] := by
  obtain ⟨phase, ho⟩ := served_occurs
  have ho := ho.request trivial (.conn 1 (.readLine 3))
  have hf : Fresh read.os.journal := by decide +kernel
  have hout : Journal.consumed 1 read.os.journal = [104, 105, 10] := by decide +kernel
  obtain ⟨c, hc, hin⟩ : ∃ c, read.conn? 1 = some c ∧ c.input.toList = [7] :=
    Reactor.conn?_of_buffered (by decide +kernel)
  refine ⟨phase, ho, hf, c, hc, hin, hout, ?_⟩
  have hstream := ((ho.input_stream hf).1 1 c hc).2
  rw [hin] at hstream
  exact hstream.trans (congrArg (· ++ [7]) hout)

end Visit

end PollReactor
