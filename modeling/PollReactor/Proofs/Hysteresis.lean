import PollReactor.Proofs.Latch
import PollReactor.Proofs.Parting

namespace PollReactor

open Journal (Adds Fresh fdOf backlog Latched FlushFailed)

variable {κ π ν : Type}

namespace Journal

/-- The journal tells of no output of the connection. -/
def Blank (id : Nat) (j : Journal ν) : Prop := ∀ past, past <:+ j → backlog id past = 0

variable {id : Nat} {e : Entry (Mark ν)} {j j' : Journal ν}

theorem Blank.cons (h : Blank id j) (he : e.appended id = []) : Blank id (e :: j) := by
  intro past hpast
  rcases List.suffix_cons_iff.1 hpast with rfl | hsuffix
  · rw [backlog, h j (List.suffix_refl _), he]
    exact Nat.zero_sub _
  · exact h past hsuffix

theorem Blank.adds (h : Blank id j) (hj : Adds (·.appended id = []) j j') : Blank id j' := by
  obtain ⟨new, rfl, hn⟩ := hj
  induction new with
  | nil => exact h
  | cons e new ih =>
    exact (ih fun e he ↦ hn e (List.mem_cons_of_mem _ he)).cons (hn e List.mem_cons_self)

theorem Blank.not_latched (h : Blank id j) {counts : FlushEnd → Prop} {marks : Watermarks}
    (hm : 0 < marks.high) : ¬ Latched counts marks id j := by
  rintro ⟨past, hpast, hhigh, -⟩
  rw [h past hpast] at hhigh
  omega

end Journal

theorem Entry.OfService.skips {e : Entry (Mark ν)} {fd : Fd} {sends : Bool}
    (h : e.OfService (some fd) sends) (id : Nat) {fd? : Option Fd}
    (hne : sends = true → fd? ≠ some fd) : e.isQuiet ∧ e.Skips id fd? := by
  refine ⟨h.quiet, ?_⟩
  cases sends with
  | false =>
    have h : e.OfInput (some fd) := h
    cases h <;> exact skips_of_isMute rfl id fd?
  | true =>
    have h : e.OfOutput (some fd) := h
    cases h with
    | send _ bs a =>
      refine ⟨rfl, fun fd' hfd' he ↦ hne rfl ?_⟩
      cases he
      exact hfd'
    | clock => exact skips_of_isMute rfl id fd?

theorem Conn.settles_ofDraft {j : Journal ν} {id : Nat} (hb : Journal.Blank id j) (d : Draft)
    (peer : Net.SocketAddr) (t : Token Stream) (now : Nat) (fd : Option Fd) :
    (Conn.ofDraft d id peer t now).Settles id (.remark (.admitted id fd d) :: j) := by
  have hfit := d.drafted.fit.write
  have hhigh := d.drafted.high
  have hlevel : backlog id (.remark (.admitted id fd d) :: j) = d.channel.output.len := by
    rw [backlog, hb j (List.suffix_refl j)]
    cases fdOf id j <;> simp [Entry.appended, Entry.sent]
  have hend : Journal.flushEnd? id (.remark (.admitted id fd d) :: j) = none := by
    rw [Journal.flushEnd?]
    cases fdOf id j <;> rfl
  have hnot : ¬ Latched (· = .paused) d.channel.writeMarks id j :=
    hb.not_latched (Nat.zero_lt_of_lt hfit.2.1)
  have hiff : d.channel.outputHigh ↔ d.channel.writeMarks.high ≤ d.channel.output.len := by
    rw [hhigh, decide_eq_true_eq]
  refine ⟨⟨hlevel, ?_, hiff.2⟩, fun hh hlow ↦ ?_⟩
  · refine Iff.trans hiff ?_
    show _ ↔ Latched (· = .paused) d.channel.writeMarks id (.remark (.admitted id fd d) :: j)
    rw [Journal.latched_cons, hend, hlevel]
    simp [hnot]
  · have hle := hiff.1 hh
    have hlow : d.channel.output.len < d.channel.writeMarks.low := hlow
    have hmarks : d.channel.writeMarks.low < d.channel.writeMarks.high := hfit.2.1
    omega

namespace Reactor

variable {r r' : Reactor κ π ν}

/-- The journal tells of the output of all connections. -/
structure Gauged (r : Reactor κ π ν) : Prop where
  settles : ∀ id c, r.conn? id = some c → c.Settles id r.os.journal
  blank : ∀ id, r.conn? id = none → Journal.Blank id r.os.journal

theorem Gauged.impersonal (hg : Gauged r) (hc : ∀ id, r'.conn? id = r.conn? id)
    (hj : Adds (·.isImpersonal) r.os.journal r'.os.journal) : Gauged r' := by
  refine ⟨fun id c hconn ↦ ?_, fun id hnone ↦ ?_⟩
  · rw [hc] at hconn
    exact (hg.settles id c hconn).adds (hj.mono fun _ he ↦ Entry.skips_of_isImpersonal he id _)
  · rw [hc] at hnone
    refine (hg.blank id hnone).adds (hj.mono fun e he ↦ ?_)
    exact (Entry.skips_of_isImpersonal he id none).2.appended

theorem Gauged.called (hg : Gauged r) (hfit : Fits r) {id : Nat} {c : Conn}
    (hc : r.conn? id = some c) (op : ConnOp) :
    Gauged (remark (.called id c op) (r.setConn id (c.perform op).2.1)).2 := by
  have hconn := conn?_setConn hc (c.perform op).2.1
  have hother {id' : Nat} (hne : id' ≠ id) (fd? : Option Fd) :
      (Entry.remark (Mark.called (ν := ν) id c op)).Skips id' fd? :=
    ⟨if_neg hne.symm, nofun⟩
  refine ⟨fun id' c' hc' ↦ ?_, fun id' hnone ↦ ?_⟩
  · have hc' := (hconn id').symm.trans hc'
    split_ifs at hc' with he
    · cases hc'
      rw [he]
      exact (hg.settles id c hc).called (hfit id c hc) op
    · exact (hg.settles id' c' hc').skips (hother he _)
  · have hnone := (hconn id').symm.trans hnone
    split_ifs at hnone with he
    exact (hg.blank id' hnone).cons (hother he none).appended

variable [Kernel κ]

theorem Service.settles {id : Nat} {c c' : Conn} {fd : Fd} {sends : Bool}
    (h : Service r id c sends r') (hc : r.conn? id = some c) (hfd : c.fd? = some fd)
    (hof : fdOf id r.os.journal = some fd) (hfit : c.sizes.Fit) (hs : c.Settles id r.os.journal)
    (hc' : r'.conn? id = some c') : c'.Settles id r'.os.journal := by
  have hset (os : Os κ (Mark ν)) {d : Conn}
      (hd : (setConn { r with os } id d).conn? id = some c') : d = c' := by
    rw [conn?_setConn (r := { r with os }) hc, if_pos rfl] at hd
    exact Option.some.inj hd
  have hadds {j : Journal ν} (hj : Adds (Entry.OfInput (some fd)) r.os.journal j) :
      c.Settles id j := by
    refine hs.adds (hj.mono fun e he ↦ ?_)
    have he : e.OfService (some fd) false := he
    exact he.skips id nofun
  cases h with
  | nothing =>
    obtain rfl := Option.some.inj (hc.symm.trans hc')
    exact hs
  | input =>
    obtain rfl := hset _ hc'
    obtain ⟨⟨input, now, he⟩, hj⟩ := c.receive_spec r.os
    rw [hfd] at hj
    have hs := hadds (hj.mono fun _ he ↦ he.input)
    show (c.receive r.os).1.2.Settles id _
    rw [he]
    exact hs.congr rfl rfl rfl
  | output =>
    obtain rfl := hset _ hc'
    exact hs.transmit hfd hof hfit
  | urgent =>
    obtain rfl := hset _ hc'
    obtain ⟨⟨urgent, now, he⟩, hj⟩ := c.receiveUrgent_spec r.os
    rw [hfd] at hj
    have hs := hadds (hj.mono fun _ he ↦ he.input)
    show (c.receiveUrgent r.os).1.2.Settles id _
    rw [he]
    exact hs.congr rfl rfl rfl
  | hangup =>
    obtain rfl := hset r.os hc'
    exact hs.congr rfl rfl rfl

theorem Gauged.enrolled (hg : Gauged r) (t : Token Stream) (peer : Net.SocketAddr) (d : Draft)
    (now : Nat) : Gauged (Reactor.enrolled t peer d now r) := by
  have hother {id' : Nat} (hne : id' ≠ r.conns.size + 1) (fd? : Option Fd) :
      (Entry.remark (Mark.admitted (ν := ν) (r.conns.size + 1) t.value.fd d)).Skips id' fd? :=
    ⟨if_neg hne.symm, nofun⟩
  refine ⟨fun id' c' hc' ↦ ?_, fun id' hnone ↦ ?_⟩
  · rw [conn?_enrolled] at hc'
    split_ifs at hc' with he
    · cases hc'
      have hb : Journal.Blank id' r.os.journal := hg.blank id' (conn?_of_size_lt (by omega))
      rw [he] at hb ⊢
      exact Conn.settles_ofDraft (hb.cons (e := .sys .clock now) rfl) d peer t now t.value.fd
    · have hs := (hg.settles id' c' hc').skips (e := .sys .clock now)
        (Entry.skips_of_isMute rfl id' _)
      exact hs.skips (hother he _)
  · rw [conn?_enrolled] at hnone
    split_ifs at hnone with he
    have hb := (hg.blank id' hnone).cons (e := .sys .clock now) rfl
    exact hb.cons (hother he none).appended

theorem Gauged.served (hg : Gauged r) (hfit : Fits r) {id : Nat} {c : Conn} {fd : Fd}
    {sends : Bool} (hc : r.conn? id = some c) (hfd : c.fd? = some fd)
    (hown : ∀ id', fdOf id' r.os.journal = some fd ↔ id' = id) (hs : Service r id c sends r') :
    Gauged r' := by
  obtain ⟨d, -, hconn⟩ := hs.alters hc
  have hj := (hs.still hc).journal
  rw [hfd] at hj
  refine ⟨fun id' c' hc' ↦ ?_, fun id' hnone ↦ ?_⟩
  · by_cases he : id' = id
    · subst he
      exact hs.settles hc hfd ((hown id').2 rfl) (hfit id' c hc) (hg.settles id' c hc) hc'
    · rw [hconn, if_neg he] at hc'
      exact (hg.settles id' c' hc').adds
        (hj.mono fun e h ↦ h.skips id' fun _ ↦ mt (hown id').1 he)
  · rw [hconn] at hnone
    split_ifs at hnone with he
    refine (hg.blank id' hnone).adds (hj.mono fun e h ↦ ?_)
    have hskips : e.isQuiet ∧ e.Skips id' none := h.skips id' nofun
    exact hskips.2.appended

theorem Gauged.parted (hg : Gauged r) (id : Nat) : Gauged (part id r) := by
  obtain ⟨os, pool, conns, hr, -, hconn, hj⟩ := part_spec id r
  have hos : (part id r).os = os := congrArg (·.os) hr
  have hj : Adds (·.isImpersonal) r.os.journal (part id r).os.journal := by
    rw [hos]
    exact hj.mono fun e he ↦ (Entry.chore_of_isSetup he).impersonal
  refine ⟨fun id' c' hc' ↦ ?_, fun id' hnone ↦ ?_⟩
  · have hskips := hj.mono fun e he ↦ Entry.skips_of_isImpersonal he id' (fdOf id' r.os.journal)
    rw [hconn] at hc'
    split_ifs at hc' with he
    · obtain ⟨c, hc, rfl⟩ := Option.map_eq_some_iff.1 hc'
      rw [← he] at hc
      exact ((hg.settles id' c hc).adds hskips).congr rfl rfl rfl
    · exact (hg.settles id' c' hc').adds hskips
  · rw [hconn] at hnone
    have hb : Journal.Blank id' r.os.journal := by
      split_ifs at hnone with he
      · rw [he]
        exact hg.blank id (Option.map_eq_none_iff.1 hnone)
      · exact hg.blank id' hnone
    exact hb.adds (hj.mono fun e he ↦ (Entry.skips_of_isImpersonal he id' none).2.appended)

theorem Change.gauged (h : Change r r') (hfit : Fits r) (hg : Gauged r) : Gauged r' := by
  cases h with
  | apart hconns hj => exact hg.impersonal (conn?_congr hconns) hj
  | called id c op hc => exact hg.called hfit hc op
  | enrolled t peer d now => exact hg.enrolled t peer d now
  | served hc hfd hown hs => exact hg.served hfit hc hfd hown hs
  | parted id => exact hg.parted id
  | told cb =>
    refine ⟨fun id c hc ↦ ?_, fun id hnone ↦ ?_⟩
    · exact (hg.settles id c hc).skips (Entry.skips_of_isMute rfl id _)
    · exact (hg.blank id hnone).cons rfl

end Reactor

namespace Moment

open Reactor

variable [Kernel κ] {P : Policy π ν} {outside : Phase π ν → Prop} {m : Moment κ π ν}

theorem Occurs.gauged {b : Builder} (h : Occurs P outside b m) (hf : Fresh m.journal) :
    Gauged m.reactor := by
  have hboth : Fits m.reactor ∧ Gauged m.reactor := by
    refine h.changing (motive := fun r ↦ Fits r ∧ Gauged r) hf (fun r hconns hj ↦ ⟨?_, ?_, ?_⟩)
      fun r r' hc hr ↦ ⟨hc.fits hr.1, hc.gauged hr.1 hr.2⟩
    · exact fun id c hc ↦ nomatch (conn?_of_empty hconns id).symm.trans hc
    · exact fun id c hc ↦ nomatch (conn?_of_empty hconns id).symm.trans hc
    · intro id _
      have hempty : Journal.Blank id ([] : Journal ν) := by
        intro past hpast
        rw [List.suffix_nil.1 hpast]
        rfl
      exact hempty.adds
        (hj.mono fun e he ↦ (Entry.skips_of_isImpersonal he id none).2.appended)
  exact hboth.2

/-- If the system never gives out a descriptor that is in use, the high mark of an output is a
latch. It is set exactly if the backlog once reached the high mark and, whenever a flush paused
since, at least the low mark was left. While the backlog is at the high mark it is set; below the
low mark it is not, unless a flush failed. Of a draft nothing is sent, and its high mark tells
whether that is reached. -/
theorem Occurs.hysteresis {b : Builder} (h : Occurs P outside b m) (hf : Fresh m.journal) :
    (∀ id c, m.reactor.conn? id = some c →
      c.writeMarks.Valid c.output.capacity ∧ backlog id m.journal = c.output.len ∧
      (c.outputHigh ↔ Latched (· = .paused) c.writeMarks id m.journal) ∧
      (c.writeMarks.high ≤ c.output.len → c.outputHigh) ∧
      (c.output.len < c.writeMarks.low → c.outputHigh → FlushFailed id m.journal)) ∧
    ∀ d : Draft, d.channel.writeMarks.Valid d.channel.output.capacity ∧
      (d.channel.outputHigh ↔ d.channel.writeMarks.high ≤ d.channel.output.len) := by
  refine ⟨fun id c hc ↦ ?_, fun d ↦ ?_⟩
  · obtain ⟨⟨hlevel, hlatch, htops⟩, hlow⟩ := (h.gauged hf).settles id c hc
    exact ⟨(h.fits hf id c hc).write, hlevel, hlatch, htops, fun hlen hh ↦ hlow hh hlen⟩
  · refine ⟨d.drafted.fit.write, ?_⟩
    rw [d.drafted.high, decide_eq_true_eq]

end Moment

section

variable [Kernel κ]

theorem Ring.flush_cut {σ : Type} {snk : Sink σ} {r : Ring} {s s₁ s₂ : σ}
    {n : { n : Nat // n ≤ r.front.length }} {e : IoError} (hr : r.isEmpty = false) (hn : n.1 ≠ 0)
    (h : snk.push r.front s = (.ok n, s₁)) (hleft : (r.consume n.1).isEmpty = false)
    (h' : snk.push (r.consume n.1).front s₁ = (.error e, s₂)) (hi : e.kind ≠ .interrupted)
    (hb : e.kind ≠ .wouldBlock) : r.flush snk s = (.error e, r.consume n.1, s₂) := by
  have hstop : flushFrom snk (r.consume n.1) (0 + n.1) s₁ = (.error e, r.consume n.1, s₂) := by
    rw [flushFrom, if_neg (by simp [hleft])]
    split
    · rename_i hpush
      cases h'.symm.trans hpush
    · rename_i hpush
      cases h'.symm.trans hpush
      rw [dif_neg hi, if_neg (fun hw ↦ hb hw.1)]
  rw [flush, flushFrom, if_neg (by simp [hr])]
  split
  · rename_i hpush
    cases h.symm.trans hpush
    rw [dif_neg hn, hstop]
  · rename_i hpush
    cases h.symm.trans hpush

theorem Conn.transmit_cut {c : Conn} {fd : Fd} {o o₁ o₂ : Os κ (Mark ν)} {e : Errno}
    {n : { n : Nat // n ≤ c.output.front.length }} (hfd : c.fd? = some fd)
    (hr : c.output.isEmpty = false) (hn : n.1 ≠ 0)
    (h : Os.call (.send fd c.output.front) o = (.ok n, o₁))
    (hleft : (c.output.consume n.1).isEmpty = false)
    (h' : Os.call (.send fd (c.output.consume n.1).front) o₁ = (.error e, o₂))
    (hi : e.kind ≠ .interrupted) (hb : e.kind ≠ .wouldBlock) :
    c.transmit o = ((.error (.os e), { c with output := c.output.consume n.1 }), o₂) := by
  have hpush : (Sink.socket fd).push c.output.front o = (.ok n, o₁) := by
    simp only [Sink.socket, h, liftErrno]
  have hpush' : (Sink.socket fd).push (c.output.consume n.1).front o₁ = (.error (.os e), o₂) := by
    simp only [Sink.socket, h', liftErrno]
  unfold Conn.transmit
  rw [hfd]
  dsimp only
  rw [if_neg (by simp [hr]), Ring.flush_cut hr hn hpush hleft hpush' hi hb]
  exact if_neg hb

theorem Reactor.attendOutput_failed {P : Policy π ν} {r : Reactor κ π ν} {id : Nat} {c c' : Conn}
    {e : IoError} {os : Os κ (Mark ν)} (h : c.transmit r.os = ((.error e, c'), os)) :
    attendOutput P id c r = (({ r with os }).setConn id c', [.finalize id (.failed e)]) := by
  unfold attendOutput system
  rw [h]

end

namespace Visit

open Simulation Moment

/-- The visit with two bytes as the low mark of output. -/
def braced : Builder := { builder with defaults := ⟨4, ⟨1, 3⟩, ⟨2, 3⟩, none⟩ }

def bracedStarted : Reactor World Unit Unit :=
  (Reactor.start policy (Reactor.adopt 1000 { built with defaults := braced.defaults }).2).2

def bracedTurned : Progress × Reactor World Unit Unit :=
  Reactor.resume policy bracedStarted.prepare (.ok [0, 1]) bracedStarted

def pressed : Moment World Unit Unit :=
  ⟨(Reactor.request (.conn 1 (.write [5, 6, 7, 8])) bracedTurned.2).2, .ofProgress bracedTurned.1⟩

theorem pressed_occurs : Occurs policy (fun _ ↦ True) braced pressed := by
  refine ⟨(), ⟨world, []⟩, { built with defaults := braced.defaults }, built.os, rfl, rfl, ?_⟩
  have hs := Reactor.SetUp.adopt (r := { built with defaults := braced.defaults }) 1000
    (.inl built_not_owns)
  refine .tail (.tail (.tail (.tail .refl (.step (.setUp hs))) (.start _)) ?_)
    (.step (.request bracedTurned.2 _ _ trivial))
  exact .resume bracedStarted bracedStarted.prepare (.ok [0, 1])

attribute [irreducible] bracedTurned

theorem pressed_high : Occurs policy (fun _ ↦ True) braced pressed ∧ Fresh pressed.journal ∧
    ∃ c, pressed.reactor.conn? 1 = some c ∧ c.writeMarks = ⟨2, 3⟩ ∧ c.outputHigh ∧
      Latched (· = .paused) ⟨2, 3⟩ 1 pressed.journal := by
  have hf : Fresh pressed.journal := by decide +kernel
  obtain ⟨c, hc, hq⟩ : ∃ c, pressed.reactor.conn? 1 = some c ∧
      decide (c.writeMarks = ⟨2, 3⟩ ∧ c.output.len = 4) :=
    (Option.any_eq_true _ _).1 (by decide +kernel)
  obtain ⟨hm, hlen⟩ := of_decide_eq_true hq
  obtain ⟨-, -, hlatch, hhigh, -⟩ := (pressed_occurs.hysteresis hf).1 1 c hc
  have hh : c.outputHigh := hhigh (by rw [hm, hlen]; decide)
  exact ⟨pressed_occurs, hf, c, hc, hm, hh, hm ▸ hlatch.1 hh⟩

def give (k : World) : World :=
  { k with
    peers := k.peers.map ({ · with window := some 3 })
    faults := [⟨some .send, none, .fail .econnreset, 1, 1⟩] }

def giving : Moment World Unit Unit :=
  (tasked policy)^[2] (woken give [0, 0, 4] ((tasked policy)^[5] (woken id [1, 0, 0] pressed)))

theorem giving_occurs : Occurs policy (fun _ ↦ True) braced giving :=
  (((pressed_occurs.woken _ _).tasks 5).woken _ _).tasks 2

def givingConn : Conn := (giving.reactor.conn? 1).get (by decide +kernel)

/-- Three bytes were sent when the flush failed. -/
def broken : Moment World Unit Unit :=
  let output := givingConn.output.consume 3
  let os := (Os.call (.send 1003 givingConn.output.front) giving.reactor.os).2
  let os := (Os.call (.send 1003 output.front) os).2
  ⟨({ giving.reactor with os }).setConn 1 { givingConn with output },
    .busy (.finalize 1 (.failed (.os .econnreset))) [.proceed]⟩

theorem send_giving : (Os.call (.send 1003 givingConn.output.front) giving.reactor.os).1 =
    .ok ⟨3, by decide +kernel⟩ := by
  obtain ⟨_, h⟩ := ok_of_val
    (x := (Os.call (.send 1003 givingConn.output.front) giving.reactor.os).1) (a := 3)
    (by decide +kernel)
  exact h

theorem send_broken : (Os.call (.send 1003 (givingConn.output.consume 3).front)
    (Os.call (.send 1003 givingConn.output.front) giving.reactor.os).2).1 = .error .econnreset := by
  have h : (match (Os.call (.send 1003 (givingConn.output.consume 3).front)
      (Os.call (.send 1003 givingConn.output.front) giving.reactor.os).2).1 with
    | .error e => decide (e = .econnreset)
    | .ok _ => false) = true := by decide +kernel
  split at h
  · rename_i e he
    rw [he, of_decide_eq_true h]
  · cases h

theorem broken_occurs : Occurs policy (fun _ ↦ True) braced broken := by
  obtain ⟨w, event, now, hphase, hw⟩ := serve_due giving
    (fun w event _ ↦ w.id == 1 && !event.readable && event.writable && w.interest.write)
    (by decide +kernel)
  simp only [Bool.and_eq_true, beq_iff_eq, Bool.not_eq_true'] at hw
  obtain ⟨⟨⟨hid, hread⟩, hwrite⟩, hint⟩ := hw
  have hc : giving.reactor.conn? w.id = some givingConn := by
    rw [hid, givingConn, Option.some_get]
  have hs : Reactor.attend policy w event now giving.reactor =
      (broken.reactor, [.finalize 1 (.failed (.os .econnreset))]) := by
    rw [Reactor.attend_output hc (by decide +kernel) (by simp [hread]) ⟨hwrite, hint⟩,
      Reactor.attendOutput_failed (Conn.transmit_cut (by decide +kernel) (by decide +kernel)
        (by decide) (Prod.ext send_giving rfl) (by decide +kernel) (Prod.ext send_broken rfl)
        (by decide) (by decide)), hid]
    rfl
  exact giving_occurs.attended hphase hs

def brokenOff : Moment World Unit Unit := tasked policy broken

theorem brokenOff_high : Occurs policy (fun _ ↦ True) braced brokenOff ∧
    Fresh brokenOff.journal ∧
    (∃ j, brokenOff.journal = .remark (.callback (.failed 1 (.os .econnreset))) :: j) ∧
      ∃ c, brokenOff.reactor.conn? 1 = some c ∧ c.writeMarks = ⟨2, 3⟩ ∧ c.output.len = 1 ∧
        c.outputHigh ∧ ¬ Latched (fun _ ↦ True) c.writeMarks 1 brokenOff.journal := by
  have hocc : Occurs policy (fun _ ↦ True) braced brokenOff := broken_occurs.tasked
  have hf : Fresh brokenOff.journal := by decide +kernel
  obtain ⟨c, hc, hq⟩ : ∃ c, brokenOff.reactor.conn? 1 = some c ∧
      decide (c.writeMarks = ⟨2, 3⟩ ∧ c.output.len = 1 ∧ c.outputHigh) :=
    (Option.any_eq_true _ _).1 (by decide +kernel)
  obtain ⟨hm, hlen, hh⟩ := of_decide_eq_true hq
  have hnot : ¬ Latched (fun _ ↦ True) ⟨2, 3⟩ 1 brokenOff.journal := by decide +kernel
  exact ⟨hocc, hf, ⟨_, rfl⟩, c, hc, hm, hlen, hh, hm ▸ hnot⟩

end Visit

end PollReactor
