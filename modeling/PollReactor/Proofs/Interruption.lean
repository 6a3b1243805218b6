import PollReactor.Proofs.Attendance

namespace PollReactor

open Journal (Adds Fresh fdOf)

variable {κ π ν : Type}

namespace Entry

def call? : Entry (Mark ν) → Option SysCall
  | .sys c _ => some c
  | .remark _ => none

def isCut : Entry (Mark ν) → Bool
  | .sys (.recv ..) (.error e) => e.kind = .interrupted
  | .sys (.send ..) (.error e) => e.kind = .interrupted
  | _ => false

theorem isCut_of_isIdle {e : Entry (Mark ν)} (h : e.isIdle) : e.isCut = false := by
  cases e with
  | remark => rfl
  | sys c a => cases c <;> first | rfl | cases h

theorem OfUrgentInput.not_cut {fd? : Option Fd} {e : Entry (Mark ν)} (h : e.OfUrgentInput fd?) :
    e.isCut = false := by
  cases h <;> rfl

end Entry

namespace Journal

/-- Each recv or send that was interrupted was made again at once, if the call `next` is made
now. -/
def Resumed (next : Option SysCall) : Journal ν → Prop
  | [] => True
  | e :: j => (e.isCut → next = e.call?) ∧ Resumed e.call? j

variable {next : Option SysCall} {j j' : Journal ν}

theorem Resumed.any (h : Resumed none j) (next : Option SysCall) : Resumed next j := by
  cases j with
  | nil => trivial
  | cons e j =>
    refine ⟨fun hc ↦ ?_, h.2⟩
    cases e with
    | remark => cases hc
    | sys => cases h.1 hc

theorem Resumed.quiet (h : Resumed none j) (hj : Adds (·.isCut = false) j j') :
    Resumed none j' := by
  obtain ⟨new, rfl, hn⟩ := hj
  induction new with
  | nil => exact h
  | cons e new ih =>
    refine ⟨fun hc ↦ ?_, (ih fun e he ↦ hn e (List.mem_cons_of_mem _ he)).any _⟩
    rw [hn e List.mem_cons_self] at hc
    cases hc

theorem Resumed.again {e : Entry (Mark ν)} {later earlier : Journal ν}
    (h : Resumed next (later ++ e :: earlier)) (hc : e.isCut) :
    later = [] ∧ next = e.call? ∨ ∃ later' e', later = later' ++ [e'] ∧ e'.call? = e.call? := by
  induction later generalizing next with
  | nil => exact .inl ⟨rfl, h.1 hc⟩
  | cons e₁ later ih =>
    rcases ih h.2 with ⟨rfl, he⟩ | ⟨later', e', rfl, he⟩
    · exact .inr ⟨[], e₁, rfl, he⟩
    · exact .inr ⟨e₁ :: later', e', rfl, he⟩

/-- The latest transfer was an urgent receive on the descriptor of the connection, and it was
interrupted. -/
def CutShort (id : Nat) (e : IoError) (j : Journal ν) : Prop :=
  ∃ (idle : Journal ν) (n : Errno) (fd : Fd) (earlier : Journal ν),
    j = idle ++ .sys (.recvUrgent fd) (.error n) :: earlier ∧ (∀ e' ∈ idle, e'.isIdle) ∧
      e = .os n ∧ (Fresh j → fdOf id earlier = some fd)

theorem CutShort.idle {id : Nat} {e : IoError} (h : CutShort id e j) (hj : Adds (·.isIdle) j j') :
    CutShort id e j' := by
  obtain ⟨idle, n, fd, earlier, rfl, hidle, he, hfd⟩ := h
  obtain ⟨new, rfl, hn⟩ := hj
  refine ⟨new ++ idle, n, fd, earlier, by simp, ?_, he, fun hf ↦ hfd (hf.of_append new)⟩
  exact List.forall_mem_append.2 ⟨hn, hidle⟩

/-- Connections that failed by an interruption were cut short. -/
def Excused : Journal ν → Prop
  | [] => True
  | e :: j => (∀ id err, e.callback? = some (.failed id err) → err.kind = .interrupted →
      CutShort id err j) ∧ Excused j

theorem Excused.quiet (h : Excused j) (hq : Adds (·.isQuiet) j j') : Excused j' := by
  obtain ⟨new, rfl, hn⟩ := hq
  induction new with
  | nil => exact h
  | cons e new ih =>
    refine ⟨fun id err hcb ↦ ?_, ih fun e he ↦ hn e (List.mem_cons_of_mem _ he)⟩
    rw [Entry.callback?_of_isQuiet (hn e List.mem_cons_self)] at hcb
    cases hcb

theorem Excused.of_append {new : Journal ν} (h : Excused (new ++ j)) : Excused j := by
  induction new with
  | nil => exact h
  | cons e new ih => exact ih h.2

end Journal

open Journal (Resumed CutShort Excused)

section

variable [Kernel κ]

namespace Ring

theorem resumed_call {j j' : Journal ν} {e : Entry (Mark ν)} (h : Resumed e.call? j)
    (hj : j' = e :: j) (hc : e.isCut = false) : Resumed none j' := by
  rw [hj]
  refine ⟨fun hcut ↦ ?_, h⟩
  rw [hc] at hcut
  cases hcut

theorem fillFrom_resumed {fd : Fd} {r : Ring} {moved : Nat} {o : Os κ (Mark ν)}
    (h : Resumed (some (.recv fd r.vacant)) o.journal) (hfull : r.isFull → Resumed none o.journal) :
    Resumed none (fillFrom (Source.socket fd) r moved o).2.2.journal := by
  have hentry {room : Nat} {o o' : Os κ (Mark ν)}
      {answer : Except IoError { bs : Bytes // bs.length ≤ room }}
      (hp : (Source.socket fd).pull room o = (answer, o')) : ∃ e : Entry (Mark ν),
        o'.journal = e :: o.journal ∧ e.call? = some (.recv fd room) ∧
          e.isCut = match answer with
            | .ok _ => false
            | .error err => decide (err.kind = .interrupted) := by
    obtain ⟨a, rfl, hj⟩ := pull_entry hp
    refine ⟨_, hj, rfl, ?_⟩
    cases a <;> rfl
  fun_induction fillFrom (Source.socket fd) r moved o with
  | case1 r moved o hroom => exact hfull hroom
  | case2 r moved o _ hb o' hp =>
    obtain ⟨e, hj, he, hc⟩ := hentry hp
    exact resumed_call (he ▸ h) hj hc
  | case3 r moved o _ bs hb o' hp _ _ ih =>
    obtain ⟨e, hj, he, hc⟩ := hentry hp
    have h' := resumed_call (he ▸ h) hj hc
    exact ih (h'.any _) fun _ ↦ h'
  | case4 r moved o hroom err o' hp _ _ ih =>
    obtain ⟨e, hj, he, -⟩ := hentry hp
    refine ih ?_ fun hfull ↦ absurd hfull hroom
    rw [hj]
    exact ⟨fun _ ↦ he.symm, he ▸ h⟩
  | case5 r moved o _ err o' hp hi _ =>
    obtain ⟨e, hj, he, hc⟩ := hentry hp
    exact resumed_call (he ▸ h) hj (hc.trans (decide_eq_false hi))
  | case6 r moved o _ err o' hp hi _ =>
    obtain ⟨e, hj, he, hc⟩ := hentry hp
    exact resumed_call (he ▸ h) hj (hc.trans (decide_eq_false hi))

theorem flushFrom_resumed {fd : Fd} {r : Ring} {moved : Nat} {o : Os κ (Mark ν)}
    (h : Resumed (some (.send fd r.front)) o.journal)
    (hempty : r.isEmpty → Resumed none o.journal) :
    Resumed none (flushFrom (Sink.socket fd) r moved o).2.2.journal := by
  have hentry {bs : Bytes} {o o' : Os κ (Mark ν)}
      {answer : Except IoError { n : Nat // n ≤ bs.length }}
      (hp : (Sink.socket fd).push bs o = (answer, o')) : ∃ e : Entry (Mark ν),
        o'.journal = e :: o.journal ∧ e.call? = some (.send fd bs) ∧
          e.isCut = match answer with
            | .ok _ => false
            | .error err => decide (err.kind = .interrupted) := by
    obtain ⟨a, rfl, hj⟩ := push_socket hp
    refine ⟨_, hj, rfl, ?_⟩
    cases a <;> rfl
  fun_induction flushFrom (Sink.socket fd) r moved o with
  | case1 r moved o hroom => exact hempty hroom
  | case2 r moved o _ o' _ hp =>
    obtain ⟨e, hj, he, hc⟩ := hentry hp
    exact resumed_call (he ▸ h) hj hc
  | case3 r moved o _ n hn o' hp _ _ ih =>
    obtain ⟨e, hj, he, hc⟩ := hentry hp
    have h' := resumed_call (he ▸ h) hj hc
    exact ih (h'.any _) fun _ ↦ h'
  | case4 r moved o hroom err o' hp _ _ ih =>
    obtain ⟨e, hj, he, -⟩ := hentry hp
    refine ih ?_ fun hempty ↦ absurd hempty hroom
    rw [hj]
    exact ⟨fun _ ↦ he.symm, he ▸ h⟩
  | case5 r moved o _ err o' hp hi _ =>
    obtain ⟨e, hj, he, hc⟩ := hentry hp
    exact resumed_call (he ▸ h) hj (hc.trans (decide_eq_false hi))
  | case6 r moved o _ err o' hp hi _ =>
    obtain ⟨e, hj, he, hc⟩ := hentry hp
    exact resumed_call (he ▸ h) hj (hc.trans (decide_eq_false hi))

end Ring

namespace Conn

variable {o : Os κ (Mark ν)}

theorem receive_resumed (c : Conn) (h : Resumed none o.journal) :
    Resumed none (c.receive o).2.journal := by
  have hr := c.receive_receives o
  have hfill (fd : Fd) : Resumed none (c.input.fillFrom (.socket fd) 0 o).2.2.journal :=
    Ring.fillFrom_resumed (h.any _) fun _ ↦ h
  generalize c.receive o = out at hr ⊢
  cases hr with
  | unconnected | full => exact h
  | @ended fd _ _ _ _ hs | @blocked fd _ _ _ _ _ hs | @failed fd _ _ _ _ _ hs =>
    have hfill := hfill fd
    rw [hs] at hfill
    exact hfill
  | @moved fd _ _ _ _ _ hs =>
    have hfill := hfill fd
    rw [hs] at hfill
    exact hfill.quiet (.single rfl)

theorem transmit_resumed (c : Conn) (h : Resumed none o.journal) :
    Resumed none (c.transmit o).2.journal := by
  have ht := c.transmit_transmits o
  have hflush (fd : Fd) : Resumed none (c.output.flushFrom (.socket fd) 0 o).2.2.journal :=
    Ring.flushFrom_resumed (h.any _) fun _ ↦ h
  generalize c.transmit o = out at ht ⊢
  cases ht with
  | unconnected | empty => exact h
  | @still fd _ _ _ _ hs | @blocked fd _ _ _ _ _ hs | @failed fd _ _ _ _ _ hs =>
    have hflush := hflush fd
    rw [hs] at hflush
    exact hflush
  | @moved fd _ _ _ _ _ hs =>
    have hflush := hflush fd
    rw [hs] at hflush
    exact hflush.quiet (.single rfl)

theorem receiveUrgent_resumed (c : Conn) (h : Resumed none o.journal) :
    Resumed none (c.receiveUrgent o).2.journal :=
  h.quiet ((c.receiveUrgent_spec o).2.mono fun _ he ↦ he.not_cut)

theorem receive_interrupted {c : Conn} {fd : Fd} {n : Errno} (hfd : c.fd? = some fd)
    (hr : c.input.isFull = false) (h : (Os.call (.recv fd c.input.vacant) o).1 = .error n)
    (hn : n.kind = .interrupted) :
    c.receive o = c.receive (Os.call (.recv fd c.input.vacant) o).2 := by
  have hfill : c.input.fill (.socket fd) o =
      c.input.fill (.socket fd) (Os.call (.recv fd c.input.vacant) o).2 := by
    have hpull : (Source.socket fd).pull c.input.vacant o =
        (.error (.os n), (Os.call (.recv fd c.input.vacant) o).2) := by
      simp only [Source.socket, h, liftErrno]
    rw [Ring.fill, Ring.fillFrom, if_neg (by simp [hr])]
    split
    · rename_i h'
      cases hpull.symm.trans h'
    · rename_i e s' h'
      cases hpull.symm.trans h'
      exact dif_pos hn
  unfold receive
  simp only [hfd, hr, Bool.false_eq_true, if_false, hfill]

omit [Kernel κ] in
theorem Outcome.interrupted {fd : Fd} {way : Way} {c c' : Conn} {j j' : Journal ν} {e : IoError}
    (h : Outcome fd way c j (.failed e) c' j') (he : e.kind = .interrupted) :
    ∃ n, e = .os n ∧ j' = .sys (.recvUrgent fd) (.error n) :: j := by
  cases h with
  | failed _ _ hi =>
    obtain ⟨n, hn, rfl⟩ := hi he
    exact ⟨n, hn, rfl⟩

end Conn

namespace Reactor

variable {P : Policy π ν} {r : Reactor κ π ν}

theorem attend_resumed (x : Watched) (event : Event) (now : Nat)
    (h : Resumed none r.os.journal) : Resumed none (attend P x event now r).1.os.journal := by
  have htell {r' : Reactor κ π ν} (h : Resumed none r'.os.journal) (cb : Callback)
      (ts : List (Task π ν)) : Resumed none (tell P cb ts r').1.os.journal :=
    h.quiet (.single rfl)
  unfold attend
  cases r.conn? x.id with
  | none => exact h
  | some c =>
    dsimp only
    split_ifs
    · exact h
    · have hc := c.receive_resumed h
      unfold attendInput system
      generalize c.receive r.os = out at hc ⊢
      rcases out with ⟨⟨e | _ | n, c'⟩, os⟩
      · exact hc
      · dsimp only
        split_ifs
        · exact htell hc _ _
        · exact hc
      · exact hc
    · have hc := c.transmit_resumed h
      unfold attendOutput system
      generalize c.transmit r.os = out at hc ⊢
      rcases out with ⟨⟨e | n, c'⟩, os⟩
      · exact hc
      · dsimp only
        split_ifs
        · exact htell hc _ _
        · exact hc
    · have hc := c.receiveUrgent_resumed h
      unfold attendUrgent system
      generalize c.receiveUrgent r.os = out at hc ⊢
      rcases out with ⟨⟨e | stored, c'⟩, os⟩
      · exact hc
      · dsimp only
        split_ifs
        · exact htell hc _ _
        · exact hc
    · exact h
    · exact h
    · exact h

theorem attend_cutShort {x : Watched} {c : Conn} {fd : Fd} {event : Event} {now : Nat}
    {e : IoError} (hc : r.conn? x.id = some c) (hfd : c.fd? = some fd)
    (hown : Fresh r.os.journal → fdOf x.id r.os.journal = some fd)
    (h : (attend P x event now r).2 = [.finalize x.id (.failed e)])
    (he : e.kind = .interrupted) : CutShort x.id e (attend P x event now r).1.os.journal := by
  have ha := attend_attendance (P := P) hc hfd event now
  generalize attend P x event now r = out at h ha ⊢
  cases ha with
  | leaves | hangs | idles | rests => cases h
  | transfers hl way hw ht =>
    cases ht with
    | failed ho =>
      cases h
      obtain ⟨n, hn, hj⟩ := ho.interrupted he
      refine ⟨[], n, fd, r.os.journal, hj, List.forall_mem_nil _, hn, fun hf ↦ hown ?_⟩
      exact Fresh.of_append [_] (hj ▸ hf : Fresh (_ :: r.os.journal))
    | ended | told => cases h
    | silent => cases way <;> cases h

end Reactor

end

namespace Reactor

variable [Kernel κ] {P : Policy π ν}

theorem proceed_no_failure {r : Reactor κ π ν} {f : Failure}
    (h : (proceed P r).1 = .ended (.error (.failure f))) : False := by
  unfold proceed at h
  rw [bind_run, get_run] at h
  split_ifs at h
  · rw [bind_run] at h
    generalize (closeConnections P).run r = out at h
    rcases out with ⟨_ | _, r'⟩ <;> cases h
  · cases h

theorem start_failure {r : Reactor κ π ν} {f : Failure}
    (h : (start P r).1 = .ended (.error (.failure f))) : f = .notBound := by
  unfold start at h
  rw [bind_run, get_run] at h
  split_ifs at h
  · cases h
    rfl
  · exact (proceed_no_failure h).elim

theorem resume_interrupted {n : Errno} (h : n.kind = .interrupted) (w : Wait)
    (r : Reactor κ π ν) : resume P w (.error n) r = (.waiting w, r) := by
  unfold resume
  dsimp only
  rw [if_pos h]
  rfl

theorem resume_failure {w : Wait} {report : Except Errno (List UInt16)} {r : Reactor κ π ν}
    {f : Failure} (h : (resume P w report r).1 = .ended (.error (.failure f))) :
    ∃ n, report = .error n ∧ f = .poll (.os n) ∧ n.kind ≠ .interrupted := by
  cases report with
  | error n =>
    unfold resume at h
    dsimp only at h
    split_ifs at h with hn
    · cases h
    · cases h
      exact ⟨n, rfl, rfl, hn⟩
  | ok reported =>
    unfold resume at h
    dsimp only at h
    rw [bind_run] at h
    generalize (turn P w (Event.ofReport .posix w.list reported)).run r = out at h
    rcases out with ⟨_ | ⟨⟩, r'⟩
    · cases h
    · exact (proceed_no_failure h).elim

end Reactor

namespace Moment

open Reactor

variable [Kernel κ] {P : Policy π ν} {outside : Phase π ν → Prop} {b : Builder}
  {m m' : Moment κ π ν}

def Warned (m : Moment κ π ν) : Prop :=
  ∀ id e rest, m.phase = .busy (.finalize id (.failed e)) rest → e.kind = .interrupted →
    CutShort id e m.journal

omit [Kernel κ] in
theorem Warned.idle {r r' : Reactor κ π ν} {phase : Phase π ν} (h : Warned ⟨r, phase⟩)
    (hj : Adds (·.isIdle) r.os.journal r'.os.journal) : Warned ⟨r', phase⟩ :=
  fun id e rest hp he ↦ (h id e rest hp he).idle hj

omit [Kernel κ] in
theorem warned_ofTasks {r : Reactor κ π ν} {ts : List (Task π ν)}
    (h : ∀ t ∈ ts, t.isVerdict = false) : Warned ⟨r, .ofTasks ts⟩ := by
  intro id e rest hp
  have hp : Phase.ofTasks ts = .busy (.finalize id (.failed e)) rest := hp
  cases ts with
  | nil => cases hp
  | cons t ts =>
    cases hp
    cases h _ List.mem_cons_self

theorem Step.warned {n : Nat} (h : Step P outside m m') (ha : Agrees n m) (hs : Settled m)
    (hp : m.phase.IsPrompt) (hacc : Fresh m.journal → Accounted m.reactor) (hw : Warned m) :
    Warned m' := by
  cases h with
  | kernel r phase k => exact hw.idle (.refl _)
  | listener r phase text =>
    exact hw.idle ((relisten_opening (Sockets.listenOn_opening text) r).journal.mono
      fun _ he ↦ he.chore.idle)
  | request r phase q _ => exact hw.idle ((request_still q r).journal.mono fun _ he ↦ he.idle)
  | setUp | memory | fail => exact warned_ofTasks (List.forall_mem_nil _)
  | start =>
    have hproceed : ∀ t ∈ [(.proceed : Task π ν)], t.isVerdict = false :=
      List.forall_mem_singleton.2 rfl
    exact warned_ofTasks hproceed
  | wake r w reported => exact warned_ofTasks (turnTasks_verdict w _ r)
  | cleanup r => exact warned_ofTasks (cleanupTasks_verdict r)
  | task r first rest =>
    -- Only a service comes to a verdict, and that is the next task then.
    rcases advance_verdict (P := P) first r with h | ⟨x, event, now, why, rfl, h⟩
    · generalize advance P first r = out at h ⊢
      rcases out with ⟨r', ts | ts | w⟩
      · exact warned_ofTasks (List.forall_mem_append.2 ⟨h, hp⟩)
      · exact warned_ofTasks h
      · exact fun _ _ _ hp ↦ by cases hp
    · obtain ⟨c, -, fd, hc, -⟩ := ha.sound.holding.live (hs.alive x.id List.mem_cons_self)
      obtain ⟨fd, hfd⟩ := ha.sound.holding.fd?_of_live (hs.alive x.id List.mem_cons_self) hc
      have hown (hf : Fresh r.os.journal) : fdOf x.id r.os.journal = some fd :=
        ((hacc hf).fdOf_iff (ha.sound.ledger hf) hc hfd x.id).2 rfl
      intro id e rest' hphase he
      dsimp only at hphase
      rw [h] at hphase
      cases hphase
      exact attend_cutShort hc hfd hown (Next.go.inj h) he

theorem Step.excused (h : Step P outside m m') (hw : Warned m) (he : Excused m.journal) :
    Excused m'.journal := by
  cases h with
  | kernel | memory | start | wake | fail | cleanup => exact he
  | listener r phase text =>
    exact he.quiet ((relisten_opening (Sockets.listenOn_opening text) r).journal.mono
      fun _ he ↦ he.chore.quiet)
  | request r phase q _ => exact he.quiet ((request_still q r).journal.mono fun _ he ↦ he.quiet)
  | setUp hr => exact he.quiet (hr.relisten.journal.mono fun _ he ↦ he.chore.quiet)
  | task r first rest =>
    obtain ⟨app, hd⟩ := advance_deed (P := P) first r
    have ht := advance_turnover (P := P) first r
    show Excused (advance P first r).1.os.journal
    cases ht with
    | quiet _ _ hj => exact he.quiet hj
    | told cb ht _ _ _ j hj hjournal =>
      rw [hjournal]
      refine ⟨fun id err hcb ↦ ?_, he.quiet hj⟩
      cases hcb
      cases ht
    | admitted fd d _ _ j hj hjournal =>
      rw [hjournal]
      exact ⟨nofun, he.quiet hj⟩
    | ended id why hfirst _ _ j hj hjournal =>
      rw [hjournal]
      refine ⟨fun id' err hcb hi ↦ ?_, he.quiet hj⟩
      obtain ⟨rfl, rfl⟩ : why = .failed err ∧ id = id' := by
        cases why <;> cases hcb
        exact ⟨rfl, rfl⟩
      -- The interruption was written down before, and behind it no byte moved.
      have hidle := hd.idle fun _ _ _ h ↦ by rw [hfirst] at h; cases h
      obtain ⟨new, rfl, -⟩ := hj
      refine (hw id err rest (congrArg (Phase.busy · rest) hfirst) hi).idle ⟨new, rfl, ?_⟩
      have hj : _ = (.remark (.callback (.failed id err)) :: new) ++ r.os.journal := hjournal
      exact fun e he ↦ hidle.of_append hj e (List.mem_cons_of_mem _ he)

theorem Step.resumed (h : Step P outside m m') (hr : Resumed none m.journal) :
    Resumed none m'.journal := by
  cases h with
  | kernel | memory | start | wake | fail | cleanup => exact hr
  | listener r phase text =>
    exact hr.quiet ((relisten_opening (Sockets.listenOn_opening text) r).journal.mono
      fun _ he ↦ Entry.isCut_of_isIdle he.chore.idle)
  | request r phase q _ =>
    exact hr.quiet ((request_still q r).journal.mono fun _ he ↦ Entry.isCut_of_isIdle he.idle)
  | setUp h =>
    exact hr.quiet (h.relisten.journal.mono fun _ he ↦ Entry.isCut_of_isIdle he.chore.idle)
  | task r first rest =>
    by_cases hs : ∃ x event now, first = .serve x event now
    · obtain ⟨x, event, now, rfl⟩ := hs
      exact attend_resumed x event now hr
    · obtain ⟨app, hd⟩ := advance_deed (P := P) first r
      have hidle := hd.idle fun x event now he ↦ hs ⟨x, event, now, he⟩
      exact hr.quiet (hidle.mono fun _ ↦ Entry.isCut_of_isIdle)

theorem Occurs.warned (h : Occurs P outside b m) : Warned m :=
  h.step_induction (fun _ _ _ _ _ _ ↦ warned_ofTasks (List.forall_mem_nil _))
    fun _ _ ho hs hw ↦ hs.warned ho.agrees ho.settled ho.isPrompt ho.accounted hw

theorem Occurs.excused (h : Occurs P outside b m) : Excused m.journal := by
  refine h.step_induction (motive := fun m ↦ Excused m.journal) (fun _ _ _ _ hb hj ↦ ?_)
    fun _ _ ho hs he ↦ hs.excused ho.warned he
  exact Excused.quiet (j := []) trivial
    ((built_bare hb hj).2.mono fun _ he ↦ (Entry.chore_of_isSetup he).quiet)

theorem Occurs.resumed (h : Occurs P outside b m) : Resumed none m.journal := by
  refine h.induction (motive := fun m ↦ Resumed none m.journal) (fun _ _ _ _ hb hj ↦ ?_)
    fun _ _ hs hr ↦ hs.resumed hr
  exact Resumed.quiet (j := []) trivial
    ((built_bare hb hj).2.mono fun _ he ↦ Entry.isCut_of_isIdle (Entry.chore_of_isSetup he).idle)

/-- What interruptions lead to: a recv or a send is made again at once, an interrupted wait is taken
up again, and no run fails by one. Only a connection whose latest transfer was an urgent receive
that was interrupted fails by that. -/
theorem Occurs.interruptions (h : Occurs P outside b m) :
    (∀ later e earlier, m.journal = later ++ e :: earlier → e.isCut →
      ∃ later' e', later = later' ++ [e'] ∧ e'.call? = e.call?) ∧
    (∀ later id e earlier, m.journal = later ++ .remark (.callback (.failed id e)) :: earlier →
      e.kind = .interrupted → CutShort id e earlier) ∧
    (∀ (w : Wait) (n : Errno) (r : Reactor κ π ν), n.kind = .interrupted →
      resume P w (.error n) r = (.waiting w, r)) ∧
    (∀ (w : Wait) (report : Except Errno (List UInt16)) (r : Reactor κ π ν) (f : Failure),
      (resume P w report r).1 = .ended (.error (.failure f)) →
        ∃ n, report = .error n ∧ f = .poll (.os n) ∧ n.kind ≠ .interrupted) ∧
    ∀ (r : Reactor κ π ν) (f : Failure),
      (start P r).1 = .ended (.error (.failure f)) → f = .notBound := by
  have hresumed := h.resumed
  have hexcused := h.excused
  refine ⟨?_, ?_, fun w n r hn ↦ resume_interrupted hn w r, fun w report r f ↦ resume_failure,
    fun r f ↦ start_failure⟩
  · intro later e earlier hj hc
    rw [hj] at hresumed
    exact (hresumed.again hc).resolve_left (fun hnone ↦ by
      cases e with
      | remark => cases hc
      | sys => cases hnone.2)
  · intro later id e earlier hj he
    rw [hj] at hexcused
    exact hexcused.of_append.1 id e rfl he

end Moment

namespace Visit

open Simulation Moment

/-- The peer sends an urgent byte, and the first attempt to receive it is interrupted. -/
def cut : Moment World Unit Unit :=
  (tasked policy)^[4] (woken (fun k ↦ { k with
    peers := k.peers.map ({ · with urgent := some 9 })
    faults := [⟨some .recvOob, none, .fail .eintr, 0, 1⟩] }) [0, 0, 2] kept)

theorem cut_occurs (outside : Phase Unit Unit → Prop) : Occurs policy outside builder cut :=
  ((kept_occurs outside).woken _ _).tasks 4

theorem cut_journal :
    ∃ j, cut.journal = .remark (.callback (.failed 1 (.os .eintr))) :: j := by
  have hhead : cut.journal.head?.bind Entry.callback? = some (.failed 1 (.os .eintr)) := by
    decide +kernel
  generalize cut.journal = j at hhead ⊢
  cases j with
  | nil => cases hhead
  | cons e j =>
    cases e with
    | sys => cases hhead
    | remark m =>
      cases m with
      | callback cb =>
        obtain rfl : cb = _ := Option.some.inj hhead
        exact ⟨j, rfl⟩
      | _ => cases hhead

/-- An interruption of the urgent receive ends the connection of the visit. -/
theorem cut_ended : Occurs policy (fun _ ↦ False) builder cut ∧ Fresh cut.journal ∧
    1 ∉ cut.reactor.live ∧ (IoError.os .eintr).kind = .interrupted ∧
      ∃ j, cut.journal = .remark (.callback (.failed 1 (.os .eintr))) :: j :=
  ⟨cut_occurs _, by decide +kernel, by decide +kernel, by decide, cut_journal⟩

def offeredAgain : Moment World Unit Unit :=
  (tasked policy)^[2] (woken (fun k ↦ { k with
    peers := k.peers.map ({ · with segments := [[104, 105, 10, 7]] })
    faults := [⟨some .recv, none, .fail .eintr, 0, 1⟩] }) [0, 0, 1] kept)

def offeredConn : Conn := (offeredAgain.reactor.conn? 1).get (by decide +kernel)

def recut : Reactor World Unit Unit :=
  let o := (Os.call (.recv 1003 offeredConn.input.vacant) offeredAgain.reactor.os).2
  let (now, os) := sys .clock (Os.call (.recv 1003 offeredConn.input.vacant) o).2
  let c := { offeredConn with
    input := (offeredConn.input.write [104, 105, 10, 7]).2
    lastActivity := now }
  (Reactor.remark (.callback (.dataReceived 1))
    (({ offeredAgain.reactor with os }).setConn 1 c)).2

theorem recv_cut : (Os.call (.recv 1003 offeredConn.input.vacant) offeredAgain.reactor.os).1 =
    .error .eintr := by
  have h : (match (Os.call (.recv 1003 offeredConn.input.vacant) offeredAgain.reactor.os).1 with
    | .error e => decide (e = .eintr)
    | .ok _ => false) = true := by decide +kernel
  split at h
  · rename_i e he
    rw [he, of_decide_eq_true h]
  · cases h

theorem recv_again : (Os.call (.recv 1003 offeredConn.input.vacant)
    (Os.call (.recv 1003 offeredConn.input.vacant) offeredAgain.reactor.os).2).1 =
      .ok ⟨[104, 105, 10, 7], by decide +kernel⟩ := by
  obtain ⟨_, h⟩ := ok_of_val (x := (Os.call (.recv 1003 offeredConn.input.vacant)
    (Os.call (.recv 1003 offeredConn.input.vacant) offeredAgain.reactor.os).2).1)
    (a := [104, 105, 10, 7]) (by decide +kernel)
  exact h

theorem recut_occurs : ∃ phase, Occurs policy (fun _ ↦ True) builder ⟨recut, phase⟩ := by
  have hocc : Occurs policy (fun _ ↦ True) builder offeredAgain :=
    ((kept_occurs _).woken _ _).tasks 2
  obtain ⟨w, event, now, hphase, hw⟩ := serve_due offeredAgain
    (fun w event _ ↦ w.id == 1 && event.readable && w.interest.read) (by decide +kernel)
  simp only [Bool.and_eq_true, beq_iff_eq] at hw
  obtain ⟨⟨hid, hread⟩, hint⟩ := hw
  have hc : offeredAgain.reactor.conn? w.id = some offeredConn := by
    rw [hid, offeredConn, Option.some_get]
  have hs : ∃ ts, Reactor.attend policy w event now offeredAgain.reactor = (recut, ts) := by
    have hreceive := Conn.receive_interrupted (by decide +kernel) (by decide +kernel) recv_cut
      (by decide)
    rw [Conn.receive_full (by decide +kernel) (by decide +kernel) (by decide) recv_again
      (by decide +kernel)] at hreceive
    rw [Reactor.attend_input hc (by decide +kernel) ⟨hread, hint⟩,
      Reactor.attendInput_told hreceive (by decide) (by decide +kernel), hid]
    exact ⟨_, rfl⟩
  obtain ⟨ts, hs⟩ := hs
  exact ⟨_, hocc.attended hphase hs⟩

theorem recut_resumed : (∃ phase, Occurs policy (fun _ ↦ True) builder ⟨recut, phase⟩ ∧
      ∃ later e earlier, recut.os.journal = later ++ e :: earlier ∧ e.isCut ∧
        ∃ later' e', later = later' ++ [e'] ∧ e'.call? = e.call?) ∧
    Occurs policy (fun _ ↦ True) builder cut ∧
      ∃ j, cut.journal = .remark (.callback (.failed 1 (.os .eintr))) :: j ∧
        CutShort 1 (.os .eintr) j := by
  constructor
  · obtain ⟨phase, ho⟩ := recut_occurs
    have hj : ∃ e₃ e₂ e₁ : Entry (Mark Unit), recut.os.journal = [e₃, e₂, e₁] ++
        .sys (.recv 1003 offeredConn.input.vacant) (Os.call (.recv 1003 offeredConn.input.vacant)
          offeredAgain.reactor.os).1 :: offeredAgain.reactor.os.journal := ⟨_, _, _, rfl⟩
    obtain ⟨e₃, e₂, e₁, hj⟩ := hj
    have hc : (Entry.sys (μ := Mark Unit) (.recv 1003 offeredConn.input.vacant)
        (Os.call (.recv 1003 offeredConn.input.vacant) offeredAgain.reactor.os).1).isCut := by
      rw [recv_cut]
      decide
    exact ⟨phase, ho, _, _, _, hj, hc, ho.interruptions.1 _ _ _ hj hc⟩
  · have ho := cut_occurs fun _ ↦ True
    obtain ⟨j, hj⟩ := cut_journal
    exact ⟨ho, j, hj, ho.interruptions.2.1 [] 1 (.os .eintr) j hj (by decide)⟩

end Visit

end PollReactor
