import PollReactor.Proofs.Activity

namespace PollReactor

open Event (ofBits ofReport ofWord)
open Journal (Adds Fresh Returned fdOf activity)
open Relation (ReflTransGen)

variable {κ π ν : Type}

def PollBits.failures (bits : PollBits) : UInt16 := bits.hangup ||| bits.error ||| bits.invalid

namespace WatchList

/-- Of every descriptor, only readiness that was asked for was reported, or a failure. -/
def Sober (ws : WatchList) (reported : List UInt16) : Prop :=
  ∀ p ∈ ws.zip reported, p.2 &&& (p.1.events ||| PollBits.posix.failures) = p.2

instance (ws : WatchList) (reported : List UInt16) : Decidable (ws.Sober reported) :=
  inferInstanceAs (Decidable (∀ p ∈ _, _))

theorem Sober.word {ws : WatchList} {reported : List UInt16} (h : ws.Sober reported) {fd : Fd}
    (hw : ws.word reported fd ≠ 0) : ∃ e ∈ ws, e.fd = fd ∧
      ws.word reported fd &&& (e.events ||| PollBits.posix.failures) = ws.word reported fd := by
  induction ws generalizing reported with
  | nil => exact absurd rfl hw
  | cons e ws ih =>
    cases reported with
    | nil => exact absurd rfl hw
    | cons x xs =>
      obtain ⟨hx, hxs⟩ := List.forall_mem_cons.1 h
      rw [WatchList.word] at hw ⊢
      split_ifs at hw ⊢ with he
      · exact ⟨e, List.mem_cons_self, he, hx⟩
      · obtain ⟨e', he', h⟩ := ih hxs hw
        exact ⟨e', List.mem_cons_of_mem _ he', h⟩

end WatchList

namespace Event

theorem ofWord_fields (token : Nat) (word : UInt16) :
    (ofWord token word).hangup = (ofBits .posix token word).hangup ∧
      ∀ way : Way, way.told (ofWord token word) = way.told (ofBits .posix token word) := by
  unfold ofWord
  split_ifs with h
  · exact ⟨rfl, fun _ ↦ rfl⟩
  · simp only [isReady, Bool.or_eq_true, not_or, Bool.not_eq_true] at h
    obtain ⟨⟨⟨hr, hw⟩, hu⟩, hh⟩ := h
    refine ⟨hh.symm, fun way ↦ ?_⟩
    cases way with
    | input => exact hr.symm
    | output => exact hw.symm
    | urgent => exact hu.symm

end Event

namespace Way

variable {word : UInt16} {i : Interest} {token : Nat}

theorem applies_or_hangup
    (hs : word &&& (PollBits.posix.request i ||| PollBits.posix.failures) = word) (hw : word ≠ 0) :
    (∃ way : Way, way.Applies (ofWord token word) i) ∨ (ofWord token word).hangup := by
  by_contra h
  simp only [not_or, not_exists, Applies, not_and, Bool.not_eq_true] at h
  obtain ⟨hnone, hh⟩ := h
  obtain ⟨hhangup, htold⟩ := Event.ofWord_fields token word
  rw [hhangup] at hh
  have hfailures : word &&& PollBits.posix.failures = 0 := by
    simpa [ofBits, PollBits.failures] using hh
  have hbit (way : Way) (hwanted : way.wanted i) : word &&& way.bit = 0 := by
    by_contra hb
    have htrue : way.told (ofWord token word) := by
      rw [htold]
      cases way with
      | input => exact Bool.or_eq_true_iff.2 (.inl (bne_iff_ne.2 hb))
      | output | urgent => exact bne_iff_ne.2 hb
    exact absurd hwanted (Bool.eq_false_iff.1 (hnone way htrue))
  have hrequest : word &&& PollBits.posix.request i = 0 := by
    refine and_or_eq_zero.2 ⟨and_or_eq_zero.2 ⟨?_, ?_⟩, ?_⟩
    · split_ifs with hi
      · exact hbit .input hi
      · exact UInt16.and_zero
    · split_ifs with hi
      · exact hbit .output hi
      · exact UInt16.and_zero
    · split_ifs with hi
      · exact hbit .urgent hi
      · exact UInt16.and_zero
  exact hw (hs.symm.trans (and_or_eq_zero.2 ⟨hrequest, hfailures⟩))

theorem not_applies_zero (way : Way) : ¬ way.Applies (ofWord token 0) i := by
  rintro ⟨ht, -⟩
  exact reports_of_told ht UInt16.zero_and

end Way

/-- The connection has a limit, its own or else the `default`, and at `now` more than that has
passed since `last`. -/
def Channel.Overdue (ch : Channel) (default : Option Nat) (last now : Nat) : Prop :=
  ∃ limit, ch.idleLimit.or default = some limit ∧ limit ≠ 0 ∧ last + limit < now

theorem Channel.isIdle_iff (ch : Channel) (now : Nat) (default : Option Nat) :
    ch.isIdle now default ↔ ch.Overdue default ch.lastActivity now := by
  unfold isIdle Overdue
  cases ch.idleLimit.or default with
  | none => simp
  | some limit =>
    simp only [Bool.and_eq_true, decide_eq_true_eq, Option.some.injEq, exists_eq_left', ne_eq]
    omega

namespace Reactor

variable [Kernel κ] {P : Policy π ν} {r : Reactor κ π ν} {x : Watched} {event : Event} {now : Nat}
  {c : Conn} {fd : Fd}

omit [Kernel κ] in
theorem Transferred.not_timedOut {id : Nat} {way : Way} {out : Reactor κ π ν × List (Task π ν)}
    (h : Transferred P r id c fd way out) : out.2 ≠ [.finalize id .timedOut] := by
  cases h with
  | failed | ended | told => nofun
  | silent =>
    unfold afterService
    split_ifs <;> nofun

theorem attend_timedOut_iff (hc : r.conn? x.id = some c) (hfd : c.fd? = some fd) (event : Event)
    (now : Nat) : (attend P x event now r).2 = [.finalize x.id .timedOut] ↔
      ¬ (c.closePending ∧ c.output.isEmpty) ∧ (∀ way : Way, ¬ way.Applies event x.interest) ∧
        event.hangup = false ∧ c.isIdle now r.idleLimit := by
  have h := attend_attendance (P := P) hc hfd event now
  generalize attend P x event now r = out at h ⊢
  cases h with
  | leaves hl => exact ⟨nofun, fun h ↦ absurd hl h.1⟩
  | transfers _ way hw h => exact ⟨fun he ↦ absurd he h.not_timedOut, fun h ↦ absurd hw (h.2.1 way)⟩
  | hangs _ _ hh => exact ⟨nofun, fun h ↦ absurd (hh.symm.trans h.2.2.1) nofun⟩
  | idles hl hw hh hi => exact ⟨fun _ ↦ ⟨hl, hw, hh, hi⟩, fun _ ↦ rfl⟩
  | rests _ _ _ hi => exact ⟨nofun, fun h ↦ absurd (hi.symm.trans h.2.2.2) nofun⟩

end Reactor

theorem Conn.perform_idleLimit (c : Conn) (op : ConnOp) :
    (c.perform op).2.1.idleLimit = c.idleLimit := by
  by_cases h : op = .readUrgent
  · rw [h]
    rfl
  · obtain ⟨_, _, _, _, _, hc⟩ := c.differs_perform h
    rw [hc]

namespace Reactor

variable {r r' : Reactor κ π ν}

/-- Connections keep the limits of their own. -/
def Limits (r r' : Reactor κ π ν) : Prop :=
  ∀ id c, r.conn? id = some c → ∃ c', r'.conn? id = some c' ∧ c'.idleLimit = c.idleLimit

theorem Limits.apart (h : r'.conns = r.conns) : Limits r r' :=
  fun id c hc ↦ ⟨c, (conn?_congr h id).trans hc, rfl⟩

theorem Limits.trans {r'' : Reactor κ π ν} (h : Limits r r') (h' : Limits r' r'') :
    Limits r r'' := by
  intro id c hc
  obtain ⟨c', hc', he⟩ := h id c hc
  obtain ⟨c'', hc'', he'⟩ := h' id c' hc'
  exact ⟨c'', hc'', he'.trans he⟩

theorem Limits.setConn {id : Nat} {c c' : Conn} (hc : r.conn? id = some c)
    (hconn : ∀ id', r'.conn? id' = if id' = id then some c' else r.conn? id')
    (he : c'.idleLimit = c.idleLimit) : Limits r r' := by
  intro id' d hd
  rw [hconn]
  split_ifs with hid
  · obtain rfl := Option.some.inj (hd.symm.trans (hid ▸ hc))
    exact ⟨c', rfl, he⟩
  · exact ⟨d, hd, rfl⟩

variable [Kernel κ] {P : Policy π ν}

theorem request_limits (q : Request) (r : Reactor κ π ν) : Limits r (request q r).2 := by
  have hs := request_stirs q r
  generalize (request q r).2 = r' at hs ⊢
  induction hs with
  | refl => exact .apart rfl
  | tail _ hs ih =>
    refine ih.trans ?_
    cases hs with
    | called id c op hc => exact .setConn hc (callConn_conn? hc op) (c.perform_idleLimit op)
    | wake => exact .apart (wake_conns _)
    | cancel => exact .apart (wake_conns _)
    | clock | answered => exact .apart rfl

theorem Service.limits {id : Nat} {c : Conn} {sends : Bool} (h : Service r id c sends r')
    (hc : r.conn? id = some c) : Limits r r' := by
  have hset (os : Os κ (Mark ν)) {c' : Conn} (he : c'.idleLimit = c.idleLimit) :
      Limits r (Reactor.setConn { r with os } id c') :=
    .setConn hc (conn?_setConn (r := { r with os }) hc c') he
  cases h with
  | nothing => exact .apart rfl
  | input =>
    obtain ⟨⟨input, now, he⟩, -⟩ := c.receive_spec r.os
    exact hset _ (congrArg (·.idleLimit) he)
  | output =>
    obtain ⟨⟨output, high, now, he⟩, -⟩ := c.transmit_spec r.os
    exact hset _ (congrArg (·.idleLimit) he)
  | urgent =>
    obtain ⟨⟨urgent, now, he⟩, -⟩ := c.receiveUrgent_spec r.os
    exact hset _ (congrArg (·.idleLimit) he)
  | hangup => exact hset r.os rfl

theorem Deed.limits {first : Task π ν} (h : Deed first r r') : Limits r r' := by
  cases h with
  | nothing | aside | clock => exact .apart rfl
  | request q => exact request_limits q r
  | wake => exact .apart (wake_conns r)
  | settled events => exact .apart (settleWaker_conns events r)
  | repooled h =>
    obtain ⟨os, pool, rfl, -⟩ := h
    exact .apart rfl
  | enrolled t peer d now =>
    intro id c hc
    have hle := (conn?_bounds hc).2
    exact ⟨c, by rw [conn?_enrolled, if_neg (by omega), hc], rfl⟩
  | served _ hc hs => exact hs.limits hc
  | told _ hc hs => exact (hs.limits hc).trans (.apart rfl)
  | @ended id =>
    obtain ⟨os, pool, conns, -, -, hconn, -⟩ := part_spec id r
    intro id' c hc
    show ∃ c', (part id r).conn? id' = some c' ∧ _
    rw [hconn]
    split_ifs with he
    · rw [← he, hc]
      exact ⟨_, rfl, rfl⟩
    · exact ⟨c, hc, rfl⟩
  | relistened h =>
    obtain ⟨os, listener, rfl, -⟩ := h
    exact .apart rfl

theorem advance_limits (first : Task π ν) (r : Reactor κ π ν) :
    Limits r (advance P first r).1 := by
  obtain ⟨app, h⟩ := advance_deed (P := P) first r
  exact h.limits

end Reactor

theorem Next.tasks_phase {rest : List (Task π ν)} (next : Next π ν) :
    (next.phase rest).tasks ⊆ next.tasks ++ rest := by
  cases next with
  | go ts =>
    rw [phase, Phase.tasks_ofTasks]
    exact List.Subset.refl _
  | only ts =>
    rw [phase, Phase.tasks_ofTasks]
    exact List.subset_append_left _ _
  | wait w => exact List.nil_subset _

theorem Phase.watches_of_tasks {phase : Phase π ν} {t : Task π ν} (ht : t ∈ phase.tasks)
    {x : Watched} (hx : x ∈ t.watches) : x ∈ phase.watches := by
  cases phase with
  | busy first rest => exact List.mem_flatMap.2 ⟨t, ht, hx⟩
  | _ => cases ht

abbrev Entry.evicts (id : Nat) : Entry (Mark ν) := .remark (.callback (.timedOut id))

namespace Moment

open Reactor

variable [Kernel κ] {P : Policy π ν} {outside : Phase π ν → Prop} {m m' : Moment κ π ν} {id : Nat}

/-- The connection is not to be served any more in this turn. -/
def Unserved (id : Nat) (m : Moment κ π ν) : Prop := ∀ t ∈ m.phase.tasks, ∀ x ∈ t.watches, x.id ≠ id

theorem Unserved.turns (h : Unserved id m) (hs : Turns P outside m m') : Unserved id m' := by
  obtain ⟨hb, hs⟩ := hs
  cases hs with
  | kernel | listener | request => exact h
  | task r first rest =>
    intro t ht x hx
    rcases advance_watches (P := P) first r rest with hw | hw
    · rcases List.mem_append.1 (hw (Phase.watches_of_tasks ht hx)) with hx | hx
      · exact h first List.mem_cons_self x hx
      · obtain ⟨t, ht, hx⟩ := List.mem_flatMap.1 hx
        exact h t (List.mem_cons_of_mem first ht) x hx
    · dsimp only at ht
      rw [hw] at ht
      cases ht
  | _ => cases hb

def Serves (P : Policy π ν) (id : Nat) (m m' : Moment κ π ν) : Prop :=
  ∃ x event now rest, m.phase = .busy (.serve x event now) rest ∧ m' = tasked P m ∧ x.id = id

theorem Unserved.not_serves (h : Unserved id m) : ¬ Serves P id m m' := by
  rintro ⟨x, event, now, rest, hm, -, hid⟩
  refine h (.serve x event now) ?_ x List.mem_cons_self hid
  rw [hm]
  exact List.mem_cons_self

theorem not_due_turns {why : Teardown} (hwhy : (Task.finalize id why : Task π ν).isVerdict)
    (hs : Turns P outside m m') (hserves : ¬ Serves P id m m')
    (hdue : .finalize id why ∉ m.phase.tasks) : .finalize id why ∉ m'.phase.tasks := by
  obtain ⟨hb, hs⟩ := hs
  cases hs with
  | kernel | listener | request => exact hdue
  | task r first rest =>
    intro ht
    rcases List.mem_append.1 (Next.tasks_phase _ ht) with ht | ht
    · rcases advance_verdict (P := P) first r with hv | ⟨x, event, now, why', rfl, hv⟩
      · cases hwhy.symm.trans (hv _ ht)
      · rw [hv] at ht
        obtain ⟨rfl, -⟩ := Task.finalize.inj (List.mem_singleton.1 ht)
        exact hserves ⟨x, event, now, rest, rfl, rfl, rfl⟩
    · exact hdue (List.mem_cons_of_mem first ht)
  | _ => cases hb

theorem not_told_quiet {why : Teardown} {j j' : Journal ν} (hj : Adds (·.isQuiet) j j')
    (h : .remark (.callback (why.callback id)) ∉ j) :
    .remark (.callback (why.callback id)) ∉ j' := by
  obtain ⟨new, rfl, hn⟩ := hj
  exact fun hmem ↦ (List.mem_append.1 hmem).elim (fun hmem ↦ nomatch hn _ hmem) h

theorem not_told_advance (why : Teardown) {first : Task π ν} {r : Reactor κ π ν}
    (h : .remark (.callback (why.callback id)) ∉ r.os.journal) (hfirst : first ≠ .finalize id why) :
    .remark (.callback (why.callback id)) ∉ (advance P first r).1.os.journal := by
  have hcons {m : Mark ν} {j : Journal ν} (hj : Adds (·.isQuiet) r.os.journal j)
      (hne : m ≠ .callback (why.callback id)) :
      .remark (.callback (why.callback id)) ∉ Entry.remark m :: j := by
    intro hmem
    rcases List.mem_cons.1 hmem with he | hmem
    · exact hne (Entry.remark.inj he).symm
    · exact not_told_quiet hj h hmem
  cases advance_turnover (P := P) first r with
  | quiet _ _ journal => exact not_told_quiet journal h
  | told cb ht _ _ _ j hj journal =>
    rw [journal]
    refine hcons hj fun hcb ↦ ?_
    rw [Mark.callback.inj hcb] at ht
    cases why <;> cases ht
  | admitted fd d _ _ j hj journal =>
    rw [journal]
    exact hcons hj nofun
  | ended id' why' he _ _ j hj journal =>
    rw [journal]
    refine hcons hj fun hcb ↦ hfirst ?_
    cases why <;> cases why' <;> cases hcb <;> exact he

theorem not_told_turns (why : Teardown) (hs : Turns P outside m m')
    (h : .remark (.callback (why.callback id)) ∉ m.journal)
    (hdue : .finalize id why ∉ m.phase.tasks) :
    .remark (.callback (why.callback id)) ∉ m'.journal := by
  obtain ⟨hb, hs⟩ := hs
  cases hs with
  | kernel => exact h
  | listener r phase text =>
    exact not_told_quiet ((listenOn_still text r).journal.mono fun _ he ↦ he.chore.quiet) h
  | request r phase q _ =>
    exact not_told_quiet ((request_still q r).journal.mono fun _ he ↦ he.quiet) h
  | task r first rest =>
    refine not_told_advance why h ?_
    rintro rfl
    exact hdue List.mem_cons_self
  | _ => cases hb

theorem unserved_of_turns (h : Unserved id m) (hs : ReflTransGen (Turns P outside) m m') :
    Unserved id m' := by
  induction hs with
  | refl => exact h
  | tail _ hs ih => exact ih.turns hs

theorem not_told_of_turns (why : Teardown) (hwhy : (Task.finalize id why : Task π ν).isVerdict)
    (hunserved : Unserved id m) (hdue : .finalize id why ∉ m.phase.tasks)
    (h : .remark (.callback (why.callback id)) ∉ m.journal)
    (hs : ReflTransGen (Turns P outside) m m') :
    .remark (.callback (why.callback id)) ∉ m'.journal := by
  have hboth : .finalize id why ∉ m'.phase.tasks ∧
      .remark (.callback (why.callback id)) ∉ m'.journal := by
    induction hs with
    | refl => exact ⟨hdue, h⟩
    | tail hpath hs ih =>
      exact ⟨not_due_turns hwhy hs (unserved_of_turns hunserved hpath).not_serves ih.1,
        not_told_turns why hs ih.2 ih.1⟩
  exact hboth.2

theorem told_of_turns {why : Teardown} {rest : List (Task π ν)}
    (hm : m.phase = .busy (.finalize id why) rest) (hs : ReflTransGen (Turns P outside) m m')
    (hend : m'.phase.isBusy = false) : .remark (.callback (why.callback id)) ∈ m'.journal := by
  -- The task stays next until it is done, whatever happens beside it.
  have htold : (∃ rest, m'.phase = .busy (.finalize id why) rest) ∨
      .remark (.callback (why.callback id)) ∈ m'.journal := by
    clear hend
    induction hs with
    | refl => exact .inl ⟨rest, hm⟩
    | @tail m₁ m₂ _ hs ih =>
      obtain ⟨hb, hs⟩ := hs
      rcases ih with ⟨rest, hm⟩ | hmem
      · cases hs with
        | kernel | listener | request => exact .inl ⟨rest, hm⟩
        | task r first rest' =>
          cases hm
          exact .inr List.mem_cons_self
        | _ => cases hb
      · obtain ⟨new, hnew, -⟩ := hs.grows.journal
        refine .inr ?_
        rw [Moment.journal, hnew]
        exact List.mem_append_right _ hmem
  rcases htold with ⟨rest, hm⟩ | hmem
  · rw [hm] at hend
    cases hend
  · exact hmem

variable {b : Builder} {m₀ : Moment κ π ν} {w : Wait} {reported : List UInt16} {x : Watched}
  {event : Event} {now : Nat} {fd : Fd}

theorem Occurs.turns (h : Occurs P outside b m) (hs : ReflTransGen (Turns P outside) m m') :
    Occurs P outside b m' :=
  h.acts (ReflTransGen.mono (fun _ _ hs ↦ .step hs.2) _ _ hs)

theorem turns_tasks (n : Nat) (m : Moment κ π ν) :
    ReflTransGen (Turns P outside) m ((Moment.tasked P)^[n] m) := by
  induction n with
  | zero => exact .refl
  | succ n ih =>
    rw [Function.iterate_succ_apply']
    refine ih.trans ?_
    generalize (Moment.tasked P)^[n] m = m'
    rcases m' with ⟨r, phase⟩
    cases phase with
    | busy first rest => exact .single ⟨rfl, .task r first rest⟩
    | _ => exact .refl

theorem limits_of_turns (hs : ReflTransGen (Turns P outside) m m') :
    Limits m.reactor m'.reactor := by
  induction hs with
  | refl => exact .apart rfl
  | tail _ hs ih =>
    refine ih.trans ?_
    obtain ⟨hb, hs⟩ := hs
    cases hs with
    | kernel | listener => exact .apart rfl
    | request r phase q _ => exact request_limits q r
    | task r first rest => exact advance_limits first r
    | _ => cases hb

/-- The wait `w` at `m₀` was answered, and the turn behind it has come to `m`. -/
abbrev Answered (P : Policy π ν) (outside : Phase π ν → Prop) (w : Wait) (reported : List UInt16)
    (m₀ m : Moment κ π ν) : Prop :=
  ReflTransGen (Turns P outside) (opened w (ofReport .posix w.list reported) m₀.reactor) m

/-- In the turn behind the wait `w` at `m₀`, the place of the connection `x` comes at `m`. -/
abbrev Comes (P : Policy π ν) (outside : Phase π ν → Prop) (w : Wait) (reported : List UInt16)
    (m₀ : Moment κ π ν) : Watched → Event → Nat → Moment κ π ν → Prop :=
  Place P outside w (ofReport .posix w.list reported)
    (opened w (ofReport .posix w.list reported) m₀.reactor)

theorem Occurs.answered (h : Occurs P outside b m₀) (hw : m₀.phase = .waiting w)
    (reported : List UInt16) :
    Occurs P outside b (opened w (ofReport .posix w.list reported) m₀.reactor) := by
  rcases m₀ with ⟨r, phase⟩
  obtain rfl : phase = .waiting w := hw
  exact h.act (.step (.wake r w reported))

/-- The connection has not come to the end of a close, and no byte of it moved for too long. -/
def Overdue (id now : Nat) (m : Moment κ π ν) : Prop :=
  ∃ c last, m.reactor.conn? id = some c ∧ ¬ (c.closePending ∧ c.output.isEmpty) ∧
    activity id m.journal = some last ∧ c.Overdue m.reactor.idleLimit last now

omit [Kernel κ] in
theorem Abides.listed {r : Reactor κ π ν} (ha : Abides r w reported m) {rest : List (Task π ν)}
    (hm : m.phase = .busy (.serve x event now) rest) : ∃ place, w.watched[place]? = some x ∧
      event = r.heard (w.list.word reported) x place := by
  have hdue := ha.due (.serve x event now) (by
    rw [hm]
    exact List.mem_cons_self)
  obtain ⟨⟨x', place⟩, hplace, he⟩ := List.mem_map.1 hdue
  obtain ⟨rfl, rfl⟩ := Prod.mk.inj he
  exact ⟨place, List.mem_zipIdx_iff_getElem?.1 hplace, rfl⟩

theorem Comes.heard (h : Occurs P outside b m₀) (hw : m₀.phase = .waiting w)
    (hf : Fresh m₀.journal) (hfd : m₀.reactor.fd? x.id = some fd)
    (hp : Comes P outside w reported m₀ x event now m) :
    ∃ place, event = ofWord place (w.list.word reported fd) ∧
      ∀ e ∈ w.list, e.fd = fd → e.events = PollBits.posix.request x.interest := by
  have hr := h.routes hf hw
  obtain ⟨rest, hserve⟩ := hp.served
  obtain ⟨place, hplace, rfl⟩ := (abides_of_turns hr hp.reached).listed hserve
  obtain ⟨fd', hfd', hlisted, -⟩ := hr.listed place x hplace
  obtain rfl : fd' = fd := Option.some.inj (hfd'.symm.trans hfd)
  refine ⟨place, ?_, fun e he hefd ↦ ?_⟩
  · rw [Reactor.heard, hfd, Option.elim_some]
  · obtain ⟨-, rfl⟩ := (hlisted e).1 ⟨he, hefd⟩
    rfl

theorem Comes.silent (h : Occurs P outside b m₀) (hw : m₀.phase = .waiting w)
    (hf : Fresh m₀.journal) (hfd : m₀.reactor.fd? x.id = some fd)
    (hp : Comes P outside w reported m₀ x event now m) (hword : w.list.word reported fd = 0) :
    (∀ way : Way, ¬ way.Applies event x.interest) ∧ event.hangup = false := by
  obtain ⟨place, rfl, -⟩ := Comes.heard h hw hf hfd hp
  rw [hword]
  refine ⟨Way.not_applies_zero, ?_⟩
  rw [(Event.ofWord_fields place 0).1]
  rfl

theorem Comes.event_iff (h : Occurs P outside b m₀) (hw : m₀.phase = .waiting w)
    (hs : w.list.Sober reported) (hf : Fresh m₀.journal) (hfd : m₀.reactor.fd? x.id = some fd)
    (hp : Comes P outside w reported m₀ x event now m) :
    (∀ way : Way, ¬ way.Applies event x.interest) ∧ event.hangup = false ↔
      w.list.word reported fd = 0 := by
  refine ⟨?_, Comes.silent h hw hf hfd hp⟩
  obtain ⟨place, rfl, hrequest⟩ := Comes.heard h hw hf hfd hp
  rintro ⟨hnone, hh⟩
  by_contra hword
  obtain ⟨e, he, hefd, hsober⟩ := hs.word hword
  rw [hrequest e he hefd] at hsober
  obtain ⟨way, ha⟩ | hh' : (∃ way : Way, way.Applies (ofWord place _) _) ∨ _ :=
    Way.applies_or_hangup hsober hword
  · exact hnone way ha
  · cases hh.symm.trans hh'

theorem Comes.known (h : Occurs P outside b m₀) (hw : m₀.phase = .waiting w)
    (hf : Fresh m.journal) (hp : Comes P outside w reported m₀ x event now m) :
    ∃ c fd, m.reactor.conn? x.id = some c ∧ c.fd? = some fd ∧
      activity x.id m.journal = some c.lastActivity := by
  have hocc := (h.answered hw reported).turns hp.reached
  obtain ⟨rest, hserve⟩ := hp.served
  have hlive : x.id ∈ m.reactor.live := hocc.settled.alive x.id (by
    rw [hserve]
    exact List.mem_cons_self)
  have hsound := hocc.agrees.sound.holding
  obtain ⟨c, -, -, hc, -⟩ := hsound.live hlive
  obtain ⟨fd, hfd⟩ : ∃ fd, c.fd? = some fd := by
    rw [hserve] at hsound
    exact hsound.fd?_of_live hlive hc
  have hactive : Journal.Active x.id c.lastActivity m.journal :=
    hocc.timed hf x.id (by rw [hserve]; nofun) c fd hc hfd
  exact ⟨c, fd, hc, hfd, hactive.2⟩

theorem Comes.verdict_iff (h : Occurs P outside b m₀) (hw : m₀.phase = .waiting w)
    (hs : w.list.Sober reported) (hf : Fresh m.journal) (hfd : m₀.reactor.fd? x.id = some fd)
    (hp : Comes P outside w reported m₀ x event now m) :
    (attend P x event now m.reactor).2 = [.finalize x.id .timedOut] ↔
      w.list.word reported fd = 0 ∧ m.Overdue x.id now := by
  have hf₀ : Fresh m₀.journal := (grows_of_turns hp.reached).fresh hf
  obtain ⟨c, fd', hc, hfd', hlast'⟩ := Comes.known h hw hf hp
  rw [attend_timedOut_iff hc hfd', c.isIdle_iff, ← Comes.event_iff h hw hs hf₀ hfd hp]
  constructor
  · rintro ⟨hclose, hnone, hh, hi⟩
    exact ⟨⟨hnone, hh⟩, c, c.lastActivity, hc, hclose, hlast', hi⟩
  · rintro ⟨⟨hnone, hh⟩, c', last, hc', hclose, hlast, hi⟩
    obtain rfl := Option.some.inj (hc.symm.trans hc')
    obtain rfl := Option.some.inj (hlast'.symm.trans hlast)
    exact ⟨hclose, hnone, hh, hi⟩

omit [Kernel κ] in
theorem not_told_of_live (why : Teardown) {r : Reactor κ π ν} (h : Told r) (hid : id ∈ r.live) :
    .remark (.callback (why.callback id)) ∉ r.os.journal := by
  have hnone : Journal.farewells id r.os.journal = 0 := (h.farewells id).trans (if_pos hid)
  refine fun hmem ↦ List.countP_eq_zero.1 hnone _ hmem ?_
  cases why <;>
    simp [Entry.parts, Entry.callback?, Teardown.callback, Callback.isTerminal, Callback.id]

theorem unserved_of_served {rest : List (Task π ν)} (hs : Settled m)
    (hm : m.phase = .busy (.serve x event now) rest) :
    Unserved x.id (tasked P m) ∧ ∀ why, .finalize x.id why ∈ (tasked P m).phase.tasks →
      .finalize x.id why ∈ (attend P x event now m.reactor).2 := by
  rcases m with ⟨r, phase⟩
  obtain rfl : phase = _ := hm
  have htasks : (tasked P ⟨r, .busy (.serve x event now) rest⟩).phase.tasks =
      (attend P x event now r).2 ++ rest := Phase.tasks_ofTasks _
  have hne {t : Task π ν} (ht : t ∈ rest) {id : Nat} (hid : id ∈ t.subjects) : id ≠ x.id := by
    rintro rfl
    exact (List.nodup_cons.1 hs.ahead).1 (List.mem_flatMap.2 ⟨t, ht, hid⟩)
  refine ⟨fun t ht y hy ↦ ?_, fun why ht ↦ ?_⟩
  · rw [htasks] at ht
    rcases List.mem_append.1 ht with ht | ht
    · cases attend_sequel ht <;> cases hy
    · exact hne ht (Task.watches_subjects hy)
  · rw [htasks] at ht
    exact (List.mem_append.1 ht).resolve_right fun ht ↦ hne ht List.mem_cons_self rfl

theorem Comes.told_iff (h : Occurs P outside b m₀) (hw : m₀.phase = .waiting w) (why : Teardown)
    (hwhy : (Task.finalize x.id why : Task π ν).isVerdict)
    (hp : Comes P outside w reported m₀ x event now m)
    (hpath : ReflTransGen (Turns P outside) (tasked P m) m') (hend : m'.phase.isBusy = false) :
    .remark (.callback (why.callback x.id)) ∈ m'.journal ↔
      (attend P x event now m.reactor).2 = [.finalize x.id why] := by
  have hs := ((h.answered hw reported).turns hp.reached).settled
  obtain ⟨rest, hserve⟩ := hp.served
  have hlive : x.id ∈ m.reactor.live := hs.alive x.id (by
    rw [hserve]
    exact List.mem_cons_self)
  obtain ⟨hunserved, hdue⟩ := unserved_of_served (P := P) hs hserve
  have hnone := not_told_of_live why hs.told hlive
  constructor
  · intro hmem
    -- Without that verdict in its one service, there is no task that tells of it.
    by_contra hv
    refine not_told_of_turns why hwhy hunserved (fun ht ↦ ?_) ?_ hpath hmem
    · rcases attend_verdict (P := P) x event now m.reactor with hno | ⟨why', he⟩
      · cases hwhy.symm.trans (hno _ (hdue _ ht))
      · have hmem := hdue _ ht
        rw [he] at hmem
        obtain ⟨-, rfl⟩ := Task.finalize.inj (List.mem_singleton.1 hmem)
        exact hv he
    · rcases m with ⟨r, phase⟩
      obtain rfl : phase = _ := hserve
      exact not_told_advance why hnone nofun
  · intro hv
    have hnext : (tasked P m).phase = .busy (.finalize x.id why) rest := by
      unfold tasked
      rw [hserve]
      simp only [advance, hv, Next.phase]
      rfl
    exact told_of_turns hnext hpath hend

theorem Comes.evicted_iff (h : Occurs P outside b m₀) (hw : m₀.phase = .waiting w)
    (hs : w.list.Sober reported) (hf : Fresh m'.journal) (hfd : m₀.reactor.fd? x.id = some fd)
    (hp : Comes P outside w reported m₀ x event now m)
    (hpath : ReflTransGen (Turns P outside) (tasked P m) m') (hend : m'.phase.isBusy = false) :
    .evicts x.id ∈ m'.journal ↔ w.list.word reported fd = 0 ∧ m.Overdue x.id now := by
  have hf := (grows_of_turns ((turns_tasks 1 m).trans hpath)).fresh hf
  rw [← Comes.verdict_iff h hw hs hf hfd hp]
  exact Comes.told_iff h hw .timedOut rfl hp hpath hend

theorem Occurs.unadmitted (h : Occurs P outside b m) {c : Conn} (hc : m₀.reactor.conn? id = some c)
    (h₀ : Occurs P outside b m₀) {new : Journal ν} (hnew : m.journal = new ++ m₀.journal) :
    ∀ e ∈ new, e.admits id = false := by
  have honce : Journal.admissions id m₀.journal = 1 :=
    (h₀.settled.told.admissions id).trans (if_pos (conn?_bounds hc))
  have hmost : Journal.admissions id m.journal = if _ then 1 else 0 :=
    h.settled.told.admissions id
  have hsum : Journal.admissions id m.journal =
      new.countP (·.admits id) + Journal.admissions id m₀.journal := by
    rw [hnew]
    exact List.countP_append
  have hzero : new.countP (·.admits id) = 0 := by
    split_ifs at hmost <;> omega
  simpa using List.countP_eq_zero.1 hzero

theorem activity_of_turns (h : Occurs P outside b m₀) (hw : m₀.phase = .waiting w)
    (hm : Occurs P outside b m) (hf : Fresh m₀.journal)
    (hfd : m₀.reactor.fd? id = some fd) {new : Journal ν} (hnew : m.journal = new ++ m₀.journal)
    (hstill : ∀ e ∈ new, e.stirs fd = false) :
    activity id m.journal = activity id m₀.journal := by
  obtain ⟨c, hc, hcfd⟩ := fd?_eq_some hfd
  have hactive : Journal.Active id c.lastActivity m₀.journal :=
    h.timed hf id (by rw [hw]; nofun) c fd hc hcfd
  have hfdOf : fdOf id m₀.journal = some fd :=
    ((h.accounted hf).fd id).trans (owned_of_fd? hc hcfd)
  have hactive' : Journal.Active id c.lastActivity m.journal := by
    rw [hnew]
    refine hactive.still (hm.unadmitted hc h hnew) fun fd' hfd' ↦ ?_
    obtain rfl := Option.some.inj (hfd'.symm.trans hfdOf)
    exact hstill
  exact hactive'.2.trans hactive.2.symm

/-- What a turn did to the connection `id` on the descriptor `fd`, from the answer to the wait `w`
at `m₀` to its end at `m`. -/
structure Judged (P : Policy π ν) (outside : Phase π ν → Prop) (w : Wait) (reported : List UInt16)
    (m₀ m : Moment κ π ν) (id : Nat) (fd : Fd) : Prop where
  before : .evicts id ∉ m₀.journal
  came : ∃ x event now m', x.id = id ∧ Comes P outside w reported m₀ x event now m' ∧
    ReflTransGen (Turns P outside) (tasked P m') m
  exact : ∀ x event now m', x.id = id → Comes P outside w reported m₀ x event now m' →
    ReflTransGen (Turns P outside) (tasked P m') m →
    (.evicts id ∈ m.journal ↔ w.list.word reported fd = 0 ∧ m'.Overdue id now)
  /-- A limit of zero is none, whatever the limit of the reactor. -/
  exempt : ∀ c, m₀.reactor.conn? id = some c → c.idleLimit = some 0 → .evicts id ∉ m.journal
  /-- A turn that moves no byte of the connection postpones nothing. -/
  rests : ∀ new, m.journal = new ++ m₀.journal → (∀ e ∈ new, e.stirs fd = false) →
    activity id m.journal = activity id m₀.journal

/-- Idleness is judged exactly. In a turn behind a wait to which the system answered soberly, if no
callback raises, a connection is evicted if and only if, when its place comes, nothing was reported
of it, it has not come to the end of a close, and by the clock of the turn more than its limit has
passed since a byte of it moved, or since it was admitted. So it is also if others make requests
meanwhile. -/
theorem Occurs.eviction_exact (h : Occurs P outside b m₀) (hw : m₀.phase = .waiting w)
    (hs : w.list.Sober reported) :
    Answered P outside w reported m₀ ⟨(resume P w (.ok reported) m₀.reactor).2,
      .ofProgress (resume P w (.ok reported) m₀.reactor).1⟩ ∧
    ∀ m, Answered P outside w reported m₀ m → m.phase.isBusy = false → Fresh m.journal →
      Returned m.journal → ∀ id ∈ m₀.reactor.live,
        ∃ fd, m₀.reactor.fd? id = some fd ∧ Judged P outside w reported m₀ m id fd := by
  refine ⟨turns_of_works (resume_works w reported m₀.reactor), fun m hm hend hf hr id hid ↦ ?_⟩
  have hopened := h.answered hw reported
  have hf₀ : Fresh m₀.journal := (grows_of_turns hm).fresh hf
  have hroutes := h.routes hf₀ hw
  obtain ⟨x, hx, rfl⟩ : ∃ x ∈ w.watched, x.id = id := by
    rw [← hroutes.ids] at hid
    exact List.mem_map.1 hid
  obtain ⟨k, hk⟩ := List.getElem?_of_mem hx
  obtain ⟨fd, hfd, -⟩ := hroutes.listed k x hk
  have hexact (x' : Watched) (event : Event) (now : Nat) (m' : Moment κ π ν) (hid' : x'.id = x.id)
      (hp : Comes P outside w reported m₀ x' event now m')
      (hpath : ReflTransGen (Turns P outside) (Moment.tasked P m') m) :
      .evicts x.id ∈ m.journal ↔ w.list.word reported fd = 0 ∧ m'.Overdue x.id now := by
    have hiff := Comes.evicted_iff h hw hs hf (hid' ▸ hfd) hp hpath hend
    rwa [hid'] at hiff
  obtain ⟨m', event, now, hp, hpath⟩ := passed_of_turns hopened.agrees hm hend hr hx
  refine ⟨fd, hfd, not_told_of_live .timedOut h.settled.told hid,
    ⟨x, event, now, m', rfl, hp, hpath⟩, hexact, fun c hc hzero hmem ↦ ?_,
    fun new ↦ activity_of_turns h hw (hopened.turns hm) hf₀ hfd⟩
  obtain ⟨-, c', last, hc', -, -, limit, hlimit, hne, -⟩ :=
    (hexact x event now m' rfl hp hpath).1 hmem
  obtain ⟨c'', hc'', he⟩ := limits_of_turns hp.reached x.id c hc
  obtain rfl := Option.some.inj (hc'.symm.trans hc'')
  rw [he, hzero] at hlimit
  exact hne (Option.some.inj hlimit).symm

end Moment

namespace Visit

open Simulation Moment

def limited : Builder := { builder with idleLimit := some 10 }

def limitedStarted : Reactor World Unit Unit :=
  (Reactor.start policy (Reactor.adopt 1000 { built with idleLimit := some 10 }).2).2

def limitedTurned : Progress × Reactor World Unit Unit :=
  Reactor.resume policy limitedStarted.prepare (.ok [0, 1]) limitedStarted

def dozed : Moment World Unit Unit :=
  ⟨{ limitedTurned.2 with os.kernel := { limitedTurned.2.os.kernel with clock := 11 } },
    .ofProgress limitedTurned.1⟩

theorem dozed_occurs (outside : Phase Unit Unit → Prop) : Occurs policy outside limited dozed := by
  refine ⟨(), ⟨world, []⟩, { built with idleLimit := some 10 }, built.os, rfl, rfl, ?_⟩
  have hs := Reactor.SetUp.adopt (r := { built with idleLimit := some 10 }) 1000
    (.inl built_not_owns)
  refine .tail (.tail (.tail (.tail .refl (.step (.setUp hs))) (.start _)) ?_)
    (.step (.kernel limitedTurned.2 _ _))
  exact .resume limitedStarted limitedStarted.prepare (.ok [0, 1])

attribute [irreducible] limitedTurned

def forgotten : Moment World Unit Unit := (tasked policy)^[2] (woken id [0, 0, 0] dozed)

theorem dozed_waits : ∃ w, dozed.phase = .waiting w ∧ w.list.Sober [0, 0, 0] ∧
    w.list.word [0, 0, 0] 1003 = 0 := by
  have h : dozed.phase.waits fun w ↦
      w.list.Sober [0, 0, 0] ∧ w.list.word [0, 0, 0] 1003 = 0 := by decide +kernel
  obtain ⟨w, hw, hq⟩ := Phase.exists_of_waits h
  exact ⟨w, hw, of_decide_eq_true hq⟩

theorem forgotten_due : ∃ x event, forgotten.phase = .busy (.serve x event 11) [.proceed] ∧
    x.id = 1 := by
  obtain ⟨x, event, now, hm, h⟩ := serve_due forgotten (fun x _ now ↦ x.id = 1 ∧ now = 11)
    (by decide +kernel)
  obtain ⟨hid, rfl⟩ := of_decide_eq_true h
  exact ⟨x, event, hm, hid⟩

theorem forgotten_overdue : forgotten.Overdue 1 11 := by
  obtain ⟨c, hc, hq⟩ : ∃ c, forgotten.reactor.conn? 1 = some c ∧
      !c.closePending && c.idleLimit = none := (Option.any_eq_true _ _).1 (by decide +kernel)
  simp only [Bool.and_eq_true, Bool.not_eq_true', decide_eq_true_eq] at hq
  have hlimit : forgotten.reactor.idleLimit = some 10 := by decide +kernel
  refine ⟨c, 0, hc, fun h ↦ ?_, by decide +kernel, 10, ?_, by decide, by decide⟩
  · cases hq.1.symm.trans h.1
  · rw [hq.2, hlimit]
    rfl

def evicted : Moment World Unit Unit := (tasked policy)^[4] forgotten

theorem dozed_evicted : Occurs policy (fun _ ↦ True) limited dozed ∧ ∃ w, dozed.phase = .waiting w ∧
    w.list.Sober [0, 0, 0] ∧ Answered policy (fun _ ↦ True) w [0, 0, 0] dozed evicted ∧
      evicted.phase.isBusy = false ∧ Fresh evicted.journal ∧ Returned evicted.journal ∧
        1 ∈ dozed.reactor.live ∧ .evicts 1 ∉ dozed.journal ∧ .evicts 1 ∈ evicted.journal := by
  obtain ⟨w, hw, hs, hword⟩ := dozed_waits
  obtain ⟨x, event, hm, hid⟩ := forgotten_due
  have ho := dozed_occurs fun _ ↦ True
  have hopened : woken id [0, 0, 0] dozed = opened w (ofReport .posix w.list [0, 0, 0])
      dozed.reactor := by
    unfold woken
    rw [hw]
    rfl
  have hturned : Answered policy (fun _ ↦ True) w [0, 0, 0] dozed forgotten := by
    rw [Answered, ← hopened]
    exact turns_tasks 2 _
  have hcomes : Comes policy (fun _ ↦ True) w [0, 0, 0] dozed x event 11 forgotten :=
    place_of_turns (ho.answered hw [0, 0, 0]).agrees hturned hm
  have hrest : ReflTransGen (Turns policy fun _ ↦ True) (tasked policy forgotten) evicted :=
    turns_tasks 3 (tasked policy forgotten)
  have hend : evicted.phase.isBusy = false := by decide +kernel
  have hf : Fresh evicted.journal := by decide +kernel
  have hr : Returned evicted.journal := by decide +kernel
  have hlive : 1 ∈ dozed.reactor.live := by decide +kernel
  have hevicted : Answered policy (fun _ ↦ True) w [0, 0, 0] dozed evicted :=
    hturned.trans (turns_tasks 4 forgotten)
  obtain ⟨fd, hfd, hj⟩ := (ho.eviction_exact hw hs).2 evicted hevicted hend hf hr 1 hlive
  obtain rfl : fd = 1003 := by
    have hfd' : dozed.reactor.fd? 1 = some 1003 := by decide +kernel
    exact Option.some.inj (hfd.symm.trans hfd')
  exact ⟨ho, w, hw, hs, hevicted, hend, hf, hr, hlive, hj.before,
    (hj.exact x event 11 forgotten hid hcomes hrest).2 ⟨hword, forgotten_overdue⟩⟩

end Visit

end PollReactor
