import PollReactor.Proofs.Eviction
import PollReactor.Proofs.Exactness
import PollReactor.Proofs.Marks

namespace PollReactor

open Event (ofReport)
open Journal (Adds Fresh Returned fdOf)
open Relation (ReflTransGen)

variable {κ π ν : Type}

theorem Entry.received_of_still {e : Entry (Mark ν)} {fd : Fd}
    (h : e.moves? = some (.input, fd) → e.stirs fd = false) : e.received fd = [] := by
  cases e with
  | remark => rfl
  | sys c a =>
    cases c with
    | recv fd' =>
      cases a with
      | error => rfl
      | ok bs =>
        by_cases hfd : fd' = fd
        · subst hfd
          simpa [stirs, received] using h rfl
        · exact if_neg hfd
    | _ => rfl

theorem Journal.received_unadmitted {new j : Journal ν} {id : Nat}
    (hn : ∀ e ∈ new, e.admits id = false)
    (h : ∀ fd, fdOf id j = some fd → ∀ e ∈ new, e.received fd = []) :
    received id (new ++ j) = received id j := by
  induction new with
  | nil => rfl
  | cons e new ih =>
    obtain ⟨-, hn⟩ := List.forall_mem_cons.1 hn
    have ih := ih hn fun fd hfd e he ↦ h fd hfd e (List.mem_cons_of_mem _ he)
    show received id (new ++ j) ++ _ = received id j
    rw [ih]
    cases hfd : fdOf id (new ++ j) with
    | none => exact List.append_nil _
    | some fd =>
      rw [Option.map_some, h fd (fdOf_unadmitted hn hfd) e List.mem_cons_self]
      exact List.append_nil _

namespace Moment

open Reactor

variable [Kernel κ] {P : Policy π ν} {outside : Phase π ν → Prop} {b : Builder}
  {m₀ m₁ m m' : Moment κ π ν} {r : Reactor κ π ν} {w : Wait} {reported : List UInt16} {id : Nat}
  {fd : Fd} {x : Watched} {event : Event} {now : Nat}

omit [Kernel κ] in
theorem Abides.apart (ha : Abides r w reported m) (hr : w.Routes r) (hfd : r.fd? id = some fd)
    {rest : List (Task π ν)} (hm : m.phase = .busy (.serve x event now) rest)
    (hx : m.reactor.fd? x.id = some fd) : x.id = id := by
  obtain ⟨place, hplace, -⟩ := ha.listed hm
  obtain ⟨fd', hfd', -⟩ := hr.listed place x hplace
  obtain ⟨c', hc', hcfd'⟩ := fd?_eq_some hfd'
  obtain ⟨c, hc, hcfd⟩ := fd?_eq_some hfd
  -- It had that descriptor when the turn began.
  obtain ⟨d, hd, hdfd⟩ := fd?_eq_some (ha.retains.fd? x.id fd (conn?_bounds hc').2 hx)
  exact Owner.conn.inj (hr.apart _ _ fd (owned_of_fd? hd hdfd) (owned_of_fd? hc hcfd))

theorem Abides.aside (ha : Abides r w reported m) (hr : w.Routes r) (hfd : r.fd? id = some fd)
    (hs : Turns P outside m m') (hserves : ¬ Serves P id m m') :
    Adds (·.IsAside id fd) m.journal m'.journal := by
  obtain ⟨hb, hs⟩ := hs
  cases hs with
  | kernel => exact .refl _
  | listener r₁ phase text =>
    exact (listenOn_still text r₁).journal.mono fun _ he ↦ .of_isIdle he.chore.idle he.chore.quiet
  | request r₁ phase q _ =>
    exact (request_still q r₁).journal.mono fun _ he ↦ .of_isIdle he.idle he.quiet
  | task r₁ first rest =>
    have hfirst (x : Watched) (event : Event) (now : Nat) (he : first = .serve x event now) :
        x.id ≠ id :=
      fun hid ↦ hserves ⟨x, event, now, rest, congrArg (Phase.busy · rest) he, rfl, hid⟩
    obtain ⟨new, hnew, hmoves⟩ := advance_moves (P := P) first r₁
    refine ⟨new, hnew, fun e he ↦ ⟨fun way hm ↦ ?_, (advance_reports hfirst).of_append hnew e he⟩⟩
    obtain ⟨x, event, now, c, rfl, hc, hcfd, -⟩ := hmoves e he way fd hm
    exact hfirst x event now rfl (ha.apart hr hfd rfl (by
      show (r₁.conn? x.id).bind _ = _
      rw [hc]
      exact hcfd))
  | _ => cases hb

/-- A step during a wait. -/
def Bides (P : Policy π ν) (outside : Phase π ν → Prop) (m m' : Moment κ π ν) : Prop :=
  m'.phase = m.phase ∧ Step P outside m m'

structure Began (P : Policy π ν) (outside : Phase π ν → Prop) (w : Wait) (m₀ m : Moment κ π ν) :
    Prop where
  phase : m₀.phase = .waiting w
  prepared : w = m₀.reactor.prepare
  path : ReflTransGen (Bides P outside) m₀ m

omit [Kernel κ] in
theorem ofTasks_ne_waiting (ts : List (Task π ν)) (w : Wait) : Phase.ofTasks ts ≠ .waiting w := by
  cases ts <;> nofun

theorem Occurs.began (h : Occurs P outside b m) (hw : m.phase = .waiting w) :
    ∃ m₀, Occurs P outside b m₀ ∧ Began P outside w m₀ m := by
  refine h.step_induction (motive := fun m ↦ m.phase = .waiting w →
    ∃ m₀, Occurs P outside b m₀ ∧ Began P outside w m₀ m) (fun _ _ _ _ _ _ ↦ nofun) ?_ hw
  intro m m' ho hs ih hw'
  have ho' := ho.act (.step hs)
  have hbides (hb : Bides P outside m m') :
      ∃ m₀, Occurs P outside b m₀ ∧ Began P outside w m₀ m' := by
    obtain ⟨m₀, ho₀, hbegan⟩ := ih (hb.1 ▸ hw')
    exact ⟨m₀, ho₀, hbegan.phase, hbegan.prepared, hbegan.path.tail hb⟩
  cases hs with
  | kernel r phase k => exact hbides ⟨rfl, .kernel r phase k⟩
  | listener r phase text => exact hbides ⟨rfl, .listener r phase text⟩
  | request r phase q hq => exact hbides ⟨rfl, .request r phase q hq⟩
  | setUp | memory | start | fail => cases hw'
  | wake | cleanup => exact absurd hw' (ofTasks_ne_waiting _ w)
  | task r first rest =>
    clear hbides
    have hb := advance_brings (P := P) first r
    generalize advance P first r = out at hb hw' ho' ⊢
    cases hb with
    | other | serves | breaks => exact absurd hw' (ofTasks_ne_waiting _ w)
    | waits =>
      obtain rfl := Phase.waiting.inj hw'
      exact ⟨_, ho', rfl, rfl, .refl⟩

theorem Began.steps (h : Began P outside w m₀ m) (hw : m.phase = .waiting w)
    (hm : Answered P outside w reported m m') : ReflTransGen (Step P outside) m₀ m' := by
  have hwake : Step P outside m (opened w (ofReport .posix w.list reported) m.reactor) := by
    rcases m with ⟨r, phase⟩
    obtain rfl : phase = _ := hw
    exact .wake r w reported
  have hbides := ReflTransGen.mono (fun _ _ (hs : Bides P outside _ _) ↦ hs.2) _ _ h.path
  exact hbides.trans (.head hwake (ReflTransGen.mono (fun _ _ hs ↦ hs.2) _ _ hm))

theorem Occurs.steps (h : Occurs P outside b m) (hs : ReflTransGen (Step P outside) m m') :
    Occurs P outside b m' :=
  h.acts (ReflTransGen.mono (fun _ _ ↦ .step) _ _ hs)

theorem Occurs.changes (h : Occurs P outside b m) (hs : ReflTransGen (Step P outside) m m')
    (hf : Fresh m'.journal) : Changes m.reactor m'.reactor := by
  induction hs with
  | refl => exact .refl
  | tail hpath hs ih =>
    have ho := h.steps hpath
    have hf₀ := hs.fresh hf
    exact (ih hf₀).trans (hs.changes ho.agrees ho.settled hf (ho.accounted hf₀))

theorem Occurs.input_le (h : Occurs P outside b m) (h' : Occurs P outside b m')
    (hf : Fresh m'.journal) {c c' : Conn} (hc : m.reactor.conn? id = some c)
    (hc' : m'.reactor.conn? id = some c') {new : Journal ν} (hnew : m'.journal = new ++ m.journal)
    (hstill : ∀ fd, c.fd? = some fd →
      ∀ e ∈ new, e.moves? = some (.input, fd) → e.stirs fd = false) :
    c'.input.len ≤ c.input.len := by
  have hf₀ : Fresh m.journal := (hnew ▸ hf).of_append
  obtain ⟨hfdOf, hin⟩ := (h.input_stream hf₀).1 id c hc
  have hin' := ((h'.input_stream hf).1 id c' hc').2
  have hreceived : Journal.received id m'.journal = Journal.received id m.journal := by
    rw [hnew]
    refine Journal.received_unadmitted (h'.unadmitted hc h hnew) fun fd hfd e he ↦ ?_
    exact Entry.received_of_still (hstill fd (hfdOf.symm.trans hfd) e he)
  rw [hreceived, hin, hnew, Journal.consumed, Journal.story_append, List.append_assoc] at hin'
  have hlen := congrArg List.length (List.append_cancel_left hin')
  rw [List.length_append, Ring.length_toList, Ring.length_toList] at hlen
  omega

theorem Began.still (h : Began P outside w m₀ m) : Still (·.isIdle) m₀.reactor m.reactor := by
  obtain ⟨hphase, -, hpath⟩ := h
  have hboth : m.phase = .waiting w ∧ Still (·.isIdle) m₀.reactor m.reactor := by
    induction hpath with
    | refl => exact ⟨hphase, .refl _⟩
    | @tail m₁ m₂ _ hs ih =>
      obtain ⟨hw, hstill⟩ := ih
      obtain ⟨he, hs⟩ := hs
      refine ⟨he.trans hw, hstill.trans ?_⟩
      cases hs with
      | kernel r phase k => exact .kernel r k
      | listener r phase text => exact (listenOn_still text r).mono fun _ he ↦ he.chore.idle
      | request r phase q _ => exact (request_still q r).mono fun _ he ↦ he.idle
      | wake => exact absurd (he.trans hw) (ofTasks_ne_waiting _ w)
      | fail => cases he
      | _ => cases hw
  exact hboth.2

theorem Occurs.readMarks (h : Occurs P outside b m) (hs : ReflTransGen (Step P outside) m m')
    (hf : Fresh m'.journal) {c c' : Conn} (hc : m.reactor.conn? id = some c)
    (hc' : m'.reactor.conn? id = some c') : c'.readMarks = c.readMarks := by
  obtain ⟨d, hd, hsizes⟩ := (h.changes hs hf).sizes hc
  obtain rfl := Option.some.inj (hd.symm.trans hc')
  exact congrArg Sizes.read hsizes

theorem Began.stirred (hbegan : Began P outside w m₁ m₀) (h₁ : Occurs P outside b m₁)
    (hw : m₀.phase = .waiting w) (hm : Answered P outside w reported m₀ m) (hf : Fresh m.journal)
    (hfd : m₀.reactor.fd? id = some fd) {c₀ c : Conn} (hc₀ : m₁.reactor.conn? id = some c₀)
    (hc : m.reactor.conn? id = some c) (hlow : c₀.input.len < c₀.readMarks.high)
    (hhigh : c.readMarks.high ≤ c.input.len) {new : Journal ν}
    (hnew : m.journal = new ++ m₀.journal) :
    ∃ e ∈ new, e.moves? = some (.input, fd) ∧ e.stirs fd := by
  have hsteps := hbegan.steps hw hm
  have hlt : c₀.input.len < c.input.len := by
    rw [h₁.readMarks hsteps hf hc₀ hc] at hhigh
    omega
  by_contra hnone
  obtain ⟨idle, hj, hidle⟩ := hbegan.still.journal
  have hnew' : m.journal = (new ++ idle) ++ m₁.journal := by
    rw [hnew, List.append_assoc]
    exact congrArg (new ++ ·) hj
  refine absurd (h₁.input_le (h₁.steps hsteps) hf hc₀ hc hnew' fun fd' hfd' e he hmoves ↦ ?_)
    (Nat.not_le.2 hlt)
  obtain rfl : fd' = fd := by
    have hfd₁ : m₁.reactor.fd? id = some fd := (hbegan.still.fd? id).symm.trans hfd
    rw [Reactor.fd?, hc₀] at hfd₁
    exact Option.some.inj (hfd'.symm.trans hfd₁)
  rcases List.mem_append.1 he with he | he
  · exact Bool.eq_false_iff.2 fun hs ↦ hnone ⟨e, he, hmoves, hs⟩
  · exact Entry.stirs_of_isIdle (hidle e he) fd'

theorem aside_after (hr : w.Routes r) (hfd : r.fd? id = some fd)
    (hm : ReflTransGen (Turns P outside) (opened w (ofReport .posix w.list reported) r) m)
    (hunserved : Unserved id m) (hpath : ReflTransGen (Turns P outside) m m') :
    Adds (·.IsAside id fd) m.journal m'.journal := by
  -- The one service of the connection is done, so that no step behind is one.
  induction hpath with
  | refl => exact .refl _
  | @tail m₁ m₂ hpath hs ih =>
    exact ih.trans ((abides_of_turns hr (hm.trans hpath)).aside hr hfd hs
      (unserved_of_turns hunserved hpath).not_serves)

/-- The entries of a turn before, in and behind the service of the connection `x` at `m`, on the
descriptor `fd`. -/
structure Split (P : Policy π ν) (x : Watched) (event : Event) (now : Nat) (fd : Fd)
    (m₀ m m' : Moment κ π ν) (before here after : Journal ν) (c : Conn) : Prop where
  start : m.journal = before ++ m₀.journal
  service : (tasked P m).journal = here ++ m.journal
  rest : m'.journal = after ++ (tasked P m).journal
  before : ∀ e ∈ before, e.IsAside x.id fd
  after : ∀ e ∈ after, e.IsAside x.id fd
  conn : (tasked P m).reactor.conn? x.id = some c
  exact : Journal.Exactly x.id fd c.toChannel here
  failed : (∃ e, (attend P x event now m.reactor).2 = [.finalize x.id (.failed e)]) ↔
    ∃ e ∈ here, e.fails fd
  wanted : ∀ e ∈ here, ∀ way : Way, e.moves? = some (way, fd) → way.wanted x.interest

theorem Split.journal {before here after : Journal ν} {c : Conn}
    (h : Split P x event now fd m₀ m m' before here after c) :
    m'.journal = (after ++ (here ++ before)) ++ m₀.journal := by
  rw [h.rest, h.service, h.start, List.append_assoc, List.append_assoc]

/-- What the entries `new` of a turn up to `m` have to be for the connection `id` on the descriptor
`fd`. It was `c₀` when the wait began, and `c` when it had been served. -/
structure Exact (id : Nat) (fd : Fd) (c₀ c : Conn) (m : Moment κ π ν) (new : Journal ν) : Prop
    extends Journal.Exactly id fd c.toChannel new where
  unread : c₀.readMarks.high ≤ c₀.input.len → ∀ e ∈ new, e.moves? ≠ some (.input, fd)
  unsent : c₀.output.len = 0 → ∀ e ∈ new, e.moves? ≠ some (.output, fd)
  failed : (∃ e, .remark (.callback (.failed id e)) ∈ new) ↔ ∃ e ∈ new, e.fails fd
  paused : c₀.input.len < c₀.readMarks.high → id ∈ m.reactor.live →
    ∀ c', m.reactor.conn? id = some c' → c'.readMarks.high ≤ c'.input.len →
      .remark (.callback (.dataReceived id)) ∈ new

/-- The connection was served in the turn behind the wait `w`, and was `c` behind that. -/
def Served (P : Policy π ν) (outside : Phase π ν → Prop) (w : Wait) (reported : List UInt16)
    (m₀ m : Moment κ π ν) (id : Nat) (c : Conn) : Prop :=
  ∃ x event now m', x.id = id ∧ Comes P outside w reported m₀ x event now m' ∧
    ReflTransGen (Turns P outside) (tasked P m') m ∧ (tasked P m').reactor.conn? id = some c

section

variable (h : Occurs P outside b m₀) (hw : m₀.phase = .waiting w)

include h hw

theorem aside_before (hr : w.Routes m₀.reactor) (hfd : m₀.reactor.fd? x.id = some fd)
    {rest : List (Task π ν)} (hserve : m'.phase = .busy (.serve x event now) rest)
    (hm : Answered P outside w reported m₀ m) (hpath : ReflTransGen (Turns P outside) m m') :
    Adds (·.IsAside x.id fd) m₀.journal m.journal := by
  induction hm with
  | refl => exact .refl _
  | @tail m₁ m₂ hm₁ hs ih =>
    refine (ih (.head hs hpath)).trans ?_
    refine (abides_of_turns hr hm₁).aside hr hfd hs ?_
    rintro ⟨y, event', now', rest', hm, he, hid⟩
    -- A service before that would have been the only one.
    have hsettled := ((h.answered hw reported).turns hm₁).settled
    have hunserved := (unserved_of_served (P := P) hsettled hm).1
    rw [← he, hid] at hunserved
    refine unserved_of_turns hunserved hpath (.serve x event now) ?_ x List.mem_cons_self rfl
    rw [hserve]
    exact List.mem_cons_self

theorem Comes.split (hf : Fresh m'.journal) (hfd : m₀.reactor.fd? x.id = some fd)
    (hp : Comes P outside w reported m₀ x event now m)
    (hpath : ReflTransGen (Turns P outside) (tasked P m) m') :
    ∃ before here after c, Split P x event now fd m₀ m m' before here after c := by
  obtain ⟨rest, hserve⟩ := hp.served
  have hf₁ : Fresh m.journal := (grows_of_turns ((turns_tasks 1 m).trans hpath)).fresh hf
  have hr := h.routes ((grows_of_turns hp.reached).fresh hf₁) hw
  have hsettled := ((h.answered hw reported).turns hp.reached).settled
  obtain ⟨c, fd', hc, hcfd, -⟩ := Comes.known h hw hf₁ hp
  obtain rfl : fd' = fd := by
    obtain ⟨c₀, hc₀, -⟩ := fd?_eq_some hfd
    have hfd' : m₀.reactor.fd? x.id = some fd' := by
      refine (abides_of_turns hr hp.reached).retains.fd? x.id fd' (conn?_bounds hc₀).2 ?_
      rw [Reactor.fd?, hc]
      exact hcfd
    exact Option.some.inj (hfd'.symm.trans hfd)
  obtain ⟨before, hstart, hbefore⟩ := aside_before h hw hr hfd hserve hp.reached .refl
  obtain ⟨after, hrest, hafter⟩ := aside_after hr hfd (hp.reached.trans (turns_tasks 1 m))
    (unserved_of_served hsettled hserve).1 hpath
  obtain ⟨here, c', hservice, hc', hexact, hfailed⟩ := attend_exact (P := P) hc hcfd event now
  rcases m with ⟨r, phase⟩
  obtain rfl : phase = _ := hserve
  refine ⟨before, here, after, c', hstart, hservice, hrest, hbefore, hafter, hc', hexact, hfailed,
    fun e he way hm ↦ ?_⟩
  obtain ⟨x', event', now', c'', hx, -, -, -, hwanted⟩ :=
    (advance_moves (P := P) (.serve x event now) r).of_append hservice e he way fd' hm
  cases hx
  exact hwanted

theorem Comes.interest (hf : Fresh m₀.journal) (hbegan : Began P outside w m₁ m₀) {c₀ : Conn}
    (hc₀ : m₁.reactor.conn? x.id = some c₀) (hp : Comes P outside w reported m₀ x event now m) :
    x.interest = c₀.interest := by
  obtain ⟨rest, hserve⟩ := hp.served
  obtain ⟨place, hplace, -⟩ := (abides_of_turns (h.routes hf hw) hp.reached).listed hserve
  have hx : x ∈ m₁.reactor.prepare.watched := hbegan.prepared ▸ List.mem_of_getElem? hplace
  obtain ⟨c, hc, hinterest⟩ := watched_prepare hx
  obtain rfl := Option.some.inj (hc.symm.trans hc₀)
  exact hinterest

theorem Comes.failed_iff (hlive : x.id ∈ m₀.reactor.live)
    (hp : Comes P outside w reported m₀ x event now m)
    (hpath : ReflTransGen (Turns P outside) (tasked P m) m') (hend : m'.phase.isBusy = false)
    {new : Journal ν} (hnew : m'.journal = new ++ m₀.journal) :
    (∃ e, .remark (.callback (.failed x.id e)) ∈ new) ↔
      ∃ e, (attend P x event now m.reactor).2 = [.finalize x.id (.failed e)] := by
  refine exists_congr fun e ↦ ?_
  rw [← Comes.told_iff h hw (.failed e) rfl hp hpath hend, hnew, List.mem_append]
  exact (or_iff_left (not_told_of_live (.failed e) h.settled.told hlive)).symm

theorem Comes.paused (hbegan : Began P outside w m₁ m₀) (h₁ : Occurs P outside b m₁)
    (hf : Fresh m'.journal) (hfd : m₀.reactor.fd? x.id = some fd)
    (hp : Comes P outside w reported m₀ x event now m)
    (hpath : ReflTransGen (Turns P outside) (tasked P m) m') {before here after : Journal ν}
    {c₀ c c' : Conn} (hsplit : Split P x event now fd m₀ m m' before here after c)
    (hc₀ : m₁.reactor.conn? x.id = some c₀) (hc' : m'.reactor.conn? x.id = some c')
    (hlow : c₀.input.len < c₀.readMarks.high) (hhigh : c'.readMarks.high ≤ c'.input.len)
    (hsound : ∀ e ∈ after ++ (here ++ before), e.fails fd = false) :
    .remark (.callback (.dataReceived x.id)) ∈ after ++ (here ++ before) := by
  have hturn := hp.reached.trans (turns_tasks 1 m)
  have htasked := (h.answered hw reported).turns hturn
  have hm' := htasked.turns hpath
  -- What was there when it had been served only became less.
  have hle : c'.input.len ≤ c.input.len := by
    refine htasked.input_le hm' hf hsplit.conn hc' hsplit.rest fun fd' hfd' e he hway ↦ ?_
    obtain rfl : fd' = fd := by
      have hf₀ : Fresh m₀.journal := (hsplit.journal ▸ hf).of_append
      obtain ⟨d, hd, -⟩ := fd?_eq_some hfd
      have hretains := (abides_of_turns (h.routes hf₀ hw) hturn).retains
      refine Option.some.inj ((hretains.fd? x.id fd' (conn?_bounds hd).2 ?_).symm.trans hfd)
      exact Option.bind_eq_some_iff.2 ⟨c, hsplit.conn, hfd'⟩
    exact absurd hway ((hsplit.after e he).moves .input)
  have hfit := (hm'.fits hf x.id c' hc').read
  have hmarks : c'.readMarks = c.readMarks :=
    htasked.readMarks (ReflTransGen.mono (fun _ _ hs ↦ hs.2) _ _ hpath) hf hsplit.conn hc'
  refine ((hsplit.exact.frame hsplit.before hsplit.after).told .input).2
    ⟨hbegan.stirred h₁ hw (hturn.trans hpath) hf hfd hc₀ hc' hlow hhigh hsplit.journal, hsound, ?_⟩
  calc c.readMarks.low = c'.readMarks.low := by rw [hmarks]
    _ ≤ c'.readMarks.high := Nat.le_of_lt hfit.2.1
    _ ≤ c'.input.len := hhigh
    _ ≤ c.input.len := hle

theorem Comes.exact (hbegan : Began P outside w m₁ m₀) (h₁ : Occurs P outside b m₁)
    (hf : Fresh m'.journal) (hlive : x.id ∈ m₀.reactor.live)
    (hfd : m₀.reactor.fd? x.id = some fd) {c₀ : Conn}
    (hc₀ : m₁.reactor.conn? x.id = some c₀) (hp : Comes P outside w reported m₀ x event now m)
    (hpath : ReflTransGen (Turns P outside) (tasked P m) m') (hend : m'.phase.isBusy = false) :
    ∃ c new, m'.journal = new ++ m₀.journal ∧ Exact x.id fd c₀ c m' new ∧
      (tasked P m).reactor.conn? x.id = some c := by
  obtain ⟨before, here, after, c, hsplit⟩ := Comes.split h hw hf hfd hp hpath
  have hnew := hsplit.journal
  have hframed (p : Entry (Mark ν) → Prop) (hp : ∀ e, e.IsAside x.id fd → ¬ p e) :=
    Journal.exists_framed here p hp hsplit.before hsplit.after
  have hf₀ : Fresh m₀.journal := (hnew ▸ hf).of_append
  have hinterest := Comes.interest h hw hf₀ hbegan hc₀ hp
  have hwanted (e : Entry (Mark ν)) (he : e ∈ after ++ (here ++ before)) (way : Way)
      (hway : e.moves? = some (way, fd)) : way.wanted c₀.interest := by
    obtain ⟨e', he', hway'⟩ := (hframed (·.moves? = some (way, fd))
      fun e he ↦ he.moves way).1 ⟨e, he, hway⟩
    exact hinterest ▸ hsplit.wanted e' he' way hway'
  have hfailed : (∃ e, .remark (.callback (.failed x.id e)) ∈ after ++ (here ++ before)) ↔
      ∃ e ∈ after ++ (here ++ before), e.fails fd := by
    rw [Comes.failed_iff h hw hlive hp hpath hend hnew, hsplit.failed]
    exact (hframed (·.fails fd) fun e he ↦ he.not_fails).symm
  refine ⟨c, _, hnew, ⟨hsplit.exact.frame hsplit.before hsplit.after, fun hhigh e he hway ↦ ?_,
    fun hzero e he hway ↦ ?_, hfailed, fun hlow hid c' hc' hhigh ↦ ?_⟩, hsplit.conn⟩
  · have hread := hwanted e he .input hway
    simp [Way.wanted, Conn.interest, Channel.isReadHigh, hhigh] at hread
  · have hwrite := hwanted e he .output hway
    simp [Way.wanted, Conn.interest, hzero] at hwrite
  · refine Comes.paused h hw hbegan h₁ hf hfd hp hpath hsplit hc₀ hc' hlow hhigh fun e he ↦ ?_
    -- A connection that failed would have been ended.
    rw [← Bool.not_eq_true]
    intro hfails
    obtain ⟨err, hmem⟩ := hfailed.2 ⟨e, he, hfails⟩
    have ho := (h.answered hw reported).turns ((hp.reached.trans (turns_tasks 1 m)).trans hpath)
    refine not_told_of_live (.failed err) ho.settled.told hid ?_
    have hmem' : .remark (.callback (.failed x.id err)) ∈ m'.journal := by
      rw [hnew]
      exact List.mem_append_left _ hmem
    exact hmem'

theorem Occurs.passed_or_aside (hr : w.Routes m₀.reactor) (hlive : id ∈ m₀.reactor.live)
    (hfd : m₀.reactor.fd? id = some fd) (hm : Answered P outside w reported m₀ m) :
    (∃ x event now m', x.id = id ∧ Comes P outside w reported m₀ x event now m' ∧
      ReflTransGen (Turns P outside) (Moment.tasked P m') m) ∨
    Adds (·.IsAside id fd) m₀.journal m.journal ∧ ∀ e, .finalize id (.failed e) ∉ m.phase.tasks ∧
      .remark (.callback (.failed id e)) ∉ m.journal := by
  -- As long as the connection was not served, no task is to end it for a failure.
  induction hm with
  | refl =>
    refine .inr ⟨.refl _, fun e ↦ ⟨fun ht ↦ ?_, not_told_of_live (.failed e) h.settled.told hlive⟩⟩
    rw [opened, Phase.tasks_ofTasks] at ht
    cases turnTasks_verdict _ _ _ _ ht
  | @tail m₁ m₂ hm₁ hs ih =>
    rcases ih with ⟨x, event, now, m', hid, hp, hpath⟩ | ⟨haside, hnone⟩
    · exact .inl ⟨x, event, now, m', hid, hp, hpath.tail hs⟩
    · by_cases hserves : Serves P id m₁ m₂
      · obtain ⟨x, event, now, rest, hphase, rfl, hid⟩ := hserves
        have ha := (h.answered hw reported).agrees
        exact .inl ⟨x, event, now, m₁, hid, place_of_turns ha hm₁ hphase, .refl⟩
      · refine .inr ⟨haside.trans ((abides_of_turns hr hm₁).aside hr hfd hs hserves), fun e ↦ ?_⟩
        obtain ⟨hdue, htold⟩ := hnone e
        exact ⟨not_due_turns rfl hs hserves hdue, not_told_turns (.failed e) hs htold hdue⟩

end

theorem Began.exact_of_aside (hbegan : Began P outside w m₁ m₀) (h₁ : Occurs P outside b m₁)
    (hw : m₀.phase = .waiting w) (hm : Answered P outside w reported m₀ m) (hf : Fresh m.journal)
    (hfd : m₀.reactor.fd? id = some fd) {c₀ : Conn} (hc₀ : m₁.reactor.conn? id = some c₀)
    {new : Journal ν} (hnew : m.journal = new ++ m₀.journal) (haside : ∀ e ∈ new, e.IsAside id fd)
    (hnone : ∀ e, .remark (.callback (.failed id e)) ∉ m.journal) : Exact id fd c₀ c₀ m new := by
  refine ⟨(Journal.Exactly.nil id fd c₀.toChannel).frame haside (List.forall_mem_nil _),
    fun _ e he ↦ (haside e he).moves .input, fun _ e he ↦ (haside e he).moves .output, ?_,
    fun hlow _ c hc hhigh ↦ ?_⟩
  · constructor
    · rintro ⟨e, he⟩
      refine absurd ?_ (hnone e)
      rw [hnew]
      exact List.mem_append_left _ he
    · rintro ⟨e, he, hfails⟩
      exact absurd hfails (haside e he).not_fails
  · obtain ⟨e, he, hway, -⟩ := hbegan.stirred h₁ hw hm hf hfd hc₀ hc hlow hhigh hnew
    exact absurd hway ((haside e he).moves .input)

/-- A turn is exact for every connection that was live at its start, whatever callbacks and other
threads do meanwhile. No input is taken if there was enough of it when the wait began, and no output
given if there was none. The connection is told of bytes at most once, just when they moved and its
marks call for that, and of a failure just when a call failed. It is passed over only if a callback
raised before its place came. -/
theorem Occurs.turn_exact (h : Occurs P outside b m₀) (hw : m₀.phase = .waiting w)
    (reported : List UInt16) :
    (∃ m₁, Occurs P outside b m₁ ∧ Began P outside w m₁ m₀) ∧
    Answered P outside w reported m₀ ⟨(resume P w (.ok reported) m₀.reactor).2,
      .ofProgress (resume P w (.ok reported) m₀.reactor).1⟩ ∧
    ∀ m₁, Occurs P outside b m₁ → Began P outside w m₁ m₀ →
      ∀ m, Answered P outside w reported m₀ m → m.phase.isBusy = false → Fresh m.journal →
        ∀ id ∈ m₀.reactor.live, ∃ fd c₀ c new, m₀.reactor.fd? id = some fd ∧
          m₁.reactor.conn? id = some c₀ ∧ m.journal = new ++ m₀.journal ∧
            Exact id fd c₀ c m new ∧ (Served P outside w reported m₀ m id c ∨
              ¬ Returned m.journal ∧ ∀ e ∈ new, e.IsAside id fd) := by
  refine ⟨h.began hw, turns_of_works (resume_works w reported m₀.reactor), ?_⟩
  intro m₁ h₁ hbegan m hm hend hf id hid
  have hopened := h.answered hw reported
  have hf₀ : Fresh m₀.journal := (grows_of_turns hm).fresh hf
  have hroutes := h.routes hf₀ hw
  obtain ⟨x, hx, rfl⟩ : ∃ x ∈ w.watched, x.id = id := by
    rw [← hroutes.ids] at hid
    exact List.mem_map.1 hid
  obtain ⟨k, hk⟩ := List.getElem?_of_mem hx
  obtain ⟨fd, hfd, -⟩ := hroutes.listed k x hk
  obtain ⟨c₀, hc₀, -⟩ := watched_prepare (hbegan.prepared ▸ hx)
  have hserved {x' : Watched} {event : Event} {now : Nat} {m' : Moment κ π ν} (he : x'.id = x.id)
      (hp : Comes P outside w reported m₀ x' event now m')
      (hpath : ReflTransGen (Turns P outside) (Moment.tasked P m') m) :
      ∃ c new, m.journal = new ++ m₀.journal ∧ Exact x.id fd c₀ c m new ∧
        Served P outside w reported m₀ m x.id c := by
    obtain ⟨c, new, hnew, hexact, hc⟩ := Comes.exact h hw hbegan h₁ hf (he ▸ hid) (he ▸ hfd)
      (he ▸ hc₀) hp hpath hend
    exact ⟨c, new, hnew, he ▸ hexact, x', event, now, m', he, hp, hpath, he ▸ hc⟩
  by_cases hreturned : Returned m.journal
  · obtain ⟨m', event, now, hp, hpath⟩ := passed_of_turns hopened.agrees hm hend hreturned hx
    obtain ⟨c, new, hnew, hexact, hserved⟩ := hserved rfl hp hpath
    exact ⟨fd, c₀, c, new, hfd, hc₀, hnew, hexact, .inl hserved⟩
  · rcases h.passed_or_aside hw hroutes hid hfd hm with ⟨x', event, now, m', he, hp, hpath⟩ |
      ⟨⟨new, hnew, haside⟩, hnone⟩
    · obtain ⟨c, new, hnew, hexact, hserved⟩ := hserved he hp hpath
      exact ⟨fd, c₀, c, new, hfd, hc₀, hnew, hexact, .inl hserved⟩
    · exact ⟨fd, c₀, c₀, new, hfd, hc₀, hnew, hbegan.exact_of_aside h₁ hw hm hf hfd hc₀ hnew haside
        fun e ↦ (hnone e).2, .inr ⟨hreturned, haside⟩⟩

end Moment

namespace Visit

open Simulation Moment

def poured : Moment World Unit Unit :=
  ⟨{ kept.reactor with os.kernel := { kept.reactor.os.kernel with
      peers := kept.reactor.os.kernel.peers.map ({ · with segments := [[104, 105, 10, 7]] }) } },
    kept.phase⟩

def sated : Moment World Unit Unit :=
  (tasked policy)^[3]
    ⟨served, .busy (.hear (policy.heard (.dataReceived 1) ())) [.check 1, .proceed]⟩

theorem poured_waits : poured.phase = .waiting kept.reactor.prepare := by
  apply Phase.eq_of_waits
  decide +kernel

theorem poured_answered : Answered policy (fun _ ↦ True) kept.reactor.prepare [0, 0, 1] poured
    sated := by
  have hopened : opened kept.reactor.prepare (ofReport .posix kept.reactor.prepare.list [0, 0, 1])
      poured.reactor = woken (fun k ↦ { k with
        peers := k.peers.map ({ · with segments := [[104, 105, 10, 7]] }) }) [0, 0, 1] kept := by
    have hw : kept.phase = .waiting kept.reactor.prepare := poured_waits
    unfold woken
    rw [hw]
    rfl
  rw [Answered, hopened, sated, ← offered_served]
  exact turns_tasks 6 _

theorem poured_sated : Occurs policy (fun _ ↦ True) builder poured ∧
    poured.phase = .waiting kept.reactor.prepare ∧ Occurs policy (fun _ ↦ True) builder kept ∧
      Began policy (fun _ ↦ True) kept.reactor.prepare kept poured ∧
        Answered policy (fun _ ↦ True) kept.reactor.prepare [0, 0, 1] poured sated ∧
          sated.phase.isBusy = false ∧ Fresh sated.journal ∧ 1 ∈ poured.reactor.live ∧
            ∃ fd c₀ c new, sated.journal = new ++ poured.journal ∧ Exact 1 fd c₀ c sated new ∧
              .remark (.callback (.dataReceived 1)) ∈ new := by
  have hkept := kept_occurs fun _ ↦ True
  have hstep : Bides policy (fun _ ↦ True) kept poured := ⟨rfl, .kernel kept.reactor kept.phase _⟩
  have ho : Occurs policy (fun _ ↦ True) builder poured := hkept.act (.step hstep.2)
  have hbegan : Began policy (fun _ ↦ True) kept.reactor.prepare kept poured :=
    ⟨poured_waits, rfl, .single hstep⟩
  have hend : sated.phase.isBusy = false := by decide +kernel
  have hf : Fresh sated.journal := by decide +kernel
  have hlive : 1 ∈ poured.reactor.live := by decide +kernel
  obtain ⟨fd, c₀, c, new, -, hc₀, hnew, hexact, -⟩ := (ho.turn_exact poured_waits [0, 0, 1]).2.2
    kept hkept hbegan sated poured_answered hend hf 1 hlive
  refine ⟨ho, poured_waits, hkept, hbegan, poured_answered, hend, hf, hlive, fd, c₀, c, new, hnew,
    hexact, ?_⟩
  -- It was to be read from when the wait began, and is not any more.
  obtain ⟨c₁, hc₁, hlow⟩ : ∃ c, kept.reactor.conn? 1 = some c ∧
      decide (c.input.len < c.readMarks.high) := (Option.any_eq_true _ _).1 (by decide +kernel)
  obtain rfl := Option.some.inj (hc₁.symm.trans hc₀)
  obtain ⟨c', hc', hhigh⟩ : ∃ c, sated.reactor.conn? 1 = some c ∧
      decide (c.readMarks.high ≤ c.input.len) := (Option.any_eq_true _ _).1 (by decide +kernel)
  exact hexact.paused (of_decide_eq_true hlow) (by decide +kernel) c' hc' (of_decide_eq_true hhigh)

end Visit

end PollReactor
