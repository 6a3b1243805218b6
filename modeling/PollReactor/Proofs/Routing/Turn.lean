import Mathlib.Data.List.Basic
import PollReactor.Proofs.Forfeit
import PollReactor.Proofs.Routing

namespace PollReactor

open Event (ofReport ofWord)
open Journal (Adds Fresh)
open Reactor
open Relation (ReflTransGen)

variable {κ π ν : Type}

namespace Reactor

variable {r r' r'' : Reactor κ π ν}

def fd? (r : Reactor κ π ν) (id : Nat) : Option Fd := (r.conn? id).bind Conn.fd?

theorem fd?_eq (r : Reactor κ π ν) (id : Nat) : r.fd? id = (r.place? id).bind (·.fd) := by
  unfold fd? place?
  cases r.conn? id with
  | none => rfl
  | some c => exact c.fd?_eq

theorem fd?_eq_some {id : Nat} {fd : Fd} (h : r.fd? id = some fd) :
    ∃ c, r.conn? id = some c ∧ c.fd? = some fd := Option.bind_eq_some_iff.1 h

theorem Still.fd? {C : Entry (Mark ν) → Prop} (h : Still C r r') (id : Nat) :
    r'.fd? id = r.fd? id := by
  rw [fd?_eq, fd?_eq, h.place]

end Reactor

/-- The tokens of a watch list stand for the descriptors of the reactor. -/
structure Wait.Routes (w : Wait) (r : Reactor κ π ν) : Prop where
  apart : ∀ o o' fd, r.owned none o = some fd → r.owned none o' = some fd → o = o'
  ids : w.watched.map (·.id) = r.live
  listed : ∀ k x, w.watched[k]? = some x → ∃ fd, r.fd? x.id = some fd ∧
    (∀ e, e ∈ w.list ∧ e.fd = fd ↔
      x.interest.isEmpty = false ∧ e = WatchList.entry .posix fd k x.interest) ∧
    ∀ reported, eventOf (ofReport .posix w.list reported) k =
      ofWord k (w.list.word reported fd)
  waker : ∀ reported, isReported (ofReport .posix w.list reported) wakeToken =
    (ofWord wakeToken (w.list.word reported r.waker.receiver)).isReady
  listener : ∀ reported, isReported (ofReport .posix w.list reported) listenerToken =
    r.listener.any fun fd ↦ (ofWord listenerToken (w.list.word reported fd)).isReady

namespace Reactor

variable {r r' r'' : Reactor κ π ν} {n : Nat}

theorem prepare_ids (h : Holding r none) : r.prepare.watched.map (·.id) = r.live := by
  show (r.watchedOf.map (·.2)).map (·.id) = r.live
  rw [watchedOf, List.map_filterMap, List.map_filterMap]
  have hsome {id : Nat} (hid : id ∈ r.live) : (((r.conn? id).map fun c ↦
      ((c, ⟨id, c.interest⟩) : Conn × Watched)).map (·.2)).map (·.id) = some id := by
    obtain ⟨c, -, -, hc, -⟩ := h.live hid
    rw [hc]
    rfl
  have hmap := List.filterMap_eq_map_iff_forall_eq_some.2 fun id hid ↦ hsome hid
  exact hmap.trans (List.map_id r.live)

theorem prepare_routes (h : Sound n r none) (hf : Fresh r.os.journal)
    (hl : r.live.length < listenerToken) : r.prepare.Routes r := by
  have hledger := h.ledger hf
  have hn := h.holding.nodup
  refine ⟨hledger.apart, prepare_ids h.holding, ?_, isReported_waker hledger hn hl,
    isReported_listener hledger hn hl⟩
  intro k x hk
  obtain ⟨c, hk⟩ := prepare_watched_getElem? hk
  obtain ⟨hid, hc, -⟩ := mem_watchedOf (List.mem_of_getElem? hk)
  obtain ⟨fd, hfd⟩ := h.holding.fd?_of_live hid hc
  exact ⟨fd, by rw [fd?, hc, Option.bind_some, hfd], listed_iff hledger hn hl hk hfd,
    eventOf_prepare hledger hn hl hk hfd⟩

end Reactor

namespace Wait

variable {r r' : Reactor κ π ν} {w : Wait}

theorem Routes.still {C : Entry (Mark ν) → Prop} (h : w.Routes r) (hs : Still C r r') :
    w.Routes r' where
  apart o o' fd ho ho' := by
    rw [hs.owned] at ho ho'
    exact h.apart o o' fd ho ho'
  ids := h.ids.trans hs.live.symm
  listed k x hk := by
    rw [hs.fd?]
    exact h.listed k x hk
  waker := by
    rw [hs.receiver]
    exact h.waker
  listener := by
    rw [hs.listener]
    exact h.listener

/-- The wait was prepared from a reactor whose sockets are still where they were. -/
def IsOf (n : Nat) (w : Wait) (r : Reactor κ π ν) : Prop :=
  ∃ r₀, w = r₀.prepare ∧ Sound n r₀ none ∧ Still (fun _ ↦ True) r₀ r

theorem IsOf.still {C : Entry (Mark ν) → Prop} {n : Nat} (h : w.IsOf n r) (hs : Still C r r') :
    w.IsOf n r' := by
  obtain ⟨r₀, hw, hr, hs₀⟩ := h
  exact ⟨r₀, hw, hr, hs₀.trans (hs.mono fun _ _ ↦ trivial)⟩

theorem IsOf.routes {n : Nat} (h : w.IsOf n r) (hf : Fresh r.os.journal)
    (hl : r.live.length < listenerToken) : w.Routes r := by
  obtain ⟨r₀, rfl, hr, hs⟩ := h
  exact (prepare_routes hr (hs.journal.fresh hf) (hs.live ▸ hl)).still hs

end Wait

def Phase.Prepared (n : Nat) (r : Reactor κ π ν) : Phase π ν → Prop
  | waiting w => w.IsOf n r
  | _ => True

theorem Phase.prepared_ofTasks (n : Nat) (r : Reactor κ π ν) (ts : List (Task π ν)) :
    (ofTasks ts).Prepared n r := by
  cases ts <;> trivial

theorem Phase.Prepared.still {C : Entry (Mark ν) → Prop} {n : Nat} {r r' : Reactor κ π ν}
    {phase : Phase π ν} (h : phase.Prepared n r) (hs : Still C r r') : phase.Prepared n r' := by
  cases phase with
  | waiting w => exact Wait.IsOf.still h hs
  | _ => trivial

variable [Kernel κ] {P : Policy π ν}

theorem Builder.fits {b : Builder} {app : π} {os os' : Os κ (Mark ν)} {r : Reactor κ π ν}
    (h : b.build app os = (.ok r, os')) : b.maxConnections < listenerToken := by
  have hp : ¬ Word.largestAllocation < b.maxConnections * slotBytes := by
    intro hp
    unfold Builder.build Builder.pool at h
    rw [if_pos hp] at h
    cases hd : b.defaults.check with
    | error f => rw [hd] at h; cases h
    | ok u => rw [hd] at h; cases h
  have hlt : Word.largestAllocation < listenerToken := by decide
  have hs : slotBytes = 12 := rfl
  rw [hs] at hp
  omega

theorem listenOn_still (text : String) (r : Reactor κ π ν) :
    Still Entry.OfSetup r (systemExcept (Sockets.listenOn text) r).2 :=
  .system r (relisten_opening (Sockets.listenOn_opening text) r).journal

namespace Moment

variable {outside : Phase π ν → Prop} {b : Builder} {m m' : Moment κ π ν}

theorem Step.prepared {n : Nat} (h : Step P outside m m') (ha : Agrees n m)
    (hp : m.phase.Prepared n m.reactor) : m'.phase.Prepared n m'.reactor := by
  cases h with
  | kernel r phase k => exact hp.still (C := fun _ ↦ False) (.kernel r k)
  | listener r phase text => exact hp.still (listenOn_still text r)
  | request r phase q _ => exact hp.still (request_still q r)
  | setUp => trivial
  | memory => trivial
  | start => trivial
  | wake => exact Phase.prepared_ofTasks ..
  | fail => trivial
  | cleanup => exact Phase.prepared_ofTasks ..
  | task r first rest =>
    have hsound := advance_sound (P := P) first ha.sound
    have hb := advance_brings (P := P) first r
    generalize advance P first r = out at hb hsound ⊢
    cases hb with
    | other => exact Phase.prepared_ofTasks ..
    | serves => exact Phase.prepared_ofTasks ..
    | breaks => exact Phase.prepared_ofTasks ..
    | waits => exact ⟨(remark .waits r).2, rfl, hsound, .refl _⟩

theorem Occurs.prepared (h : Occurs P outside b m) :
    m.phase.Prepared b.maxConnections m.reactor :=
  h.step_induction (motive := fun m ↦ m.phase.Prepared b.maxConnections m.reactor)
    (fun _ _ _ _ _ _ ↦ trivial) fun _ _ ho hs hp ↦ hs.prepared ho.agrees hp

theorem Occurs.live_lt (h : Occurs P outside b m) : m.reactor.live.length < listenerToken := by
  have ht := h.tallied.tally
  obtain ⟨app, os, r, os', hb, -⟩ := h
  have hfits := Builder.fits hb
  rw [Reactor.tally, Reactor.accounted] at ht
  omega

end Moment

namespace Reactor

variable {r r' : Reactor κ π ν} {w : Wait}

omit [Kernel κ] in
/-- What is told of a connection if `word` was reported of its own descriptor. -/
def heard (r : Reactor κ π ν) (word : Fd → UInt16) (x : Watched) (place : Nat) : Event :=
  (r.fd? x.id).elim .none fun fd ↦ ofWord place (word fd)

omit [Kernel κ] in
def calls (r : Reactor κ π ν) (w : Wait) (word : Fd → UInt16) : List (Watched × Event) :=
  w.watched.zipIdx.map fun (x, place) ↦ (x, r.heard word x place)

def settleIf (due : Bool) : ReactorM κ π ν Unit := do
  let waker := (← get).waker
  if due || waker.signaled then
    let waker ← system waker.reset
    modify fun r ↦ { r with waker }

/-- A turn in which everyone goes by what was reported of their own descriptors. -/
def directTurn (P : Policy π ν) (w : Wait) (word : Fd → UInt16) : PassM κ π ν Unit := do
  let r ← get
  match r.listener with
  | none => pure ()
  | some fd => if (ofWord listenerToken (word fd)).isReady then acceptPeer P fd
  calmly (settleIf (ofWord wakeToken (word r.waker.receiver)).isReady)
  let now ← calmly (system (sys .clock))
  (r.calls w word).forM fun (x, event) ↦ serve P x.id event x.interest now

theorem serveAll_eq (P : Policy π ν) (events : List Event) (now : Nat) (ws : List Watched)
    (place : Nat) : serveAll (κ := κ) P events now ws place =
      ((ws.zipIdx place).map fun (x, place) ↦ (x, eventOf events place)).forM
        fun (x, event) ↦ serve P x.id event x.interest now := by
  induction ws generalizing place with
  | nil => rfl
  | cons x ws ih =>
    rw [serveAll, ih]
    rfl

omit [Kernel κ] in
theorem calls_eq (h : w.Routes r) (reported : List UInt16) :
    (w.watched.zipIdx.map fun (x, place) ↦
      (x, eventOf (ofReport .posix w.list reported) place)) =
      r.calls w (w.list.word reported) := by
  refine List.map_congr_left fun ⟨x, place⟩ hx ↦ ?_
  obtain ⟨fd, hfd, -, he⟩ := h.listed place x (List.mem_zipIdx_iff_getElem?.1 hx)
  show (x, eventOf _ place) = (x, r.heard _ x place)
  rw [he, heard, hfd]
  rfl

theorem turn_eq (h : w.Routes r) (reported : List UInt16) :
    turn P w (ofReport .posix w.list reported) r =
      directTurn P w (w.list.word reported) r := by
  unfold turn directTurn
  have hsettle : settleWaker (κ := κ) (π := π) (ν := ν) (ofReport .posix w.list reported) =
      settleIf (ofWord wakeToken (w.list.word reported r.waker.receiver)).isReady := by
    rw [← h.waker]
    rfl
  simp only [hsettle, serveAll_eq, calls_eq h, h.listener]
  cases hl : r.listener with
  | none =>
    simp only [Option.any_none, Bool.false_eq_true, if_false, pass_bind, pass_get, andThen, hl]
  | some fd =>
    by_cases hr : (ofWord listenerToken (w.list.word reported fd)).isReady
    · simp only [Option.any_some, hr, if_true, pass_bind, pass_get, andThen, hl]
    · simp only [Option.any_some, hr, Bool.false_eq_true, if_false, pass_bind, pass_get, andThen,
        hl]

structure Retains (r r' : Reactor κ π ν) : Prop where
  size : r.conns.size ≤ r'.conns.size
  fd? : ∀ id fd, id ≤ r.conns.size → r'.fd? id = some fd → r.fd? id = some fd

omit [Kernel κ] in
theorem Retains.refl (r : Reactor κ π ν) : Retains r r := ⟨Nat.le_refl _, fun _ _ _ h ↦ h⟩

omit [Kernel κ] in
theorem Retains.trans {r'' : Reactor κ π ν} (h : Retains r r') (h' : Retains r' r'') :
    Retains r r'' where
  size := Nat.le_trans h.size h'.size
  fd? id fd hid hfd := h.fd? id fd hid (h'.fd? id fd (Nat.le_trans hid h.size) hfd)

omit [Kernel κ] in
theorem Still.retains {C : Entry (Mark ν) → Prop} (h : Still C r r') : Retains r r' :=
  ⟨Nat.le_of_eq h.size.symm, fun id _ _ hfd ↦ (h.fd? id).symm.trans hfd⟩

theorem Deed.retains {first : Task π ν} (h : Deed first r r') : Retains r r' := by
  have hremark (m : Mark ν) (r : Reactor κ π ν) : Retains r (remark m r).2 :=
    (Still.remark (C := fun e ↦ e = .remark m) r rfl).retains
  cases h with
  | nothing => exact .refl r
  | aside m _ => exact hremark m r
  | request q => exact (request_still q r).retains
  | wake => exact (wake_still r).retains
  | settled events => exact (settleWaker_still events r).retains
  | clock => exact (clock_still r).retains
  | repooled h =>
    obtain ⟨os, pool, rfl, -⟩ := h
    exact ⟨Nat.le_refl _, fun _ _ _ h ↦ h⟩
  | enrolled t peer d now =>
    refine ⟨?_, fun id fd hid hfd ↦ ?_⟩
    · show r.conns.size ≤ (r.conns.push _).size
      rw [Array.size_push]
      omega
    · rwa [Reactor.fd?, conn?_enrolled, if_neg (by omega)] at hfd
  | served _ hc hs => exact (hs.still hc).retains
  | told _ hc hs => exact (hs.still hc).retains.trans (hremark _ _)
  | @ended id =>
    obtain ⟨os, pool, conns, he, hn, hconn, -⟩ := part_spec id r
    have hp : Retains r (part id r) := by
      refine ⟨by rw [he]; exact Nat.le_of_eq hn.symm, fun id' fd _ hfd ↦ ?_⟩
      obtain ⟨c, hc, hfd⟩ := fd?_eq_some hfd
      rw [hconn] at hc
      split_ifs at hc
      · -- A connection that parted has none.
        obtain ⟨c', -, rfl⟩ := Option.map_eq_some_iff.1 hc
        cases hfd
      · rw [Reactor.fd?, hc]
        exact hfd
    exact hp.trans (hremark _ _)
  | relistened h =>
    obtain ⟨os, listener, rfl, -⟩ := h
    exact ⟨Nat.le_refl _, fun _ _ _ h ↦ h⟩

theorem advance_retains (first : Task π ν) (r : Reactor κ π ν) :
    Retains r (advance P first r).1 := by
  obtain ⟨app, h⟩ := advance_deed (P := P) first r
  exact ⟨h.retains.size, h.retains.fd?⟩

end Reactor

/-- The wait asks for the readiness of the descriptor, and so much was reported. -/
structure Wait.Warrants (w : Wait) (reported : List UInt16) (way : Way) (fd : Fd) : Prop where
  asked : ∃ e ∈ w.list, e.fd = fd ∧ e.events &&& way.bit = way.bit
  told : w.list.word reported fd &&& way.reports ≠ 0

namespace Phase

def isBusy : Phase π ν → Bool
  | busy .. => true
  | _ => false

def tasks : Phase π ν → List (Task π ν)
  | busy first rest => first :: rest
  | _ => []

theorem tasks_ofTasks (ts : List (Task π ν)) : (ofTasks ts).tasks = ts := by
  cases ts <;> rfl

end Phase

/-- The task goes by what was reported of the descriptors that it is about. -/
def Task.Due (r : Reactor κ π ν) (w : Wait) (word : Fd → UInt16) : Task π ν → Prop
  | accept fd => r.listener = some fd ∧ (ofWord listenerToken (word fd)).isReady
  | settle events =>
    isReported events wakeToken = (ofWord wakeToken (word r.waker.receiver)).isReady
  | serveAll events ws =>
    (ws.zipIdx.map fun (x, place) ↦ (x, eventOf events place)) = r.calls w word
  | serve x event _ => (x, event) ∈ r.calls w word
  | _ => True

namespace Moment

variable {outside : Phase π ν → Prop} {b : Builder} {m m' : Moment κ π ν} {r : Reactor κ π ν}
  {w : Wait} {reported : List UInt16}

/-- Within a turn that began with the reactor `r`, tasks go by what was reported, connections keep
their descriptors or lose them, and bytes move only where that was asked for and reported. -/
structure Abides (r : Reactor κ π ν) (w : Wait) (reported : List UInt16) (m : Moment κ π ν) :
    Prop where
  due : ∀ t ∈ m.phase.tasks, t.Due r w (w.list.word reported)
  retains : Retains r m.reactor
  journal : Adds (fun e ↦ ∀ way fd, e.moves? = some (way, fd) → w.Warrants reported way fd)
    r.os.journal m.journal

omit [Kernel κ] in
theorem due_of_not_informed {word : Fd → UInt16} {t : Task π ν} (h : t.isInformed = false) :
    t.Due r w word := by
  cases t with
  | accept => cases h
  | settle => cases h
  | serveAll => cases h
  | serve => cases h
  | _ => trivial

omit [Kernel κ] in
theorem turnTasks_due (h : w.Routes r) (reported : List UInt16) :
    ∀ t ∈ turnTasks w (ofReport .posix w.list reported) r,
      t.Due r w (w.list.word reported) := by
  intro t ht
  rcases List.mem_append.1 ht with ht | ht
  · split_ifs at ht with hr
    · obtain ⟨fd, hfd, rfl⟩ := List.mem_map.1 ht
      have hl : r.listener = some fd := Option.mem_toList.1 hfd
      rw [h.listener, hl] at hr
      exact ⟨hl, hr⟩
    · cases ht
  · simp only [List.mem_cons, List.not_mem_nil, or_false] at ht
    rcases ht with rfl | rfl | rfl
    · exact h.waker reported
    · exact calls_eq h reported
    · trivial

omit [Kernel κ] in
theorem mem_serves_iff {t : Task π ν} {events : List Event} {now : Nat} {ws : List Watched}
    {place : Nat} : t ∈ serves events now ws place ↔ ∃ x event, t = .serve x event now ∧
      (x, event) ∈ (ws.zipIdx place).map fun (x, place) ↦ (x, eventOf events place) := by
  induction ws generalizing place with
  | nil => simp [serves]
  | cons x ws ih =>
    simp only [serves, List.mem_cons, List.zipIdx_cons, List.map_cons, ih, Prod.mk.injEq]
    constructor
    · rintro (rfl | ⟨x', event, rfl, h⟩)
      · exact ⟨x, _, rfl, .inl ⟨rfl, rfl⟩⟩
      · exact ⟨x', event, rfl, .inr h⟩
    · rintro ⟨x', event, rfl, ⟨rfl, rfl⟩ | h⟩
      · exact .inl rfl
      · exact .inr ⟨x', event, rfl, h⟩

omit [Kernel κ] in
theorem warrants_of_call (h : w.Routes r) {x : Watched} {event : Event}
    (hx : (x, event) ∈ r.calls w (w.list.word reported)) {fd : Fd} (hfd : r.fd? x.id = some fd)
    {way : Way} (ht : way.told event) (hw : way.wanted x.interest) :
    w.Warrants reported way fd := by
  obtain ⟨⟨x', place⟩, hp, he⟩ := List.mem_map.1 hx
  obtain ⟨rfl, rfl⟩ := Prod.mk.inj he
  obtain ⟨fd', hfd', hlisted, -⟩ := h.listed place x' (List.mem_zipIdx_iff_getElem?.1 hp)
  obtain rfl : fd' = fd := Option.some.inj (hfd'.symm.trans hfd)
  obtain ⟨hentry, -⟩ := (hlisted _).2 ⟨Way.not_isEmpty hw, rfl⟩
  refine ⟨⟨_, hentry, rfl, Way.request_bit hw⟩, ?_⟩
  rw [heard, hfd] at ht
  exact Way.reports_of_told ht

omit [Kernel κ] in
theorem Abides.still {C : Entry (Mark ν) → Prop} {phase : Phase π ν} {r₁ r₂ : Reactor κ π ν}
    (h : Abides r w reported ⟨r₁, phase⟩) (hs : Still C r₁ r₂) (hC : ∀ e, C e → e.isIdle) :
    Abides r w reported ⟨r₂, phase⟩ where
  due := h.due
  retains := h.retains.trans hs.retains
  journal := h.journal.trans (hs.journal.mono fun e he way fd hm ↦ by
    have hi := hC e he
    rw [Entry.isIdle, hm] at hi
    cases hi)

theorem Step.abides (h : Step P outside m m') (hb : m.phase.isBusy) (hr : w.Routes r)
    (ha : Abides r w reported m) : Abides r w reported m' := by
  cases h with
  | kernel r₁ phase k => exact ha.still (C := fun _ ↦ False) (.kernel r₁ k) fun _ he ↦ he.elim
  | listener r₁ phase text => exact ha.still (listenOn_still text r₁) fun _ he ↦ he.chore.idle
  | request r₁ phase q _ => exact ha.still (request_still q r₁) fun _ he ↦ he.idle
  | task r₁ first rest =>
    have hrest : ∀ t ∈ rest, t.Due r w (w.list.word reported) :=
      fun t ht ↦ ha.due t (List.mem_cons_of_mem _ ht)
    have hfirst : first.Due r w (w.list.word reported) := ha.due first List.mem_cons_self
    have hj := advance_moves (P := P) first r₁
    have hk := advance_retains (P := P) first r₁
    refine ⟨?_, ha.retains.trans hk, ha.journal.trans (hj.mono ?_)⟩
    -- The services of a turn come from one task, which was due with its events.
    · have hbrings := advance_brings (P := P) first r₁
      generalize advance P first r₁ = out at hbrings ⊢
      cases hbrings with
      | other h =>
        show ∀ t ∈ (Phase.ofTasks _).tasks, _
        rw [Phase.tasks_ofTasks]
        intro t ht
        rcases List.mem_append.1 ht with ht | ht
        · exact due_of_not_informed (h t ht)
        · exact hrest t ht
      | serves events ws now he =>
        show ∀ t ∈ (Phase.ofTasks _).tasks, _
        rw [Phase.tasks_ofTasks]
        intro t ht
        rcases List.mem_append.1 ht with ht | ht
        · obtain ⟨x, event, rfl, hx⟩ := mem_serves_iff.1 ht
          rw [he] at hfirst
          have hcalls : _ = r.calls w _ := hfirst
          exact (congrArg ((x, event) ∈ ·) hcalls).mp hx
        · exact hrest t ht
      | breaks h =>
        show ∀ t ∈ (Phase.ofTasks _).tasks, _
        rw [Phase.tasks_ofTasks]
        exact fun t ht ↦ due_of_not_informed (h t ht)
      | waits => exact fun _ ht ↦ by cases ht
    · intro e he way fd hm
      obtain ⟨x, event, now, c, rfl, hc, hfd, ht, hw⟩ := he way fd hm
      -- The connection had the descriptor when the turn began, for it had one of its own then.
      have hx : (x, event) ∈ r.calls w (w.list.word reported) := hfirst
      have hid : x.id ≤ r.conns.size := by
        obtain ⟨⟨x', place⟩, hp, he⟩ := List.mem_map.1 hx
        obtain ⟨rfl, -⟩ := Prod.mk.inj he
        obtain ⟨fd', hfd', -⟩ := hr.listed place x' (List.mem_zipIdx_iff_getElem?.1 hp)
        obtain ⟨c', hc', -⟩ := fd?_eq_some hfd'
        exact (conn?_bounds hc').2
      have hfd₁ : r₁.fd? x.id = some fd := by rw [Reactor.fd?, hc, Option.bind_some, hfd]
      exact warrants_of_call hr hx (ha.retains.fd? x.id fd hid hfd₁) ht hw
  | _ => cases hb

/-- A step of a turn, or one beside it. -/
def Turns (P : Policy π ν) (outside : Phase π ν → Prop) (m m' : Moment κ π ν) : Prop :=
  m.phase.isBusy ∧ Step P outside m m'

theorem turns_of_works (h : ReflTransGen (Works P) m m') :
    ReflTransGen (Turns P outside) m m' := by
  refine ReflTransGen.mono ?_ _ _ h
  rintro _ _ ⟨r, first, rest⟩
  exact ⟨rfl, .task r first rest⟩

theorem grows_of_turns (hs : ReflTransGen (Turns P outside) m m') :
    Adds (fun _ ↦ True) m.journal m'.journal := by
  induction hs with
  | refl => exact .refl _
  | tail _ hs ih => exact ih.trans hs.2.grows.journal

theorem Occurs.routes (h : Occurs P outside b m) (hf : Fresh m.journal)
    (hw : m.phase = .waiting w) : w.Routes m.reactor := by
  have hp := h.prepared
  rw [hw] at hp
  exact Wait.IsOf.routes hp hf h.live_lt

theorem abides_of_turns (hr : w.Routes r)
    (h : ReflTransGen (Turns P outside)
      ⟨r, .ofTasks (turnTasks w (ofReport .posix w.list reported) r)⟩ m) :
    Abides r w reported m := by
  induction h with
  | refl =>
    refine ⟨?_, .refl r, .refl _⟩
    show ∀ t ∈ (Phase.ofTasks _).tasks, _
    rw [Phase.tasks_ofTasks]
    exact turnTasks_due hr reported
  | tail _ hs ih => exact hs.2.abides hs.1 hr ih

theorem grows_of_leads {r : Reactor κ π ν} {ts : List (Task π ν)}
    {out : Except Panic Unit × Reactor κ π ν} (h : Leads P r ts out) :
    Adds (fun _ ↦ True) r.os.journal out.2.os.journal := by
  rcases out with ⟨_ | ⟨⟩, r'⟩
  all_goals
    have hs : ReflTransGen (Turns P fun _ ↦ False) _ _ := turns_of_works (h [])
    exact grows_of_turns hs

/-- What becomes of an answer of the system to a wait. -/
structure Routed (P : Policy π ν) (outside : Phase π ν → Prop) (w : Wait) (reported : List UInt16)
    (r : Reactor κ π ν) : Prop where
  prepared : ∃ r₀, w = r₀.prepare ∧ Still (fun _ ↦ True) r₀ r
  routes : w.Routes r
  turn : turn P w (ofReport .posix w.list reported) r =
    directTurn P w (w.list.word reported) r
  abides : ∀ m, ReflTransGen (Turns P outside)
    ⟨r, .ofTasks (turnTasks w (ofReport .posix w.list reported) r)⟩ m → Abides r w reported m
  resumed : Abides r w reported
    ⟨(resume P w (.ok reported) r).2, .ofProgress (resume P w (.ok reported) r).1⟩

/-- Whatever connections a reactor has and whatever the system reports, the listening socket, the
waker and each connection go by what was reported of their own descriptors, and bytes move only on
descriptors that were reported ready for it and only in a way that was asked for. -/
theorem Occurs.routed (h : Occurs P outside b m) (hf : Fresh m.journal) {w : Wait}
    (hw : m.phase = .waiting w) (reported : List UInt16) :
    Routed P outside w reported m.reactor := by
  have hp := h.prepared
  rw [hw] at hp
  have hr : w.Routes m.reactor := Wait.IsOf.routes hp hf h.live_lt
  obtain ⟨r₀, hw₀, -, hs⟩ := hp
  have hturns : ReflTransGen (Turns P outside) _ _ :=
    turns_of_works (resume_works w reported m.reactor)
  exact ⟨⟨r₀, hw₀, hs⟩, hr, turn_eq hr reported, fun m' ↦ abides_of_turns hr,
    abides_of_turns hr hturns⟩

end Moment

theorem Visit.kept_routed : Moment.Occurs policy (fun _ ↦ True) builder kept ∧
    Fresh kept.journal ∧ ∃ w, kept.phase = .waiting w ∧
      Moment.Routed policy (fun _ ↦ True) w [0, 0, 1] kept.reactor := by
  have hf : Fresh kept.journal := by decide +kernel
  obtain ⟨w, hw⟩ := kept_waits
  have ho := kept_occurs fun _ ↦ True
  exact ⟨ho, hf, w, hw, ho.routed hf hw [0, 0, 1]⟩

end PollReactor
