import PollReactor.Proofs.Deed
import PollReactor.Proofs.Moment.Faithful

namespace PollReactor

open Journal (Adds IsOpen Fresh Returned Yields)

variable {κ π ν : Type}

namespace Task

/-- The socket that a task has taken from the pool. -/
def token? : Task π ν → Option (Token Stream)
  | meet t .. => some t
  | _ => none

def isEntrance : Task π ν → Bool
  | accept _ => true
  | meet .. => true
  | _ => false

theorem token?_of_not_entrance {t : Task π ν} (h : t.isEntrance = false) : t.token? = none := by
  cases t with
  | meet => cases h
  | _ => rfl

end Task

namespace Phase

/-- The socket of the admission that is under way. -/
def hand : Phase π ν → Option (Token Stream)
  | busy first _ => first.token?
  | _ => none

/-- There is at most one admission, and it comes first. -/
def Orderly : Phase π ν → Prop
  | busy _ rest => ∀ t ∈ rest, t.isEntrance = false
  | _ => True

theorem orderly_ofTasks {ts : List (Task π ν)} (h : ∀ t ∈ ts.tail, t.isEntrance = false) :
    (ofTasks ts).Orderly := by
  cases ts with
  | nil => trivial
  | cons first rest => exact h

theorem hand_ofTasks {ts : List (Task π ν)} (h : ∀ t ∈ ts, t.isEntrance = false) :
    (ofTasks ts).hand = none := by
  cases ts with
  | nil => rfl
  | cons first rest => exact Task.token?_of_not_entrance (h first List.mem_cons_self)

end Phase

namespace Reactor

variable [Kernel κ] {P : Policy π ν} {r r' : Reactor κ π ν}

def Next.Proper (first : Task π ν) : Next π ν → Prop
  | .go ts => (∀ t ∈ ts, t.isEntrance = false) ∨
      first.isEntrance ∧ ∃ t peer script, ts = [.meet t peer script]
  | .only ts => ∀ t ∈ ts, t.isEntrance = false
  | .wait _ => True

theorem attend_proper (w : Watched) (event : Event) (now : Nat) (r : Reactor κ π ν) :
    ∀ t ∈ (attend P w event now r).2, t.isEntrance = false := by
  intro t ht
  cases attend_sequel ht <;> rfl

theorem mem_serves {t : Task π ν} {events : List Event} {now : Nat} {ws : List Watched}
    {place : Nat} (h : t ∈ serves events now ws place) : ∃ w event, t = .serve w event now := by
  induction ws generalizing place with
  | nil => cases h
  | cons w ws ih =>
    rcases List.mem_cons.1 h with rfl | h
    · exact ⟨w, _, rfl⟩
    · exact ih h

theorem advance_proper (first : Task π ν) (r : Reactor κ π ν) :
    Next.Proper first (advance P first r).2 := by
  have hadv := advance_advanced (P := P) first r
  generalize advance P first r = out at hadv ⊢
  cases hadv with
  | done => exact .inl (List.forall_mem_nil _)
  | vacant | raised => exact List.forall_mem_nil _
  | welcomed | met => exact .inr ⟨rfl, _, _, _, rfl⟩
  | heard | dropped => exact .inl (List.forall_mem_singleton.2 rfl)
  | shared events watched now =>
    refine .inl fun t ht ↦ ?_
    obtain ⟨w, event, rfl⟩ := mem_serves ht
    rfl
  | attended w event now => exact .inl (attend_proper w event now r)
  | cleared => exact List.forall_mem_map.2 fun _ _ ↦ rfl
  | waits => trivial

def Next.token? : Next π ν → Option (Token Stream)
  | .go (t :: _) => t.token?
  | _ => none

theorem Next.Proper.phase {first : Task π ν} {rest : List (Task π ν)} {next : Next π ν}
    (h : Next.Proper first next) (hr : ∀ t ∈ rest, t.isEntrance = false) :
    (next.phase rest).Orderly ∧ (next.phase rest).hand = Next.token? next := by
  cases next with
  | go ts =>
    rcases h with h | ⟨-, t, peer, script, rfl⟩
    · have hall : ∀ t ∈ ts ++ rest, t.isEntrance = false := fun t ht ↦
        (List.mem_append.1 ht).elim (h t) (hr t)
      refine ⟨Phase.orderly_ofTasks fun t ht ↦ hall t (List.mem_of_mem_tail ht), ?_⟩
      refine (Phase.hand_ofTasks hall).trans ?_
      cases ts with
      | nil => rfl
      | cons t ts => exact (Task.token?_of_not_entrance (h t List.mem_cons_self)).symm
    · exact ⟨hr, rfl⟩
  | only ts =>
    exact ⟨Phase.orderly_ofTasks fun t ht ↦ h t (List.mem_of_mem_tail ht), Phase.hand_ofTasks h⟩
  | wait w => exact ⟨trivial, rfl⟩

theorem Next.Proper.token?_eq_none {first : Task π ν} {next : Next π ν}
    (h : Next.Proper first next) (hn : first.isEntrance = false) : Next.token? next = none := by
  cases next with
  | go ts =>
    rcases h with h | ⟨he, -⟩
    · cases ts with
      | nil => rfl
      | cons t ts => exact Task.token?_of_not_entrance (h t List.mem_cons_self)
    · cases hn.symm.trans he
  | _ => rfl

section

variable {n : Nat} {hand : Option (Token Stream)}

theorem request_sound (h : Sound n r hand) (q : Request) : Sound n (request q r).2 hand :=
  h.still (request_still q r) fun _ he ↦ he.closes

omit [Kernel κ] in
theorem remark_sound (h : Sound n r hand) (m : Mark ν) : Sound n (remark m r).2 hand :=
  h.still (C := fun e ↦ e = .remark m) (.remark r rfl) fun _ he ↦ he ▸ rfl

omit [Kernel κ] in
theorem app_sound (h : Sound n r hand) (app : π) : Sound n { r with app } hand :=
  h.still (C := fun _ ↦ False) (.app r app) fun _ he ↦ he.elim

theorem attend_sound (h : Sound n r none) (w : Watched) (event : Event) (now : Nat) :
    Sound n (attend P w event now r).1 none := by
  cases hc : r.conn? w.id with
  | none =>
    rw [attend_of_none hc]
    exact h
  | some c =>
    have ha := attend_attended (P := P) hc event now
    have hs {sends : Bool} {r' : Reactor κ π ν} (hs : Service r w.id c sends r') :
        Sound n r' none :=
      h.still (hs.still hc) fun _ he ↦ he.closes
    generalize attend P w event now r = out at ha ⊢
    cases ha with
    | ended h' => exact hs h'
    | silent h' => exact hs h'
    | told h' => exact remark_sound (hs h') _

theorem advance_sound (first : Task π ν) (h : Sound n r first.token?) :
    Sound n (advance P first r).1 (Next.token? (advance P first r).2) := by
  -- Behind any other task than those of an admission, no socket is in hand.
  have hnone (hn : first.isEntrance = false) (hs : Sound n (advance P first r).1 none) :
      Sound n (advance P first r).1 (Next.token? (advance P first r).2) := by
    rw [(advance_proper first r).token?_eq_none hn]
    exact hs
  cases first with
  | accept listener =>
    show Sound n (welcome P listener r).1 (Next.token? (welcome P listener r).2)
    obtain ⟨he, hs⟩ | ⟨t, peer, script, he, hs⟩ := welcome_sound h listener
    · rw [he]
      exact hs
    · rw [he]
      exact hs
  | meet t peer script =>
    cases script with
    | done out =>
      rcases out with ⟨result, app⟩
      have hs := decide_sound (app_sound h app) peer result
      rcases result with _ | _ | _
      · exact hs
      · exact hs
      · exact hs
    | ask q next => exact request_sound h q
    | say v next => exact remark_sound h _
  | settle events => exact h.still (settleWaker_still events r) fun _ he ↦ he.closes
  | serveAll events watched =>
    exact hnone rfl (h.still (clock_still r) fun _ he ↦ he.closes)
  | serve w event now => exact hnone rfl (attend_sound h w event now)
  | hear script =>
    cases script with
    | done out =>
      rcases out with ⟨_ | _, app⟩
      · exact remark_sound (app_sound h app) _
      · exact app_sound h app
    | ask q next => exact request_sound h q
    | say v next => exact remark_sound h _
  | hasten id =>
    refine hnone rfl ?_
    simp only [advance]
    split
    · exact h
    · split_ifs
      · exact h.still (wake_still r) fun _ he ↦ he.closes
      · exact h
  | check id =>
    refine hnone rfl ?_
    simp only [advance]
    split <;> exact h
  | finalize id why => exact remark_sound (part_sound h id) _
  | proceed =>
    refine hnone rfl ?_
    simp only [advance]
    split_ifs
    · exact h
    · exact remark_sound h _
  | closeListener =>
    exact h.relisten (closeListener_relisten r) fun hl _ ↦ closeListener_ledger hl

end

end Reactor

namespace Moment

open Reactor

variable [Kernel κ] {P : Policy π ν} {outside : Phase π ν → Prop} {m m' : Moment κ π ν}

structure Agrees (n : Nat) (m : Moment κ π ν) : Prop where
  orderly : m.phase.Orderly
  sound : Sound n m.reactor m.phase.hand

omit [Kernel κ] in
theorem turnTasks_phase (w : Wait) (events : List Event) (r : Reactor κ π ν) :
    (Phase.ofTasks (turnTasks w events r)).Orderly ∧
      (Phase.ofTasks (turnTasks w events r)).hand = none := by
  have hrest : ∀ t ∈ [Task.settle events, .serveAll events w.watched, .proceed (π := π) (ν := ν)],
      t.isEntrance = false := by
    simp [Task.isEntrance]
  unfold turnTasks
  split_ifs
  · cases r.listener with
    | none => exact ⟨fun t ht ↦ hrest t (List.mem_cons_of_mem _ ht), rfl⟩
    | some fd => exact ⟨hrest, rfl⟩
  · exact ⟨fun t ht ↦ hrest t (List.mem_cons_of_mem _ ht), rfl⟩

omit [Kernel κ] in
theorem cleanupTasks_proper (r : Reactor κ π ν) :
    ∀ t ∈ r.cleanupTasks (π := π) (ν := ν), t.isEntrance = false := by
  simp only [cleanupTasks, List.mem_append, List.mem_map, List.mem_singleton]
  rintro t (⟨id, -, rfl⟩ | rfl) <;> rfl

theorem Step.agrees {n : Nat} (h : Step P outside m m') (ha : Agrees n m) : Agrees n m' := by
  have hs := ha.sound
  cases h with
  | kernel r phase k =>
    exact ⟨ha.orderly, hs.still (C := fun _ ↦ False) (.kernel r k) fun _ h ↦ h.elim⟩
  | listener r phase text =>
    have ho := Sockets.listenOn_opening (κ := κ) (ν := ν) text
    exact ⟨ha.orderly, hs.relisten (relisten_opening ho r) (ledger_opening ho)⟩
  | request r phase q _ => exact ⟨ha.orderly, request_sound hs q⟩
  | setUp hr => exact ⟨trivial, hs.relisten hr.relisten hr.ledger⟩
  | memory r app => exact ⟨trivial, app_sound hs app⟩
  | start r _ => exact ⟨fun _ h ↦ (by cases h), hs⟩
  | wake r w reported =>
    obtain ⟨ho, hh⟩ := turnTasks_phase w (Event.ofReport .posix w.list reported) r
    refine ⟨ho, ?_⟩
    dsimp only
    rw [hh]
    exact hs
  | fail r w => exact ⟨trivial, hs⟩
  | cleanup r =>
    have hp := cleanupTasks_proper r
    refine ⟨Phase.orderly_ofTasks fun t ht ↦ hp t (List.mem_of_mem_tail ht), ?_⟩
    dsimp only
    rw [Phase.hand_ofTasks hp]
    exact hs
  | task r first rest =>
    obtain ⟨ho, hh⟩ := (advance_proper (P := P) first r).phase ha.orderly
    have hs := advance_sound (P := P) first hs
    rw [← hh] at hs
    exact ⟨ho, hs⟩

theorem acts_grow (h : Relation.ReflTransGen (Act P outside) m m') :
    Grows m.reactor m'.reactor := by
  induction h with
  | refl => exact .refl _
  | tail _ ha ih =>
    have hs := ha.steps
    clear ha
    induction hs with
    | refl => exact ih
    | tail _ hs ih => exact ih.trans hs.grows

theorem pool_eq {b : Builder} {p : Pool Stream} (h : b.pool = .ok p) :
    p = .ofList 0 (List.replicate b.maxConnections .empty) := by
  unfold Builder.pool at h
  split_ifs at h
  unfold Pool.make at h
  split_ifs at h
  · cases h
  · exact (Except.ok.inj h).symm

theorem build_eq {b : Builder} {app : π} {os os' : Os κ (Mark ν)} {r : Reactor κ π ν}
    (h : b.build app os = (.ok r, os')) :
    ∃ receiver sender, Sockets.openPipe os = (.ok (receiver, sender), os') ∧
      b.defaults.check = .ok () ∧ r = {
        os := os'
        app
        waker := ⟨receiver, sender, false⟩
        pool := .ofList 0 (List.replicate b.maxConnections .empty)
        listener := none
        idleLimit := b.idleLimit.filter (· ≠ 0)
        defaults := b.defaults
        conns := #[]
        live := []
        cancelled := false } := by
  unfold Builder.build at h
  cases hc : b.defaults.check with
  | error e => rw [hc] at h; cases h
  | ok u =>
    rw [hc] at h
    cases hp : b.pool with
    | error e => rw [hp] at h; cases h
    | ok pool =>
      rw [hp] at h
      obtain rfl := pool_eq hp
      rcases ho : Sockets.openPipe os with ⟨_ | ⟨receiver, sender⟩, os''⟩
      · simp only [ho] at h
        cases h
      · simp only [ho] at h
        cases h
        exact ⟨receiver, sender, rfl, rfl, rfl⟩

section Empty

omit [Kernel κ]

variable {n : Nat} {r : Reactor κ π ν} (hconns : r.conns = #[])

include hconns

theorem place?_of_empty (id : Nat) : r.place? id = none := by
  rw [place?, conn?_of_empty hconns]
  rfl

theorem holds_of_empty (o : Owner) : r.holds none o = none := by
  cases o with
  | conn id => exact place?_of_empty hconns id
  | _ => rfl

theorem owned_of_empty (hlistener : r.listener = none) {o : Owner} {fd : Fd}
    (h : r.owned none o = some fd) :
    o = .receiver ∧ r.waker.receiver = fd ∨ o = .sender ∧ r.waker.sender = fd := by
  cases o with
  | receiver => exact .inl ⟨rfl, Option.some.inj h⟩
  | sender => exact .inr ⟨rfl, Option.some.inj h⟩
  | listener => cases hlistener.symm.trans h
  | hand => cases h
  | conn id =>
    rw [owned_conn, place?_of_empty hconns] at h
    cases h

theorem holding_of_empty (hlive : r.live = [])
    (hpool : r.pool = .ofList 0 (List.replicate n .empty)) : Holding r none where
  kept := by
    rw [hpool]
    exact Pool.ofList_kept _ _
  parked := by
    intro slot s hs
    have hslots : r.pool.slots = (List.replicate n (some Stream.empty)).toArray := by
      rw [hpool]
      simp [Pool.ofList]
    rw [hslots, List.getElem?_toArray, List.getElem?_replicate] at hs
    split_ifs at hs
    exact (Option.some.inj (Option.some.inj hs)).symm
  nodup := by
    rw [hlive]
    exact .nil
  live_iff := by
    intro id
    rw [hlive, place?_of_empty hconns]
    simp
  out := by
    intro o p ho
    cases (holds_of_empty hconns o).symm.trans ho
  apart := by
    intro o o' p p' ho
    cases (holds_of_empty hconns o).symm.trans ho

theorem ledger_of_empty (hlistener : r.listener = none)
    (hne : r.waker.receiver ≠ r.waker.sender) (hr : IsOpen r.waker.receiver r.os.journal)
    (hs : IsOpen r.waker.sender r.os.journal) : Ledger r none where
  opened := by
    intro o fd ho
    rcases owned_of_empty hconns hlistener ho with ⟨-, rfl⟩ | ⟨-, rfl⟩
    · exact hr
    · exact hs
  apart := by
    intro o o' fd ho ho'
    rcases owned_of_empty hconns hlistener ho with ⟨h, hfd⟩ | ⟨h, hfd⟩ <;>
      rcases owned_of_empty hconns hlistener ho' with ⟨h', hfd'⟩ | ⟨h', hfd'⟩
    · rw [h, h']
    · exact absurd (hfd.trans hfd'.symm) hne
    · exact absurd (hfd'.trans hfd.symm) hne
    · rw [h, h']

theorem sound_of_empty (hlive : r.live = []) (hlistener : r.listener = none)
    (hpool : r.pool = .ofList 0 (List.replicate n .empty))
    (hw : Fresh r.os.journal → r.waker.receiver ≠ r.waker.sender ∧
      IsOpen r.waker.receiver r.os.journal ∧ IsOpen r.waker.sender r.os.journal) :
    Sound n r none where
  holding := holding_of_empty hconns hlive hpool
  ledger hf := ledger_of_empty hconns hlistener (hw hf).1 (hw hf).2.1 (hw hf).2.2
  size := by
    rw [hpool]
    simp [Pool.ofList]
  all _ := by
    rw [hlive, hpool]
    simp [Pool.ofList]

end Empty

theorem built_agrees {b : Builder} {app : π} {os os' : Os κ (Mark ν)} {r : Reactor κ π ν}
    (h : b.build app os = (.ok r, os')) : Agrees b.maxConnections ⟨r, .idle⟩ := by
  obtain ⟨receiver, sender, ho, -, rfl⟩ := build_eq h
  refine ⟨trivial, sound_of_empty rfl rfl rfl rfl ?_⟩
  intro hf
  have hy := Sockets.openPipe_opening os.journal os (.refl _)
  rw [ho] at hy
  obtain ⟨⟨hn, -⟩, hopen⟩ := hy.2 hf
  refine ⟨List.pairwise_pair.1 hn, (hopen receiver).2 (.inl ?_), (hopen sender).2 (.inl ?_)⟩
  · exact List.mem_cons_self
  · exact List.mem_cons_of_mem _ List.mem_cons_self

theorem built_bare {b : Builder} {app : π} {os os' : Os κ (Mark ν)} {r : Reactor κ π ν}
    (h : b.build app os = (.ok r, os')) (hj : os.journal = []) :
    r.conns = #[] ∧ Adds (·.isSetup) [] r.os.journal := by
  obtain ⟨receiver, sender, ho, -, rfl⟩ := build_eq h
  have hy := Sockets.openPipe_opening os.journal os (.refl _)
  rw [ho, hj] at hy
  exact ⟨rfl, hy.1⟩

theorem Occurs.agrees {b : Builder} (h : Occurs P outside b m) : Agrees b.maxConnections m :=
  h.induction (fun _ _ _ _ hb _ ↦ built_agrees hb) fun _ _ hs ha ↦ hs.agrees ha

end Moment

namespace Reactor

/-- The pool, the list of live connections and the sockets agree, in a reactor for up to `n`
connections. -/
structure InStep (n : Nat) (r : Reactor κ π ν) : Prop where
  inUse : r.pool.inUse = r.live.length
  atMost : r.live.length ≤ n
  nodup : r.live.Nodup
  socket : ∀ id ∈ r.live, ∃ c t fd, r.conn? id = some c ∧ c.socket = some t ∧
    t.pool = r.pool.id ∧ r.pool.slots[t.slot]? = some none ∧ t.value.fd = some fd
  slots : ∀ id ∈ r.live, ∀ id' ∈ r.live, ∀ c c' t t', r.conn? id = some c → c.socket = some t →
    r.conn? id' = some c' → c'.socket = some t' → t.slot = t'.slot → id = id'
  /-- If the system never gives out a descriptor that is in use. -/
  descriptors : Fresh r.os.journal → ∀ id ∈ r.live, ∀ id' ∈ r.live, ∀ c c' fd,
    r.conn? id = some c → r.conn? id' = some c' → c.fd? = some fd → c'.fd? = some fd → id = id'
  others : ∀ id c, r.conn? id = some c → id ∉ r.live → c.socket = none
  parked : ∀ (slot : Nat) (s : Stream), r.pool.slots[slot]? = some (some s) → s = .empty

variable {r : Reactor κ π ν} {n : Nat}

theorem place?_of_socket {id : Nat} {c : Conn} {t : Token Stream} (hc : r.conn? id = some c)
    (ht : c.socket = some t) : r.place? id = some t.place := by
  unfold place? Conn.place?
  rw [hc, Option.bind_some, ht]
  rfl

theorem owned_of_fd? {hand : Option (Token Stream)} {id : Nat} {c : Conn} {fd : Fd}
    (hc : r.conn? id = some c) (hfd : c.fd? = some fd) : r.owned hand (.conn id) = some fd := by
  rw [owned_conn, place?, hc, Option.bind_some, ← Conn.fd?_eq]
  exact hfd

theorem Sound.inStep (h : Sound n r none) (hr : Returned r.os.journal) : InStep n r := by
  have hall := h.all hr
  have hsize := h.size
  simp only [Option.toList_none, List.length_nil, Nat.add_zero] at hall
  constructor
  case inUse =>
    show r.pool.slots.size - r.pool.free.length = r.live.length
    omega
  case atMost => omega
  case nodup => exact h.holding.nodup
  case socket =>
    intro id hid
    obtain ⟨c, t, fd, hc, ht, hfd, hp⟩ := h.holding.live hid
    obtain ⟨hpool, hslot, -⟩ := h.holding.out (.conn id) t.place hp
    exact ⟨c, t, fd, hc, ht, hpool, hslot, hfd⟩
  case slots =>
    intro id _ id' _ c c' t t' hc ht hc' ht' he
    exact Owner.conn.inj (h.holding.apart (.conn id) (.conn id') t.place t'.place
      (place?_of_socket hc ht) (place?_of_socket hc' ht') he)
  case descriptors =>
    intro hf id _ id' _ c c' fd hc hc' hfd hfd'
    exact Owner.conn.inj ((h.ledger hf).apart _ _ fd (owned_of_fd? hc hfd) (owned_of_fd? hc' hfd'))
  case others =>
    intro id c hc hid
    rw [h.holding.live_iff, Option.not_isSome_iff_eq_none] at hid
    rw [place?, hc] at hid
    exact Option.map_eq_none_iff.1 hid
  case parked => exact h.holding.parked

end Reactor

/-- Whatever the policy does, the system answers and other threads ask for: as long as callbacks
return, pool, list and sockets agree whenever no admission is under way. -/
theorem Moment.Occurs.pool_in_step [Kernel κ] {P : Policy π ν} {outside : Phase π ν → Prop}
    {b : Builder} {m : Moment κ π ν} (h : Occurs P outside b m) (hr : Returned m.journal)
    (hm : m.phase.hand = none) : m.reactor.InStep b.maxConnections := by
  have hs := h.agrees.sound
  rw [hm] at hs
  exact hs.inStep hr

theorem Visit.kept_in_step : Moment.Occurs policy (fun _ ↦ True) builder kept ∧
    Returned kept.journal ∧ kept.phase.hand = none ∧ kept.reactor.live = [1] ∧
    kept.reactor.InStep 1 := by
  have ho := kept_occurs fun _ ↦ True
  have hr : Returned kept.journal := by decide +kernel
  have hm : kept.phase.hand = none := Option.isNone_iff_eq_none.1 (by decide +kernel)
  exact ⟨ho, hr, hm, by decide +kernel, ho.pool_in_step hr hm⟩

end PollReactor
