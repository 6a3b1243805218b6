import Mathlib.Logic.Function.Basic
import PollReactor.Proofs.Rousing

namespace PollReactor

open Journal (Adds)

/-- Where a reactor stands between two of its steps on the waker. -/
inductive Stage where
  | serving
  | waiting (w : Wait)
  | reported (events : List Event)
  | draining
  | drained

def Stage.resets : Stage → Bool
  | draining => true
  | drained => true
  | _ => false

def Stage.afterRead : Except Errno Nat → Stage
  | .ok (_ + 1) => draining
  | _ => drained

/-- A reactor among the threads `ι`. A call of the waker sets the flag and then writes the byte, a
reset empties the pipe and then unsets the flag; the steps fall between one another in any order. -/
structure Race (ι κ π ν : Type) where
  reactor : Reactor κ π ν
  stage : Stage
  /-- The threads that set the flag and have yet to write the byte. -/
  owes : ι → Bool

/-- The steps that fall between one another. A thread changes a connection, sets the flag of the
waker and, if it was unset, writes a byte. The reactor builds what it waits for, waits, looks at
what was reported and at the flag, reads from the pipe and unsets the flag. -/
inductive Move (ι : Type) where
  | call (i : ι) (id : Nat) (op : ConnOp)
  | swap (i : ι) (won : Bool)
  | notify (i : ι)
  | prepare
  | report
  | check
  | read
  | store
  /-- The loop is left by a wait that fails or a callback that does not return. -/
  | leave
  /-- Whatever leaves the waker alone. -/
  | elsewhere
  deriving DecidableEq

def Move.thread? {ι : Type} : Move ι → Option ι
  | call i .. => some i
  | swap i _ => some i
  | notify i => some i
  | _ => none

def Move.wake {ι : Type} (i : ι) : (won : Bool) → List (Move ι)
  | false => [swap i false]
  | true => [notify i, swap i true]

/-- The next step of the thread writes its byte. -/
def Move.Writes {ι : Type} (i : ι) (later : List (Move ι)) : Prop :=
  ∃ after between, later = after ++ notify i :: between ∧ ∀ m ∈ between, m.thread? ≠ some i

namespace Race

open Reactor (system remark isReported)

variable {ι κ π ν : Type} [DecidableEq ι] [Kernel κ]

def start (r : Reactor κ π ν) : Race ι κ π ν := ⟨r, .serving, fun _ ↦ false⟩

/-- The moves of a thread are the parts of `Reactor.wake`, `callConn` and `request`: see
`wake_runs`, `callConn_runs` and `request_runs`. Those of the reactor are the parts of
`Waker.drain`, `Waker.reset` and `settleWaker`: see `drain_runs` and `settle_runs`. By
`Occurs.races`, every life of a reactor is a run of these steps. -/
inductive Step (s : Race ι κ π ν) : Move ι → Race ι κ π ν → Prop where
  | call {i : ι} (hi : s.owes i = false) {id : Nat} {c : Conn} (hc : s.reactor.conn? id = some c)
      (op : ConnOp) : Step s (.call i id op) { s with
        reactor := (remark (.called id c op) (s.reactor.setConn id (c.perform op).2.1)).2 }
  | swap {i : ι} (hi : s.owes i = false) : Step s (.swap i !s.reactor.waker.signaled) { s with
      reactor.waker.signaled := true
      owes := Function.update s.owes i !s.reactor.waker.signaled }
  | notify {i : ι} (hi : s.owes i) : Step s (.notify i) { s with
      reactor := (system (attempt (.write s.reactor.waker.sender [1])) s.reactor).2
      owes := Function.update s.owes i false }
  | prepare (hs : s.stage = .serving) :
      Step s .prepare { s with stage := .waiting s.reactor.prepare }
  | report {w : Wait} (hs : s.stage = .waiting w) (reported : List UInt16) :
      Step s .report { s with stage := .reported (Event.ofReport .posix w.list reported) }
  | check {events : List Event} (hs : s.stage = .reported events) : Step s .check { s with
      stage := if isReported events wakeToken || s.reactor.waker.signaled then .draining
        else .serving }
  | read (hs : s.stage = .draining) : Step s .read { s with
      reactor := (system (sys (.read s.reactor.waker.receiver 64)) s.reactor).2
      stage := Stage.afterRead (system (sys (.read s.reactor.waker.receiver 64)) s.reactor).1 }
  | store (hs : s.stage = .drained) :
      Step s .store { s with reactor.waker.signaled := false, stage := .serving }
  | leave (hs : s.stage.resets = false) :
      Step s .leave { s with stage := .serving }
  | elsewhere {r : Reactor κ π ν} (hw : r.waker = s.reactor.waker)
      (hj : Adds (·.isDry) s.reactor.os.journal r.os.journal) :
      Step s .elsewhere { s with reactor := r }

/-- A run and its moves, the latest first. -/
inductive Run (s : Race ι κ π ν) : List (Move ι) → Race ι κ π ν → Prop where
  | refl : Run s [] s
  | step {t : List (Move ι)} {m : Move ι} {s' s'' : Race ι κ π ν} (h : Run s t s')
      (hm : Step s' m s'') : Run s (m :: t) s''

variable {s s' s'' : Race ι κ π ν} {m : Move ι} {t t' : List (Move ι)}

theorem Run.trans (h : Run s t s') (h' : Run s' t' s'') : Run s (t' ++ t) s'' := by
  induction h' with
  | refl => exact h
  | step _ hm ih => exact ih.step hm

theorem Run.split (h : Run s (t' ++ t) s'') : ∃ s', Run s t s' ∧ Run s' t' s'' := by
  induction t' generalizing s'' with
  | nil => exact ⟨s'', h, .refl⟩
  | cons m t' ih =>
    cases h with
    | step h hm =>
      obtain ⟨s', h, h'⟩ := ih h
      exact ⟨s', h, h'.step hm⟩

theorem Step.grows (h : Step s m s') : s.reactor.Grows s'.reactor := by
  cases h with
  | elsewhere hw hj => exact ⟨hj.mono fun _ _ ↦ trivial, by rw [hw], by rw [hw]⟩
  | call => exact ⟨.single trivial, rfl, rfl⟩
  | notify => exact ⟨.single trivial, rfl, rfl⟩
  | read => exact ⟨.single trivial, rfl, rfl⟩
  | _ => exact ⟨.refl _, rfl, rfl⟩

theorem Step.unread_le (h : Step s m s') (hm : m ≠ .read) :
    s.reactor.unread ≤ s'.reactor.unread := by
  have hdry (r : Reactor κ π ν) (hw : r.waker.receiver = s.reactor.waker.receiver ∧
      r.waker.sender = s.reactor.waker.sender)
      (hj : Adds (·.pipedOut s.reactor.waker.receiver = 0) s.reactor.os.journal r.os.journal) :
      s.reactor.unread ≤ r.unread := by
    unfold Reactor.unread
    rw [hw.1, hw.2]
    exact Journal.unread_le hj
  refine hdry _ ⟨h.grows.receiver, h.grows.sender⟩ ?_
  cases h with
  | elsewhere hw hj => exact hj.mono fun _ he ↦ (Entry.piped_of_isDry he _).2
  | call => exact .single rfl
  | notify => exact .single rfl
  | read => exact absurd rfl hm
  | _ => exact .refl _

/-- Unless the waker is being reset, its flag stands for a byte in the pipe or for one to come. -/
def Heard (s : Race ι κ π ν) : Prop :=
  s.stage.resets = false → s.reactor.waker.signaled → 0 < s.reactor.unread ∨ ∃ i, s.owes i

theorem Step.heard (h : Step s m s') (hp : s'.reactor.Piped) (hs : Heard s) : Heard s' := by
  have hmore (hm : m ≠ .read) (h0 : 0 < s.reactor.unread ∨ ∃ i, s.owes i) :
      0 < s'.reactor.unread ∨ ∃ i, s.owes i :=
    h0.imp_left fun h0 ↦ Nat.lt_of_lt_of_le h0 (h.unread_le hm)
  intro hres hsig
  cases h with
  | call => exact hmore nofun (hs hres hsig)
  | @swap i hi =>
    cases hflag : s.reactor.waker.signaled with
    | true =>
      refine (hs hres hflag).imp_right ?_
      rintro ⟨j, hj⟩
      have hne : j ≠ i := by
        rintro rfl
        cases hi.symm.trans hj
      exact ⟨j, by simp [hne, hj]⟩
    | false => exact .inr ⟨i, by simp⟩
  | notify => exact .inl (Reactor.unread_notify hp)
  | prepare hstage => exact hs (by rw [hstage]; rfl) hsig
  | report hstage => exact hs (by rw [hstage]; rfl) hsig
  | check hstage => exact hs (by rw [hstage]; rfl) hsig
  | read =>
    generalize (system (sys (.read s.reactor.waker.receiver 64)) s.reactor).1 = a at hres
    rcases a with _ | _ | _ <;> cases hres
  | store => cases hsig
  | leave hstage => exact hs hstage hsig
  | elsewhere hw hj => exact hmore nofun (hs hres (hw ▸ hsig))

theorem Run.heard (h : Run s t s') (hp : s'.reactor.Piped) (hs : Heard s) : Heard s' := by
  induction h with
  | refl => exact hs
  | step _ hm ih => exact hm.heard hp (ih (hm.grows.piped hp))

theorem Step.swapped {i : ι} {won : Bool} (h : Step s (.swap i won) s') :
    (won ↔ s.reactor.waker.signaled = false) ∧ s'.reactor.waker.signaled ∧ s'.owes i = won := by
  cases h
  simp

theorem Step.notified {i : ι} (h : Step s (.notify i) s') : s.owes i ∧ s'.owes i = false := by
  cases h with
  | notify hi => simp [hi]

theorem Step.signaled (h : Step s m s') (hm : m ≠ .store) (hs : s.reactor.waker.signaled) :
    s'.reactor.waker.signaled := by
  cases h with
  | swap => rfl
  | store => exact absurd rfl hm
  | elsewhere hw _ =>
    show Waker.signaled _
    rw [hw]
    exact hs
  | _ => exact hs

theorem Step.owes_of_thread {i : ι} (h : Step s m s') (hm : m.thread? ≠ some i) :
    s'.owes i = s.owes i := by
  have hne {j : ι} (hj : some j ≠ some i) : i ≠ j := by
    rintro rfl
    exact hj rfl
  cases h with
  | swap => simp [hne hm]
  | notify => simp [hne hm]
  | _ => rfl

theorem Step.owes_signaled {i : ι} (h : Step s m s') (hs : s.reactor.waker.signaled)
    (hi : s.owes i = false) : s'.owes i = false := by
  by_cases hm : m.thread? = some i
  · cases h with
    | swap =>
      obtain rfl := Option.some.inj hm
      simp [hs]
    | notify =>
      obtain rfl := Option.some.inj hm
      simp
    | _ => exact hi
  · rw [h.owes_of_thread hm, hi]

theorem Run.signaled (h : Run s t s') (ht : .store ∉ t) (hs : s.reactor.waker.signaled) :
    s'.reactor.waker.signaled := by
  induction h with
  | refl => exact hs
  | step _ hm ih =>
    rw [List.mem_cons, not_or] at ht
    exact hm.signaled (Ne.symm ht.1) (ih ht.2)

theorem Run.owes_signaled {i : ι} (h : Run s t s') (ht : .store ∉ t)
    (hs : s.reactor.waker.signaled) (hi : s.owes i = false) : s'.owes i = false := by
  induction h with
  | refl => exact hi
  | step h hm ih =>
    rw [List.mem_cons, not_or] at ht
    exact hm.owes_signaled (h.signaled ht.2 hs) (ih ht.2)

theorem Run.owes_of_thread {i : ι} (h : Run s t s') (ht : ∀ m ∈ t, m.thread? ≠ some i) :
    s'.owes i = s.owes i := by
  induction h with
  | refl => rfl
  | step _ hm ih =>
    rw [hm.owes_of_thread (ht _ List.mem_cons_self)]
    exact ih fun m h ↦ ht m (List.mem_cons_of_mem _ h)

theorem Run.at_mem (h : Run s t s') (hm : m ∈ t) : ∃ later earlier s₁ s₂,
    t = later ++ m :: earlier ∧ Run s earlier s₁ ∧ Step s₁ m s₂ ∧ Run s₂ later s' := by
  obtain ⟨later, earlier, rfl⟩ := List.append_of_mem hm
  obtain ⟨s₂, h, hlater⟩ := h.split
  cases h with
  | step hearlier hstep => exact ⟨later, earlier, _, s₂, rfl, hearlier, hstep, hlater⟩

theorem Run.completed {i : ι} {won : Bool} (h : Run s t s') (ht : .store ∉ t)
    (hw : (Move.wake i won).Sublist t) :
    s'.reactor.waker.signaled ∧ s'.owes i = false := by
  cases won with
  -- A call that finds the flag set is complete with its swap.
  | false =>
    obtain ⟨later, earlier, s₁, s₂, rfl, -, hswap, hlater⟩ := h.at_mem (List.singleton_sublist.1 hw)
    obtain ⟨-, hsig, howes⟩ := hswap.swapped
    have hstore : .store ∉ later := fun hm ↦ ht (List.mem_append_left _ hm)
    exact ⟨hlater.signaled hstore hsig, hlater.owes_signaled hstore hsig howes⟩
  | true =>
    obtain ⟨late, early, rfl, hnotify, hswap⟩ := List.cons_sublist_iff.1 hw
    obtain ⟨sm, hearly, hlate⟩ := h.split
    rw [List.mem_append, not_or] at ht
    have hsig : sm.reactor.waker.signaled := by
      obtain ⟨later, earlier, s₁, s₂, rfl, -, hswap, hlater⟩ :=
        hearly.at_mem (List.singleton_sublist.1 hswap)
      exact hlater.signaled (fun hm ↦ ht.2 (List.mem_append_left _ hm)) hswap.swapped.2.1
    -- Between swap and write, and behind that, nothing but a reset would unset the flag.
    obtain ⟨later, earlier, s₁, s₂, rfl, hearlier, hnotify, hlater⟩ := hlate.at_mem hnotify
    simp only [List.mem_append, List.mem_cons, not_or] at ht
    have hsig := hnotify.signaled nofun (hearlier.signaled ht.1.2.2 hsig)
    exact ⟨hlater.signaled ht.1.1 hsig, hlater.owes_signaled ht.1.1 hsig hnotify.notified.2⟩

theorem Run.owes_of_writes {i : ι} (h : Run s t s') (hw : Move.Writes i t) : s.owes i := by
  obtain ⟨after, between, rfl, hbetween⟩ := hw
  obtain ⟨s₂, h, -⟩ := h.split
  cases h with
  | step h hnotify => exact h.owes_of_thread hbetween ▸ hnotify.notified.1

theorem Step.waits {w : Wait} (h : Step s m s') (hw : s'.stage = .waiting w) (hm : m ≠ .prepare) :
    s.stage = .waiting w ∧ m ≠ .store := by
  cases h with
  | prepare => exact absurd rfl hm
  | read =>
    replace hw : Stage.afterRead _ = .waiting w := hw
    unfold Stage.afterRead at hw
    split at hw <;> cases hw
  | check =>
    replace hw : (if _ then Stage.draining else .serving) = .waiting w := hw
    split_ifs at hw
  | report => cases hw
  | store => cases hw
  | leave => cases hw
  | _ => exact ⟨hw, nofun⟩

theorem Run.waits {w : Wait} (h : Run s t s') (hw : s'.stage = .waiting w) (ht : .prepare ∉ t) :
    .store ∉ t := by
  induction h with
  | refl => exact List.not_mem_nil
  | step _ hm ih =>
    rw [List.mem_cons, not_or] at ht ⊢
    obtain ⟨hw', hstore⟩ := hm.waits hw (Ne.symm ht.1)
    exact ⟨Ne.symm hstore, ih hw' ht.2⟩

/-- No wakeup is lost: while the reactor waits, a thread that changed a connection and then called
the waker, both since the interest was looked at, leaves a byte in the pipe or another thread that
is about to write one. And wakeups are coalesced: between the flags of two calls that each write a
byte, the flag was unset by a reset. What threads and reactor do is such a run, undivided in
`wake_runs`, `callConn_runs`, `request_runs`, `drain_runs` and `settle_runs`, and as a whole in
`Moment.Occurs.races`. -/
theorem Run.no_lost_wakeup {r : Reactor κ π ν} (h : Run (start r) t s)
    (hr : r.waker.signaled = false) (hp : s.reactor.Piped) :
    (∀ w recent before (i : ι) id op won, s.stage = .waiting w →
      t = recent ++ .prepare :: before → .prepare ∉ recent →
      (Move.wake i won ++ [Move.call i id op]).Sublist recent →
        0 < s.reactor.unread ∨ ∃ j, j ≠ i ∧ s.owes j) ∧
    ∀ late between early (i j : ι) won won',
      t = late ++ .swap i won :: (between ++ .swap j won' :: early) → Move.Writes i late →
      Move.Writes j (late ++ .swap i won :: between) → .store ∈ between := by
  constructor
  · rintro w recent before i id op won hstage rfl hprepare hsub
    have hheard := h.heard hp fun _ hsig ↦ by
      cases hr.symm.trans hsig
    obtain ⟨s₁, -, hrecent⟩ := h.split
    have hstore := hrecent.waits hstage hprepare
    obtain ⟨hsig, howes⟩ :=
      hrecent.completed hstore ((List.sublist_append_left _ _).trans hsub)
    refine (hheard (by rw [hstage]; rfl) hsig).imp_right ?_
    rintro ⟨j, hj⟩
    refine ⟨j, ?_, hj⟩
    rintro rfl
    cases howes.symm.trans hj
  · rintro late between early i j won won' rfl hi hj
    by_contra hstore
    obtain ⟨s₄, h, hlate⟩ := h.split
    cases h with
    | step h hswap =>
      obtain ⟨s₂, h, hbetween⟩ := h.split
      cases h with
      | step h hswap' =>
        -- The flag set by the earlier call would still be set at the later one.
        have hset := hbetween.signaled hstore hswap'.swapped.2.1
        have hwon : won = true := by
          rw [← hswap.swapped.2.2]
          exact hlate.owes_of_writes hi
        cases hset.symm.trans (hswap.swapped.1.1 hwon)

/-- A call of the waker is the swap of the flag, and the write if it was unset. -/
theorem wake_runs (s : Race ι κ π ν) {i : ι} (hi : s.owes i = false) :
    Run s (Move.wake i !s.reactor.waker.signaled)
      { s with reactor := (Reactor.wake s.reactor).2 } := by
  have hswap := Run.refl.step (Step.swap (s := s) hi)
  rcases s with ⟨⟨os, app, ⟨receiver, sender, signaled⟩, pool, listener, idleLimit, defaults, conns,
    live, cancelled⟩, stage, owes⟩
  have howes : Function.update owes i false = owes := Function.update_eq_self_iff.2 hi.symm
  cases signaled with
  | true => simpa [Move.wake, Reactor.wake_run, howes] using hswap
  | false =>
    have hnotify := hswap.step (Step.notify (i := i) (by simp))
    simpa [Move.wake, Reactor.wake_run, howes] using hnotify

theorem drain_runs (r : Reactor κ π ν) (owes : ι → Bool) : ∃ t, Run ⟨r, .draining, owes⟩ t
    ⟨{ r with os := Waker.drain r.waker.receiver r.os }, .drained, owes⟩ := by
  have hread (r : Reactor κ π ν) {a : Except Errno Nat} {o' : Os κ (Mark ν)}
      (h : Os.call (.read r.waker.receiver 64) r.os = (a, o')) :
      Step ⟨r, .draining, owes⟩ .read ⟨{ r with os := o' }, Stage.afterRead a, owes⟩ := by
    have hstep := Step.read (s := ⟨r, .draining, owes⟩) rfl
    simp only [system, sys, h] at hstep
    exact hstep
  generalize ho : r.os = o
  generalize hfd : r.waker.receiver = fd
  fun_induction Waker.drain fd o generalizing r with
  | case1 o o' h =>
    subst ho hfd
    exact ⟨_, Run.refl.step (hread r h)⟩
  | case2 o n o' h hn _ ih =>
    subst ho hfd
    obtain ⟨t, ht⟩ := ih { r with os := o' } rfl rfl
    obtain ⟨n, rfl⟩ := Nat.exists_eq_succ_of_ne_zero hn
    exact ⟨_, (Run.refl.step (hread r h)).trans ht⟩
  | case3 o e o' h =>
    subst ho hfd
    exact ⟨_, Run.refl.step (hread r h)⟩

/-- What the reactor does about its waker is the check, and the reset if it is called for. -/
theorem settle_runs (r : Reactor κ π ν) (events : List Event) (owes : ι → Bool) : ∃ t,
    Run ⟨r, .reported events, owes⟩ t ⟨(Reactor.settleWaker events r).2, .serving, owes⟩ := by
  have hcheck := Run.refl.step (Step.check (s := ⟨r, .reported events, owes⟩) rfl)
  rw [Reactor.settleWaker_run]
  split_ifs with h
  · simp only [h] at hcheck
    obtain ⟨t, ht⟩ := drain_runs r owes
    exact ⟨_, (hcheck.trans ht).step (.store rfl)⟩
  · simp only [h] at hcheck
    exact ⟨_, hcheck⟩

theorem actAll_runs (es : List Effect) (s : Race ι κ π ν) {i : ι} (hi : s.owes i = false) :
    ∃ t, Run s t { s with reactor := (Reactor.actAll es s.reactor).2 } := by
  induction es generalizing s with
  | nil => exact ⟨_, .refl⟩
  | cons e es ih =>
    obtain ⟨t, ht⟩ := ih { s with reactor := (Reactor.act e s.reactor).2 } hi
    cases e with
    | wake => exact ⟨_, (wake_runs s hi).trans ht⟩
    | shutdown fd =>
      have hact : Step s .elsewhere { s with
        reactor := (Reactor.act (.shutdown fd) s.reactor).2 } := .elsewhere rfl (.single rfl)
      exact ⟨_, (Run.refl.step hact).trans ht⟩

theorem callConn_runs (s : Race ι κ π ν) {i : ι} (hi : s.owes i = false) {id : Nat} {c : Conn}
    (hc : s.reactor.conn? id = some c) (op : ConnOp) : ∃ t,
      Run s (t ++ [.call i id op]) { s with reactor := (Reactor.callConn id op s.reactor).2 } := by
  rw [Reactor.callConn_run hc]
  obtain ⟨t, ht⟩ := actAll_runs (c.perform op).2.2 { s with
    reactor := (remark (.called id c op) (s.reactor.setConn id (c.perform op).2.1)).2 } hi
  exact ⟨t, (Run.refl.step (Step.call hi hc op)).trans ht⟩

theorem request_runs (s : Race ι κ π ν) {i : ι} (hi : s.owes i = false) (q : Request) :
    ∃ t, Run s t { s with reactor := (Reactor.request q s.reactor).2 } := by
  have hs := Reactor.request_stirs q s.reactor
  generalize (Reactor.request q s.reactor).2 = r' at hs ⊢
  induction hs with
  | refl => exact ⟨_, .refl⟩
  | @tail r₁ r₂ _ hstir ih =>
    obtain ⟨t, ht⟩ := ih
    suffices h : ∃ t', Run { s with reactor := r₁ } t' { s with reactor := r₂ } by
      obtain ⟨t', ht'⟩ := h
      exact ⟨_, ht.trans ht'⟩
    cases hstir with
    | called id c op hc =>
      obtain ⟨t', ht'⟩ := callConn_runs { s with reactor := r₁ } hi hc op
      exact ⟨_, ht'⟩
    | wake => exact ⟨_, wake_runs { s with reactor := r₁ } hi⟩
    | cancel =>
      have hx : Step { s with reactor := r₁ } .elsewhere
        { s with reactor := { r₁ with cancelled := true } } := .elsewhere rfl (.refl _)
      exact ⟨_, (Run.refl.step hx).trans
        (wake_runs { s with reactor := { r₁ with cancelled := true } } hi)⟩
    | clock => exact ⟨_, Run.refl.step (.elsewhere rfl (.single rfl))⟩
    | answered q a _ => exact ⟨_, Run.refl.step (.elsewhere rfl (.single rfl))⟩

def next? (reported : List UInt16) (s : Race ι κ π ν) (m : Move ι) : Option (Race ι κ π ν) :=
  match m, s.stage with
  | .call i id op, _ =>
    if s.owes i then none
    else (s.reactor.conn? id).map fun c ↦ { s with
      reactor := (remark (.called id c op) (s.reactor.setConn id (c.perform op).2.1)).2 }
  | .swap i won, _ =>
    if s.owes i = false ∧ won = !s.reactor.waker.signaled then some { s with
      reactor.waker.signaled := true
      owes := Function.update s.owes i !s.reactor.waker.signaled }
    else none
  | .notify i, _ =>
    if s.owes i then some { s with
      reactor := (system (attempt (.write s.reactor.waker.sender [1])) s.reactor).2
      owes := Function.update s.owes i false }
    else none
  | .prepare, .serving => some { s with stage := .waiting s.reactor.prepare }
  | .report, .waiting w =>
    some { s with stage := .reported (Event.ofReport .posix w.list reported) }
  | .check, .reported events => some { s with
      stage := if isReported events wakeToken || s.reactor.waker.signaled then .draining
        else .serving }
  | .read, .draining => some { s with
      reactor := (system (sys (.read s.reactor.waker.receiver 64)) s.reactor).2
      stage := Stage.afterRead (system (sys (.read s.reactor.waker.receiver 64)) s.reactor).1 }
  | .store, .drained => some { s with reactor.waker.signaled := false, stage := .serving }
  | _, _ => none

theorem next?_step {reported : List UInt16} (h : s.next? reported m = some s') :
    Step s m s' := by
  unfold next? at h
  split at h
  · split_ifs at h with hi
    obtain ⟨c, hc, rfl⟩ := Option.map_eq_some_iff.1 h
    exact .call (Bool.eq_false_iff.2 hi) hc _
  · split_ifs at h with hi
    obtain ⟨hi, rfl⟩ := hi
    cases h
    exact .swap hi
  · split_ifs at h with hi
    cases h
    exact .notify hi
  · rename_i hs
    cases h
    exact .prepare hs
  · rename_i hs
    cases h
    exact .report hs reported
  · rename_i hs
    cases h
    exact .check hs
  · rename_i hs
    cases h
    exact .read hs
  · rename_i hs
    cases h
    exact .store hs
  · cases h

def follow? (reported : List UInt16) (s : Race ι κ π ν) : List (Move ι) → Option (Race ι κ π ν)
  | [] => some s
  | m :: t => (follow? reported s t).bind fun s' ↦ s'.next? reported m

theorem follow?_run {reported : List UInt16} (h : s.follow? reported t = some s') : Run s t s' := by
  induction t generalizing s' with
  | nil =>
    obtain rfl := Option.some.inj h
    exact .refl
  | cons m t ih =>
    obtain ⟨s₁, h₁, h₂⟩ := Option.bind_eq_some_iff.1 h
    exact (ih h₁).step (next?_step h₂)

end Race

namespace Visit

open Simulation Race

def early : List (Move Bool) :=
  [.store, .read, .read, .check, .report, .notify false, .swap false true,
    .call false 1 (.write [7]), .prepare]

def late : List (Move Bool) :=
  [.notify true, .swap false false, .call false 1 (.write [9]), .swap true true,
    .call true 1 (.write [8])]

def raced : Race Bool World Unit Unit :=
  (follow? [1, 0, 0] (start kept.reactor) (late ++ .prepare :: early)).get (by decide +kernel)

theorem raced_not_lost : Run (start kept.reactor) (late ++ .prepare :: early) raced ∧
    kept.reactor.waker.signaled = false ∧ raced.reactor.Piped ∧
    (∃ w, raced.stage = .waiting w) ∧
    (0 < raced.reactor.unread ∨ ∃ j, j ≠ false ∧ raced.owes j) ∧
    Move.store ∈ .call true 1 (.write [8]) :: .prepare :: early.take 6 := by
  have h : Run (start kept.reactor) (late ++ .prepare :: early) raced :=
    follow?_run (Option.some_get _).symm
  have hr : kept.reactor.waker.signaled = false := by decide +kernel
  have hp : raced.reactor.Piped := by decide +kernel
  obtain ⟨w, hw⟩ : ∃ w, raced.stage = .waiting w := by
    have hwaits : (match raced.stage with
      | .waiting _ => true
      | _ => false) = true := by decide +kernel
    split at hwaits
    · rename_i w hw
      exact ⟨w, hw⟩
    · cases hwaits
  obtain ⟨hlost, hwrites⟩ := h.no_lost_wakeup hr hp
  refine ⟨h, hr, hp, ⟨w, hw⟩, ?_, ?_⟩
  · exact hlost w late early false 1 (.write [9]) false hw rfl (by decide) (by decide)
  · exact hwrites (late.take 3) _ (early.drop 7) true false true true rfl
      ⟨[], (late.take 3).drop 1, rfl, by decide⟩
      ⟨late ++ .prepare :: early.take 5, [], rfl, by decide⟩

end Visit

end PollReactor
