import PollReactor.Proofs.Farewell
import PollReactor.Proofs.Watching

namespace PollReactor

open Journal (Adds Returned asked murmured)

variable {κ π ν : Type}

namespace Task

def flushes : Task π ν → List Nat
  | serveAll _ watched => watched.map (·.id)
  | serve w .. => [w.id]
  | hasten id => [id]
  | finalize id _ => [id]
  | _ => []

def isService : Task π ν → Bool
  | serveAll .. => true
  | serve .. => true
  | hear _ => true
  | hasten _ => true
  | check _ => true
  | finalize .. => true
  | _ => false

/-- Connections are served or ended, then the next turn begins or the listening socket is closed. -/
inductive Routine : List (Task π ν) → Prop where
  | nil : Routine []
  | proceed : Routine [.proceed]
  | closeListener : Routine [.closeListener]
  | service {t : Task π ν} {ts : List (Task π ν)} (ht : t.isService) (hs : Routine ts) :
      Routine (t :: ts)

theorem Routine.append {ts rest : List (Task π ν)} (h : ∀ t ∈ ts, t.isService)
    (hr : Routine rest) : Routine (ts ++ rest) := by
  induction ts with
  | nil => exact hr
  | cons t ts ih =>
    exact .service (h t List.mem_cons_self) (ih fun t ht ↦ h t (List.mem_cons_of_mem _ ht))

theorem flushes_serves (events : List Event) (now : Nat) (ws : List Watched) (place : Nat) :
    (Reactor.serves (π := π) (ν := ν) events now ws place).flatMap flushes = ws.map (·.id) := by
  induction ws generalizing place with
  | nil => rfl
  | cons w ws ih => exact congrArg (w.id :: ·) (ih (place + 1))

theorem flushes_finalizeAll (ids : List Nat) (why : Teardown) :
    (ids.map (finalize (π := π) (ν := ν) · why)).flatMap flushes = ids := by
  induction ids with
  | nil => rfl
  | cons id ids ih => exact congrArg (id :: ·) ih

end Task

namespace Reactor

variable {r r' : Reactor κ π ν}

/-- If no byte is in the pipe, the tasks look after the connections that have to be looked at. -/
def Attends (r : Reactor κ π ν) (ts : List (Task π ν)) : Prop :=
  r.unread = 0 → r.Heeded (ts.flatMap Task.subjects) (ts.flatMap Task.flushes)

/-- How far a turn or a clean-up has come. -/
inductive Course (r : Reactor κ π ν) : Task π ν → List (Task π ν) → Prop where
  | arriving {first : Task π ν} (hf : first.isEntrance)
      (ht : ∀ t, first.token? = some t → t.value.isConnected) (events : List Event)
      (ws : List Watched) (hl : ∀ id ∈ r.live, id ∈ ws.map (·.id)) :
      Course r first [.settle events, .serveAll events ws, .proceed]
  | settling (events : List Event) (ws : List Watched) (hl : ∀ id ∈ r.live, id ∈ ws.map (·.id) ∨
      ∀ c, r.conn? id = some c → c.isConnected ∧ asked id false r.os.journal = false) :
      Course r (.settle events) [.serveAll events ws, .proceed]
  | routine {first : Task π ν} {rest : List (Task π ν)} (hr : Task.Routine (first :: rest))
      (hh : r.Attends (first :: rest)) : Course r first rest

/-- What a phase may rely on. -/
def Attentive (r : Reactor κ π ν) : Phase π ν → Prop
  | .idle => r.Attends ([] : List (Task π ν))
  | .waiting w => (∀ id ∈ r.live, id ∈ w.watched.map (·.id)) ∧ (r.unread = 0 → Watches r w)
  | .busy first rest => Course r first rest

theorem attentive_ofTasks {ts : List (Task π ν)} (hr : Task.Routine ts) (hh : r.Attends ts) :
    Attentive r (.ofTasks ts) := by
  cases ts with
  | nil => exact hh
  | cons first rest => exact .routine hr hh

theorem Heeded.apart {id : Nat} {ps qs ps' qs' : List Nat} (h : r.Heeded (id :: ps) (id :: qs))
    (hl : ∀ id' ∈ r'.live, id' ∈ r.live) (hc : ∀ id' ≠ id, r'.conn? id' = r.conn? id')
    (hj : Adds (·.isUnasked) r.os.journal r'.os.journal)
    (hp : id ∈ r'.live → ∀ c, r'.conn? id = some c → c.isConnected = false → id ∈ ps')
    (hq : id ∈ r'.live → ∀ c, r'.conn? id = some c → asked id false r.os.journal →
      c.output.len = 0 → id ∈ qs')
    (hps : ps ⊆ ps') (hqs : qs ⊆ qs') : r'.Heeded ps' qs' := by
  constructor
  · intro id' hid c hc' hs
    by_cases he : id' = id
    · subst he
      exact hp hid c hc' hs
    · rw [hc id' he] at hc'
      exact hps ((List.mem_cons.1 (h.shut id' (hl id' hid) c hc' hs)).resolve_left he)
  · intro id' hid c hc' ha h0
    rw [Journal.asked_unasked hj] at ha
    by_cases he : id' = id
    · subst he
      exact hq hid c hc' ha h0
    · rw [hc id' he] at hc'
      exact hqs ((List.mem_cons.1 (h.closing id' (hl id' hid) c hc' ha h0)).resolve_left he)

theorem Heeded.mono {ps qs ps' qs' : List Nat} (h : r.Heeded ps qs) (hp : ps ⊆ ps')
    (hq : qs ⊆ qs') : r.Heeded ps' qs' :=
  ⟨fun id hid c hc hs ↦ hp (h.shut id hid c hc hs),
    fun id hid c hc ha h0 ↦ hq (h.closing id hid c hc ha h0)⟩

theorem Attends.same {ts ts' : List (Task π ν)} (h : r.Attends ts) (hw : r'.waker = r.waker)
    (hl : r'.live = r.live) (hc : r'.conns = r.conns)
    (hj : Adds Entry.IsInert r.os.journal r'.os.journal)
    (hp : ts'.flatMap Task.subjects = ts.flatMap Task.subjects)
    (hq : ts'.flatMap Task.flushes = ts.flatMap Task.flushes) : r'.Attends ts' := by
  intro h0
  rw [unread_inert hw hj] at h0
  have hh := h h0
  have hu := hj.mono fun _ he ↦ he.2
  rw [hp, hq]
  constructor
  · intro id hid c hc' hs
    rw [conn?_congr hc] at hc'
    exact hh.shut id (hl ▸ hid) c hc' hs
  · intro id hid c hc' ha h0
    rw [conn?_congr hc] at hc'
    rw [Journal.asked_unasked hu] at ha
    exact hh.closing id (hl ▸ hid) c hc' ha h0

theorem heeded_of_live {ps qs : List Nat} (hp : ∀ id ∈ r.live, id ∈ ps)
    (hq : ∀ id ∈ r.live, id ∈ qs) : r.Heeded ps qs :=
  ⟨fun id hid _ _ _ ↦ hp id hid, fun id hid _ _ _ _ ↦ hq id hid⟩

variable [Kernel κ] {P : Policy π ν}

theorem Attends.service {id : Nat} {c : Conn} {sends : Bool} {first : Task π ν}
    {ts rest : List (Task π ν)}
    (h : r.Attends (first :: rest)) (hfirst : first.subjects = [id] ∧ first.flushes = [id])
    (ha : Alert r) (hc : r.conn? id = some c) (hs : Service r id c sends r')
    (hsub : ts.flatMap Task.subjects = [id])
    (hq : ts.flatMap Task.flushes = [id] ∨ ts.flatMap Task.flushes = [] ∧ sends = false ∧
      ¬ (c.closePending ∧ c.output.isEmpty)) : r'.Attends (ts ++ rest) := by
  have hstill := hs.still hc
  obtain ⟨os, c', rfl, hserved⟩ := hs.spec hc
  have hconn := conn?_setConn (r := { r with os }) hc c'
  have hj : Adds Entry.IsInert r.os.journal os.journal :=
    hserved.journal.mono fun _ he ↦ he.inert
  have hu : (Reactor.setConn { r with os } id c').unread = r.unread := unread_inert (r := r) rfl hj
  intro h0
  have hh := h (hu.symm.trans h0)
  simp only [List.flatMap_cons, List.flatMap_append, hfirst, hsub] at hh ⊢
  refine hh.apart (fun _ hid ↦ hid) ?_ (hj.mono fun _ he ↦ he.2) (fun _ _ _ _ ↦ List.mem_cons_self)
    ?_ (List.subset_cons_self _ _) (List.subset_append_right _ _)
  · intro id' he
    rw [hconn, if_neg he]
    rfl
  · intro _ c'' hc'' hask hlen
    rcases hq with hq | ⟨hq, rfl, hf⟩
    · rw [hq]
      exact List.mem_cons_self
    · rw [hconn, if_pos rfl] at hc''
      obtain rfl := Option.some.inj hc''
      refine absurd ⟨ha.closing id c hc hask, ?_⟩ hf
      rw [hserved.output rfl] at hlen
      exact decide_eq_true hlen

theorem attend_attends {w : Watched} {event : Event} {now : Nat} {rest : List (Task π ν)}
    (ha : Alert r) (hh : r.Attends (.serve w event now :: rest)) :
    (∀ t ∈ (attend P w event now r).2, t.isService) ∧
      (attend P w event now r).1.Attends ((attend P w event now r).2 ++ rest) := by
  cases hc : r.conn? w.id with
  | none =>
    rw [attend_of_none hc]
    refine ⟨by simp [afterService, Task.isService], ?_⟩
    intro h0
    refine (hh h0).apart (fun _ hid ↦ hid) (fun _ _ ↦ rfl) (.refl _)
      (fun _ _ _ _ ↦ List.mem_cons_self) ?_ (List.subset_cons_self _ _) (fun _ h ↦ h)
    intro _ c hc'
    cases hc.symm.trans hc'
  | some c =>
    have hat := attend_attended (P := P) hc event now
    have hserve {sends : Bool} {r' : Reactor κ π ν} (hs : Service r w.id c sends r')
        {ts' : List (Task π ν)} (hsub : ts'.flatMap Task.subjects = [w.id])
        (hq : ts'.flatMap Task.flushes = [w.id] ∨ ts'.flatMap Task.flushes = [] ∧ sends = false ∧
          ¬ (c.closePending ∧ c.output.isEmpty)) : r'.Attends (ts' ++ rest) :=
      hh.service ⟨rfl, rfl⟩ ha hc hs hsub hq
    generalize attend P w event now r = out at hat ⊢
    cases hat with
    | ended hs why => exact ⟨by simp [Task.isService], hserve hs rfl (.inl rfl)⟩
    | @silent sends r' hs hf =>
      cases sends with
      | false => exact ⟨by simp [afterService, Task.isService], hserve hs rfl (.inr ⟨rfl, rfl, hf⟩)⟩
      | true => exact ⟨by simp [afterService, Task.isService], hserve hs rfl (.inl rfl)⟩
    | @told sends r' hs hf cb _ _ =>
      have hremark {ts : List (Task π ν)} (h : r'.Attends (ts ++ rest)) :
          (remark (.callback cb) r').2.Attends (.hear (P.heard cb r'.app) :: ts ++ rest) :=
        h.same rfl rfl rfl (.single ⟨rfl, rfl⟩) rfl rfl
      cases sends with
      | false =>
        exact ⟨by simp [tell, afterService, Task.isService],
          hremark (hserve hs rfl (.inr ⟨rfl, rfl, hf⟩))⟩
      | true =>
        exact ⟨by simp [tell, afterService, Task.isService], hremark (hserve hs rfl (.inl rfl))⟩

/-- Services follow the task. Together with the tasks behind, they look after what it did. -/
def GoesOn (P : Policy π ν) (first : Task π ν) (rest : List (Task π ν)) (r : Reactor κ π ν) :
    Prop :=
  ∃ ts, (advance P first r).2 = .go ts ∧ (∀ t ∈ ts, t.isService) ∧
    (advance P first r).1.Attends (ts ++ rest)

theorem hear_goesOn {script : Script ν (Outcome π Unit)} {rest : List (Task π ν)} (ha : Alert r)
    (hh : r.Attends (.hear script :: rest))
    (hr : Returned (advance P (.hear script) r).1.os.journal)
    (hp : (advance P (.hear script) r).1.Piped) : GoesOn P (.hear script) rest r := by
  cases script with
  | done out =>
    rcases out with ⟨p | ⟨⟩, app⟩
    · cases hr _ List.mem_cons_self
    · exact ⟨[], rfl, List.forall_mem_nil _, hh.same rfl rfl rfl (.refl _) rfl rfl⟩
  | ask q next =>
    refine ⟨_, rfl, by simp [Task.isService], ?_⟩
    intro h0
    obtain ⟨h0', hu⟩ := (request_unmoved q ha hp).2 h0
    exact (hh h0').unmoved hu
  | say v next =>
    exact ⟨_, rfl, by simp [Task.isService], hh.same rfl rfl rfl (.single ⟨rfl, rfl⟩) rfl rfl⟩

theorem hasten_goesOn {id : Nat} {rest : List (Task π ν)} (ha : Alert r)
    (hh : r.Attends (.hasten id :: rest)) (hp : (advance P (.hasten id) r).1.Piped) :
    GoesOn P (.hasten id) rest r := by
  have hstays (h : ∀ c, r.conn? id = some c → ¬ (c.closePending ∧ c.output.isEmpty)) :
      r.Attends rest := by
    intro h0
    have hmore := (hh h0).mono (List.subset_cons_self id _) (fun _ h ↦ h)
    refine hmore.apart (fun _ hid ↦ hid) (fun _ _ ↦ rfl) (.refl _) ?_ ?_ (fun _ h ↦ h) (fun _ h ↦ h)
    · intro hid c hc hs
      exact (hh h0).shut id hid c hc hs
    · intro _ c hc hask hlen
      exact absurd ⟨ha.closing id c hc hask, decide_eq_true hlen⟩ (h c hc)
  unfold GoesOn
  simp only [advance] at hp ⊢
  cases hc : r.conn? id with
  | none => exact ⟨[], rfl, List.forall_mem_nil _, hstays fun c hc' ↦ by cases hc.symm.trans hc'⟩
  | some c =>
    rw [hc] at hp
    dsimp only at hp ⊢
    split_ifs at hp ⊢ with hb
    · have hpos := wake_unread ha.signaled hp
      exact ⟨[], rfl, List.forall_mem_nil _, fun h0 ↦ absurd h0 (Nat.ne_of_gt hpos)⟩
    · refine ⟨[], rfl, List.forall_mem_nil _, hstays ?_⟩
      intro c' hc'
      exact Option.some.inj (hc.symm.trans hc') ▸ hb

omit [Kernel κ] in
theorem Attends.connected {id : Nat} {rest : List (Task π ν)} (h : r.Attends (.check id :: rest))
    (hc : ∀ c, r.conn? id = some c → c.isConnected) : r.Attends rest := by
  intro h0
  have hmore := (h h0).mono (fun _ h ↦ h) (List.subset_cons_self id _)
  refine hmore.apart (fun _ hid ↦ hid) (fun _ _ ↦ rfl) (.refl _) ?_ ?_ (fun _ h ↦ h) (fun _ h ↦ h)
  · intro _ c hc' hs
    cases hs.symm.trans (hc c hc')
  · intro hid c hc' hask hlen
    exact (h h0).closing id hid c hc' hask hlen

theorem check_goesOn {id : Nat} {rest : List (Task π ν)} (hh : r.Attends (.check id :: rest)) :
    GoesOn P (.check id) rest r := by
  unfold GoesOn
  simp only [advance]
  cases hc : r.conn? id with
  | none =>
    exact ⟨[], rfl, List.forall_mem_nil _, hh.connected fun c hc' ↦ by cases hc.symm.trans hc'⟩
  | some c =>
    dsimp only
    cases hcon : c.isConnected with
    | true =>
      refine ⟨[], rfl, List.forall_mem_nil _, hh.connected ?_⟩
      intro c' hc'
      exact Option.some.inj (hc.symm.trans hc') ▸ hcon
    | false =>
      refine ⟨[.finalize id .closed], rfl, by simp [Task.isService], ?_⟩
      intro h0
      exact (hh h0).mono (fun _ h ↦ h) (List.subset_cons_self id _)

theorem finalize_goesOn {id : Nat} {why : Teardown} {rest : List (Task π ν)}
    (hh : r.Attends (.finalize id why :: rest)) : GoesOn P (.finalize id why) rest r := by
  obtain ⟨os, pool, conns, he, hn, hconn, hj⟩ := part_spec id r
  refine ⟨_, rfl, by simp [Task.isService], ?_⟩
  intro h0
  have hinert : Adds Entry.IsInert r.os.journal (part id r).os.journal := by
    rw [he]
    exact hj.mono fun _ ↦ Entry.inert_of_isSetup
  have hadds : Adds Entry.IsInert r.os.journal
      (remark (κ := κ) (.callback (why.callback id)) (part id r)).2.os.journal :=
    hinert.cons ⟨rfl, rfl⟩
  have hu : (remark (.callback (why.callback id)) (part id r)).2.unread = r.unread :=
    unread_inert (congrArg (·.waker) he) hadds
  have hlive := part_live id r
  have hgone : id ∉ (part id r).live := by
    rw [hlive, List.mem_filter]
    simp
  refine (hh (hu.symm.trans h0)).apart ?_ ?_ (hadds.mono fun _ he ↦ he.2)
    (fun hid ↦ absurd hid hgone) (fun hid ↦ absurd hid hgone) (fun _ h ↦ h) (fun _ h ↦ h)
  · intro id' hid
    have hid : id' ∈ (part id r).live := hid
    rw [hlive] at hid
    exact (List.mem_filter.1 hid).1
  · intro id' hne
    exact (hconn id').trans (if_neg hne)

theorem service_goesOn {first : Task π ν} {rest : List (Task π ν)} (hf : first.isService)
    (ha : Alert r) (hh : r.Attends (first :: rest))
    (hr : Returned (advance P first r).1.os.journal) (hp : (advance P first r).1.Piped) :
    GoesOn P first rest r := by
  cases first with
  | serveAll events watched =>
    refine ⟨_, rfl, fun t ht ↦ ?_, ?_⟩
    · obtain ⟨w, event, rfl⟩ := mem_serves ht
      rfl
    · refine hh.same rfl rfl rfl (.single ⟨rfl, rfl⟩) ?_ ?_
      · rw [List.flatMap_append, subjects_serves]
        rfl
      · rw [List.flatMap_append, Task.flushes_serves]
        rfl
  | serve w event now =>
    obtain ⟨hs, hat⟩ := attend_attends (P := P) ha hh
    exact ⟨_, rfl, hs, hat⟩
  | hear script => exact hear_goesOn ha hh hr hp
  | hasten id => exact hasten_goesOn ha hh hp
  | check id => exact check_goesOn hh
  | finalize id why => exact finalize_goesOn hh
  | _ => cases hf

theorem welcome_course {listener : Fd} {events : List Event} {ws : List Watched}
    (hh : Holding r none) (hl : ∀ id ∈ r.live, id ∈ ws.map (·.id)) :
    Attentive (welcome P listener r).1
      ((welcome P listener r).2.phase [.settle events, .serveAll events ws, .proceed]) := by
  obtain ⟨os, he, -⟩ | ⟨slot, free, os, client, peer, -, -, -, he⟩ :=
    welcome_spec (P := P) hh listener
  · rw [he]
    exact Course.settling events ws fun id hid ↦ .inl (hl id hid)
  · rw [he]
    refine Course.arriving rfl ?_ events ws hl
    intro t ht
    obtain rfl := Option.some.inj ht
    rfl

theorem decide_course {t : Token Stream} {peer : Net.SocketAddr}
    {result : Except Panic (Option Draft)} {events : List Event} {ws : List Watched}
    (ht : t.value.isConnected) (ha : Alert r) (hl : ∀ id ∈ r.live, id ∈ ws.map (·.id))
    (hr : Returned (decide t peer r result).1.os.journal) :
    Attentive (decide t peer r result).1
      ((decide t peer r result).2.phase [.settle events, .serveAll events ws, .proceed]) := by
  rcases result with p | _ | d
  · have hj := adds_close t.value (remark (κ := κ) (π := π) (.raised p) r).2
    cases hj.returned hr _ List.mem_cons_self
  · exact Course.settling events ws fun id hid ↦ .inl (hl id hid)
  · obtain ⟨now, he⟩ := enroll_run t peer d r
    show Course (enroll t peer d r).2 (.settle events) [.serveAll events ws, .proceed]
    rw [he]
    have hj : Adds (·.isUnasked) r.os.journal (enrolled t peer d now r).os.journal := by
      have hclock : Adds (·.isUnasked) r.os.journal (.sys .clock now :: r.os.journal) := .single rfl
      exact hclock.cons (e := .remark (.admitted (r.conns.size + 1) t.value.fd d)) rfl
    refine .settling events ws ?_
    intro id hid
    rcases List.mem_append.1 hid with hid | hid
    · exact .inl (hl id hid)
    · obtain rfl := List.mem_singleton.1 hid
      refine .inr ?_
      intro c hc
      rw [conn?_enrolled, if_pos rfl] at hc
      obtain rfl := Option.some.inj hc
      refine ⟨ht, ?_⟩
      rw [Journal.asked_unasked hj, ← Bool.not_eq_true]
      exact fun hask ↦ absurd (ha.known _ _ hask) (Nat.not_le.2 (Nat.lt_succ_self _))

theorem settle_course {events : List Event} {ws : List Watched}
    (hl : ∀ id ∈ r.live, id ∈ ws.map (·.id) ∨ ∀ c, r.conn? id = some c →
      c.isConnected ∧ asked id false r.os.journal = false) :
    Course (settleWaker events r).2 (.serveAll events ws) [.proceed] := by
  have hs := settleWaker_still events r
  have hu := hs.journal.mono fun _ he ↦ he.chore.unasked
  have hc := settleWaker_conns events r
  refine .routine (.service rfl .proceed) fun _ ↦ ?_
  show Heeded _ (ws.map (·.id) ++ []) (ws.map (·.id) ++ [])
  rw [List.append_nil]
  constructor
  · intro id hid c hc' hcon
    rw [conn?_congr hc] at hc'
    rcases hl id (hs.live ▸ hid) with hid | hl
    · exact hid
    · cases hcon.symm.trans (hl c hc').1
  · intro id hid c hc' hask _
    rw [conn?_congr hc] at hc'
    rw [Journal.asked_unasked hu] at hask
    rcases hl id (hs.live ▸ hid) with hid | hl
    · exact hid
    · cases hask.symm.trans (hl c hc').2

omit [Kernel κ] in
theorem attends_finalizeAll (ts : List (Task π ν)) :
    r.Attends (r.live.map (.finalize · .closed) ++ ts) := by
  intro _
  rw [List.flatMap_append, List.flatMap_append, subjects_finalizeAll, Task.flushes_finalizeAll]
  exact heeded_of_live (fun _ ↦ List.mem_append_left _) fun _ ↦ List.mem_append_left _

theorem routine_finalizeAll (ids : List Nat) {ts : List (Task π ν)} (h : Task.Routine ts) :
    Task.Routine (ids.map (.finalize · .closed) ++ ts) := by
  apply h.append
  intro t ht
  obtain ⟨id, -, rfl⟩ := List.mem_map.1 ht
  rfl

theorem proceed_attentive {rest : List (Task π ν)} (hh : Holding r none)
    (h : r.Attends [Task.proceed (π := π) (ν := ν)]) :
    Attentive (advance P .proceed r).1 ((advance P .proceed r).2.phase rest) := by
  simp only [advance]
  split_ifs with hx
  · have hat := attentive_ofTasks (routine_finalizeAll r.live .nil)
      (attends_finalizeAll (r := r) ([] : List (Task π ν)))
    rw [List.append_nil] at hat
    exact hat
  · refine ⟨?_, fun h0 ↦ prepare_watches hh (Bool.eq_false_iff.2 hx) (h h0)⟩
    intro id hid
    obtain ⟨c, -, -, hc, -⟩ := hh.live hid
    obtain ⟨fd, hfd⟩ := hh.fd?_of_live hid hc
    obtain ⟨k, hk, -⟩ := prepare_shows hid hc hfd
    exact List.mem_map.2 ⟨_, List.mem_of_getElem? hk, rfl⟩

theorem advance_attentive {first : Task π ν} {rest : List (Task π ν)} (h : Course r first rest)
    (ha : Alert r) (hh : Holding r first.token?)
    (hr : Returned (advance P first r).1.os.journal) (hp : (advance P first r).1.Piped) :
    Attentive (advance P first r).1 ((advance P first r).2.phase rest) := by
  cases h with
  | arriving hf ht events ws hl =>
    cases first with
    | accept listener => exact welcome_course hh hl
    | meet t peer script =>
      cases script with
      | done out =>
        have happ : Alert { r with app := out.2 } := ha.same rfl rfl rfl (.refl _)
        exact decide_course (ht t rfl) happ hl hr
      | ask q next =>
        have hlive := (request_still q r).live
        show Course (request q r).2 (.meet t peer (next (request q r).1)) _
        refine .arriving rfl ?_ events ws fun id hid ↦ hl id (hlive ▸ hid)
        intro t' ht'
        exact ht t' ht'
      | say v next =>
        refine Course.arriving rfl ?_ events ws hl
        intro t' ht'
        exact ht t' ht'
    | _ => cases hf
  | settling events ws hl => exact settle_course hl
  | routine hrest hat =>
    cases hrest with
    | proceed => exact proceed_attentive hh hat
    | closeListener =>
      obtain ⟨os, listener, he, hj⟩ := closeListener_relisten r
      show Attends (closeListener r).2 []
      rw [he]
      have hinert : Adds Entry.IsInert r.os.journal os.journal := hj.mono fun _ he ↦ he.inert
      exact hat.same rfl rfl rfl hinert rfl rfl
    | service hs hrest =>
      obtain ⟨ts, he, hts, hat⟩ := service_goesOn hs ha hat hr hp
      rw [he]
      exact attentive_ofTasks (hrest.append hts) hat

omit [Kernel κ] in
theorem Attentive.unmoved {phase : Phase π ν} (h : Attentive r phase) (hl : r'.live = r.live)
    (hu : r'.unread = 0 → r.unread = 0 ∧ Unmoved r r')
    (hs : ∀ events rest, phase = .busy (.settle events) rest → Unmoved r r') :
    Attentive r' phase := by
  cases phase with
  | idle => exact fun h0 ↦ (h (hu h0).1).unmoved (hu h0).2
  | waiting w =>
    exact ⟨fun id hid ↦ h.1 id (hl ▸ hid), fun h0 ↦ (h.2 (hu h0).1).unmoved (hu h0).2⟩
  | busy first rest =>
    cases h with
    | arriving hf ht events ws hws =>
      exact Course.arriving hf ht events ws fun id hid ↦ hws id (hl ▸ hid)
    | settling events ws hws =>
      have hum := hs events _ rfl
      apply Course.settling events ws
      intro id hid
      apply (hws id (hl ▸ hid)).imp_right
      intro hws c' hc'
      obtain ⟨c, bs, hc, -, hcon, -⟩ := hum.conn id c' hc'
      refine ⟨hcon (hws c hc).1, ?_⟩
      rw [← Bool.not_eq_true]
      intro ha
      cases (hws c hc).2.symm.trans (hum.asked id false ha)
    | routine hrest hat => exact Course.routine hrest fun h0 ↦ (hat (hu h0).1).unmoved (hu h0).2

omit [Kernel κ] in
theorem Attentive.still {phase : Phase π ν} (h : Attentive r phase) (hw : r'.waker = r.waker)
    (hl : r'.live = r.live) (hx : r'.cancelled = r.cancelled) (hc : r'.conns = r.conns)
    (hj : Adds Entry.IsInert r.os.journal r'.os.journal) : Attentive r' phase := by
  have hu := unmoved_of_conns hl hx hc (hj.mono fun _ he ↦ he.2)
  exact h.unmoved hl (fun h0 ↦ ⟨unread_inert hw hj ▸ h0, hu⟩) fun _ _ _ ↦ hu

omit [Kernel κ] in
theorem Attentive.relisten {phase : Phase π ν} (h : Attentive r phase) (hr : Relisten r r') :
    Attentive r' phase := by
  obtain ⟨os, listener, rfl, hj⟩ := hr
  exact h.still rfl rfl rfl rfl (hj.mono fun _ he ↦ he.inert)

end Reactor

/-- Producers may call: inside callbacks, between turns, while the reactor waits or rests. -/
def Phase.IsOpen : Phase π ν → Prop
  | idle => True
  | waiting _ => True
  | busy (.meet ..) _ => True
  | busy (.hear _) _ => True
  | busy .proceed _ => True
  | _ => False

namespace Moment

open Reactor

variable [Kernel κ] {P : Policy π ν} {m m' : Moment κ π ν}

theorem Step.alert {outside : Phase π ν → Prop} (h : Step P outside m m') (hp : m'.reactor.Piped)
    (ha : Alert m.reactor) : Alert m'.reactor := by
  cases h with
  | kernel r phase k => exact ha.same rfl rfl rfl (.refl _)
  | listener r phase text =>
    exact ha.relisten (relisten_opening (Sockets.listenOn_opening text) r)
  | request r phase q _ => exact (request_unmoved q ha hp).1
  | setUp hr => exact ha.relisten hr.relisten
  | memory r app => exact ha.same rfl rfl rfl (.refl _)
  | start => exact ha
  | wake => exact ha
  | fail => exact ha
  | cleanup => exact ha
  | task r first rest => exact advance_alert first ha hp

omit [Kernel κ] in
theorem turnTasks_attentive {w : Wait} {r : Reactor κ π ν} (events : List Event)
    (hl : ∀ id ∈ r.live, id ∈ w.watched.map (·.id)) :
    Attentive r (.ofTasks (turnTasks (π := π) (ν := ν) w events r)) := by
  have hrest : Attentive r
      (.busy (.settle events) [.serveAll events w.watched, .proceed (π := π) (ν := ν)]) :=
    .settling events w.watched fun id hid ↦ .inl (hl id hid)
  unfold turnTasks
  split_ifs
  · cases r.listener with
    | none => exact hrest
    | some fd => exact Course.arriving rfl (fun t ht ↦ by cases ht) events w.watched hl
  · exact hrest

theorem Step.attentive {n : Nat} (h : Step P Phase.IsOpen m m') (hag : Agrees n m)
    (hr : Returned m'.journal) (hp : m'.reactor.Piped) (ha : Alert m.reactor)
    (hat : Attentive m.reactor m.phase) : Attentive m'.reactor m'.phase := by
  cases h with
  | kernel r phase k => exact hat.still rfl rfl rfl rfl (.refl _)
  | listener r phase text =>
    exact hat.relisten (relisten_opening (Sockets.listenOn_opening text) r)
  | request r phase q hopen =>
    apply hat.unmoved (request_still q r).live (request_unmoved q ha hp).2
    intro events rest he
    subst he
    cases hopen
  | setUp hs => exact hat.relisten hs.relisten
  | memory r app => exact hat.still rfl rfl rfl rfl (.refl _)
  | start r _ => exact Course.routine .proceed hat
  | wake r w reported => exact turnTasks_attentive _ hat.1
  | fail r w => exact fun h0 ↦ (hat.2 h0).heeded
  | cleanup r =>
    exact attentive_ofTasks (routine_finalizeAll r.live .closeListener) (attends_finalizeAll _)
  | task r first rest => exact advance_attentive hat ha hag.sound.holding hr hp

theorem built_alert {b : Builder} {app : π} {os os' : Os κ (Mark ν)} {r : Reactor κ π ν}
    (h : b.build app os = (.ok r, os')) (hj : os.journal = []) :
    Alert r ∧ Attentive r (.idle : Phase π ν) := by
  obtain ⟨receiver, sender, ho, -, rfl⟩ := build_eq h
  have hy := Sockets.openPipe_opening os.journal os (.refl _)
  rw [ho, hj] at hy
  have hinert : Adds Entry.IsInert [] os'.journal := hy.1.mono fun _ ↦ Entry.inert_of_isSetup
  have hu := hinert.mono fun _ he ↦ he.2
  have hasked (id : Nat) (immediate : Bool) : asked id immediate os'.journal = false :=
    Journal.asked_unasked hu id immediate
  refine ⟨⟨nofun, ?_, ?_, ?_, ?_⟩, fun _ ↦ ⟨nofun, nofun⟩⟩
  · intro id c hc
    cases (conn?_of_empty rfl id).symm.trans hc
  · intro id c hc
    cases (conn?_of_empty rfl id).symm.trans hc
  · intro id immediate hi
    cases (hasked id immediate).symm.trans hi
  · intro a hm
    cases Journal.mem_of_unasked hu hm

theorem Occurs.alert {outside : Phase π ν → Prop} {b : Builder} (h : Occurs P outside b m)
    (hp : m.reactor.Piped) : Alert m.reactor := by
  refine h.step_induction (motive := fun m ↦ m.reactor.Piped → Alert m.reactor)
    (fun _ _ _ _ hb hj _ ↦ (built_alert hb hj).1) (fun m m' _ hs ha hp ↦ ?_) hp
  exact hs.alert hp (ha (hs.grows.piped hp))

theorem Occurs.attentive {b : Builder} (h : Occurs P Phase.IsOpen b m) (hr : Returned m.journal)
    (hp : m.reactor.Piped) : Alert m.reactor ∧ Attentive m.reactor m.phase := by
  refine ⟨h.alert hp, h.step_induction (motive := fun m ↦
    Returned m.journal → m.reactor.Piped → Attentive m.reactor m.phase)
    (fun _ _ _ _ hb hj _ _ ↦ (built_alert hb hj).2) (fun m m' ho hs hat hr hp ↦ ?_) hr hp⟩
  have hp₀ := hs.grows.piped hp
  exact hs.attentive ho.agrees hr hp (ho.alert hp₀) (hat (hs.returned hr) hp₀)

/-- If callbacks return and writes to the pipe of the waker fail only when it is full, no wait
overlooks a readiness: either a byte is in the pipe, or all that is called for has been asked of the
system. Left aside is only output that cancelled batches queued during that very wait. -/
theorem Occurs.no_stalled_readiness {b : Builder} {w : Wait} (h : Occurs P Phase.IsOpen b m)
    (hr : Returned m.journal) (hp : m.reactor.Piped) (hw : m.phase = .waiting w) :
    0 < m.reactor.unread ∨
      (∀ a, .remark (.request .cancel a) ∉ m.journal) ∧
      ∀ id ∈ m.reactor.live, ∃ c fd, m.reactor.conn? id = some c ∧ c.fd? = some fd ∧
        (c.input.len < c.readMarks.high → w.Requests id fd PollBits.posix.read) ∧
        (0 < c.output.len → w.Requests id fd PollBits.posix.write ∨
          c.output.toList = murmured id m.journal) ∧
        (c.urgent = none → c.hungUp = false → w.Requests id fd PollBits.posix.urgent) ∧
        asked id true m.journal = false ∧
        (asked id false m.journal → 0 < c.output.len) := by
  obtain ⟨ha, hat⟩ := h.attentive hr hp
  rw [hw] at hat
  rcases Nat.eq_zero_or_pos m.reactor.unread with h0 | hpos
  · refine .inr ?_
    have hwatch := hat.2 h0
    constructor
    · intro a hm
      cases hwatch.cancelled.symm.trans (ha.cancelled a hm)
    · intro id hid
      obtain ⟨c, -, -, hc, -⟩ := h.agrees.sound.holding.live hid
      obtain ⟨fd, i, hfd, hs, hread, hurgent, hwrite⟩ := hwatch.shown id hid c hc
      refine ⟨c, fd, hc, hfd, ?_, ?_, ?_, ?_, ?_⟩
      · intro hlow
        exact hs.requests_read (hread (by simp [Conn.interest, Channel.isReadHigh, hlow]))
      · intro hout
        exact hwrite.imp_left hs.requests_write
      · intro hnone hhup
        exact hs.requests_urgent (hurgent (by simp [Conn.interest, hnone, hhup]))
      · rw [← Bool.not_eq_true]
        intro hask
        cases hwatch.heeded.shut id hid c hc (ha.shut id c hc hask)
      · intro hask
        apply Nat.pos_of_ne_zero
        intro hlen
        cases hwatch.heeded.closing id hid c hc hask hlen
  · exact .inl hpos

end Moment

theorem Visit.kept_not_stalled : Moment.Occurs policy Phase.IsOpen builder kept ∧
    Returned kept.journal ∧ kept.reactor.Piped ∧ kept.reactor.unread = 0 ∧
    ∃ w c fd, kept.phase = .waiting w ∧ kept.reactor.conn? 1 = some c ∧ c.fd? = some fd ∧
      w.Requests 1 fd PollBits.posix.read := by
  have ho := kept_occurs Phase.IsOpen
  have hr : Returned kept.journal := by decide +kernel
  have hp : kept.reactor.Piped := by decide +kernel
  have h0 : kept.reactor.unread = 0 := by decide +kernel
  obtain ⟨w, hw⟩ := kept_waits
  have hlive : kept.reactor.live = [1] := by decide +kernel
  have hlow : (kept.reactor.conn? 1).all (fun c ↦ c.input.len < c.readMarks.high) = true := by
    decide +kernel
  obtain ⟨-, hall⟩ := (ho.no_stalled_readiness hr hp hw).resolve_left (Nat.ne_of_gt · h0)
  obtain ⟨c, fd, hc, hfd, hread, -⟩ := hall 1 (by rw [hlive]; exact List.mem_cons_self)
  rw [hc] at hlow
  exact ⟨ho, hr, hp, h0, w, c, fd, hw, hc, hfd, hread (of_decide_eq_true hlow)⟩

end PollReactor
