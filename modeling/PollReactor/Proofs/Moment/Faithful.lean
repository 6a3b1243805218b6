import Mathlib.Tactic.SplitIfs
import PollReactor.Proofs.Moment
import PollReactor.Proofs.Running

namespace PollReactor

open Relation

inductive Moment.Works {κ π ν : Type} [Kernel κ] (P : Policy π ν) :
    Moment κ π ν → Moment κ π ν → Prop where
  | task (r : Reactor κ π ν) (first : Task π ν) (rest : List (Task π ν)) :
      Works P ⟨r, .busy first rest⟩
        ⟨(Reactor.advance P first r).1, (Reactor.advance P first r).2.phase rest⟩

inductive Moment.Inner {κ π ν : Type} [Kernel κ] (P : Policy π ν) (outside : Phase π ν → Prop) :
    Moment κ π ν → Moment κ π ν → Prop where
  | request (r : Reactor κ π ν) (phase : Phase π ν) (q : Request) (h : outside phase) :
      Inner P outside ⟨r, phase⟩ ⟨(Reactor.request q r).2, phase⟩
  | memory (r : Reactor κ π ν) (app : π) : Inner P outside ⟨r, .idle⟩ ⟨{ r with app }, .idle⟩
  | again (r : Reactor κ π ν) (fd : Fd) (h : r.listener = some fd) :
      Inner P outside ⟨r, .idle⟩ ⟨(Reactor.adopt fd r).2, .idle⟩
  | localAddr (r : Reactor κ π ν) :
      Inner P outside ⟨r, .idle⟩ ⟨(Reactor.localAddr r).2, .idle⟩
  | start (r : Reactor κ π ν) (h : r.listener.isSome) :
      Inner P outside ⟨r, .idle⟩ ⟨r, .busy .proceed []⟩
  | wake (r : Reactor κ π ν) (w : Wait) (reported : List UInt16) : Inner P outside ⟨r, .waiting w⟩
      ⟨r, .ofTasks (Reactor.turnTasks w (Event.ofReport .posix w.list reported) r)⟩
  | fail (r : Reactor κ π ν) (w : Wait) : Inner P outside ⟨r, .waiting w⟩ ⟨r, .idle⟩
  | cleanup (r : Reactor κ π ν) : Inner P outside ⟨r, .idle⟩ ⟨r, .ofTasks r.cleanupTasks⟩
  | works {m m' : Moment κ π ν} (h : Moment.Works P m m') : Inner P outside m m'

namespace Moment

variable {κ π ν : Type} [Kernel κ] {P : Policy π ν} {outside : Phase π ν → Prop}
  {m m' : Moment κ π ν}

theorem Inner.step (h : Inner P outside m m') : Step P outside m m' := by
  cases h with
  | request r phase q h => exact .request r phase q h
  | memory r app => exact .memory r app
  | again r fd h => exact .setUp (.adopt fd (.inr h))
  | localAddr r => exact .setUp .localAddr
  | start r h => exact .start r h
  | wake r w reported => exact .wake r w reported
  | fail r w => exact .fail r w
  | cleanup r => exact .cleanup r
  | works h =>
    obtain ⟨r, first, rest⟩ := h
    exact .task r first rest

theorem works_inner (h : ReflTransGen (Works P) m m') : ReflTransGen (Inner P outside) m m' :=
  ReflTransGen.mono (fun _ _ ↦ .works) _ _ h

end Moment

namespace Reactor

variable {κ π ν : Type} [Kernel κ] (P : Policy π ν)

/-- Doing the tasks `ts` comes to the same as a pass that ended so. -/
def Leads (r : Reactor κ π ν) (ts : List (Task π ν)) :
    Except Panic Unit × Reactor κ π ν → Prop
  | (.ok (), r') => ∀ rest, ReflTransGen (Moment.Works P)
      ⟨r, .ofTasks (ts ++ rest)⟩ ⟨r', .ofTasks rest⟩
  | (.error _, r') => ∀ rest, ReflTransGen (Moment.Works P)
      ⟨r, .ofTasks (ts ++ rest)⟩ ⟨r', .idle⟩

variable {P}

theorem leads_nil (r : Reactor κ π ν) : Leads P r [] (.ok (), r) := fun _ ↦ .refl

theorem Leads.go {r r' : Reactor κ π ν} {first : Task π ν} {new ts : List (Task π ν)}
    {out : Except Panic Unit × Reactor κ π ν} (ha : advance P first r = (r', .go new))
    (h : Leads P r' (new ++ ts) out) : Leads P r (first :: ts) out := by
  have hs (rest : List (Task π ν)) :
      Moment.Works P ⟨r, .ofTasks (first :: ts ++ rest)⟩
        ⟨r', .ofTasks (new ++ ts ++ rest)⟩ := by
    have hs : Moment.Works P ⟨r, .busy first (ts ++ rest)⟩ _ := .task r first (ts ++ rest)
    rw [ha] at hs
    rw [List.append_assoc]
    exact hs
  rcases out with ⟨_ | ⟨⟩, r''⟩
  · exact fun rest ↦ .head (hs rest) (h rest)
  · exact fun rest ↦ .head (hs rest) (h rest)

theorem Leads.stop {r r' : Reactor κ π ν} {first : Task π ν} {ts : List (Task π ν)} {p : Panic}
    (ha : advance P first r = (r', .only [])) : Leads P r (first :: ts) (.error p, r') := by
  intro rest
  have hs : Moment.Works P ⟨r, .busy first (ts ++ rest)⟩ _ := .task r first (ts ++ rest)
  rw [ha] at hs
  exact .single hs

theorem Leads.andThen {r : Reactor κ π ν} {ts ts' : List (Task π ν)}
    {out : Except Panic Unit × Reactor κ π ν} {f : Unit → PassM κ π ν Unit}
    (h : Leads P r ts out) (hf : ∀ r', out = (.ok (), r') → Leads P r' ts' (f () r')) :
    Leads P r (ts ++ ts') (andThen f out) := by
  rcases out with ⟨p | ⟨⟩, r'⟩
  · intro rest
    rw [List.append_assoc]
    exact h (ts' ++ rest)
  · have hf := hf r' rfl
    show Leads P r (ts ++ ts') (f () r')
    generalize f () r' = out at hf ⊢
    rcases out with ⟨_ | ⟨⟩, r''⟩
    all_goals
      intro rest
      rw [List.append_assoc]
      exact (h (ts' ++ rest)).trans (hf rest)

def concluded {α : Type} : Outcome π α × Reactor κ π ν → Except Panic α × Reactor κ π ν
  | ((.ok a, app), r) => (.ok a, { r with app })
  | ((.error p, app), r) => (.error p, (remark (.raised p) { r with app }).2)

theorem consult_run {α : Type} (script : π → Script ν (Outcome π α)) (r : Reactor κ π ν) :
    consult script r = concluded (runScript (script r.app) r) := by
  unfold consult
  simp only [bind_run, get_run, modify_run]
  rcases runScript (script r.app) r with ⟨⟨_ | _, app⟩, r'⟩ <;> rfl

theorem hear_leads (script : Script ν (Outcome π Unit)) (r : Reactor κ π ν) :
    Leads P r [.hear script] (concluded (runScript script r)) := by
  induction script generalizing r with
  | done out =>
    rcases out with ⟨_ | ⟨⟩, app⟩
    · exact .stop rfl
    · exact .go rfl (leads_nil _)
  | ask q next ih => exact .go rfl (ih _ _)
  | say v next ih => exact .go rfl (ih _)

theorem notify_leads (cb : Callback) (r : Reactor κ π ν) :
    Leads P (remark (.callback cb) r).2 [.hear (P.heard cb r.app)] (notify P cb r) := by
  have h : notify P cb r = consult (P.heard cb) (remark (.callback cb) r).2 := rfl
  rw [h, consult_run]
  exact hear_leads _ _

theorem finalize_leads (id : Nat) (why : Teardown) (r : Reactor κ π ν) :
    Leads P r [.finalize id why] (finalize P id why r) :=
  .go rfl (notify_leads _ _)

theorem finalizeAll_leads (ids : List Nat) (r : Reactor κ π ν) :
    Leads P r (ids.map (.finalize · .closed)) (finalizeAll P ids r) := by
  induction ids generalizing r with
  | nil => exact leads_nil r
  | cons id ids ih =>
    rw [finalizeAll, pass_bind, List.map_cons]
    exact (finalize_leads id .closed r).andThen fun r' _ ↦ ih r'

def afterDispatch (P : Policy π ν) (id : Nat) : Option Teardown → PassM κ π ν Unit
  | some why => finalize P id why
  | none => do
    match (← get).conn? id with
    | none => return
    | some c => if !c.isConnected then finalize P id .closed

theorem serve_eq (P : Policy π ν) (id : Nat) (event : Event) (interest : Interest) (now : Nat) :
    serve (κ := κ) P id event interest now =
      dispatch P id event interest now >>= afterDispatch P id := by
  unfold serve afterDispatch
  rfl

theorem check_leads (id : Nat) (r : Reactor κ π ν) :
    Leads P r [.check id] (afterDispatch P id none r) := by
  simp only [afterDispatch, pass_bind, pass_get, Reactor.andThen]
  cases hc : r.conn? id with
  | none => exact .go (by simp only [advance, hc]; rfl) (leads_nil r)
  | some c =>
    have ha : advance P (.check id) r =
        (r, .go (if c.isConnected then [] else [.finalize id .closed])) := by
      simp only [advance, hc]
    refine .go ha ?_
    show Leads P r _ ((if !c.isConnected then finalize P id .closed else pure ()) r)
    cases c.isConnected with
    | true => exact leads_nil r
    | false => exact finalize_leads id .closed r

theorem tell_leads {α : Type} {b : Prop} [Decidable b] {cb : Callback} {ts : List (Task π ν)}
    {g : PassM κ π ν α} {f : α → PassM κ π ν Unit} {r : Reactor κ π ν}
    (hf : ∀ r', Leads P r' ts (Reactor.andThen f (g r'))) :
    Leads P (if b then tell P cb ts r else (r, ts)).1 (if b then tell P cb ts r else (r, ts)).2
      (Reactor.andThen f ((if b then notify P cb >>= fun _ ↦ g else g) r)) := by
  by_cases hb : b
  · simp only [hb, if_true, pass_bind, andThen_andThen]
    apply (notify_leads cb r).andThen
    intro r' _
    rw [pass_bind]
    exact hf r'
  · simp only [hb, if_false]
    exact hf r

theorem input_leads {id : Nat} {c : Conn} {r : Reactor κ π ν} (hc : r.conn? id = some c) :
    Leads P (attendInput P id c r).1 (attendInput P id c r).2
      (Reactor.andThen (afterDispatch P id) (serveInput P id r)) := by
  unfold serveInput attendInput
  rw [withConn_run, hc]
  simp only [pass_bind, calmly_run]
  rcases system c.receive r with ⟨⟨_ | _ | _, c'⟩, r'⟩
  · exact finalize_leads id _ _
  · exact tell_leads fun r' ↦ check_leads id r'
  · exact finalize_leads id _ _

theorem urgent_leads {id : Nat} {c : Conn} {r : Reactor κ π ν} (hc : r.conn? id = some c) :
    Leads P (attendUrgent P id c r).1 (attendUrgent P id c r).2
      (Reactor.andThen (afterDispatch P id) (serveUrgent P id r)) := by
  unfold serveUrgent attendUrgent
  rw [withConn_run, hc]
  simp only [pass_bind, calmly_run]
  rcases system c.receiveUrgent r with ⟨⟨_ | _, c'⟩, r'⟩
  · exact finalize_leads id _ _
  · exact tell_leads fun r' ↦ check_leads id r'

theorem hasten_leads {id : Nat} {ts : List (Task π ν)} {α : Type} {g : PassM κ π ν α}
    {f : α → PassM κ π ν Unit} (hf : ∀ r', Leads P r' ts (Reactor.andThen f (g r')))
    (r : Reactor κ π ν) :
    Leads P r (.hasten id :: ts)
      (Reactor.andThen f ((hastenClose id >>= fun _ ↦ g) r)) := by
  unfold hastenClose
  rw [pass_bind, withConn_run]
  cases hc : r.conn? id with
  | none => exact .go (by simp only [advance, hc]; rfl) (hf r)
  | some c =>
    by_cases hb : c.closePending ∧ c.output.isEmpty
    · refine .go (by simp only [advance, hc, if_pos hb]; rfl) ?_
      simp only [if_pos hb]
      exact hf _
    · refine .go (by simp only [advance, hc, if_neg hb]; rfl) ?_
      simp only [if_neg hb]
      exact hf _

theorem output_leads {id : Nat} {c : Conn} {r : Reactor κ π ν} (hc : r.conn? id = some c) :
    Leads P (attendOutput P id c r).1 (attendOutput P id c r).2
      (Reactor.andThen (afterDispatch P id) (serveOutput P id r)) := by
  unfold serveOutput attendOutput
  rw [withConn_run, hc]
  simp only [pass_bind, calmly_run]
  rcases system c.transmit r with ⟨⟨_ | _, c'⟩, r'⟩
  · exact finalize_leads id _ _
  · exact tell_leads (hasten_leads fun r' ↦ check_leads id r')

theorem serve_leads (w : Watched) (event : Event) (now : Nat) (r : Reactor κ π ν) :
    Leads P r [.serve w event now] (serve P w.id event w.interest now r) := by
  rw [serve_eq, pass_bind]
  have ha : advance P (.serve w event now) r =
      ((attend P w event now r).1, .go (attend P w event now r).2) := rfl
  refine .go ha ?_
  rw [List.append_nil]
  unfold dispatch attend
  rw [withConn_run]
  cases hc : r.conn? w.id with
  | none => exact check_leads w.id r
  | some c =>
    simp only
    split_ifs
    · exact finalize_leads w.id .closed r
    · exact input_leads hc
    · exact output_leads hc
    · exact urgent_leads hc
    · exact check_leads w.id _
    · rw [pass_bind, pass_get]
      simp only [andThen, if_pos ‹c.isIdle now r.idleLimit = true›]
      exact finalize_leads w.id .timedOut r
    · rw [pass_bind, pass_get]
      simp only [andThen, if_neg ‹¬c.isIdle now r.idleLimit = true›]
      exact check_leads w.id r

theorem serves_leads (events : List Event) (now : Nat) (ws : List Watched) (place : Nat)
    (r : Reactor κ π ν) :
    Leads P r (serves events now ws place) (serveAll P events now ws place r) := by
  induction ws generalizing place r with
  | nil => exact leads_nil r
  | cons w ws ih =>
    rw [serveAll, pass_bind]
    exact (serve_leads w _ now r).andThen fun r' _ ↦ ih (place + 1) r'

def decided (t : Token Stream) (peer : Net.SocketAddr) :
    Except Panic (Option Draft) × Reactor κ π ν → Except Panic Unit × Reactor κ π ν
  | (.ok (some d), r) => (.ok (), (enroll t peer d r).2)
  | (.ok none, r) => (.ok (), (closeAndRelease t r).2)
  | (.error p, r) => (.error p, (system t.value.close r).2)

theorem introduce_run (t : Token Stream) (peer : Net.SocketAddr) (r : Reactor κ π ν) :
    introduce P t peer r =
      decided t peer (consult (P.ready peer r.defaults) (remark (.ready peer) r).2) := by
  unfold introduce
  simp only [ExceptT.mk, bind_run, get_run]
  rcases consult (P.ready peer r.defaults) (remark (.ready peer) r).2 with ⟨_ | _ | _, r'⟩ <;> rfl

theorem meet_leads (t : Token Stream) (peer : Net.SocketAddr)
    (script : Script ν (Outcome π (Option Draft))) (r : Reactor κ π ν) :
    Leads P r [.meet t peer script] (decided t peer (concluded (runScript script r))) := by
  induction script generalizing r with
  | done out =>
    rcases out with ⟨_ | _ | _, app⟩
    · exact .stop rfl
    · exact .go rfl (leads_nil _)
    · exact .go rfl (leads_nil _)
  | ask q next ih => exact .go rfl (ih _ _)
  | say v next ih => exact .go rfl (ih _)

theorem introduce_leads (t : Token Stream) (peer : Net.SocketAddr) (r : Reactor κ π ν) :
    Leads P (remark (.ready peer) r).2 [.meet t peer (P.ready peer r.defaults r.app)]
      (introduce P t peer r) := by
  rw [introduce_run, consult_run]
  exact meet_leads t peer _ _

theorem accept_leads (fd : Fd) (r : Reactor κ π ν) :
    Leads P r [.accept fd] (acceptPeer P fd r) := by
  unfold acceptPeer
  rw [pass_bind, pass_get]
  simp only [andThen]
  cases hp : r.pool.reserve with
  | vacantSlot slot => exact .stop (by simp only [advance, welcome, hp])
  | exhausted => exact .go (by simp only [advance, welcome, hp]; rfl) (leads_nil _)
  | token t pool =>
    simp only [pass_bind, calmly_run, andThen, modify_run]
    cases ha : systemExcept (Sockets.accept fd) { r with pool } with
    | mk answer r' =>
      rcases answer with e | ⟨client, peer⟩
      · exact .go (by simp only [advance, welcome, hp, ha]; rfl) (leads_nil _)
      · exact .go (by simp only [advance, welcome, hp, ha]; rfl) (introduce_leads _ _ _)

theorem settle_leads (events : List Event) (ws : List Watched) (r : Reactor κ π ν) :
    Leads P r [.settle events, .serveAll events ws]
      ((calmly (settleWaker events) >>= fun _ ↦
        calmly (system (sys .clock)) >>= fun now ↦ serveAll P events now ws 0) r) := by
  simp only [pass_bind, calmly_run, andThen]
  refine .go rfl (.go rfl ?_)
  rw [List.append_nil]
  exact serves_leads events _ ws 0 _

theorem turn_leads (w : Wait) (events : List Event) (r : Reactor κ π ν) :
    Leads P r ((if isReported events listenerToken then r.listener.toList.map .accept else []) ++
      [.settle events, .serveAll events w.watched]) (turn P w events r) := by
  unfold turn
  by_cases hr : isReported events listenerToken
  · simp only [if_pos hr, pass_bind, pass_get, andThen]
    cases hl : r.listener with
    | none => exact settle_leads events w.watched r
    | some fd =>
      simp only [pass_bind]
      apply (accept_leads fd r).andThen
      intro r' _
      have hs := settle_leads (P := P) events w.watched r'
      simpa only [pass_bind] using hs
  · simp only [if_neg hr]
    exact settle_leads events w.watched r

theorem proceed_run (P : Policy π ν) (r : Reactor κ π ν) :
    proceed P r = if r.cancelled then
      (.ended ((finalizeAll P r.live r).1.mapError .panic), (finalizeAll P r.live r).2)
    else (.waiting r.prepare, (remark .waits r).2) := by
  show (ite (r.cancelled = true) _ _ : ReactorM κ π ν Progress) r = _
  split_ifs <;> rfl

theorem proceed_works (r : Reactor κ π ν) :
    ReflTransGen (Moment.Works P) ⟨r, .busy .proceed []⟩
      ⟨(proceed P r).2, .ofProgress (proceed P r).1⟩ := by
  have hs : Moment.Works P ⟨r, .busy .proceed []⟩ _ := .task r .proceed []
  rw [proceed_run]
  by_cases hc : r.cancelled
  · simp only [advance, if_pos hc] at hs ⊢
    have hl := finalizeAll_leads (P := P) r.live r
    generalize finalizeAll P r.live r = out at hl ⊢
    rcases out with ⟨p | ⟨⟩, r'⟩
    all_goals
      have hl := hl []
      rw [List.append_nil] at hl
      exact .head hs hl
  · simp only [advance, if_neg hc] at hs ⊢
    exact .single hs

theorem start_inner {outside : Phase π ν → Prop} (r : Reactor κ π ν) :
    ReflTransGen (Moment.Inner P outside) ⟨r, .idle⟩
      ⟨(start P r).2, .ofProgress (start P r).1⟩ := by
  have he : start P r = (ite (r.listener.isNone = true) _ _ : ReactorM κ π ν Progress) r := rfl
  rw [he]
  by_cases hl : r.listener.isNone
  · rw [if_pos hl]
    exact .refl
  · rw [if_neg hl]
    rw [Option.isNone_iff_eq_none, ← ne_eq, ← Option.isSome_iff_ne_none] at hl
    exact .head (.start r hl) (Moment.works_inner (proceed_works r))

/-- Behind a wait that was answered, a run does the tasks of the turn. -/
theorem resume_works (w : Wait) (reported : List UInt16) (r : Reactor κ π ν) :
    ReflTransGen (Moment.Works P)
      ⟨r, .ofTasks (turnTasks w (Event.ofReport .posix w.list reported) r)⟩
      ⟨(resume P w (.ok reported) r).2, .ofProgress (resume P w (.ok reported) r).1⟩ := by
  have ht := turn_leads (P := P) w (Event.ofReport .posix w.list reported) r
  have he : (turn P w (Event.ofReport .posix w.list reported)).run r =
    turn P w (Event.ofReport .posix w.list reported) r := rfl
  unfold resume
  simp only [bind_run, he]
  generalize turn P w (Event.ofReport .posix w.list reported) r = out at ht ⊢
  rcases out with ⟨p | ⟨⟩, r'⟩
  · have ht := ht [.proceed]
    rw [List.append_assoc] at ht
    exact ht
  · have ht := ht [.proceed]
    rw [List.append_assoc] at ht
    exact ht.trans (proceed_works r')

theorem resume_inner {outside : Phase π ν → Prop} (w : Wait) (report : Except Errno (List UInt16))
    (r : Reactor κ π ν) :
    ReflTransGen (Moment.Inner P outside) ⟨r, .waiting w⟩
      ⟨(resume P w report r).2, .ofProgress (resume P w report r).1⟩ := by
  rcases report with e | reported
  · unfold resume
    dsimp only
    split_ifs
    · exact .refl
    · exact .single (.fail r w)
  · exact .head (.wake r w reported) (Moment.works_inner (resume_works w reported r))

theorem cleanup_inner {outside : Phase π ν → Prop} (r : Reactor κ π ν) :
    ReflTransGen (Moment.Inner P outside) ⟨r, .idle⟩ ⟨(cleanup P r).2, .idle⟩ := by
  have hs : Moment.Inner P outside ⟨r, .idle⟩ _ := .cleanup r
  have hl := finalizeAll_leads (P := P) r.live r
  have he : (closeConnections P).run r = finalizeAll P r.live r := rfl
  unfold cleanup
  rw [bind_run, he]
  generalize finalizeAll P r.live r = out at hl ⊢
  rcases out with ⟨p | ⟨⟩, r'⟩
  · exact .head hs (Moment.works_inner (hl [.closeListener]))
  · refine .head hs ((Moment.works_inner (hl [.closeListener])).trans (.single ?_))
    exact .works (.task r' .closeListener [])

end Reactor

namespace Moment

variable {κ π ν : Type} [Kernel κ] {P : Policy π ν} {outside : Phase π ν → Prop}

theorem Act.steps {m m' : Moment κ π ν} (h : Act P outside m m') :
    ReflTransGen (Step P outside) m m' := by
  have hinner {m m' : Moment κ π ν} (h : ReflTransGen (Inner P outside) m m') :
      ReflTransGen (Step P outside) m m' := ReflTransGen.mono (fun _ _ ↦ Inner.step) _ _ h
  cases h with
  | step h => exact .single h
  | start r => exact hinner (Reactor.start_inner r)
  | resume r w report => exact hinner (Reactor.resume_inner w report r)
  | cleanup r => exact hinner (Reactor.cleanup_inner r)

theorem Occurs.acts {b : Builder} {m m' : Moment κ π ν} (h : Occurs P outside b m)
    (hs : ReflTransGen (Act P outside) m m') : Occurs P outside b m' := by
  obtain ⟨app, os, r, os', hb, hj, h⟩ := h
  exact ⟨app, os, r, os', hb, hj, h.trans hs⟩

/-- What holds of a reactor that was just built and is kept by every small step holds at every
moment. -/
theorem Occurs.induction {b : Builder} {motive : Moment κ π ν → Prop}
    (built : ∀ (app : π) (os : Os κ (Mark ν)) (r : Reactor κ π ν) (os' : Os κ (Mark ν)),
      b.build app os = (.ok r, os') → os.journal = [] → motive ⟨r, .idle⟩)
    (step : ∀ m m', Step P outside m m' → motive m → motive m') {m : Moment κ π ν}
    (h : Occurs P outside b m) : motive m := by
  obtain ⟨app, os, r, os', hb, hj, hs⟩ := h
  have h0 := built app os r os' hb hj
  clear hb
  induction hs with
  | refl => exact h0
  | tail _ ha ih =>
    have hs := ha.steps
    clear ha
    induction hs with
    | refl => exact ih
    | tail _ hs ih => exact step _ _ hs ih

theorem Occurs.step_induction {b : Builder} {motive : Moment κ π ν → Prop}
    (built : ∀ (app : π) (os : Os κ (Mark ν)) (r : Reactor κ π ν) (os' : Os κ (Mark ν)),
      b.build app os = (.ok r, os') → os.journal = [] → motive ⟨r, .idle⟩)
    (step : ∀ m m', Occurs P outside b m → Step P outside m m' → motive m → motive m')
    {m : Moment κ π ν} (h : Occurs P outside b m) : motive m :=
  (h.induction (motive := fun m ↦ Occurs P outside b m ∧ motive m)
    (fun app os r os' hb hj ↦ ⟨⟨app, os, r, os', hb, hj, .refl⟩, built app os r os' hb hj⟩)
    fun m m' hs ⟨ho, hm⟩ ↦ ⟨ho.act (.step hs), step m m' ho hs hm⟩).2

end Moment

end PollReactor
