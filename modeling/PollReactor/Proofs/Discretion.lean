import PollReactor.Proofs.Routing.Turn
import PollReactor.Proofs.Transfer.Accord

namespace PollReactor

open Journal (Fresh IsOpen)
open Moment (grows_of_leads)
open Os (Shuns)

variable {κ π ν β : Type}

/-- The request is about this connection alone. -/
inductive Request.IsAbout (id : Nat) : Request → Prop where
  | conn (op : ConnOp) : IsAbout id (.conn id op)
  | idleTime : IsAbout id (.idleTime id)
  | clock : IsAbout id .clock

namespace Script

variable {α : Type}

/-- Whatever the answers, the script makes requests of the class `C` only, and its end is of the
class `D`. -/
inductive Stays (C : Request → Prop) (D : α → Prop) : Script ν α → Prop where
  | done {a : α} (h : D a) : Stays C D (.done a)
  | ask {q : Request} {next : q.Answer → Script ν α} (hq : C q) (h : ∀ a, Stays C D (next a)) :
      Stays C D (.ask q next)
  | say {v : ν} {next : Script ν α} (h : Stays C D next) : Stays C D (.say v next)

inductive Alike (E : α → α → Prop) : Script ν α → Script ν α → Prop where
  | done {a a' : α} (h : E a a') : Alike E (.done a) (.done a')
  | ask {q : Request} {next next' : q.Answer → Script ν α} (h : ∀ a, Alike E (next a) (next' a)) :
      Alike E (.ask q next) (.ask q next')
  | say {v : ν} {next next' : Script ν α} (h : Alike E next next') :
      Alike E (.say v next) (.say v next')

theorem Stays.mono {C C' : Request → Prop} {D D' : α → Prop} {script : Script ν α}
    (h : script.Stays C D) (hC : ∀ q, C q → C' q) (hD : ∀ a, D a → D' a) :
    script.Stays C' D' := by
  induction h with
  | done h => exact .done (hD _ h)
  | ask hq _ ih => exact .ask (hC _ hq) ih
  | say _ ih => exact .say ih

end Script

/-- A callback is answered from what is remembered of its connection, and touches nothing but that
connection: it makes no other requests, changes nothing that is remembered of others, and does not
panic, which would stop the reactor for all. `memory id` is what is remembered of the connection
`id`. -/
structure Policy.Local (P : Policy π ν) (memory : Nat → π → β) : Prop where
  ready : ∀ peer config app, (P.ready peer config app).Stays (· = .clock) fun out ↦
    (∃ d, out.1 = .ok d) ∧ ∀ id, memory id out.2 = memory id app
  heard : ∀ cb app, (P.heard cb app).Stays (·.IsAbout cb.id) fun out ↦
    out.1 = .ok () ∧ ∀ id, id ≠ cb.id → memory id out.2 = memory id app
  alike : ∀ cb app app', memory cb.id app = memory cb.id app' →
    Script.Alike (fun out out' ↦ memory cb.id out.2 = memory cb.id out'.2)
      (P.heard cb app) (P.heard cb app')

theorem Policy.standard_local : (standard (ν := ν)).Local fun _ _ ↦ () where
  ready _ _ _ := .ask rfl fun _ ↦ .done ⟨⟨_, rfl⟩, fun _ ↦ rfl⟩
  heard cb _ := by
    cases cb with
    | failed id e => exact .ask (.conn _) fun _ ↦ .done ⟨rfl, fun _ _ ↦ rfl⟩
    | _ => exact .done ⟨rfl, fun _ _ ↦ rfl⟩
  alike cb _ _ _ := by
    cases cb with
    | failed id e => exact .ask fun _ ↦ .done rfl
    | _ => exact .done rfl

namespace Reactor

variable {r r' : Reactor κ π ν} {id id' : Nat} {fd : Fd}

structure Apart (id : Nat) (fd : Fd) (r : Reactor κ π ν) : Prop where
  receiver : r.waker.receiver ≠ fd
  sender : r.waker.sender ≠ fd
  conns : ∀ id' fd', r.fd? id' = some fd' → (fd' = fd ↔ id' = id)

theorem Apart.fd?_eq (h : r.Apart id fd) {c : Conn} (hc : r.conn? id = some c) :
    ∀ fd', c.fd? = some fd' → fd' = fd :=
  fun fd' hfd ↦ (h.conns id fd' (by rw [fd?, hc]; exact hfd)).2 rfl

theorem Apart.fd?_ne (h : r.Apart id fd) (hid : id' ≠ id) {c : Conn} (hc : r.conn? id' = some c) :
    c.fd? ≠ some fd :=
  fun hfd ↦ hid ((h.conns id' fd (by rw [fd?, hc]; exact hfd)).1 rfl)

theorem conn?_replace {id : Nat} (h : id ≠ 0) (r : Reactor κ π ν) (c' : Conn) (id' : Nat) :
    (r.setConn id c').conn? id' =
      if id' = id then (r.conn? id).map fun _ ↦ c' else r.conn? id' := by
  cases hc : r.conn? id with
  | some c => exact conn?_setConn hc c' id'
  | none =>
    have hsize : r.conns.size ≤ id - 1 := by
      rw [conn?, if_neg h] at hc
      exact Array.getElem?_eq_none_iff.1 hc
    have he : r.setConn id c' = r := by
      unfold setConn
      rw [Array.setIfInBounds, dif_neg (by omega)]
    rw [he]
    split_ifs with hid
    · rw [hid, hc]
      rfl
    · rfl

theorem Apart.setConn {x : Nat} {c' : Conn} (h : r.Apart id fd) (h0 : x ≠ 0)
    (hc' : ∀ fd', c'.fd? = some fd' → (fd' = fd ↔ x = id)) : (r.setConn x c').Apart id fd where
  receiver := h.receiver
  sender := h.sender
  conns id' fd' hfd := by
    rw [fd?, conn?_replace h0] at hfd
    split_ifs at hfd with hid
    · cases hx : r.conn? x with
      | none =>
        rw [hx] at hfd
        cases hfd
      | some c =>
        rw [hx] at hfd
        rw [hid]
        exact hc' fd' hfd
    · exact h.conns id' fd' hfd

variable [Kernel κ]

/-- What was done passes by the connection `id` and the descriptor `fd`. -/
structure Passes (memory : Nat → π → β) (id : Nat) (fd : Fd) (r r' : Reactor κ π ν) : Prop where
  apart : r'.Apart id fd
  conn : r'.conn? id = r.conn? id
  live : id ∈ r'.live ↔ id ∈ r.live
  idleLimit : r'.idleLimit = r.idleLimit
  app : memory id r'.app = memory id r.app
  os : Shuns id fd r.os r'.os

/-- So it is if the descriptor is that of the connection. -/
def Spares (memory : Nat → π → β) (id : Nat) (fd : Fd) (r r' : Reactor κ π ν) : Prop :=
  r.Apart id fd → Passes memory id fd r r'

instance (memory : Nat → π → β) (id : Nat) (fd : Fd) :
    IsPreorder (Reactor κ π ν) (Spares memory id fd) where
  refl _ h := ⟨h, rfl, Iff.rfl, rfl, rfl, refl_of _ _⟩
  trans _ _ _ h h' ha := by
    have h := h ha
    have h' := h' h.apart
    exact ⟨h'.apart, h'.conn.trans h.conn, h'.live.trans h.live, h'.idleLimit.trans h.idleLimit,
      h'.app.trans h.app, trans_of _ h.os h'.os⟩

variable {memory : Nat → π → β} {P : Policy π ν}

theorem Apart.passes (h : r.Apart id fd) {os : Os κ (Mark ν)} (hs : Shuns id fd r.os os)
    (pool : Pool Stream) : Passes memory id fd r { r with os, pool } :=
  ⟨⟨h.receiver, h.sender, h.conns⟩, rfl, Iff.rfl, rfl, rfl, hs⟩

/-- If the descriptor is that of the connection, the pass comes to its end and passes by both. -/
def Clears {α : Type} (memory : Nat → π → β) (id : Nat) (fd : Fd) (act : PassM κ π ν α) : Prop :=
  ∀ r, r.Apart id fd → (∃ a, (act r).1 = .ok a) ∧ Passes memory id fd r (act r).2

namespace Clears

variable {α γ : Type}

theorem bind {x : PassM κ π ν α} {f : α → PassM κ π ν γ} (hx : Clears memory id fd x)
    (hf : ∀ r a, (x r).1 = .ok a → Clears memory id fd (f a)) :
    Clears memory id fd (x >>= f) := by
  intro r hr
  obtain ⟨⟨a, ha⟩, hs⟩ := hx r hr
  have hf := hf r a ha
  rw [pass_bind]
  generalize x r = out at ha hs ⊢
  rcases out with ⟨result, r'⟩
  obtain rfl : result = .ok a := ha
  obtain ⟨hok, hs'⟩ := hf r' hs.apart
  exact ⟨hok, trans_of (Spares memory id fd) (fun _ ↦ hs) (fun _ ↦ hs') hr⟩

theorem calmly {x : ReactorM κ π ν α} (h : Within (Spares memory id fd) x) :
    Clears memory id fd (Reactor.calmly x) := fun r hr ↦ ⟨⟨_, rfl⟩, h r hr⟩

theorem pure (a : α) : Clears memory id fd (Pure.pure a : PassM κ π ν α) :=
  fun r hr ↦ ⟨⟨a, rfl⟩, refl_of (Spares memory id fd) r hr⟩

theorem get : Clears memory id fd (MonadState.get : PassM κ π ν (Reactor κ π ν)) :=
  fun r hr ↦ ⟨⟨r, rfl⟩, refl_of (Spares memory id fd) r hr⟩

end Clears

theorem system_spares {α : Type} {act : OsM κ (Mark ν) α} (h : Within (Shuns id fd) act) :
    Within (Spares (π := π) memory id fd) (system act) :=
  fun r ha ↦ ha.passes (h r.os) r.pool

theorem remark_spares {m : Mark ν} (h : m.concerns id = false) :
    Within (Spares (κ := κ) memory id fd) (remark m) :=
  fun r ha ↦ ha.passes (.note h r.os) r.pool

theorem wake_spares : Within (Spares (κ := κ) (ν := ν) memory id fd) wake := by
  intro r ha
  have hwake : Shuns id fd r.os (r.waker.wake r.os).2 := by
    unfold Waker.wake
    cases r.waker.signaled with
    | true => exact refl_of _ _
    | false => exact attempt_within (mt List.mem_singleton.1 ha.sender.symm) r.os
  have hends : (r.waker.wake r.os).1.receiver = r.waker.receiver ∧
      (r.waker.wake r.os).1.sender = r.waker.sender := by
    unfold Waker.wake
    cases r.waker.signaled <;> exact ⟨rfl, rfl⟩
  exact ⟨⟨hends.1 ▸ ha.receiver, hends.2 ▸ ha.sender, ha.conns⟩, rfl, Iff.rfl, rfl, rfl, hwake⟩

theorem release_spares (t : Token Stream) :
    Within (Spares (κ := κ) (π := π) (ν := ν) memory id fd) (release t) :=
  fun _ ha ↦ ha.passes (refl_of _ _) _

theorem closeAndRelease_spares {t : Token Stream} (ht : t.value.fd ≠ some fd) :
    Within (Spares (κ := κ) (π := π) (ν := ν) memory id fd) (closeAndRelease t) :=
  .bind (system_spares (Stream.close_within ht)) fun _ ↦ release_spares _

theorem replace_spares {c' : Conn} (h0 : id' ≠ 0) (hid : id' ≠ id) (hc' : c'.fd? ≠ some fd) :
    Within (Spares (κ := κ) (ν := ν) memory id fd) (modify (·.setConn id' c')) := by
  intro r ha
  refine ⟨ha.setConn h0 fun fd' hfd ↦ ?_, ?_, Iff.rfl, rfl, rfl, refl_of _ _⟩
  · exact iff_of_false (fun he ↦ hc' (he ▸ hfd)) hid
  · show (r.setConn id' c').conn? id = _
    rw [conn?_replace h0, if_neg hid.symm]

theorem actAll_spares {es : List Effect} (h : ∀ fd', .shutdown fd' ∈ es → fd' ≠ fd) :
    Within (Spares (κ := κ) (ν := ν) memory id fd) (actAll es) := by
  induction es with
  | nil => exact .pure _
  | cons e es ih =>
    refine .bind ?_ fun _ ↦ ih fun fd' hfd ↦ h fd' (List.mem_cons_of_mem _ hfd)
    cases e with
    | shutdown fd' =>
      have hne := h fd' List.mem_cons_self
      exact system_spares (attempt_within (mt List.mem_singleton.1 hne.symm))
    | wake => exact wake_spares

theorem callConn_spares (hid : id' ≠ id) (op : ConnOp) :
    Within (Spares (κ := κ) (ν := ν) memory id fd) (callConn id' op) := by
  intro r ha
  cases hc : r.conn? id' with
  | none =>
    rw [callConn_of_none hc]
    exact refl_of (Spares memory id fd) r ha
  | some c =>
    have hne := ha.fd?_ne hid hc
    have h0 : id' ≠ 0 := Nat.pos_iff_ne_zero.1 (conn?_bounds hc).1
    have heffects : Within (Spares (κ := κ) (ν := ν) memory id fd) (actAll (c.perform op).2.2) :=
      actAll_spares fun fd' hfd he ↦ hne (he ▸ c.perform_own hfd)
    have hnote : Within (Spares (κ := κ) (ν := ν) memory id fd) (remark (.called id' c op)) :=
      remark_spares (decide_eq_false hid)
    rw [callConn_run hc]
    have hset : Spares memory id fd r _ := replace_spares h0 hid (c.perform_fd? op ▸ hne) r
    exact trans_of _ hset (trans_of _ (hnote _) (heffects _)) ha

theorem request_spares (hid : id' ≠ id) {q : Request} (hq : q.IsAbout id') :
    Within (Spares (κ := κ) (ν := ν) memory id fd) (request q) := by
  refine .bind ?_ fun _ ↦ .bind (remark_spares rfl) fun _ ↦ .pure _
  have hclock : Within (Spares (κ := κ) (π := π) (ν := ν) memory id fd) (system (sys .clock)) :=
    system_spares (Os.sys_within List.not_mem_nil)
  cases hq with
  | conn op => exact callConn_spares hid op
  | clock => exact hclock
  | idleTime =>
    intro r
    simp only [respond, bind_run, get_run]
    cases r.conn? id' with
    | none => exact refl_of _ r
    | some c => exact hclock r

theorem runScript_ends {α : Type} {C : Request → Prop} {D : α → Prop} {script : Script ν α}
    (h : script.Stays C D) (r : Reactor κ π ν) : D (runScript script r).1 := by
  induction h generalizing r with
  | done h => exact h
  | ask _ _ ih => exact ih _ _
  | say _ ih => exact ih _

theorem runScript_spares {α : Type} {D : α → Prop} (hid : id' ≠ id) {script : Script ν α}
    (h : script.Stays (·.IsAbout id') D) :
    Within (Spares (κ := κ) memory id fd) (runScript script) := by
  induction h with
  | done => exact .pure _
  | ask hq _ ih => exact .bind (request_spares hid hq) fun _ ↦ ih _
  | say _ ih => exact .bind (remark_spares rfl) fun _ ↦ ih

theorem transfer_spares {α γ : Type} {c : Conn} {act : OsM κ (Mark ν) (Except IoError α × Conn)}
    {f : Except IoError α × Conn → PassM κ π ν γ} (hc : c.fd? ≠ some fd)
    (hact : Within (Shuns id fd) act) (hfd : ∀ o, (act o).1.2.fd? = c.fd?)
    (hf : ∀ out, out.2.fd? ≠ some fd → Clears memory id fd (f out)) :
    Clears memory id fd (calmly (system act) >>= f) := by
  refine .bind (.calmly (system_spares hact)) fun r out hout ↦ hf out ?_
  rw [← Except.ok.inj hout]
  exact hfd r.os ▸ hc

theorem consult_spares {α : Type} {script : π → Script ν (Outcome π α)} (hid : id' ≠ id)
    (h : ∀ app, (script app).Stays (·.IsAbout id') fun out ↦
      (∃ a, out.1 = .ok a) ∧ memory id out.2 = memory id app) :
    Clears (κ := κ) memory id fd (consult script) := by
  intro r hr
  have hs : Passes memory id fd r _ := runScript_spares hid (h r.app) r hr
  obtain ⟨⟨a, ha⟩, happ⟩ := runScript_ends (h r.app) r
  rw [consult_run]
  generalize runScript (script r.app) r = out at hs ha happ ⊢
  rcases out with ⟨⟨result, app⟩, r'⟩
  obtain rfl : result = .ok a := ha
  exact ⟨⟨a, rfl⟩, ⟨hs.apart.receiver, hs.apart.sender, hs.apart.conns⟩, hs.conn, hs.live,
    hs.idleLimit, happ, hs.os⟩

theorem notify_spares (hP : P.Local memory) {cb : Callback} (hid : cb.id ≠ id) :
    Clears (κ := κ) memory id fd (notify P cb) := by
  have hnote : Within (Spares (κ := κ) (ν := ν) memory id fd) (remark (.callback cb)) :=
    remark_spares (decide_eq_false hid)
  refine Clears.bind (.calmly hnote) fun _ _ _ ↦ consult_spares hid fun app ↦ ?_
  exact (hP.heard cb app).mono (fun _ hq ↦ hq) fun _ ⟨hok, happ⟩ ↦ ⟨⟨(), hok⟩, happ id hid.symm⟩

section

variable (hid : id' ≠ id)

include hid

theorem withConn_spares {α : Type} [Inhabited α] {f : Conn → PassM κ π ν α}
    (hf : ∀ c, id' ≠ 0 → c.fd? ≠ some fd → Clears memory id fd (f c)) :
    Clears memory id fd (withConn id' f) := by
  intro r hr
  rw [withConn_run]
  cases hc : r.conn? id' with
  | none => exact Clears.pure _ r hr
  | some c => exact hf c (Nat.pos_iff_ne_zero.1 (conn?_bounds hc).1) (hr.fd?_ne hid hc) r hr

theorem detach_spares : Within (Spares (κ := κ) (ν := ν) memory id fd) (detach id') := by
  intro r ha
  unfold detach
  rw [bind_run, get_run]
  cases hc : r.conn? id' with
  | none => exact refl_of (Spares memory id fd) r ha
  | some c =>
    have h0 : id' ≠ 0 := Nat.pos_iff_ne_zero.1 (conn?_bounds hc).1
    have hne := ha.fd?_ne hid hc
    refine Within.bind (replace_spares h0 hid (by rintro ⟨⟩)) (fun _ ↦ ?_) r ha
    cases hs : c.socket with
    | none => exact .pure _
    | some t =>
      have ht : t.value.fd ≠ some fd := fun he ↦ hne (by rw [Conn.fd?, hs]; exact he)
      exact closeAndRelease_spares ht

theorem hastenClose_spares : Clears (κ := κ) (ν := ν) memory id fd (hastenClose id') := by
  refine withConn_spares hid fun c _ _ ↦ ?_
  split_ifs
  · exact .calmly wake_spares
  · exact .pure _

variable (hP : P.Local memory)

include hP

theorem finalize_spares (why : Teardown) :
    Clears (κ := κ) memory id fd (finalize P id' why) := by
  refine .bind (.calmly (detach_spares hid)) fun _ _ _ ↦ .bind (.calmly ?_) fun _ _ _ ↦ ?_
  · intro r ha
    refine ⟨⟨ha.receiver, ha.sender, ha.conns⟩, rfl, ?_, rfl, rfl, refl_of _ _⟩
    show id ∈ r.live.filter (· ≠ id') ↔ _
    simp [hid.symm]
  · exact notify_spares hP (by cases why <;> exact hid)

theorem serveInput_spares : Clears (κ := κ) memory id fd (serveInput P id') := by
  refine withConn_spares hid fun c h0 hc ↦ ?_
  refine transfer_spares hc (Conn.receive_within hc) c.receive_fd? fun ⟨result, c'⟩ hc' ↦ ?_
  refine .bind (.calmly (replace_spares h0 hid hc')) fun _ _ _ ↦ ?_
  rcases result with e | n | _
  · exact .pure _
  · dsimp only
    split_ifs
    · exact .bind (notify_spares hP hid) fun _ _ _ ↦ .pure _
    · exact .pure _
  · exact .pure _

theorem serveOutput_spares : Clears (κ := κ) memory id fd (serveOutput P id') := by
  refine withConn_spares hid fun c h0 hc ↦ ?_
  refine transfer_spares hc (Conn.transmit_within hc) c.transmit_fd? fun ⟨result, c'⟩ hc' ↦ ?_
  refine .bind (.calmly (replace_spares h0 hid hc')) fun _ _ _ ↦ ?_
  cases result with
  | error e => exact .pure _
  | ok n =>
    have hrest : Clears memory id fd (hastenClose (κ := κ) (π := π) (ν := ν) id') :=
      hastenClose_spares hid
    dsimp only
    split_ifs
    · exact .bind (notify_spares hP hid) fun _ _ _ ↦ .bind hrest fun _ _ _ ↦ .pure _
    · exact .bind hrest fun _ _ _ ↦ .pure _

theorem serveUrgent_spares : Clears (κ := κ) memory id fd (serveUrgent P id') := by
  refine withConn_spares hid fun c h0 hc ↦ ?_
  refine transfer_spares hc (Conn.receiveUrgent_within hc) c.receiveUrgent_fd?
    fun ⟨result, c'⟩ hc' ↦ ?_
  refine .bind (.calmly (replace_spares h0 hid hc')) fun _ _ _ ↦ ?_
  cases result with
  | error e => exact .pure _
  | ok stored =>
    dsimp only
    split_ifs
    · exact .bind (notify_spares hP hid) fun _ _ _ ↦ .pure _
    · exact .pure _

theorem dispatch_spares (event : Event) (interest : Interest) (now : Nat) :
    Clears (κ := κ) memory id fd (dispatch P id' event interest now) := by
  refine withConn_spares hid fun c h0 hc ↦ ?_
  split_ifs
  · exact .pure _
  · exact serveInput_spares hid hP
  · exact serveOutput_spares hid hP
  · exact serveUrgent_spares hid hP
  · exact .bind (.calmly (replace_spares h0 hid hc)) fun _ _ _ ↦ .pure _
  · refine .bind .get fun _ _ _ ↦ ?_
    split_ifs <;> exact .pure _

theorem serve_spares (event : Event) (interest : Interest) (now : Nat) :
    Clears (κ := κ) memory id fd (serve P id' event interest now) := by
  refine .bind (dispatch_spares hid hP event interest now) fun _ why _ ↦ ?_
  cases why with
  | some why => exact finalize_spares hid hP why
  | none =>
    refine .bind .get fun _ r _ ↦ ?_
    cases r.conn? id' with
    | none => exact .pure _
    | some c =>
      dsimp only
      split_ifs
      · exact finalize_spares hid hP .closed
      · exact .pure _

end

theorem settleWaker_spares (events : List Event) :
    Within (Spares (κ := κ) (π := π) (ν := ν) memory id fd) (settleWaker events) := by
  intro r ha
  rw [settleWaker_run]
  split_ifs
  · have hdrain : Shuns id fd r.os _ := Waker.drain_shuns ha.receiver r.os
    exact ⟨⟨ha.receiver, ha.sender, ha.conns⟩, rfl, Iff.rfl, rfl, rfl, hdrain⟩
  · exact refl_of (Spares memory id fd) r ha

theorem enroll_spares {t : Token Stream} (ht : t.value.fd ≠ some fd) (peer : Net.SocketAddr)
    (d : Draft) (hid : (r.conn? id).isSome) :
    Spares memory id fd r (enroll t peer d r).2 := by
  intro ha
  obtain ⟨c, hc⟩ := Option.isSome_iff_exists.1 hid
  have hle := (conn?_bounds hc).2
  have hconn (id' : Nat) : (enroll t peer d r).2.conn? id' = if id' = r.conns.size + 1 then
      some (.ofDraft d (r.conns.size + 1) peer t (sys .clock r.os).1) else r.conn? id' :=
    conn?_push rfl id'
  refine ⟨⟨ha.receiver, ha.sender, fun id' fd' hfd ↦ ?_⟩, ?_, ?_, rfl, rfl, ?_⟩
  · rw [fd?, hconn] at hfd
    split_ifs at hfd with hnew
    · have hfd : t.value.fd = some fd' := hfd
      exact iff_of_false (fun he ↦ ht (he ▸ hfd)) (by omega)
    · exact ha.conns id' fd' hfd
  · rw [hconn, if_neg (by omega)]
  · show id ∈ r.live ++ [r.conns.size + 1] ↔ _
    rw [List.mem_append, List.mem_singleton, or_iff_left (by omega)]
  · exact trans_of _ (Os.Shuns.call List.not_mem_nil r.os) (.note rfl _)

theorem introduce_passes (hP : P.Local memory) (ha : r.Apart id fd) (hid : (r.conn? id).isSome)
    {t : Token Stream} (ht : t.value.fd ≠ some fd) (peer : Net.SocketAddr) :
    (introduce P t peer r).1 = .ok () ∧ Passes memory id fd r (introduce P t peer r).2 := by
  have hready : Spares (κ := κ) memory id fd r (remark (.ready peer) r).2 := remark_spares rfl r
  -- A script that asks for the clock only is about whichever other connection one likes.
  have hstays (app : π) : (P.ready peer r.defaults app).Stays (·.IsAbout (id + 1)) fun out ↦
      (∃ d, out.1 = .ok d) ∧ memory id out.2 = memory id app :=
    (hP.ready peer r.defaults app).mono (fun _ hq ↦ hq ▸ .clock) fun _ h ↦ ⟨h.1, h.2 id⟩
  obtain ⟨hok, hconsult⟩ := consult_spares (κ := κ) (Nat.succ_ne_self id) hstays
    (remark (.ready peer) r).2 (hready ha).apart
  have hs := trans_of _ hready fun _ ↦ hconsult
  rw [introduce_run]
  generalize consult (P.ready peer r.defaults) (remark (.ready peer) r).2 = out at hs hok ⊢
  rcases out with ⟨_ | _ | d, r'⟩
  · obtain ⟨a, ha⟩ := hok
    cases ha
  · exact ⟨rfl, trans_of _ hs (closeAndRelease_spares ht r') ha⟩
  · refine ⟨rfl, trans_of _ hs (enroll_spares ht peer d ?_) ha⟩
    rw [(hs ha).conn]
    exact hid

section

variable {listener : Fd} (ha : r.Apart id fd) (hl : listener ≠ fd) (ho : IsOpen fd r.os.journal)

include ha hl ho

theorem turnAway_passes (hf : Fresh (turnAway listener r).2.os.journal) :
    Passes memory id fd r (turnAway listener r).2 := by
  have he : systemExcept (Sockets.accept listener) r =
    ((Sockets.accept listener r.os).1, { r with os := (Sockets.accept listener r.os).2 }) := rfl
  have hs : _ → Shuns id fd r.os _ ∧ _ := Sockets.accept_shuns hl ho
  unfold turnAway at hf ⊢
  rw [bind_run, he] at hf ⊢
  generalize Sockets.accept listener r.os = out at hs hf ⊢
  rcases out with ⟨e | ⟨client, peer⟩, os⟩
  · exact ha.passes (hs hf).1 r.pool
  · obtain ⟨hs, hne⟩ := hs (hf.of_append [_])
    have hclient := hne client peer rfl
    have hclose : Shuns id fd os (attempt (.close client) os).2 :=
      attempt_within (mt List.mem_singleton.1 hclient.symm) os
    exact ha.passes (trans_of _ hs hclose) r.pool

theorem acceptPeer_passes (hP : P.Local memory) (hid : (r.conn? id).isSome) (hh : Holding r none)
    (hf : Fresh (acceptPeer P listener r).2.os.journal) :
    (acceptPeer P listener r).1 = .ok () ∧
      Passes memory id fd r (acceptPeer P listener r).2 := by
  unfold acceptPeer at hf ⊢
  rw [pass_bind, pass_get] at hf ⊢
  simp only [andThen] at hf ⊢
  obtain ⟨-, hr⟩ | ⟨slot, free, s, -, hs, hr⟩ := hh.kept.reserve
  · rw [hr] at hf ⊢
    exact ⟨rfl, turnAway_passes ha hl ho hf⟩
  · obtain rfl := hh.parked slot s hs
    have he : systemExcept (Sockets.accept listener) { r with pool := r.pool.without slot free } =
      ((Sockets.accept listener r.os).1,
        { r with pool := r.pool.without slot free, os := (Sockets.accept listener r.os).2 }) := rfl
    have hs : _ → Shuns id fd r.os _ ∧ _ := Sockets.accept_shuns hl ho
    rw [hr] at hf ⊢
    simp only [pass_bind, calmly_run, andThen, modify_run, he] at hf ⊢
    generalize Sockets.accept listener r.os = out at hs hf ⊢
    rcases out with ⟨e | ⟨client, peer⟩, os⟩
    · exact ⟨rfl, ha.passes (hs hf).1 _⟩
    · have hgrows := grows_of_leads (introduce_leads (P := P)
        ⟨r.pool.id, slot, ⟨some client, false⟩⟩ peer
        { r with pool := r.pool.without slot free, os })
      obtain ⟨hs, hne⟩ := hs (hgrows.fresh hf).2
      have hclient : some client ≠ some fd := fun he ↦ hne client peer rfl (Option.some.inj he)
      have htaken : Passes memory id fd r _ := ha.passes hs (r.pool.without slot free)
      obtain ⟨hok, hpasses⟩ := introduce_passes (P := P)
        (t := ⟨r.pool.id, slot, ⟨some client, false⟩⟩) hP htaken.apart hid hclient peer
      exact ⟨hok, trans_of (Spares memory id fd) (fun _ ↦ htaken) (fun _ ↦ hpasses) ha⟩

end

end Reactor

end PollReactor
