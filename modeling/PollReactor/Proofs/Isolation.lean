import PollReactor.Proofs.Discretion

namespace PollReactor

open Event (ofReport ofWord)
open HasClock (readings)
open Journal (Fresh IsOpen)
open Kernel (Agree)
open Moment (grows_of_leads)

variable {κ π ν β : Type} [Kernel κ]

namespace Reactor

variable {r r₁ r₂ r' : Reactor κ π ν} {id : Nat} {fd : Fd} {memory : Nat → π → β} {P : Policy π ν}

/-- For the connection `id` on the descriptor `fd`, and for what the application remembers of it,
the reactors are the same, and will be. -/
structure Alike (memory : Nat → π → β) (id : Nat) (fd : Fd) (r₁ r₂ : Reactor κ π ν) : Prop where
  conn : r₁.conn? id = r₂.conn? id
  live : id ∈ r₁.live ↔ id ∈ r₂.live
  idleLimit : r₁.idleLimit = r₂.idleLimit
  app : memory id r₁.app = memory id r₂.app
  os : Os.Alike id fd r₁.os r₂.os

theorem Alike.left (h : Alike memory id fd r₁ r₂) (hs : Passes memory id fd r₁ r') :
    Alike memory id fd r' r₂ where
  conn := hs.conn.trans h.conn
  live := hs.live.trans h.live
  idleLimit := hs.idleLimit.trans h.idleLimit
  app := hs.app.trans h.app
  os := h.os.left hs.os

theorem Alike.right (h : Alike memory id fd r₁ r₂) (hs : Passes memory id fd r₂ r') :
    Alike memory id fd r₁ r' where
  conn := h.conn.trans hs.conn.symm
  live := h.live.trans hs.live.symm
  idleLimit := h.idleLimit.trans hs.idleLimit.symm
  app := h.app.trans hs.app.symm
  os := h.os.right hs.os

instance : HasClock (Reactor κ π ν) where
  readings r := readings r.os

abbrev Tandem {α : Type} (memory : Nat → π → β) (id : Nat) (fd : Fd) (act : ReactorM κ π ν α) :
    Prop :=
  PollReactor.Tandem (Apart id fd) (Alike memory id fd) act

theorem system_tandem {α : Type} {act : OsM κ (Mark ν) α} (h : Os.Tandem id fd act) :
    Tandem (π := π) memory id fd (system act) := by
  refine ⟨fun r ha ↦ ⟨⟨ha.receiver, ha.sender, ha.conns⟩, (h.onward r.os trivial).2⟩, ?_⟩
  intro r₁ r₂ _ _ hr hsync
  obtain ⟨ha, hos, he⟩ := h.abreast r₁.os r₂.os trivial trivial hr.os hsync
  exact ⟨ha, ⟨hr.conn, hr.live, hr.idleLimit, hr.app, hos⟩, he⟩

theorem remark_tandem (m : Mark ν) : Tandem (κ := κ) memory id fd (remark m) :=
  .of_untimed (fun _ ha ↦ ⟨ha.receiver, ha.sender, ha.conns⟩) (fun _ ↦ rfl) fun _ _ _ _ h ↦
    ⟨rfl, ⟨h.conn, h.live, h.idleLimit, h.app, h.os.note m⟩⟩

theorem wake_tandem : Tandem (κ := κ) (ν := ν) memory id fd wake := by
  have hspares (r : Reactor κ π ν) (ha : r.Apart id fd) : Passes memory id fd r (wake r).2 :=
    wake_spares r ha
  refine .of_untimed (fun r ha ↦ (hspares r ha).apart) (fun r ↦ ?_) fun r₁ r₂ ha₁ ha₂ h ↦ ?_
  · refine Os.untimed_adds (wake_still r).journal fun e he ↦ ?_
    cases he <;> rfl
  · exact ⟨rfl, (h.left (hspares r₁ ha₁)).right (hspares r₂ ha₂)⟩

theorem replace_tandem {c' : Conn} (h0 : id ≠ 0) (hc' : ∀ fd', c'.fd? = some fd' → fd' = fd) :
    Tandem (κ := κ) (ν := ν) memory id fd (modify (·.setConn id c')) := by
  have hown (fd' : Fd) (hfd : c'.fd? = some fd') : fd' = fd ↔ id = id :=
    iff_of_true (hc' fd' hfd) rfl
  refine .of_untimed (fun r ha ↦ ha.setConn h0 hown) (fun _ ↦ rfl) fun r₁ r₂ _ _ h ↦ ?_
  refine ⟨rfl, ⟨?_, h.live, h.idleLimit, h.app, h.os⟩⟩
  show (r₁.setConn id c').conn? id = (r₂.setConn id c').conn? id
  rw [conn?_replace h0, conn?_replace h0, h.conn]

theorem onConn_tandem {α : Type} {d : α} {f : Conn → ReactorM κ π ν α}
    (hf : ∀ c, id ≠ 0 → (∀ fd', c.fd? = some fd' → fd' = fd) → Tandem memory id fd (f c)) :
    Tandem memory id fd (do
      match (← get).conn? id with
      | none => return d
      | some c => f c) := by
  have hconn {r : Reactor κ π ν} {c : Conn} (ha : r.Apart id fd) (hc : r.conn? id = some c) :=
    hf c (Nat.pos_iff_ne_zero.1 (conn?_bounds hc).1) (ha.fd?_eq hc)
  refine ⟨fun r ha ↦ ?_, fun r₁ r₂ ha₁ ha₂ h hsync ↦ ?_⟩
  · rw [bind_run, get_run]
    cases hc : r.conn? id with
    | none => exact ⟨ha, List.prefix_refl _⟩
    | some c => exact (hconn ha hc).onward r ha
  · rw [bind_run, bind_run, get_run, get_run, ← h.conn] at hsync ⊢
    cases hc : r₁.conn? id with
    | none => exact (Tandem.pure d).abreast r₁ r₂ ha₁ ha₂ h (by rwa [hc] at hsync)
    | some c => exact (hconn ha₁ hc).abreast r₁ r₂ ha₁ ha₂ h (by rwa [hc] at hsync)

theorem actAll_tandem {es : List Effect} (h : ∀ fd', .shutdown fd' ∈ es → fd' = fd) :
    Tandem (κ := κ) (ν := ν) memory id fd (actAll es) := by
  induction es with
  | nil => exact .pure _
  | cons e es ih =>
    refine .bind ?_ fun _ ↦ ih fun fd' hfd ↦ h fd' (List.mem_cons_of_mem _ hfd)
    cases e with
    | shutdown fd' =>
      obtain rfl := h fd' List.mem_cons_self
      exact system_tandem (attempt_tandem List.mem_cons_self)
    | wake => exact wake_tandem

theorem callConn_tandem (op : ConnOp) :
    Tandem (κ := κ) (ν := ν) memory id fd (callConn id op) := by
  refine onConn_tandem fun c h0 hfd ↦ ?_
  have hset : Tandem (κ := κ) (ν := ν) memory id fd (modify (·.setConn id (c.perform op).2.1)) :=
    replace_tandem h0 (c.perform_fd? op ▸ hfd)
  have heffects : Tandem (κ := κ) (ν := ν) memory id fd (actAll (c.perform op).2.2) :=
    actAll_tandem fun fd' he ↦ hfd fd' (c.perform_own he)
  exact hset.bind fun _ ↦ (remark_tandem _).bind fun _ ↦ heffects.bind fun _ ↦ .pure _

theorem request_tandem {q : Request} (hq : q.IsAbout id) :
    Tandem (κ := κ) (ν := ν) memory id fd (request q) := by
  refine .bind ?_ fun _ ↦ .bind (remark_tandem _) fun _ ↦ .pure _
  have hclock : Tandem (κ := κ) (π := π) (ν := ν) memory id fd (system (sys .clock)) :=
    system_tandem Os.clock_tandem
  cases hq with
  | conn op => exact callConn_tandem op
  | clock => exact hclock
  | idleTime => exact onConn_tandem fun c _ _ ↦ hclock.bind fun _ ↦ .pure _

theorem runScript_onward {α : Type} {D : α → Prop} {script : Script ν α}
    (hs : script.Stays (·.IsAbout id) D) :
    Within (Onward (Apart (κ := κ) (π := π) id fd)) (runScript script) := by
  induction hs with
  | done => exact .pure _
  | @ask q _ hq _ ih =>
    have hrequest : Tandem (κ := κ) (ν := ν) (fun _ (_ : π) ↦ ()) id fd (request q) :=
      request_tandem hq
    exact .bind hrequest.onward fun _ ↦ ih _
  | @say v _ _ ih =>
    have hsaid : Tandem (κ := κ) (fun _ (_ : π) ↦ ()) id fd (remark (.said v)) := remark_tandem _
    exact .bind hsaid.onward fun _ ↦ ih

theorem runScript_abreast {α : Type} {D D' : α → Prop} {E : α → α → Prop}
    {script script' : Script ν α} (hs : script.Stays (·.IsAbout id) D)
    (hs' : script'.Stays (·.IsAbout id) D') (h : script.Alike E script')
    (ha₁ : r₁.Apart id fd) (ha₂ : r₂.Apart id fd) (ht : Alike memory id fd r₁ r₂)
    (hsync : Synchronous (readingsSince r₁ (runScript script r₁).2)
      (readingsSince r₂ (runScript script' r₂).2)) :
    Abreast E (Alike memory id fd) r₁ r₂ (runScript script r₁) (runScript script' r₂) := by
  induction h generalizing r₁ r₂ with
  | done he => exact ⟨he, ht, (Tandem.pure ()).abreast r₁ r₂ ha₁ ha₂ ht hsync |>.since⟩
  | @ask q next next' _ ih =>
    cases hs with
    | ask hq hnext =>
    cases hs' with
    | ask _ hnext' =>
    have hrequest : Tandem (κ := κ) (ν := ν) memory id fd (request q) := request_tandem hq
    exact hrequest.bind_abreast (fun _ ↦ runScript_onward (hnext _))
      (fun _ ↦ runScript_onward (hnext' _)) ha₁ ha₂ ht
      (fun _ _ ↦ ih _ (hnext _) (hnext' _)) hsync
  | @say v _ _ _ ih =>
    cases hs with
    | say hnext =>
    cases hs' with
    | say hnext' =>
    have hsaid : Tandem (κ := κ) memory id fd (remark (.said v)) := remark_tandem _
    exact hsaid.bind_abreast (fun _ ↦ runScript_onward hnext) (fun _ ↦ runScript_onward hnext')
      ha₁ ha₂ ht (fun _ _ ↦ ih hnext hnext') hsync

/-- The pass comes to its end, and for the connection to the same. -/
structure Together {α : Type} (memory : Nat → π → β) (id : Nat) (fd : Fd) (act : PassM κ π ν α) :
    Prop where
  ends : ∀ r, r.Apart id fd → ∃ a, (act r).1 = .ok a
  tandem : Tandem (α := Except Panic α) memory id fd act

namespace Together

variable {α γ : Type}

theorem bind {x : PassM κ π ν α} {f : α → PassM κ π ν γ} (hx : Together memory id fd x)
    (hf : ∀ r a, (x r).1 = .ok a → Together memory id fd (f a)) :
    Together memory id fd (x >>= f) where
  ends r ha := by
    obtain ⟨a, hxa⟩ := hx.ends r ha
    obtain ⟨hk, -⟩ := hx.tandem.onward r ha
    have hends := (hf r a hxa).ends _ hk
    rw [pass_bind]
    generalize x r = out at hxa hends ⊢
    rcases out with ⟨result, r'⟩
    obtain rfl : result = .ok a := hxa
    exact hends
  tandem := by
    refine PollReactor.Tandem.bind (f := ExceptT.bindCont f) hx.tandem fun r ↦ ?_
    cases h : (x r).1 with
    | error p => exact .pure _
    | ok a => exact (hf r a h).tandem

theorem pure (a : α) : Together memory id fd (Pure.pure a : PassM κ π ν α) :=
  ⟨fun _ _ ↦ ⟨a, rfl⟩, PollReactor.Tandem.pure (Except.ok a)⟩

theorem calmly {x : ReactorM κ π ν α} (h : Tandem memory id fd x) :
    Together memory id fd (Reactor.calmly x) :=
  ⟨fun r _ ↦ ⟨(x r).1, rfl⟩,
    PollReactor.Tandem.bind (f := fun a ↦ Pure.pure (Except.ok a)) h fun _ ↦ .pure _⟩

theorem limited {f : Option Nat → PassM κ π ν α} (h : ∀ limit, Together memory id fd (f limit)) :
    Together memory id fd (MonadState.get >>= fun r ↦ f r.idleLimit) where
  ends r ha := (h r.idleLimit).ends r ha
  tandem := by
    refine ⟨fun r ha ↦ (h r.idleLimit).tandem.onward r ha, fun r₁ r₂ ha₁ ha₂ ht hsync ↦ ?_⟩
    have hrun (r : Reactor κ π ν) :
        (MonadState.get >>= fun r ↦ f r.idleLimit : PassM κ π ν α) r = f r.idleLimit r := by
      rw [pass_bind, pass_get]
      rfl
    rw [hrun, hrun, ← ht.idleLimit] at hsync ⊢
    exact (h r₁.idleLimit).tandem.abreast r₁ r₂ ha₁ ha₂ ht hsync

end Together

theorem withConn_together {α : Type} [Inhabited α] {f : Conn → PassM κ π ν α}
    (hf : ∀ c, id ≠ 0 → (∀ fd', c.fd? = some fd' → fd' = fd) → Together memory id fd (f c)) :
    Together memory id fd (withConn id f) where
  ends r ha := by
    rw [withConn_run]
    cases hc : r.conn? id with
    | none => exact ⟨default, rfl⟩
    | some c => exact (hf c (Nat.pos_iff_ne_zero.1 (conn?_bounds hc).1) (ha.fd?_eq hc)).ends r ha
  tandem := by
    have hrun : withConn id f = (do
        match (← get).conn? id with
        | none => return .ok default
        | some c => f c : ReactorM κ π ν (Except Panic α)) := by
      funext r
      rw [withConn_run, bind_run, get_run]
      cases r.conn? id <;> rfl
    rw [hrun]
    exact onConn_tandem fun c h0 hc ↦ (hf c h0 hc).tandem

theorem transfer_together {α γ : Type} {c : Conn} {act : OsM κ (Mark ν) (Except IoError α × Conn)}
    {f : Except IoError α × Conn → PassM κ π ν γ} (hc : ∀ fd', c.fd? = some fd' → fd' = fd)
    (hact : Os.Tandem id fd act) (hfd : ∀ o, (act o).1.2.fd? = c.fd?)
    (hf : ∀ out, (∀ fd', out.2.fd? = some fd' → fd' = fd) → Together memory id fd (f out)) :
    Together memory id fd (calmly (system act) >>= f) := by
  refine .bind (.calmly (system_tandem hact)) fun r out hout ↦ hf out ?_
  rw [← Except.ok.inj hout]
  exact hfd r.os ▸ hc

theorem detach_tandem : Tandem (κ := κ) (ν := ν) memory id fd (detach id) := by
  refine onConn_tandem fun c h0 hc ↦ .bind (replace_tandem h0 (by rintro _ ⟨⟩)) fun _ ↦ ?_
  cases hs : c.socket with
  | none => exact .pure _
  | some t =>
    have ht (fd' : Fd) (hfd : t.value.fd = some fd') : fd' = fd :=
      hc fd' (by rw [Conn.fd?, hs]; exact hfd)
    refine .bind (system_tandem (Stream.close_tandem ht)) fun s ↦ ?_
    have hrelease (r : Reactor κ π ν) (ha : r.Apart id fd) :
        Passes memory id fd r (release { t with value := (system t.value.close s).1 } r).2 :=
      release_spares _ r ha
    exact .of_untimed (fun r ha ↦ (hrelease r ha).apart) (fun _ ↦ rfl) fun r₁ r₂ ha₁ ha₂ h ↦
      ⟨rfl, (h.left (hrelease r₁ ha₁)).right (hrelease r₂ ha₂)⟩

theorem hastenClose_together : Together (κ := κ) (ν := ν) memory id fd (hastenClose id) := by
  refine withConn_together fun c _ _ ↦ ?_
  split_ifs
  · exact .calmly wake_tandem
  · exact .pure _

section

variable (hP : P.Local memory)

include hP

theorem consult_together {cb : Callback} (hid : cb.id = id) :
    Together (κ := κ) memory id fd (consult (P.heard cb)) := by
  subst hid
  have hends (r : Reactor κ π ν) : (runScript (P.heard cb r.app) r).1.1 = .ok () :=
    (runScript_ends (hP.heard cb r.app) r).1
  have hrun (r : Reactor κ π ν) : consult (P.heard cb) r =
      (.ok (), { (runScript (P.heard cb r.app) r).2 with
        app := (runScript (P.heard cb r.app) r).1.2 }) := by
    have hends := hends r
    rw [consult_run]
    generalize runScript (P.heard cb r.app) r = out at hends ⊢
    rcases out with ⟨⟨result, app⟩, r'⟩
    obtain rfl : result = .ok () := hends
    rfl
  refine ⟨fun r _ ↦ ⟨(), congrArg Prod.fst (hrun r)⟩, fun r ha ↦ ?_, ?_⟩
  · rw [hrun]
    obtain ⟨hk, hp⟩ := runScript_onward (hP.heard cb r.app) r ha
    exact ⟨⟨hk.receiver, hk.sender, hk.conns⟩, hp⟩
  · intro r₁ r₂ ha₁ ha₂ ht hsync
    rw [hrun, hrun] at hsync ⊢
    obtain ⟨happ, ht, he⟩ := runScript_abreast (hP.heard cb r₁.app) (hP.heard cb r₂.app)
      (hP.alike cb _ _ ht.app) ha₁ ha₂ ht hsync
    exact ⟨rfl, ⟨ht.conn, ht.live, ht.idleLimit, happ, ht.os⟩, he⟩

theorem notify_together {cb : Callback} (hid : cb.id = id) :
    Together (κ := κ) memory id fd (notify P cb) :=
  .bind (.calmly (remark_tandem (.callback cb))) fun _ _ _ ↦ consult_together hP hid

theorem finalize_together (why : Teardown) :
    Together (κ := κ) memory id fd (finalize P id why) := by
  refine .bind (.calmly detach_tandem) fun _ _ _ ↦ .bind (.calmly ?_) fun _ _ _ ↦ ?_
  · refine .of_untimed (fun _ ha ↦ ⟨ha.receiver, ha.sender, ha.conns⟩) (fun _ ↦ rfl)
      fun r₁ r₂ _ _ h ↦ ⟨rfl, ⟨h.conn, ?_, h.idleLimit, h.app, h.os⟩⟩
    show id ∈ r₁.live.filter (· ≠ id) ↔ id ∈ r₂.live.filter (· ≠ id)
    simp
  · exact notify_together hP (by cases why <;> rfl)

theorem serveInput_together : Together (κ := κ) memory id fd (serveInput P id) := by
  refine withConn_together fun c h0 hc ↦ ?_
  refine transfer_together hc (Conn.receive_tandem hc) c.receive_fd? fun ⟨result, c'⟩ hc' ↦ ?_
  refine .bind (.calmly (replace_tandem h0 hc')) fun _ _ _ ↦ ?_
  rcases result with e | n | _
  · exact .pure _
  · dsimp only
    split_ifs
    · exact .bind (notify_together hP rfl) fun _ _ _ ↦ .pure _
    · exact .pure _
  · exact .pure _

theorem serveOutput_together : Together (κ := κ) memory id fd (serveOutput P id) := by
  refine withConn_together fun c h0 hc ↦ ?_
  refine transfer_together hc (Conn.transmit_tandem hc) c.transmit_fd? fun ⟨result, c'⟩ hc' ↦ ?_
  refine .bind (.calmly (replace_tandem h0 hc')) fun _ _ _ ↦ ?_
  cases result with
  | error e => exact .pure _
  | ok n =>
    have hrest : Together memory id fd (hastenClose (κ := κ) (π := π) (ν := ν) id) :=
      hastenClose_together
    dsimp only
    split_ifs
    · exact .bind (notify_together hP rfl) fun _ _ _ ↦ .bind hrest fun _ _ _ ↦ .pure _
    · exact .bind hrest fun _ _ _ ↦ .pure _

theorem serveUrgent_together : Together (κ := κ) memory id fd (serveUrgent P id) := by
  refine withConn_together fun c h0 hc ↦ ?_
  refine transfer_together hc (Conn.receiveUrgent_tandem hc) c.receiveUrgent_fd?
    fun ⟨result, c'⟩ hc' ↦ ?_
  refine .bind (.calmly (replace_tandem h0 hc')) fun _ _ _ ↦ ?_
  cases result with
  | error e => exact .pure _
  | ok stored =>
    dsimp only
    split_ifs
    · exact .bind (notify_together hP rfl) fun _ _ _ ↦ .pure _
    · exact .pure _

theorem dispatch_together (event : Event) (interest : Interest) (now : Nat) :
    Together (κ := κ) memory id fd (dispatch P id event interest now) := by
  refine withConn_together fun c h0 hc ↦ ?_
  split_ifs
  · exact .pure _
  · exact serveInput_together hP
  · exact serveOutput_together hP
  · exact serveUrgent_together hP
  · exact .bind (.calmly (replace_tandem h0 hc)) fun _ _ _ ↦ .pure _
  · refine .limited (f := fun limit ↦
      if c.isIdle now limit then pure (some Teardown.timedOut) else pure none) fun limit ↦ ?_
    split_ifs <;> exact .pure _

theorem serve_together {id' : Nat} (hid : id' = id) (event : Event) (interest : Interest)
    (now : Nat) : Together (κ := κ) memory id fd (serve P id' event interest now) := by
  subst hid
  refine .bind (dispatch_together hP event interest now) fun _ why _ ↦ ?_
  cases why with
  | some why => exact finalize_together hP why
  | none =>
    have hcheck : Together (κ := κ) memory id' fd (withConn id' fun c ↦
        if !c.isConnected then finalize P id' .closed else pure ()) := by
      refine withConn_together fun c _ _ ↦ ?_
      split_ifs
      · exact finalize_together hP .closed
      · exact .pure _
    exact hcheck

theorem serve_abreast {x : Watched} {event₁ event₂ : Event} (now : Nat)
    (he : x.id = id → event₁ = event₂) (ha₁ : r₁.Apart id fd) (ha₂ : r₂.Apart id fd)
    (ht : Alike memory id fd r₁ r₂)
    (hsync : x.id = id →
      Synchronous (readingsSince r₁ (serve P x.id event₁ x.interest now r₁).2)
        (readingsSince r₂ (serve P x.id event₂ x.interest now r₂).2)) :
    Alike memory id fd (serve P x.id event₁ x.interest now r₁).2
        (serve P x.id event₂ x.interest now r₂).2 ∧
      (x.id = id → readingsSince r₁ (serve P x.id event₁ x.interest now r₁).2 =
        readingsSince r₂ (serve P x.id event₂ x.interest now r₂).2) := by
  by_cases hx : x.id = id
  · obtain rfl := he hx
    have hserve : Together (κ := κ) memory id fd (serve P x.id event₁ x.interest now) :=
      serve_together hP hx event₁ x.interest now
    obtain ⟨-, ht, heq⟩ := hserve.tandem.abreast r₁ r₂ ha₁ ha₂ ht (hsync hx)
    exact ⟨ht, fun _ ↦ heq⟩
  · obtain ⟨-, hp₁⟩ := serve_spares hx hP event₁ x.interest now r₁ ha₁
    obtain ⟨-, hp₂⟩ := serve_spares hx hP event₂ x.interest now r₂ ha₂
    exact ⟨(ht.left hp₁).right hp₂, fun h ↦ absurd h hx⟩

theorem serve_ends (x : Watched) (event : Event) (now : Nat) (ha : r.Apart id fd) :
    (serve P x.id event x.interest now r).1 = .ok () ∧
      (serve P x.id event x.interest now r).2.Apart id fd := by
  by_cases hx : x.id = id
  · have hserve : Together (κ := κ) memory id fd (serve P x.id event x.interest now) :=
      serve_together hP hx event x.interest now
    obtain ⟨_, h⟩ := hserve.ends r ha
    exact ⟨h, (hserve.tandem.onward r ha).1⟩
  · obtain ⟨⟨_, h⟩, hp⟩ := serve_spares hx hP event x.interest now r ha
    exact ⟨h, hp.apart⟩

end

/-- The readings of the clock that are made while the connection `id` is served. -/
def servedReadings (P : Policy π ν) (id : Nat) (events : List Event) (now : Nat) :
    List Watched → (place : Nat) → Reactor κ π ν → List Nat
  | [], _, _ => []
  | x :: rest, place, r =>
    let out := serve P x.id (eventOf events place) x.interest now r
    (if x.id = id then readingsSince r out.2 else []) ++
      match out.1 with
      | .ok () => servedReadings P id events now rest (place + 1) out.2
      | .error _ => []

theorem serveAll_abreast (hP : P.Local memory) {events₁ events₂ : List Event} {ws : List Watched}
    {place : Nat} (now : Nat) (h : ∀ k x, ws[k]? = some x → x.id = id →
      eventOf events₁ (place + k) = eventOf events₂ (place + k))
    (ha₁ : r₁.Apart id fd) (ha₂ : r₂.Apart id fd) (ht : Alike memory id fd r₁ r₂)
    (hsync : Synchronous (servedReadings P id events₁ now ws place r₁)
      (servedReadings P id events₂ now ws place r₂)) :
    (serveAll P events₁ now ws place r₁).1 = .ok () ∧
      (serveAll P events₂ now ws place r₂).1 = .ok () ∧
      Alike memory id fd (serveAll P events₁ now ws place r₁).2
        (serveAll P events₂ now ws place r₂).2 := by
  induction ws generalizing place r₁ r₂ with
  | nil => exact ⟨rfl, rfl, ht⟩
  | cons x ws ih =>
    have he : x.id = id → eventOf events₁ place = eventOf events₂ place := h 0 x rfl
    have htail (k : Nat) (x' : Watched) (hk : ws[k]? = some x') (hx' : x'.id = id) :
        eventOf events₁ (place + 1 + k) = eventOf events₂ (place + 1 + k) := by
      rw [Nat.add_right_comm]
      exact h (k + 1) x' hk hx'
    obtain ⟨h₁, hk₁⟩ := serve_ends hP x (eventOf events₁ place) now ha₁
    obtain ⟨h₂, hk₂⟩ := serve_ends hP x (eventOf events₂ place) now ha₂
    have hserve := serve_abreast hP now he ha₁ ha₂ ht
    unfold serveAll
    unfold servedReadings at hsync
    rw [pass_bind, pass_bind]
    generalize serve P x.id (eventOf events₁ place) x.interest now r₁ = out₁
      at h₁ hk₁ hserve hsync ⊢
    generalize serve P x.id (eventOf events₂ place) x.interest now r₂ = out₂
      at h₂ hk₂ hserve hsync ⊢
    rcases out₁ with ⟨result₁, r₁'⟩
    rcases out₂ with ⟨result₂, r₂'⟩
    obtain rfl : result₁ = .ok () := h₁
    obtain rfl : result₂ = .ok () := h₂
    by_cases hx : x.id = id
    · simp only [if_pos hx] at hsync
      obtain ⟨ht, heq⟩ := hserve fun _ ↦ hsync.left
      rw [heq hx] at hsync
      exact ih htail hk₁ hk₂ ht hsync.right
    · simp only [if_neg hx, List.nil_append] at hsync
      obtain ⟨ht, -⟩ := hserve fun h ↦ absurd h hx
      exact ih htail hk₁ hk₂ ht hsync

/-- The turn behind a wait, with the system as it is by then. -/
def turnOn (P : Policy π ν) (w : Wait) (k : κ) (reported : List UInt16) (r : Reactor κ π ν) :
    Except Panic Unit × Reactor κ π ν :=
  turn P w (ofReport .posix w.list reported) { r with os.kernel := k }

/-- The steps of a turn in front of the services, the last of which reads the clock. -/
def opening (P : Policy π ν) (events : List Event) : PassM κ π ν Nat := do
  if isReported events listenerToken then
    match (← get).listener with
    | none => pure ()
    | some fd => acceptPeer P fd
  calmly (settleWaker events)
  calmly (system (sys .clock))

theorem turn_opening (P : Policy π ν) (w : Wait) (events : List Event) (r : Reactor κ π ν) :
    turn P w events r =
      andThen (fun now ↦ serveAll P events now w.watched 0) (opening P events r) := by
  unfold turn opening
  by_cases hr : isReported events listenerToken
  · simp only [if_pos hr, pass_bind, pass_get, andThen]
    cases r.listener with
    | none => rfl
    | some listener =>
      simp only [pass_bind]
      rcases acceptPeer P listener r with ⟨_ | _, r'⟩ <;> rfl
  · simp only [if_neg hr, pass_bind]
    rfl

/-- The readings of the clock that the turn behind a wait makes for the connection `id`: the one by
which the turn goes, and those that are made while the connection is served. -/
def turnReadings (P : Policy π ν) (w : Wait) (k : κ) (reported : List UInt16) (id : Nat)
    (r : Reactor κ π ν) : List Nat :=
  let events := ofReport .posix w.list reported
  let out := opening P events { r with os.kernel := k }
  match out.1 with
  | .ok now => now :: servedReadings P id events now w.watched 0 out.2
  | .error _ => []

theorem turnReadings_eq {w : Wait} {k : κ} {reported : List UInt16} {now : Nat}
    (h : opening P (ofReport .posix w.list reported) { r with os.kernel := k } = (.ok now, r')) :
    turnReadings P w k reported id r =
      now :: servedReadings P id (ofReport .posix w.list reported) now w.watched 0 r' := by
  simp only [turnReadings, h]

omit [Kernel κ] in
theorem Ledger.apart_of (h : Ledger r none) (hfd : r.fd? id = some fd) :
    r.Apart id fd ∧ IsOpen fd r.os.journal ∧ r.listener ≠ some fd := by
  have hown {id : Nat} {fd : Fd} (hfd : r.fd? id = some fd) :
      r.owned none (.conn id) = some fd := by
    rwa [owned_conn, ← fd?_eq]
  have hother (o : Owner) (ho : o ≠ .conn id) : r.owned none o ≠ some fd :=
    fun he ↦ ho (h.apart o (.conn id) fd he (hown hfd))
  refine ⟨⟨fun he ↦ ?_, fun he ↦ ?_, fun id' fd' hfd' ↦ ⟨?_, ?_⟩⟩, h.opened _ _ (hown hfd), ?_⟩
  · exact hother .receiver nofun (congrArg some he)
  · exact hother .sender nofun (congrArg some he)
  · rintro rfl
    exact Owner.conn.inj (h.apart _ _ _ (hown hfd') (hown hfd))
  · rintro rfl
    exact Option.some.inj (hfd'.symm.trans hfd)
  · exact hother .listener nofun

theorem opening_passes (hP : P.Local memory) {events : List Event} (hh : Holding r none)
    (hl : Ledger r none) (hfd : r.fd? id = some fd)
    (hf : Fresh (opening P events r).2.os.journal) :
    (∃ now, (opening P events r).1 = .ok now) ∧
      Passes memory id fd r (opening P events r).2 := by
  obtain ⟨ha, ho, hlistener⟩ := hl.apart_of hfd
  obtain ⟨c, hc, -⟩ := fd?_eq_some hfd
  have hid : (r.conn? id).isSome := by rw [hc]; rfl
  have hclock : Within (Spares (π := π) memory id fd) (system (sys .clock : OsM κ (Mark ν) _)) :=
    system_spares (Os.sys_within List.not_mem_nil)
  have hrest {r' : Reactor κ π ν} (hp : Passes memory id fd r r') :
      Passes memory id fd r (system (sys .clock) (settleWaker events r').2).2 :=
    trans_of (Spares memory id fd) (fun _ ↦ hp)
      (trans_of (Spares memory id fd) (settleWaker_spares events r') (hclock _)) ha
  unfold opening at hf ⊢
  -- A listening socket that is not asked, or is not there, leaves the turn to the waker.
  by_cases hr : isReported events listenerToken
  · simp only [if_pos hr, pass_bind, pass_get, andThen] at hf ⊢
    cases hlist : r.listener with
    | none => exact ⟨⟨_, rfl⟩, hrest (refl_of (Spares memory id fd) r ha)⟩
    | some listener =>
      simp only [hlist, pass_bind] at hf ⊢
      have hne : listener ≠ fd := fun he ↦ hlistener (hlist.trans (congrArg some he))
      have haccept : _ → (acceptPeer P listener r).1 = .ok () ∧ _ :=
        acceptPeer_passes ha hne ho hP hid hh
      generalize acceptPeer P listener r = out at haccept hf ⊢
      rcases out with ⟨_ | _, r'⟩
      · obtain ⟨hok, -⟩ := haccept hf
        cases hok
      · have hgrows : Journal.Adds (fun _ ↦ True) r'.os.journal _ :=
          ((settleWaker_still events r').grows.trans (clock_still _).grows).journal
        obtain ⟨-, hp⟩ := haccept (hgrows.fresh hf)
        exact ⟨⟨_, rfl⟩, hrest hp⟩
  · simp only [if_neg hr]
    exact ⟨⟨_, rfl⟩, hrest (refl_of (Spares memory id fd) r ha)⟩

theorem turnOn_alike (hP : P.Local memory) {w : Wait} {k₁ k₂ : κ}
    {reported₁ reported₂ : List UInt16} (hh : Holding r none) (hl : Ledger r none)
    (hr : w.Routes r) (hfd : r.fd? id = some fd)
    (hk : Agree fd k₁ k₂) (hword : w.list.word reported₁ fd = w.list.word reported₂ fd)
    (hsync : Synchronous (turnReadings P w k₁ reported₁ id r) (turnReadings P w k₂ reported₂ id r))
    (hf₁ : Fresh (turnOn P w k₁ reported₁ r).2.os.journal)
    (hf₂ : Fresh (turnOn P w k₂ reported₂ r).2.os.journal) :
    ∃ r₁ r₂, turnOn P w k₁ reported₁ r = (.ok (), r₁) ∧
      turnOn P w k₂ reported₂ r = (.ok (), r₂) ∧ r₁.Alike memory id fd r₂ := by
  obtain ⟨ha, -, -⟩ := hl.apart_of hfd
  have hstart : Alike memory id fd { r with os.kernel := k₁ } { r with os.kernel := k₂ } :=
    ⟨rfl, Iff.rfl, rfl, rfl, ⟨hk, rfl⟩⟩
  have hevent (k : Nat) (x : Watched) (hx : w.watched[k]? = some x) (hid : x.id = id) :
      eventOf (ofReport .posix w.list reported₁) (0 + k) =
        eventOf (ofReport .posix w.list reported₂) (0 + k) := by
    obtain ⟨fd', hfd', -, he⟩ := hr.listed k x hx
    obtain rfl : fd' = fd := Option.some.inj ((hid ▸ hfd').symm.trans hfd)
    rw [Nat.zero_add, he, he, hword]
  have hopen (k : κ) (events : List Event)
      (hf : Fresh (turn P w events { r with os.kernel := k }).2.os.journal) :
      (∃ now, (opening P events { r with os.kernel := k }).1 = .ok now) ∧
        Passes memory id fd { r with os.kernel := k }
          (opening P events { r with os.kernel := k }).2 := by
    refine opening_passes hP hh.os ⟨hl.opened, hl.apart⟩ hfd ?_
    rw [turn_opening] at hf
    generalize opening P events { r with os.kernel := k } = out at hf ⊢
    rcases out with ⟨_ | now, r'⟩
    · exact hf
    · exact (grows_of_leads (serves_leads (P := P) events now w.watched 0 r')).fresh hf
  obtain ⟨⟨now₁, hn₁⟩, hp₁⟩ := hopen k₁ _ hf₁
  obtain ⟨⟨now₂, hn₂⟩, hp₂⟩ := hopen k₂ _ hf₂
  have he₁ : opening P _ { r with os.kernel := k₁ } = (.ok now₁, _) := Prod.ext hn₁ rfl
  have he₂ : opening P _ { r with os.kernel := k₂ } = (.ok now₂, _) := Prod.ext hn₂ rfl
  rw [turnReadings_eq he₁, turnReadings_eq he₂] at hsync
  obtain rfl : now₁ = now₂ := hsync.head
  have hserved := Synchronous.right (l := [now₁]) hsync
  obtain ⟨h₁, h₂, ht⟩ := serveAll_abreast hP now₁ hevent hp₁.apart hp₂.apart
    ((hstart.left hp₁).right hp₂) hserved
  unfold turnOn
  rw [turn_opening, turn_opening, he₁, he₂]
  exact ⟨_, _, Prod.ext h₁ rfl, Prod.ext h₂ rfl, ht⟩

end Reactor

namespace Moment

open Reactor

variable {outside : Phase π ν → Prop} {b : Builder} {m : Moment κ π ν} {P : Policy π ν}
  {memory : Nat → π → β} {w : Wait} {id : Nat}

/-- What happens to one connection in a turn, and what the application remembers of it, depends on
its own descriptor and on the readings of the clock that are made for it. Whatever the system
reports of the others and answers to them, the callbacks with the connection, the calls of the
application on it and the system calls on its descriptor are the same, in the same order and with
the same answers, and so is what becomes of it. -/
theorem Occurs.isolated (h : Occurs P outside b m) (hP : P.Local memory)
    (hw : m.phase = .waiting w) (hid : id ∈ m.reactor.live) :
    ∃ fd, m.reactor.fd? id = some fd ∧ ∀ (k₁ k₂ : κ) (reported₁ reported₂ : List UInt16),
      Agree fd k₁ k₂ → w.list.word reported₁ fd = w.list.word reported₂ fd →
      Synchronous (turnReadings P w k₁ reported₁ id m.reactor)
        (turnReadings P w k₂ reported₂ id m.reactor) →
      Fresh (turnOn P w k₁ reported₁ m.reactor).2.os.journal →
      Fresh (turnOn P w k₂ reported₂ m.reactor).2.os.journal →
      ∃ r₁ r₂, turnOn P w k₁ reported₁ m.reactor = (.ok (), r₁) ∧
        turnOn P w k₂ reported₂ m.reactor = (.ok (), r₂) ∧ r₁.Alike memory id fd r₂ := by
  have hsound := h.agrees.sound
  rw [hw] at hsound
  obtain ⟨c, t, fd, hc, ht, hfd, -⟩ := hsound.holding.live hid
  have hfd : m.reactor.fd? id = some fd := by
    rw [Reactor.fd?, hc, Option.bind_some, Conn.fd?, ht]
    exact hfd
  refine ⟨fd, hfd, fun k₁ k₂ reported₁ reported₂ hk hword hsync hf₁ hf₂ ↦ ?_⟩
  have hf : Fresh m.journal := (grows_of_leads (turn_leads (P := P) w
    (ofReport .posix w.list reported₁) { m.reactor with os.kernel := k₁ })).fresh hf₁
  exact turnOn_alike hP hsound.holding (hsound.ledger hf) (h.routes hf hw) hfd hk hword hsync
    hf₁ hf₂

end Moment

/-- A small system. Some peers have sent an urgent byte and some have reset their connections; no
peer sends anything else. -/
structure Lobby where
  next : Fd
  urgent : List Fd
  reset : List Fd
  ticks : List Nat

namespace Lobby

def door : Fd := 3

def answer (k : Lobby) : (c : SysCall) → c.Answer × Lobby
  | .socket _ => (.ok k.next, { k with next := k.next + 1 })
  | .pipe => (.ok (k.next, k.next + 1), { k with next := k.next + 2 })
  | .statusFlags _ => (.ok 0, k)
  | .setStatusFlags .. => (.ok (), k)
  | .descriptorFlags _ => (.ok 0, k)
  | .setDescriptorFlags .. => (.ok (), k)
  | .setNonblocking _ => (.ok (), k)
  | .setOption .. => (.ok (), k)
  | .bind .. => (.ok (), k)
  | .listen .. => (.ok (), k)
  | .localName _ => (.ok [2, 0], k)
  | .accept fd =>
    if fd = door then (.ok (k.next, [2, 0]), { k with next := k.next + 1 })
    else (.error .einval, k)
  | .read .. => (.ok 0, k)
  | .write _ bs => (.ok bs.length, k)
  | .recv .. => (.error .eagain, k)
  | .recvUrgent fd =>
    if fd ∈ k.reset then (.error .econnreset, k)
    else if fd ∈ k.urgent then (.ok (some 7), { k with urgent := k.urgent.filter (· ≠ fd) })
    else (.error .eagain, k)
  | .send _ bs => (.ok ⟨bs.length, .refl⟩, k)
  | .shutdown _ => (.ok (), k)
  | .close _ => (.ok (), k)
  | .clock => (k.ticks.headD 0, { k with ticks := k.ticks.tail })

instance : Kernel Lobby where
  answer c k := k.answer c
  patience _ := 0
  recv_interrupted h he := by
    cases h
    cases he
  send_interrupted h _ := by cases h
  read_found h hn := by
    cases h
    exact absurd rfl hn

variable {fd : Fd} {k k' : Lobby} {c : SysCall}

structure Like (fd : Fd) (k k' : Lobby) : Prop where
  urgent : fd ∈ k.urgent ↔ fd ∈ k'.urgent
  reset : fd ∈ k.reset ↔ fd ∈ k'.reset

theorem answer_like (hc : fd ∉ c.names) (k : Lobby) : Like fd (k.answer c).2 k := by
  cases c with
  | accept fd' =>
    simp only [answer]
    split_ifs <;> exact ⟨Iff.rfl, Iff.rfl⟩
  | recvUrgent fd' =>
    have hne : fd ≠ fd' := mt List.mem_singleton.2 hc
    simp only [answer]
    split_ifs
    · exact ⟨Iff.rfl, Iff.rfl⟩
    · exact ⟨by simp [hne], Iff.rfl⟩
    · exact ⟨Iff.rfl, Iff.rfl⟩
  | _ => exact ⟨Iff.rfl, Iff.rfl⟩

theorem Like.same (h : Like fd k k') (hdoor : fd ≠ door) (hc : fd ∈ c.names) :
    (k.answer c).1 = (k'.answer c).1 ∧ Like fd (k.answer c).2 (k'.answer c).2 := by
  cases c with
  | accept fd' =>
    obtain rfl := List.mem_singleton.1 hc
    simp only [answer, if_neg hdoor]
    exact ⟨trivial, h⟩
  | recvUrgent fd' =>
    obtain rfl := List.mem_singleton.1 hc
    simp only [answer, h.reset, h.urgent]
    split_ifs
    · exact ⟨rfl, h⟩
    · exact ⟨rfl, by simp, h.reset⟩
    · exact ⟨rfl, h⟩
  | socket => cases hc
  | pipe => cases hc
  | clock => cases hc
  | _ => exact ⟨rfl, h⟩

theorem Like.agree (h : Like fd k k') (hdoor : fd ≠ door) : Agree fd k k' := by
  refine ⟨Like fd, ⟨fun h hc ↦ h.same hdoor hc, fun h hc ↦ ?_, fun h hc ↦ ?_⟩, h⟩
  · exact ⟨(answer_like hc _).urgent.trans h.urgent, (answer_like hc _).reset.trans h.reset⟩
  · exact ⟨h.urgent.trans (answer_like hc _).urgent.symm,
      h.reset.trans (answer_like hc _).reset.symm⟩

open Reactor

def builder : Builder := { Visit.builder with maxConnections := 2 }

def built : Reactor Lobby Unit Unit where
  os := (Sockets.openPipe ⟨⟨10, [], [], []⟩, []⟩).2
  app := ()
  waker := ⟨10, 11, false⟩
  pool := .ofList 0 [.empty, .empty]
  listener := none
  idleLimit := none
  defaults := builder.defaults
  conns := #[]
  live := []
  cancelled := false

def started : Reactor Lobby Unit Unit := (adopt door built).2

def met : Moment Lobby Unit Unit :=
  (Moment.tasked .standard)^[8] (Moment.woken id [0, 1, 0]
    ((Moment.tasked .standard)^[8] (Moment.woken id [0, 1]
      ⟨(start .standard started).2, .ofProgress (start .standard started).1⟩)))

theorem built_not_owns : ¬ built.Owns door := by
  rintro (h | h | h | ⟨id, c, hc, -⟩)
  · cases h
  · cases h
  · cases h
  · unfold Reactor.conn? at hc
    split at hc <;> cases hc

theorem met_occurs (outside : Phase Unit Unit → Prop) :
    Moment.Occurs .standard outside builder met := by
  have hstarted : Moment.Occurs .standard outside builder ⟨started, .idle⟩ :=
    ⟨(), ⟨⟨10, [], [], []⟩, []⟩, built, built.os, rfl, rfl,
      .single (.step (.setUp (.adopt door (.inl built_not_owns))))⟩
  exact ((((hstarted.act (.start started)).woken id [0, 1]).tasks 8).woken id [0, 1, 0]).tasks 8

-- From here on, only the kernel is to compute how they were met.
attribute [irreducible] met

theorem met_waits : met.phase = .waiting met.reactor.prepare := by
  apply Phase.eq_of_waits
  decide +kernel

def turned (k : Lobby) : Except Panic Unit × Reactor Lobby Unit Unit :=
  turnOn .standard met.reactor.prepare k [0, 0, 2, 2] met.reactor

/-- Both peers have sent an urgent byte. The clock is read once for each, and moves. -/
def bustling : Lobby := ⟨14, [12, 13], [], [5, 6, 7]⟩

/-- The first peer has reset its connection, for which the clock is not read. -/
def broken : Lobby := ⟨14, [13], [12], [5, 7]⟩

theorem met_isolated : Moment.Occurs .standard (fun _ ↦ True) builder met ∧
    (Policy.standard (ν := Unit)).Local (fun _ _ ↦ ()) ∧
    met.phase = .waiting met.reactor.prepare ∧ 2 ∈ met.reactor.live ∧
    ∃ r₁ r₂, turned bustling = (.ok (), r₁) ∧ turned broken = (.ok (), r₂) ∧
      r₁.live = [1, 2] ∧ r₂.live = [2] ∧ r₁.Alike (fun _ _ ↦ ()) 2 13 r₂ := by
  have hocc := met_occurs fun _ ↦ True
  have hlive : 2 ∈ met.reactor.live := by decide +kernel
  obtain ⟨fd, hfd, h⟩ := hocc.isolated Policy.standard_local met_waits hlive
  have hfd' : met.reactor.fd? 2 = some 13 := by decide +kernel
  obtain rfl : fd = 13 := Option.some.inj (hfd.symm.trans hfd')
  have hk : Agree 13 bustling broken := Like.agree ⟨by decide, by decide⟩ (by decide)
  have hsync : Synchronous
      (turnReadings .standard met.reactor.prepare bustling [0, 0, 2, 2] 2 met.reactor)
      (turnReadings .standard met.reactor.prepare broken [0, 0, 2, 2] 2 met.reactor) := by
    decide +kernel
  have hf₁ : Fresh (turned bustling).2.os.journal := by decide +kernel
  have hf₂ : Fresh (turned broken).2.os.journal := by decide +kernel
  have hlive₁ : (turned bustling).2.live = [1, 2] := by decide +kernel
  have hlive₂ : (turned broken).2.live = [2] := by decide +kernel
  obtain ⟨r₁, r₂, h₁, h₂, ha⟩ := h _ _ _ _ hk rfl hsync hf₁ hf₂
  have h₁ : turned bustling = (.ok (), r₁) := h₁
  have h₂ : turned broken = (.ok (), r₂) := h₂
  rw [h₁] at hlive₁
  rw [h₂] at hlive₂
  exact ⟨hocc, Policy.standard_local, met_waits, hlive, r₁, r₂, h₁, h₂, hlive₁, hlive₂, ha⟩

end Lobby

end PollReactor
