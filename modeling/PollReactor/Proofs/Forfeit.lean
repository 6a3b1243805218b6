import PollReactor.Proofs.Agreement

namespace PollReactor

open Journal (Adds IsOpen Fresh)

variable {κ π ν : Type}

namespace Entry

def asks? : Entry (Mark ν) → Option Bool
  | .remark (.ready _) => some true
  | .remark (.callback _) => some false
  | _ => none

def isCalm (e : Entry (Mark ν)) : Bool := e.asks?.isNone && !e.raises

theorem IsChore.calm {e : Entry (Mark ν)} (h : e.IsChore) : e.isCalm := by
  cases h with
  | call => rfl
  | adopted => rfl

theorem OfRequest.calm {sender : Fd} {e : Entry (Mark ν)} (h : e.OfRequest sender) :
    e.isCalm := by
  cases h with
  | effect h => exact h.chore.calm
  | _ => rfl

theorem OfService.calm {fd? : Option Fd} {sends : Bool} {e : Entry (Mark ν)}
    (h : e.OfService fd? sends) : e.isCalm := by
  rcases h.input_or_output with h | h <;> cases h <;> rfl

end Entry

namespace Journal

/-- The callback that began last is the question whether to keep a peer. -/
def courts : Journal ν → Bool
  | [] => false
  | e :: j => e.asks?.getD (courts j)

/-- How often the application raised when it was asked whether to keep a peer. -/
def forfeits : Journal ν → Nat
  | [] => 0
  | e :: j => forfeits j + if e.raises ∧ courts j then 1 else 0

theorem courts_forfeits_cons {e : Entry (Mark ν)} (h : e.isCalm) (j : Journal ν) :
    courts (e :: j) = courts j ∧ forfeits (e :: j) = forfeits j := by
  simp only [Entry.isCalm, Bool.and_eq_true, Option.isNone_iff_eq_none, Bool.not_eq_true'] at h
  simp [courts, forfeits, h.1, h.2]

theorem Adds.courts_forfeits {j j' : Journal ν} (h : Adds (·.isCalm) j j') :
    courts j' = courts j ∧ forfeits j' = forfeits j := by
  obtain ⟨new, rfl, hn⟩ := h
  induction new with
  | nil => exact ⟨rfl, rfl⟩
  | cons e new ih =>
    obtain ⟨hc, hf⟩ := courts_forfeits_cons (hn e List.mem_cons_self) (new ++ j)
    obtain ⟨hc', hf'⟩ := ih fun e he ↦ hn e (List.mem_cons_of_mem _ he)
    exact ⟨hc.trans hc', hf.trans hf'⟩

end Journal

open Journal (courts forfeits)

def Task.asks? : Task π ν → Option Bool
  | meet .. => some true
  | hear _ => some false
  | _ => none

def Phase.Attuned (j : Journal ν) : Phase π ν → Prop
  | busy first rest => (∀ b ∈ first.asks?, j.courts = b) ∧ ∀ t ∈ rest, t.asks? = none
  | _ => True

namespace Reactor

variable [Kernel κ] {P : Policy π ν} {r r' : Reactor κ π ν} {hand hand' : Option (Token Stream)}

/-- The sockets that are parked, in use, or in hand for an admission. -/
def accounted (r : Reactor κ π ν) (hand : Option (Token Stream)) : Nat :=
  r.pool.free.length + r.live.length + hand.toList.length

/-- What is accounted for, and what was forfeited. -/
def tally (r : Reactor κ π ν) (hand : Option (Token Stream)) : Nat :=
  r.accounted hand + forfeits r.os.journal

omit [Kernel κ] in
theorem Still.tally {C : Entry (Mark ν) → Prop} (h : Still C r r') (hC : ∀ e, C e → e.isCalm)
    (hand : Option (Token Stream)) :
    courts r'.os.journal = courts r.os.journal ∧ r'.tally hand = r.tally hand := by
  obtain ⟨hc, hf⟩ := (h.journal.mono hC).courts_forfeits
  refine ⟨hc, ?_⟩
  rw [Reactor.tally, Reactor.tally, hf, accounted, accounted, h.pool, h.live]

omit [Kernel κ] in
theorem Relisten.tally (h : Relisten r r') (hand : Option (Token Stream)) :
    courts r'.os.journal = courts r.os.journal ∧ r'.tally hand = r.tally hand := by
  obtain ⟨os, listener, rfl, hj⟩ := h
  obtain ⟨hc, hf⟩ := (hj.mono fun _ he ↦ he.chore.calm).courts_forfeits
  refine ⟨hc, ?_⟩
  rw [Reactor.tally, Reactor.tally, hf]
  rfl

omit [Kernel κ] in
theorem remark_tally {m : Mark ν} (hm : (Entry.remark m).raises = false) (r : Reactor κ π ν) :
    (remark m r).2.tally hand = r.tally hand := by
  show r.accounted hand + forfeits (.remark m :: r.os.journal) = r.tally hand
  rw [forfeits, hm, if_neg (by simp)]
  rfl

def Next.Attuned (j : Journal ν) : Next π ν → Prop
  | .go ts => (∀ t ∈ ts.head?, ∀ b ∈ t.asks?, j.courts = b) ∧ ∀ t ∈ ts.tail, t.asks? = none
  | .only ts => ∀ t ∈ ts, t.asks? = none
  | .wait _ => True

theorem Next.Attuned.phase {j : Journal ν} {next : Next π ν} {rest : List (Task π ν)}
    (h : Next.Attuned j next) (hr : ∀ t ∈ rest, t.asks? = none) :
    (next.phase rest).Attuned j := by
  have hquiet {ts : List (Task π ν)} (hts : ∀ t ∈ ts, t.asks? = none) :
      (Phase.ofTasks ts).Attuned j := by
    cases ts with
    | nil => trivial
    | cons first ts =>
      refine ⟨fun b hb ↦ ?_, fun t ht ↦ hts t (List.mem_cons_of_mem _ ht)⟩
      rw [hts first List.mem_cons_self] at hb
      cases hb
  cases next with
  | go ts =>
    cases ts with
    | nil => exact hquiet hr
    | cons first ts =>
      refine ⟨h.1 first rfl, ?_⟩
      intro t ht
      rcases List.mem_append.1 ht with ht | ht
      · exact h.2 t ht
      · exact hr t ht
  | only ts => exact hquiet h
  | wait w => trivial

omit [Kernel κ] in
theorem Next.attuned_go {j : Journal ν} {ts : List (Task π ν)} (h : ∀ t ∈ ts, t.asks? = none) :
    Next.Attuned j (.go ts) := by
  refine ⟨fun t ht b hb ↦ ?_, fun t ht ↦ h t (List.mem_of_mem_tail ht)⟩
  rw [h t (List.mem_of_mem_head? ht)] at hb
  cases hb

/-- A task leaves what is accounted for and forfeited as it was, and the journal in tune with what
follows. -/
structure Settles (r : Reactor κ π ν) (hand : Option (Token Stream))
    (out : Reactor κ π ν × Next π ν) : Prop where
  tally : out.1.tally (Next.token? out.2) = r.tally hand
  attuned : Next.Attuned out.1.os.journal out.2

omit [Kernel κ] in
theorem tally_go {ts : List (Task π ν)} (h : ∀ t ∈ ts, t.token? = none) (r : Reactor κ π ν) :
    r.tally (Next.token? (.go ts)) = r.tally none := by
  cases ts with
  | nil => rfl
  | cons t ts => exact congrArg _ (h t List.mem_cons_self)

theorem welcome_settles (h : Holding r none) (listener : Fd) :
    Settles r none (welcome P listener r) := by
  obtain ⟨os, he, hy⟩ | ⟨slot, free, os, client, peer, hf, hs, hy, he⟩ :=
    welcome_spec (P := P) h listener
  · obtain ⟨-, hj⟩ := (hy.1.mono fun _ he ↦ (Entry.chore_of_isSetup he).calm).courts_forfeits
    rw [he]
    exact ⟨congrArg (r.accounted none + ·) hj, Next.attuned_go (List.forall_mem_nil _)⟩
  · obtain ⟨-, hj⟩ := (hy.1.mono fun _ he ↦ (Entry.chore_of_isSetup he).calm).courts_forfeits
    rw [he]
    refine ⟨?_, ?_, List.forall_mem_nil _⟩
    · refine (remark_tally rfl { r with os, pool := r.pool.without slot free }).trans ?_
      simp only [tally, accounted, hj, hf, Pool.without, Next.token?, Task.token?,
        Option.toList_some, Option.toList_none, List.length_cons, List.length_nil]
      omega
    · rintro t ⟨⟩ b ⟨⟩
      rfl

omit [Kernel κ] in
theorem tally_cons {e : Entry (Mark ν)} {k : κ} {pool : Pool Stream} {live : List Nat}
    (he : e.isCalm) (hn : pool.free.length + live.length + hand'.toList.length =
      r.pool.free.length + r.live.length + hand.toList.length) :
    tally { r with os := ⟨k, e :: r.os.journal⟩, pool, live } hand' = r.tally hand := by
  obtain ⟨-, hf⟩ := Journal.courts_forfeits_cons he r.os.journal
  rw [tally, tally, accounted, accounted, hn, hf]

theorem raised_tally {t : Token Stream} {fd : Fd} (hfd : t.value.fd = some fd)
    (hc : courts r.os.journal = true) (peer : Net.SocketAddr) (p : Panic) :
    (decide t peer r (.error p)).1.tally none = r.tally (some t) := by
  have he : (decide t peer r (.error p)).1 =
      { r with os := (Os.call (.close fd) (remark (.raised p) r).2.os).2 } := by
    show (system t.value.close (remark (.raised p) r).2).2 = _
    rw [system_close hfd]
    rfl
  rw [he]
  have hj : forfeits (.remark (.raised p) :: r.os.journal) = forfeits r.os.journal + 1 := by
    rw [forfeits, hc]
    rfl
  refine Eq.trans (b := (remark (.raised p) r).2.tally none)
    (tally_cons (r := (remark (.raised p) r).2) rfl rfl) ?_
  show r.accounted none + forfeits (.remark (.raised p) :: r.os.journal) = _
  rw [hj, tally, accounted, accounted, Option.toList_some, Option.toList_none, List.length_nil,
    List.length_singleton]
  omega

theorem decide_settles {t : Token Stream} (h : Holding r (some t))
    (hc : courts r.os.journal = true) (peer : Net.SocketAddr)
    (result : Except Panic (Option Draft)) :
    Settles r (some t) (decide t peer r result) := by
  obtain ⟨fd, hfd⟩ := h.hand_fd
  rcases result with p | _ | d
  · exact ⟨raised_tally hfd hc peer p, List.forall_mem_nil _⟩
  · refine ⟨?_, Next.attuned_go (List.forall_mem_nil _)⟩
    obtain ⟨hpool, hs, -⟩ := h.out .hand t.place rfl
    show (closeAndRelease t r).2.tally none = _
    rw [closeAndRelease_run hfd, Pool.release_eq (t := { t with value := .empty }) hpool hs]
    refine tally_cons rfl ?_
    simp only [Pool.parked, Option.toList_some, Option.toList_none, List.length_cons,
      List.length_nil]
    omega
  · refine ⟨?_, Next.attuned_go (List.forall_mem_nil _)⟩
    obtain ⟨now, he⟩ := enroll_run t peer d r
    show (enroll t peer d r).2.tally none = _
    rw [he]
    have hj : Adds (·.isCalm) r.os.journal (enrolled t peer d now r).os.journal :=
      Adds.cons (C := (·.isCalm)) (.single (C := (·.isCalm)) rfl) rfl
    rw [tally, tally, hj.courts_forfeits.2, accounted, accounted]
    simp only [enrolled, List.length_append, List.length_singleton, Option.toList_some,
      Option.toList_none, List.length_nil]
    omega

theorem part_tally (h : Holding r hand) (id : Nat) : (part id r).tally hand = r.tally hand := by
  by_cases hid : id ∈ r.live
  · obtain ⟨c, t, fd, hc, ht, hfd, hp⟩ := h.live hid
    obtain ⟨hpool, hs, -⟩ := h.out (.conn id) t.place hp
    rw [part_of_some hc ht hfd, Pool.release_eq (t := { t with value := .empty }) hpool hs]
    refine tally_cons (r := r.setConn id { c with socket := none }) rfl ?_
    have hlen := length_filter_ne h.nodup hid
    show (t.slot :: r.pool.free).length + (r.live.filter (· ≠ id)).length + hand.toList.length =
      r.pool.free.length + r.live.length + hand.toList.length
    simp only [List.length_cons]
    omega
  · rw [part_of_not_live h hid]

theorem afterService_asks (id : Nat) (sends : Bool) :
    ∀ t ∈ afterService (π := π) (ν := ν) id sends, t.asks? = none := by
  cases sends <;> simp [afterService, Task.asks?]

omit [Kernel κ] in
theorem tell_settles (cb : Callback) {ts : List (Task π ν)} (h : ∀ t ∈ ts, t.asks? = none)
    (hr : r'.tally none = r.tally none) :
    Settles r none ((tell P cb ts r').1, .go (tell P cb ts r').2) := by
  refine ⟨?_, ?_, h⟩
  · exact (remark_tally (m := .callback cb) rfl r').trans hr
  · rintro t ⟨⟩ b ⟨⟩
    rfl

theorem attend_settles (w : Watched) (event : Event) (now : Nat) (r : Reactor κ π ν) :
    Settles r none ((attend P w event now r).1, .go (attend P w event now r).2) := by
  cases hc : r.conn? w.id with
  | none =>
    rw [attend_of_none hc]
    exact ⟨rfl, Next.attuned_go (afterService_asks w.id false)⟩
  | some c =>
    have ha := attend_attended (P := P) hc event now
    have hs {sends : Bool} {r' : Reactor κ π ν} (hs : Service r w.id c sends r') :
        r'.tally none = r.tally none :=
      ((hs.still hc).tally (fun _ he ↦ he.calm) none).2
    generalize attend P w event now r = out at ha ⊢
    cases ha with
    | ended h' => exact ⟨hs h', Next.attuned_go (by simp [Task.asks?])⟩
    | @silent sends r' h' =>
      refine ⟨?_, Next.attuned_go (afterService_asks w.id sends)⟩
      rw [← hs h']
      cases sends <;> rfl
    | told h' _ cb => exact tell_settles cb (afterService_asks _ _) (hs h')

omit [Kernel κ] in
theorem Still.settles {C : Entry (Mark ν) → Prop} (h : Still C r r') (first : Task π ν)
    (hC : ∀ e, C e → e.isCalm) {next : Task π ν} (ha : ∀ b ∈ first.asks?, courts r.os.journal = b)
    (ht : next.token? = first.token?) (hq : next.asks? = first.asks?) :
    Settles r first.token? (r', .go [next]) := by
  obtain ⟨hc, htally⟩ := h.tally hC first.token?
  refine ⟨?_, ?_, List.forall_mem_nil _⟩
  · rw [← htally]
    exact congrArg _ ht
  · rintro t ⟨⟩ b hb
    rw [hq] at hb
    exact hc.trans (ha b hb)

omit [Kernel κ] in
theorem Still.settles_go {C : Entry (Mark ν) → Prop} (h : Still C r r')
    (hC : ∀ e, C e → e.isCalm) {ts : List (Task π ν)} (ht : ∀ t ∈ ts, t.token? = none)
    (hq : ∀ t ∈ ts, t.asks? = none) : Settles r none (r', .go ts) :=
  ⟨(tally_go ht r').trans (h.tally hC none).2, Next.attuned_go hq⟩

theorem advance_settles (first : Task π ν) (h : Holding r first.token?)
    (ha : ∀ b ∈ first.asks?, courts r.os.journal = b) :
    Settles r first.token? (advance P first r) := by
  have hnone : ∀ e : Entry (Mark ν), False → e.isCalm := fun _ h ↦ h.elim
  have hsame {next : Next π ν} (hn : Next.token? next = none)
      (hq : Next.Attuned r.os.journal next) : Settles r none (r, next) :=
    ⟨congrArg _ hn, hq⟩
  cases first with
  | accept listener => exact welcome_settles h listener
  | meet t peer script =>
    cases script with
    | done out =>
      have hs := decide_settles (r := { r with app := out.2 })
        (h.still (Still.app (C := fun _ ↦ False) r out.2)) (ha true rfl) peer out.1
      exact ⟨hs.tally, hs.attuned⟩
    | ask q next =>
      exact (request_still q r).settles (.meet t peer (.ask q next)) (fun _ he ↦ he.calm) ha
        rfl rfl
    | say v next =>
      exact (Still.remark (C := fun e ↦ e = .remark (.said v)) r rfl).settles
        (.meet t peer (.say v next)) (fun _ he ↦ he ▸ rfl) ha rfl rfl
  | settle events =>
    exact (settleWaker_still events r).settles_go (fun _ he ↦ he.chore.calm) (List.forall_mem_nil _)
      (List.forall_mem_nil _)
  | serveAll events watched =>
    have hserve {t : Task π ν} {now : Nat} (ht : t ∈ serves events now watched 0) :
        t.token? = none ∧ t.asks? = none := by
      obtain ⟨w, event, rfl⟩ := mem_serves ht
      exact ⟨rfl, rfl⟩
    exact (clock_still r).settles_go (fun _ he ↦ he.calm) (fun t ht ↦ (hserve ht).1)
      (fun t ht ↦ (hserve ht).2)
  | serve w event now => exact attend_settles w event now r
  | hear script =>
    cases script with
    | done out =>
      rcases out with ⟨p | _, app⟩
      · have hc : courts r.os.journal = false := ha false rfl
        refine ⟨?_, List.forall_mem_nil _⟩
        show r.accounted none + forfeits (.remark (.raised p) :: r.os.journal) = _
        rw [forfeits, hc]
        rfl
      · exact (Still.app r app).settles_go hnone (List.forall_mem_nil _) (List.forall_mem_nil _)
    | ask q next =>
      exact (request_still q r).settles (.hear (.ask q next)) (fun _ he ↦ he.calm) ha rfl rfl
    | say v next =>
      exact (Still.remark (C := fun e ↦ e = .remark (.said v)) r rfl).settles
        (.hear (.say v next)) (fun _ he ↦ he ▸ rfl) ha rfl rfl
  | hasten id =>
    simp only [advance]
    split
    · exact hsame rfl (Next.attuned_go (List.forall_mem_nil _))
    · split_ifs
      · exact (wake_still r).settles_go (fun _ he ↦ he.chore.calm) (List.forall_mem_nil _)
          (List.forall_mem_nil _)
      · exact hsame rfl (Next.attuned_go (List.forall_mem_nil _))
  | check id =>
    simp only [advance]
    split
    · exact hsame rfl (Next.attuned_go (List.forall_mem_nil _))
    · split_ifs
      · exact hsame rfl (Next.attuned_go (List.forall_mem_nil _))
      · exact hsame rfl (Next.attuned_go (by simp [Task.asks?]))
  | finalize id why =>
    exact tell_settles (why.callback id) (List.forall_mem_nil _) (part_tally h id)
  | proceed =>
    simp only [advance]
    split_ifs
    · exact hsame rfl (by simp [Next.Attuned, Task.asks?])
    · exact ⟨remark_tally rfl r, trivial⟩
  | closeListener =>
    obtain ⟨-, ht⟩ := (closeListener_relisten r).tally none
    exact ⟨ht, Next.attuned_go (List.forall_mem_nil _)⟩

end Reactor

namespace Moment

open Reactor

variable [Kernel κ] {P : Policy π ν} {outside : Phase π ν → Prop} {m m' : Moment κ π ν}

/-- Of `n` sockets, those that are not accounted for were forfeited. -/
structure Tallied (n : Nat) (m : Moment κ π ν) : Prop where
  agrees : Agrees n m
  attuned : m.phase.Attuned m.journal
  tally : m.reactor.tally m.phase.hand = n

omit [Kernel κ] in
theorem attuned_ofTasks {ts : List (Task π ν)} (h : ∀ t ∈ ts, t.asks? = none) (j : Journal ν) :
    (Phase.ofTasks ts).Attuned j := by
  have hn : (Next.phase [] (.go ts)).Attuned j := (Next.attuned_go h).phase (List.forall_mem_nil _)
  rwa [Next.phase, List.append_nil] at hn

omit [Kernel κ] in
theorem turnTasks_asks (w : Wait) (events : List Event) (r : Reactor κ π ν) :
    ∀ t ∈ turnTasks w events r, t.asks? = none := by
  unfold turnTasks
  cases r.listener <;> split_ifs <;> simp [Task.asks?]

omit [Kernel κ] in
theorem cleanupTasks_asks (r : Reactor κ π ν) :
    ∀ t ∈ r.cleanupTasks (π := π) (ν := ν), t.asks? = none := by
  simp only [cleanupTasks, List.mem_append, List.mem_map, List.mem_singleton]
  rintro t (⟨id, -, rfl⟩ | rfl) <;> rfl

omit [Kernel κ] in
theorem Attuned.congr {j j' : Journal ν} {phase : Phase π ν} (h : phase.Attuned j)
    (hj : courts j' = courts j) : phase.Attuned j' := by
  cases phase with
  | busy first rest => exact ⟨fun b hb ↦ hj.trans (h.1 b hb), h.2⟩
  | _ => trivial

theorem Step.tallied {n : Nat} (h : Step P outside m m') (ht : Tallied n m) : Tallied n m' := by
  have hagrees := h.agrees ht.agrees
  have hattuned := ht.attuned
  have htally := ht.tally
  cases h with
  | kernel r phase k => exact ⟨hagrees, hattuned, htally⟩
  | listener r phase text =>
    have hr := relisten_opening (Sockets.listenOn_opening (κ := κ) (ν := ν) text) r
    obtain ⟨hc, hs⟩ := hr.tally phase.hand
    exact ⟨hagrees, Attuned.congr hattuned hc, hs.trans htally⟩
  | request r phase q _ =>
    obtain ⟨hc, hs⟩ := (request_still q r).tally (fun _ he ↦ he.calm) phase.hand
    exact ⟨hagrees, Attuned.congr hattuned hc, hs.trans htally⟩
  | setUp hr => exact ⟨hagrees, trivial, (hr.relisten.tally none).2.trans htally⟩
  | memory r app => exact ⟨hagrees, trivial, htally⟩
  | start r _ => exact ⟨hagrees, ⟨nofun, List.forall_mem_nil _⟩, htally⟩
  | wake r w reported =>
    obtain ⟨-, hh⟩ := turnTasks_phase w (Event.ofReport .posix w.list reported) r
    refine ⟨hagrees, attuned_ofTasks (turnTasks_asks _ _ r) _, ?_⟩
    dsimp only
    rw [hh]
    exact htally
  | fail r w => exact ⟨hagrees, trivial, htally⟩
  | cleanup r =>
    refine ⟨hagrees, attuned_ofTasks (cleanupTasks_asks r) _, ?_⟩
    dsimp only
    rw [Phase.hand_ofTasks (cleanupTasks_proper r)]
    exact htally
  | task r first rest =>
    obtain ⟨-, hh⟩ := (advance_proper (P := P) first r).phase ht.agrees.orderly
    have hs := advance_settles (P := P) first ht.agrees.sound.holding hattuned.1
    refine ⟨hagrees, hs.attuned.phase hattuned.2, ?_⟩
    dsimp only
    rw [hh, hs.tally]
    exact htally

theorem built_tallied {b : Builder} {app : π} {os os' : Os κ (Mark ν)} {r : Reactor κ π ν}
    (h : b.build app os = (.ok r, os')) (hj : os.journal = []) :
    Tallied b.maxConnections ⟨r, .idle⟩ := by
  refine ⟨built_agrees h, trivial, ?_⟩
  obtain ⟨receiver, sender, ho, -, rfl⟩ := build_eq h
  have hy := Sockets.openPipe_opening os.journal os (.refl _)
  rw [ho] at hy
  obtain ⟨-, hf⟩ := (hy.1.mono fun _ he ↦ (Entry.chore_of_isSetup he).calm).courts_forfeits
  rw [hj] at hf
  show (List.range _).length + 0 + 0 + forfeits os'.journal = _
  rw [hf, List.length_range, List.length_replicate]
  rfl

theorem Occurs.tallied {b : Builder} (h : Occurs P outside b m) : Tallied b.maxConnections m :=
  h.induction (fun _ _ _ _ hb hj ↦ built_tallied hb hj) fun _ _ hs ht ↦ hs.tallied ht

end Moment

namespace Reactor

variable [Kernel κ] {P : Policy π ν} {r : Reactor κ π ν}

/-- What a reactor for up to `n` connections can still do, whether or not callbacks raised. -/
structure Usable (P : Policy π ν) (n : Nat) (r : Reactor κ π ν) : Prop where
  inUse : r.pool.inUse = r.live.length + forfeits r.os.journal
  socket : ∀ id ∈ r.live, ∃ c t fd, r.conn? id = some c ∧ c.socket = some t ∧
    t.value.fd = some fd ∧ (Fresh r.os.journal → IsOpen fd r.os.journal)
  restarts : r.listener.isSome → r.cancelled = false →
    start P r = (.waiting r.prepare, (remark .waits r).2)
  /-- A peer is put before the application unless all sockets are in use or forfeited. -/
  admits : ∀ listener client peer os, Sockets.accept listener r.os = (.ok (client, peer), os) →
    ((∃ t script, (welcome P listener r).2 = .go [.meet t peer script]) ↔
      r.live.length + forfeits r.os.journal < n)

theorem start_run (hl : r.listener.isSome) (hc : r.cancelled = false) :
    start P r = (.waiting r.prepare, (remark .waits r).2) := by
  have hn : ¬ r.listener.isNone := by simpa [Option.isSome_iff_ne_none] using hl
  have he : start P r = (ite (r.listener.isNone = true) _ _ : ReactorM κ π ν Progress) r := rfl
  rw [he, if_neg hn]
  have hp : proceed P r = (ite (r.cancelled = true) _ _ : ReactorM κ π ν Progress) r := rfl
  rw [hp, if_neg (by simp [hc])]
  rfl

theorem welcome_of_exhausted (h : r.pool.free = []) (listener : Fd) :
    (welcome P listener r).2 = .go [] := by
  have hr : r.pool.reserve = .exhausted := by rw [Pool.reserve, h]
  rw [welcome, hr]

theorem welcome_meets (h : Holding r none) {listener client : Fd} {peer : Net.SocketAddr}
    {os : Os κ (Mark ν)} (ha : Sockets.accept listener r.os = (.ok (client, peer), os)) :
    (∃ t script, (welcome P listener r).2 = .go [.meet t peer script]) ↔
      0 < r.pool.free.length := by
  unfold welcome
  obtain ⟨hf, hr⟩ | ⟨slot, free, s, hf, hs, hr⟩ := h.kept.reserve
  · rw [hr, hf]
    simp
  · have he : systemExcept (Sockets.accept listener) { r with pool := r.pool.without slot free } =
        (.ok (client, peer), { r with pool := r.pool.without slot free, os }) := by
      have hrun : systemExcept (Sockets.accept listener)
          { r with pool := r.pool.without slot free } = ((Sockets.accept listener r.os).1,
            { r with pool := r.pool.without slot free, os := (Sockets.accept listener r.os).2 }) :=
        rfl
      rw [hrun, ha]
    rw [hr, hf]
    dsimp only
    rw [he]
    exact ⟨fun _ ↦ Nat.succ_pos _, fun _ ↦ ⟨_, _, rfl⟩⟩

end Reactor

/-- Whatever the policy does, also if its callbacks raise: whenever no admission is under way, a
reactor has lost as many sockets as callbacks raised that were asked whether to keep a peer, and
can do all that it could with so many fewer. -/
theorem Moment.Occurs.raising_costs [Kernel κ] {P : Policy π ν} {outside : Phase π ν → Prop}
    {b : Builder} {m : Moment κ π ν} (h : Occurs P outside b m) (hm : m.phase.hand = none) :
    m.reactor.Usable P b.maxConnections := by
  have ht := h.tallied
  have hs := ht.agrees.sound
  have htally : m.reactor.pool.free.length + m.reactor.live.length +
      forfeits m.reactor.os.journal = b.maxConnections := by
    have htally := ht.tally
    rw [hm] at htally
    exact htally
  rw [hm] at hs
  refine ⟨?_, ?_, fun hl hc ↦ Reactor.start_run hl hc, ?_⟩
  · show m.reactor.pool.slots.size - m.reactor.pool.free.length = _
    rw [hs.size]
    omega
  · intro id hid
    obtain ⟨c, t, fd, hc, hsock, hfd, hp⟩ := hs.holding.live hid
    refine ⟨c, t, fd, hc, hsock, hfd, fun hf ↦ (hs.ledger hf).opened (.conn id) fd ?_⟩
    rw [Reactor.owned_conn, hp]
    exact hfd
  · intro listener client peer os ha
    rw [Reactor.welcome_meets hs.holding ha]
    omega

namespace Visit

open Simulation Moment

def timid : Policy Unit Unit :=
  { policy with ready := fun _ _ _ ↦ .done (.error (.raised "a stranger"), ()) }

def recoiled : Progress × Reactor World Unit Unit :=
  Reactor.resume timid started.prepare (.ok [0, 1]) started

def startled : Moment World Unit Unit := ⟨recoiled.2, .ofProgress recoiled.1⟩

theorem startled_occurs : Occurs timid (fun _ ↦ True) builder startled := by
  refine ⟨(), ⟨world, []⟩, built, built.os, rfl, rfl, ?_⟩
  have hs := Reactor.SetUp.adopt 1000 (.inl built_not_owns)
  refine .tail (.tail (.tail .refl (.step (.setUp hs))) (.start _)) ?_
  exact .resume started started.prepare (.ok [0, 1])

-- From here on, only the kernel is to compute the turn.
attribute [irreducible] recoiled

def knocked : Reactor World Unit Unit :=
  let r := startled.reactor
  { r with os.kernel := { r.os.kernel with
      peers := r.os.kernel.peers.push { name := [2, 0] }
      pending := [1] } }

/-- The reactor has no connection, and can be run again, but its one socket is not given back. The
next peer is turned away. -/
theorem startled_costs : Occurs timid (fun _ ↦ True) builder startled ∧ Fresh startled.journal ∧
    startled.phase = .idle ∧ startled.reactor.live = [] ∧ startled.reactor.pool.inUse = 1 ∧
    Reactor.start timid startled.reactor =
      (.waiting startled.reactor.prepare, (Reactor.remark .waits startled.reactor).2) ∧
    (∃ client peer, (Sockets.accept 1000 knocked.os).1 = .ok (client, peer)) ∧
    (Reactor.welcome timid 1000 knocked).2 = .go [] := by
  have hphase : startled.phase = .idle := by
    have h : (match startled.phase with
      | .idle => true
      | _ => false) = true := by decide +kernel
    split at h
    · assumption
    · cases h
  have haccept : ∃ client peer, (Sockets.accept 1000 knocked.os).1 = .ok (client, peer) := by
    have h : (match (Sockets.accept 1000 knocked.os).1 with
      | .ok _ => true
      | .error _ => false) = true := by decide +kernel
    split at h
    · exact ⟨_, _, by assumption⟩
    · cases h
  exact ⟨startled_occurs, by decide +kernel, hphase, by decide +kernel, by decide +kernel,
    Reactor.start_run (by decide +kernel) (by decide +kernel), haccept,
    Reactor.welcome_of_exhausted (by decide +kernel) 1000⟩

theorem startled_usable : Occurs timid (fun _ ↦ True) builder startled ∧
    startled.phase.hand = none ∧ startled.reactor.Usable timid 1 ∧ startled.reactor.live = [] ∧
    forfeits startled.journal = 1 := by
  have hm : startled.phase.hand = none := Option.isNone_iff_eq_none.1 (by decide +kernel)
  exact ⟨startled_occurs, hm, startled_occurs.raising_costs hm, by decide +kernel,
    by decide +kernel⟩

end Visit

end PollReactor
