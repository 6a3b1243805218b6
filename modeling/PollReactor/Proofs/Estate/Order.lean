import PollReactor.Proofs.Custody
import PollReactor.Proofs.Estate
import PollReactor.Proofs.Routing.Turn

namespace PollReactor

open Journal (Adds ClosedOnce Fresh IsOpen Licit closings gains)
open Reactor
open Relation (ReflTransGen)

variable {κ π ν : Type}

namespace Reactor

variable {r : Reactor κ π ν} {hand : Option (Token Stream)} {spare : List Fd} {n : Nat}

theorem prepare_has {x : PollEntry} (h : x ∈ r.prepare.list) : r.Has hand x.fd := by
  rw [prepare_list] at h
  rcases List.mem_cons.1 h with rfl | h
  · exact ⟨.receiver, rfl⟩
  rcases List.mem_append.1 h with h | h
  · simp only [List.mem_map, Option.mem_toList] at h
    obtain ⟨fd, hfd, rfl⟩ := h
    exact ⟨.listener, hfd⟩
  · obtain ⟨k, c, w, fd, hk, hfd, -, rfl⟩ := mem_connEntries h
    obtain ⟨-, hc, -⟩ := mem_watchedOf (List.mem_of_getElem? hk)
    exact has_conn hc hfd

theorem Sound.withOs {os : Os κ (Mark ν)} (h : Sound n r hand)
    (hj : Adds Entry.OfSetup r.os.journal os.journal)
    (hc : Custody os.journal (r.Has hand) spare) : Sound n { r with os } hand :=
  h.relisten ⟨os, r.listener, rfl, hj⟩ fun hl _ ↦ ⟨fun o _ ho ↦ hc.opened ⟨o, ho⟩, hl.apart⟩

theorem has_of_live_nil (h : Sound n r none) (hlive : r.live = []) (hl : r.listener = none)
    {fd : Fd} : r.Has none fd ↔ fd ∈ [r.waker.receiver, r.waker.sender] := by
  have hplace (id : Nat) : r.place? id = none := by
    have hid := h.holding.live_iff id
    rw [hlive] at hid
    simpa using hid
  rw [has_iff, hl]
  simp [hplace, eq_comm]

variable [Kernel κ] {P : Policy π ν}

def parted (ids : List Nat) (r : Reactor κ π ν) : Reactor κ π ν :=
  ids.foldl (fun r id ↦ part id r) r

theorem detachAll_run (ids l : List Nat) (r : Reactor κ π ν) :
    (detachAll ids { r with live := l }).2 = { parted ids r with live := l } := by
  induction ids generalizing r with
  | nil => rfl
  | cons id ids ih =>
    -- Nothing looks at the list of live connections on the way.
    have hd : (detach id { r with live := l }).2 = { part id r with live := l } := by
      unfold part detach
      rw [bind_run, get_run, bind_run, get_run]
      have hconn : ({ r with live := l } : Reactor κ π ν).conn? id = r.conn? id := rfl
      dsimp only
      rw [hconn]
      cases r.conn? id with
      | none => rfl
      | some c =>
        dsimp only
        rw [bind_run, bind_run, modify_run, modify_run]
        rcases c.socket with _ | ⟨pool, slot, _ | fd, shut⟩ <;> rfl
    show (detachAll ids (detach id { r with live := l }).2).2 = _
    rw [hd]
    exact ih (part id r)

theorem parted_grows (ids : List Nat) (r : Reactor κ π ν) : Grows r (parted ids r) := by
  induction ids generalizing r with
  | nil => exact .refl r
  | cons id ids ih => exact (part_grows id r).trans (ih (part id r))

theorem parted_live (ids : List Nat) (r : Reactor κ π ν) :
    (parted ids r).live = r.live.filter (· ∉ ids) := by
  induction ids generalizing r with
  | nil => simp [parted]
  | cons id ids ih =>
    show (parted ids (part id r)).live = _
    rw [ih, part_live, List.filter_filter]
    refine List.filter_congr fun id' _ ↦ ?_
    simp [Bool.and_comm]

theorem parted_all (r : Reactor κ π ν) : (parted r.live r).live = [] := by
  rw [parted_live]
  simp

theorem parted_sound (ids : List Nat) (h : Sound n r none) : Sound n (parted ids r) none := by
  induction ids generalizing r with
  | nil => exact h
  | cons id ids ih => exact ih (part_sound h id)

theorem parted_custody {ids : List Nat} (h : Sound n r none)
    (hc : Custody r.os.journal (r.Has none) spare) (hf : Fresh (parted ids r).os.journal) :
    Custody (parted ids r).os.journal ((parted ids r).Has none) spare := by
  induction ids generalizing r with
  | nil => exact hc
  | cons id ids ih =>
    have hl := h.ledger ((parted_grows (id :: ids) r).journal.fresh hf)
    exact ih (part_sound h id)
      (part_custody hl hc fun p hp ↦ (h.holding.out (.conn id) p hp).2.2) hf

theorem retire_run (r : Reactor κ π ν) :
    (retire r).2 = (closeListener (parted r.live r)).2 := by
  have he : { parted r.live r with live := [] } = parted r.live r := by
    rw [← parted_all r]
  have hd := detachAll_run r.live [] r
  rw [he] at hd
  show (closeListener (detachAll r.live { r with live := [] }).2).2 = _
  rw [hd]

theorem retire_grows (r : Reactor κ π ν) : Grows r (retire r).2 := by
  rw [retire_run]
  exact (parted_grows r.live r).trans (closeListener_relisten _).grows

theorem retire_sound (h : Sound n r none) :
    Sound n (retire r).2 none ∧ (retire r).2.live = [] ∧ (retire r).2.listener = none := by
  have hp := parted_sound r.live h
  rw [retire_run]
  refine ⟨hp.relisten (closeListener_relisten _) fun hl _ ↦ closeListener_ledger hl, ?_⟩
  rw [closeListener_run]
  cases hl : (parted r.live r).listener with
  | none => exact ⟨parted_all r, hl⟩
  | some fd => exact ⟨parted_all r, rfl⟩

theorem retire_custody (h : Sound n r none) (hc : Custody r.os.journal (r.Has none) spare)
    (hf : Fresh (retire r).2.os.journal) :
    Custody (retire r).2.os.journal ((retire r).2.Has none) spare := by
  rw [retire_run] at hf ⊢
  have hf' := (closeListener_relisten _).grows.journal.fresh hf
  exact closeListener_custody ((parted_sound r.live h).ledger hf') (parted_custody h hc hf')

end Reactor

namespace Moment

variable [Kernel κ] {P : Policy π ν} {outside : Phase π ν → Prop} {m m' : Moment κ π ν}
  {spare : List Fd}

/-- Everything agrees, and if an admission is still to begin, then at the bound socket. -/
structure Poised (m : Moment κ π ν) : Prop where
  agrees : ∃ n, Agrees n m ∧ m.phase.Prepared n m.reactor
  listener : ∀ fd, .accept fd ∈ m.phase.tasks → m.reactor.listener = some fd

omit [Kernel κ] in
theorem Poised.idle {n : Nat} {r : Reactor κ π ν} (h : Sound n r none) : Poised ⟨r, .idle⟩ :=
  ⟨⟨n, ⟨trivial, h⟩, trivial⟩, fun _ h ↦ by cases h⟩

omit [Kernel κ] in
theorem not_accept {ts : List (Task π ν)} (h : ∀ t ∈ ts, t.isEntrance = false) (fd : Fd) :
    .accept fd ∉ ts :=
  fun hfd ↦ by cases h _ hfd

theorem accept_not_next {first : Task π ν} {next : Next π ν} {rest : List (Task π ν)}
    (h : Next.Proper first next) (hr : ∀ t ∈ rest, t.isEntrance = false) (fd : Fd) :
    .accept fd ∉ (next.phase rest).tasks := by
  cases next with
  | go ts =>
    rw [Next.phase, Phase.tasks_ofTasks, List.mem_append, not_or]
    refine ⟨?_, not_accept hr fd⟩
    rcases h with h | ⟨-, t, peer, script, rfl⟩
    · exact not_accept h fd
    · simp
  | only ts =>
    rw [Next.phase, Phase.tasks_ofTasks]
    exact not_accept h fd
  | wait w => exact List.not_mem_nil

theorem Inner.listener (h : Inner P outside m m') (hp : m.Poised) (fd : Fd)
    (hfd : .accept fd ∈ m'.phase.tasks) : m'.reactor.listener = some fd := by
  obtain ⟨⟨n, ha, -⟩, hl⟩ := hp
  cases h with
  | request r phase q _ => exact (request_still q r).listener.trans (hl fd hfd)
  | memory => cases hfd
  | again => cases hfd
  | localAddr => cases hfd
  | start => cases List.mem_singleton.1 hfd
  | wake r w reported =>
    replace hfd : .accept fd ∈ (Phase.ofTasks (turnTasks w _ r)).tasks := hfd
    rw [Phase.tasks_ofTasks, turnTasks, List.mem_append] at hfd
    rcases hfd with hfd | hfd
    · split_ifs at hfd
      · simpa using hfd
      · cases hfd
    · simp at hfd
  | fail => cases hfd
  | cleanup r =>
    replace hfd : .accept fd ∈ (Phase.ofTasks r.cleanupTasks).tasks := hfd
    rw [Phase.tasks_ofTasks] at hfd
    exact absurd hfd (not_accept (cleanupTasks_proper r) fd)
  | works h =>
    obtain ⟨r, first, rest⟩ := h
    exact absurd hfd (accept_not_next (advance_proper first r) ha.orderly fd)

theorem Inner.poised (h : Inner P outside m m') (hp : m.Poised) : m'.Poised := by
  obtain ⟨n, ha, hw⟩ := hp.agrees
  exact ⟨⟨n, h.step.agrees ha, h.step.prepared ha hw⟩, h.listener hp⟩

theorem again_custody {r : Reactor κ π ν} {fd : Fd} (hl : r.listener = some fd)
    (hc : Custody r.os.journal (r.Has none) spare) :
    Custody (Reactor.adopt fd r).2.os.journal ((Reactor.adopt fd r).2.Has none) spare := by
  have hopen : IsOpen fd r.os.journal := hc.opened ⟨.listener, hl⟩
  have hr : Custody (remark (.adopted fd) r).2.os.journal (r.Has none) spare := by
    refine ⟨⟨List.forall_mem_nil _, hc.licit⟩, fun fd' ↦ ?_, hc.nodup, hc.apart⟩
    rw [← hc.open_iff fd']
    exact Journal.isOpen_adopted.trans (or_iff_right_of_imp fun he ↦ he ▸ hopen)
  have hs := hr.plain (.setNonblocking (List.mem_singleton_self fd))
    (List.forall_mem_singleton.2 (hr.opened ⟨.listener, hl⟩))
  have he : (Reactor.adopt fd r).2 =
      (init fd (system (Sockets.adopt fd) (remark (.adopted fd) r).2).2).2 := rfl
  have hbound : (system (Sockets.adopt fd) (remark (.adopted fd) r).2).2.listener = some fd := hl
  rw [he, init_run, hbound]
  dsimp only
  rw [if_pos rfl]
  exact hs

theorem Inner.custody (h : Inner P outside m m') (hp : m.Poised)
    (hc : Custody m.journal (m.reactor.Has m.phase.hand) spare) (hf : Fresh m'.journal) :
    Custody m'.journal (m'.reactor.Has m'.phase.hand) spare := by
  have hfresh := h.step.fresh hf
  cases h with
  | request r phase q _ => exact (request_still q r).custody hc (request_minds q r)
  | memory => exact hc
  | again r fd hl => exact again_custody hl hc
  | localAddr r =>
    show Custody (Reactor.localAddr r).2.os.journal ((Reactor.localAddr r).2.Has none) spare
    rw [localAddr_eq]
    cases hl : r.listener with
    | none => exact hc
    | some fd =>
      exact hc.plain (.localAddr (List.mem_singleton_self fd))
        (List.forall_mem_singleton.2 (hc.opened ⟨.listener, hl⟩))
  | start => exact hc
  | wake r w reported =>
    obtain ⟨-, hh⟩ := turnTasks_phase w (Event.ofReport .posix w.list reported) r
    dsimp only
    rw [hh]
    exact hc
  | fail => exact hc
  | cleanup r =>
    dsimp only
    rw [Phase.hand_ofTasks (cleanupTasks_proper r)]
    exact hc
  | works h =>
    obtain ⟨r, first, rest⟩ := h
    obtain ⟨n, ha, -⟩ := hp.agrees
    obtain ⟨-, hh⟩ := (advance_proper (P := P) first r).phase ha.orderly
    dsimp only
    rw [hh]
    exact advance_custody first ha.sound (ha.sound.ledger hfresh) hc
      (fun fd he ↦ hp.listener fd (he ▸ List.mem_cons_self)) hf

end Moment

namespace Tenure

def Has : Tenure κ π ν → Fd → Prop
  | absent _ => fun _ ↦ False
  | alive m => m.reactor.Has m.phase.hand
  | retired r => r.Has none

theorem has_withOs (s : Tenure κ π ν) (os : Os κ (Mark ν)) : (s.withOs os).Has = s.Has := by
  cases s <;> rfl

def Steady : Tenure κ π ν → Prop
  | absent _ => True
  | alive m => m.Poised
  | retired r => (∃ n, Sound n r none) ∧ r.live = [] ∧ r.listener = none

theorem Steady.withOs {s : Tenure κ π ν} {os : Os κ (Mark ν)} {spare : List Fd} (h : s.Steady)
    (hj : Adds Entry.OfSetup s.os.journal os.journal) (hc : Custody os.journal s.Has spare) :
    (s.withOs os).Steady := by
  cases s with
  | absent => trivial
  | alive m =>
    obtain ⟨n, ha, hw⟩ := h.agrees
    have hs : Still Entry.OfSetup m.reactor { m.reactor with os } :=
      ⟨rfl, rfl, rfl, rfl, rfl, rfl, fun _ ↦ rfl, hj⟩
    exact ⟨⟨n, ⟨ha.orderly, ha.sound.withOs hj hc⟩, hw.still hs⟩, h.listener⟩
  | retired r =>
    obtain ⟨⟨n, hs⟩, hlive, hl⟩ := h
    exact ⟨⟨n, hs.withOs hj hc⟩, hlive, hl⟩

end Tenure

namespace Estate

/-- Every descriptor that is open has a keeper. -/
structure Tidy (e : Estate κ π ν) : Prop where
  custody : Custody e.journal e.tenure.Has e.spare
  steady : e.tenure.Steady

section

variable {s : Tenure κ π ν} {os : Os κ (Mark ν)} {spare spare' : List Fd}

theorem Tidy.withOs (h : Tidy ⟨s, spare⟩) (hj : Adds Entry.OfSetup s.os.journal os.journal)
    (hc : Custody os.journal s.Has spare') : Tidy ⟨s.withOs os, spare'⟩ := by
  refine ⟨?_, h.steady.withOs hj hc⟩
  show Custody (s.withOs os).os.journal (s.withOs os).Has spare'
  rw [s.os_withOs, s.has_withOs]
  exact hc

theorem given_custody {act : OsExcept κ (Mark ν) Fd} {own : Fd → Prop}
    (hy : Opening [] act fun fd ↦ [fd]) (hl : Lawful [] act fun fd ↦ [fd])
    (h : Custody os.journal own spare) (hf : Fresh (act os).2.journal) :
    Custody (act os).2.journal own (given (act os).1 ++ spare) := by
  have hy := hy os.journal os (.refl _)
  obtain ⟨-, hl⟩ := hl os
  have hl := hl hf ⟨h.licit, .nil, List.forall_mem_nil _⟩
  generalize act os = out at hy hl hf ⊢
  rcases out with ⟨_ | fd, os'⟩
  · exact h.stock hl (hy.brings hf)
  · exact h.stock hl.licit (hy.brings hf)

variable [Kernel κ]

omit [Kernel κ] in
theorem adopted_custody {own : Fd → Prop} {fd : Fd} (h : Custody os.journal own spare)
    (hfd : ¬ IsOpen fd os.journal) :
    Custody (os.note (.adopted fd)).journal own (fd :: spare) :=
  have hl : Licit (os.note (.adopted fd)).journal := ⟨List.forall_mem_nil _, h.licit⟩
  h.stock hl (Journal.brings_adopted hfd)

theorem adoptOwned_custody {own : Fd → Prop} {fd : Fd}
    (h : Custody os.journal own (fd :: spare)) :
    Custody (Sockets.adoptOwned fd os).2.journal own
      (given (Sockets.adoptOwned fd os).1 ++ spare) := by
  have hp := h.plain (Sockets.adoptOwned_plain (κ := κ) (ν := ν) fd)
    (List.forall_mem_singleton.2 (h.opened_spare List.mem_cons_self))
  unfold Sockets.adoptOwned
  generalize demand (sys (.setNonblocking fd)) os = out at hp ⊢
  rcases out with ⟨_ | ⟨⟩, os'⟩
  · have hasked : Custody (Os.call (.descriptorFlags fd) os').2.journal own (fd :: spare) :=
      hp.calls (S := (· = fd)) (.single ⟨rfl, rfl, rfl, fun _ ↦ List.mem_singleton.1⟩)
        fun _ he ↦ he ▸ hp.opened_spare List.mem_cons_self
    have hc := hasked.shed List.mem_cons_self
      (Os.call (.close fd) (Os.call (.descriptorFlags fd) os').2).1
    rw [List.erase_cons_head] at hc
    exact hc
  · exact hp

end

variable [Kernel κ] {P : Policy π ν} {outside : Phase π ν → Prop} {e e' : Estate κ π ν}

theorem build_spec (b : Builder) (app : π) (os : Os κ (Mark ν)) :
    Tenure.ofBuild (b.build app os) = .absent os ∨
    (∃ e os', Sockets.openPipe os = (.error e, os') ∧
      Tenure.ofBuild (b.build app os) = .absent os') ∨
    ∃ receiver sender r, Sockets.openPipe os = (.ok (receiver, sender), r.os) ∧
      Tenure.ofBuild (b.build app os) = .alive ⟨r, .idle⟩ ∧
      ∀ fd, r.Has none fd ↔ fd ∈ [receiver, sender] := by
  rcases hb : b.build app os with ⟨h | r, os'⟩
  · unfold Builder.build at hb
    split at hb
    · cases hb
      exact .inl rfl
    · split at hb
      · cases hb
        exact .inl rfl
      · split at hb
        · cases hb
          exact .inr (.inl ⟨_, _, ‹_›, rfl⟩)
        · cases hb
  · have hs := (Moment.built_agrees hb).sound
    obtain ⟨receiver, sender, ho, -, rfl⟩ := Moment.build_eq hb
    exact .inr (.inr ⟨receiver, sender, _, ho, rfl, fun _ ↦ has_of_live_nil hs rfl rfl⟩)

theorem build_custody {b : Builder} {app : π} {os : Os κ (Mark ν)} {spare : List Fd}
    (h : Custody os.journal (fun _ ↦ False) spare)
    (hf : Fresh (Tenure.ofBuild (b.build app os)).os.journal) :
    Custody (Tenure.ofBuild (b.build app os)).os.journal (Tenure.ofBuild (b.build app os)).Has
      spare := by
  have hy := Sockets.openPipe_opening os.journal os (.refl _)
  obtain ⟨-, hl⟩ := Sockets.openPipe_lawful os
  have hs : Journal.Secured [] os.journal := ⟨h.licit, .nil, List.forall_mem_nil _⟩
  obtain ht | ⟨e, os', ho, ht⟩ | ⟨receiver, sender, r, ho, ht, hhas⟩ := build_spec b app os
  · rw [ht]
    exact h
  · rw [ht] at hf ⊢
    rw [ho] at hy hl
    exact h.gain (hl hf hs) (hy.brings hf) fun _ ↦ by simp [Tenure.Has]
  · rw [ht] at hf ⊢
    rw [ho] at hy hl
    exact h.gain (hl hf hs).licit (hy.brings hf) fun fd ↦ (hhas fd).trans (or_iff_left id).symm

theorem build_tidy {b : Builder} {app : π} {os : Os κ (Mark ν)} {spare : List Fd}
    (h : Tidy (⟨.absent os, spare⟩ : Estate κ π ν))
    (hf : Fresh (Tenure.ofBuild (b.build app os)).os.journal) :
    Tidy ⟨.ofBuild (b.build app os), spare⟩ := by
  refine ⟨build_custody h.custody hf, ?_⟩
  show (Tenure.ofBuild (b.build app os)).Steady
  rcases hb : b.build app os with ⟨_ | r, os'⟩
  · trivial
  · exact .idle (Moment.built_agrees hb).sound

theorem forget_custody {n : Nat} {r : Reactor κ π ν} {spare : List Fd} (hs : Sound n r none)
    (hlive : r.live = []) (hl : r.listener = none)
    (h : Custody r.os.journal (r.Has none) spare) (hf : Fresh r.os.journal) :
    Custody (r.waker.close r.os).2.journal (fun _ ↦ False) spare := by
  have hhas {fd : Fd} : r.Has none fd ↔ fd ∈ [r.waker.receiver, r.waker.sender] :=
    has_of_live_nil hs hlive hl
  have hne : r.waker.receiver ≠ r.waker.sender := fun he ↦ by
    cases (hs.ledger hf).apart .receiver .sender _ rfl (congrArg some he.symm)
  obtain ⟨-, hclosed⟩ := closeAll_journal [r.waker.receiver, r.waker.sender] r.os
  refine ⟨Lawful.closeAll_licit ⟨h.licit, List.pairwise_pair.2 hne, fun fd hfd ↦
    h.opened (hhas.2 hfd)⟩, fun fd ↦ ?_, h.nodup, fun _ _ ho ↦ ho⟩
  refine (hclosed fd).trans ?_
  rw [h.open_iff, hhas, false_or]
  constructor
  · rintro ⟨hn, ho | ho⟩
    · exact absurd ho hn
    · exact ho
  · exact fun ho ↦ ⟨fun hn ↦ h.apart fd ho (hhas.2 hn), .inr ho⟩

omit [Kernel κ] in
theorem withOs_grows (s : Tenure κ π ν) {os : Os κ (Mark ν)} (spare spare' : List Fd)
    (hj : Adds Entry.OfSetup s.os.journal os.journal) :
    Adds (fun _ ↦ True) (Estate.journal ⟨s, spare⟩) (Estate.journal ⟨s.withOs os, spare'⟩) := by
  show Adds _ s.os.journal (s.withOs os).os.journal
  rw [s.os_withOs]
  exact hj.mono fun _ _ ↦ trivial

theorem build_grows (b : Builder) (app : π) (os : Os κ (Mark ν)) :
    Adds (fun _ ↦ True) os.journal (Tenure.ofBuild (b.build app os)).os.journal := by
  have hj := Sockets.openPipe_opening.setup os
  obtain ht | ⟨e, os', ho, ht⟩ | ⟨receiver, sender, r, ho, ht, -⟩ := build_spec b app os
  · rw [ht]
    exact .refl _
  · rw [ht]
    rw [ho] at hj
    exact hj.mono fun _ _ ↦ trivial
  · rw [ht]
    rw [ho] at hj
    exact hj.mono fun _ _ ↦ trivial

theorem adopt_setup (fd : Fd) (os : Os κ (Mark ν)) :
    Adds Entry.OfSetup os.journal (Sockets.adopt fd (os.note (.adopted fd))).2.journal := by
  have hj : Adds Entry.OfSetup os.journal (os.note (.adopted fd)).journal := .single (.inr rfl)
  exact hj.trans ((Sockets.adopt_plain fd _).mono fun _ he ↦ .inl he.1)

theorem adoptOwned_setup (fd : Fd) (os : Os κ (Mark ν)) :
    Adds Entry.OfSetup os.journal (Sockets.adoptOwned fd (os.note (.adopted fd))).2.journal := by
  have hj : Adds Entry.OfSetup os.journal (os.note (.adopted fd)).journal := .single (.inr rfl)
  exact hj.trans (Sockets.adoptOwned_setup fd _)

theorem Step.grows (h : Step P outside e e') : Adds (fun _ ↦ True) e.journal e'.journal := by
  cases h with
  | kernel s spare k => exact withOs_grows s spare spare (.refl _)
  | listen s spare text =>
    exact withOs_grows s spare _ ((Sockets.listenOn_opening text).setup s.os)
  | adopt s spare fd _ => exact withOs_grows s spare _ (adopt_setup fd s.os)
  | adoptOwned s spare fd _ => exact withOs_grows s spare _ (adoptOwned_setup fd s.os)
  | address s spare fd _ =>
    exact withOs_grows s spare spare ((Sockets.localAddr_plain fd).setup s.os)
  | close s spare fd _ => exact withOs_grows s spare _ (.single (.inl rfl))
  | build b app os => exact build_grows b app os
  | inner spare h => exact h.step.grows.journal
  | init r spare fd _ => exact (init_relisten fd r).grows.journal
  | retire r => exact (retire_grows r).journal
  | request r spare q => exact (request_still q r).grows.journal
  | forget r =>
    exact (closeAll_journal [r.waker.receiver, r.waker.sender] r.os).1.mono fun _ _ ↦ trivial

theorem Step.tidy (h : Step P outside e e') (ht : Tidy e) (hf : Fresh e'.journal) : Tidy e' := by
  have hfresh := h.grows.fresh hf
  cases h with
  | kernel s spare k => exact ht.withOs (.refl _) ht.custody
  | listen s spare text =>
    have ho := Sockets.listenOn_opening (κ := κ) (ν := ν) text
    have hf : Fresh (Sockets.listenOn text s.os).2.journal := by
      rw [← s.os_withOs (Sockets.listenOn text s.os).2]
      exact hf
    have hc := given_custody ho (Sockets.listenOn_lawful text) ht.custody hf
    exact ht.withOs (ho.setup s.os) hc
  | adopt s spare fd hfd =>
    have hc := (adopted_custody ht.custody hfd).plain
      (.setNonblocking (List.mem_singleton_self fd)) (List.forall_mem_singleton.2 (.inr (.inl rfl)))
    exact ht.withOs (adopt_setup fd s.os) hc
  | adoptOwned s spare fd hfd =>
    have hc := adoptOwned_custody (adopted_custody ht.custody hfd)
    exact ht.withOs (adoptOwned_setup fd s.os) hc
  | address s spare fd hfd =>
    have hc := ht.custody.plain (.localAddr (List.mem_singleton_self fd))
      (List.forall_mem_singleton.2 (ht.custody.opened_spare hfd))
    exact ht.withOs ((Sockets.localAddr_plain fd).setup s.os) hc
  | close s spare fd hfd => exact ht.withOs (.single (.inl rfl)) (ht.custody.shed hfd _)
  | build b app os spare => exact build_tidy ht hf
  | inner spare h => exact ⟨h.custody ht.steady ht.custody hf, h.poised ht.steady⟩
  | init r spare fd hfd =>
    obtain ⟨n, ha, -⟩ := ht.steady.agrees
    -- The socket is spare, so that nobody owns it.
    have hs : r.SetUp (Reactor.init fd r).2 := .init fd (ht.custody.opened_spare hfd)
      (.inl fun ho ↦ ht.custody.apart fd hfd (owns_iff.1 ho))
    have ha' := ha.sound.relisten hs.relisten hs.ledger
    exact ⟨init_custody ht.custody hfd, .idle ha'⟩
  | retire r spare =>
    obtain ⟨n, ha, -⟩ := ht.steady.agrees
    obtain ⟨hs, hlive, hl⟩ := retire_sound ha.sound
    exact ⟨retire_custody ha.sound ht.custody hf, ⟨n, hs⟩, hlive, hl⟩
  | request r spare q =>
    obtain ⟨⟨n, hs⟩, hlive, hl⟩ := ht.steady
    have hq := request_still q r
    exact ⟨hq.custody ht.custody (request_minds q r), ⟨n, request_sound hs q⟩,
      hq.live.trans hlive, hq.listener.trans hl⟩
  | forget r spare =>
    obtain ⟨⟨n, hs⟩, hlive, hl⟩ := ht.steady
    exact ⟨forget_custody hs hlive hl ht.custody hfresh, trivial⟩

theorem Arises.tidy (h : Arises P outside e) (hf : Fresh e.journal) : Tidy e := by
  obtain ⟨os, hj, hs⟩ := h
  induction hs with
  | refl =>
    refine ⟨⟨?_, fun fd ↦ ?_, .nil, List.forall_mem_nil _⟩, trivial⟩
    · show Licit os.journal
      rw [hj]
      trivial
    · show IsOpen fd os.journal ↔ False ∨ fd ∈ []
      rw [hj]
      simp [Journal.IsOpen]
  | tail _ ha ih =>
    -- Journals only grow: if numbers are fresh in the end, they were so all along.
    have hs := ha.steps
    clear ha
    induction hs with
    | refl => exact ih hf
    | tail _ hs ih => exact hs.tidy (ih (hs.grows.fresh hf)) hf

end Estate

/-- What a reactor keeps open: the ends of its pipe, the bound socket, the socket of the admission
that is under way and those of the live connections. -/
def Tenure.Keeps : Tenure κ π ν → Fd → Prop
  | absent _, _ => False
  | alive m, fd => m.reactor.waker.receiver = fd ∨ m.reactor.waker.sender = fd ∨
      m.reactor.listener = some fd ∨ (m.phase.hand.bind fun t ↦ t.value.fd) = some fd ∨
      ∃ id ∈ m.reactor.live, m.reactor.fd? id = some fd
  | retired r, fd => r.waker.receiver = fd ∨ r.waker.sender = fd

theorem Tenure.Steady.keeps_iff {s : Tenure κ π ν} (h : s.Steady) (fd : Fd) :
    s.Has fd ↔ s.Keeps fd := by
  cases s with
  | absent => exact Iff.rfl
  | alive m =>
    obtain ⟨n, ha, -⟩ := h.agrees
    have hconns : (∃ id, (m.reactor.place? id).bind (·.fd) = some fd) ↔
        ∃ id ∈ m.reactor.live, m.reactor.fd? id = some fd := by
      simp only [fd?_eq, ha.sound.holding.live_iff]
      constructor
      · rintro ⟨id, hid⟩
        obtain ⟨p, hp, -⟩ := Option.bind_eq_some_iff.1 hid
        exact ⟨id, Option.isSome_of_eq_some hp, hid⟩
      · rintro ⟨id, -, hid⟩
        exact ⟨id, hid⟩
    rw [Has, has_iff, hconns]
    exact Iff.rfl
  | retired r =>
    obtain ⟨⟨n, hs⟩, hlive, hl⟩ := h
    exact (has_of_live_nil hs hlive hl).trans (by simp [Keeps, eq_comm])

namespace Estate

variable [Kernel κ] {P : Policy π ν} {outside : Phase π ν → Prop} {e : Estate κ π ν}

structure InOrder (e : Estate κ π ν) : Prop where
  /-- No call was made on a descriptor that was not open. -/
  licit : Licit e.journal
  /-- Every descriptor was closed as often as it was opened, but those that are open. -/
  balance : ∀ fd, gains fd e.journal = closings fd e.journal + if IsOpen fd e.journal then 1 else 0
  open_iff : ∀ fd, IsOpen fd e.journal ↔ e.tenure.Keeps fd ∨ fd ∈ e.spare
  sockets : ∀ m, e.tenure = .alive m → ∀ id ∈ m.reactor.live, (m.reactor.fd? id).isSome
  waits : ∀ m w, e.tenure = .alive m → m.phase = .waiting w → ∀ x ∈ w.list, IsOpen x.fd e.journal
  /-- When everything is gone, whatever was opened was closed once after that. -/
  gone : ∀ os, e.tenure = .absent os → e.spare = [] → (∀ fd, ¬ IsOpen fd e.journal) ∧
    ∀ later opening earlier fd, e.journal = later ++ opening :: earlier →
      fd ∈ opening.opens ∨ opening.adopts? = some fd → ClosedOnce fd later

omit [Kernel κ] in
theorem Tidy.sockets (h : Tidy e) {m : Moment κ π ν} (hm : e.tenure = .alive m) {id : Nat}
    (hid : id ∈ m.reactor.live) : (m.reactor.fd? id).isSome := by
  have hs := h.steady
  rw [hm] at hs
  obtain ⟨n, ha, -⟩ := hs.agrees
  obtain ⟨c, -, -, hconn, -⟩ := ha.sound.holding.live hid
  obtain ⟨fd, hfd⟩ := ha.sound.holding.fd?_of_live hid hconn
  rw [fd?, hconn, Option.bind_some, hfd]
  rfl

omit [Kernel κ] in
theorem Tidy.waits (h : Tidy e) {m : Moment κ π ν} {w : Wait} (hm : e.tenure = .alive m)
    (hw : m.phase = .waiting w) {x : PollEntry} (hx : x ∈ w.list) : IsOpen x.fd e.journal := by
  obtain ⟨hc, hs⟩ := h
  rw [hm] at hs hc
  obtain ⟨n, -, hp⟩ := hs.agrees
  rw [hw] at hp
  obtain ⟨r₀, rfl, -, hstill⟩ := hp
  exact hc.opened ((hstill.has _ x.fd).2 (prepare_has hx))

omit [Kernel κ] in
theorem Tidy.none_open (h : Tidy e) {os : Os κ (Mark ν)} (ht : e.tenure = .absent os)
    (hs : e.spare = []) (fd : Fd) : ¬ IsOpen fd e.journal := by
  rw [h.custody.open_iff, ht, hs]
  rintro (ho | ho) <;> cases ho

/-- Whatever the policy does, the system answers and other threads ask for: if the system never
gives out a descriptor that is in use, no descriptor is leaked, closed twice or called on when it is
closed. -/
theorem Arises.inOrder (h : Arises P outside e) (hf : Fresh e.journal) : InOrder e := by
  have ht := h.tidy hf
  have hl := ht.custody.licit
  refine ⟨hl, Journal.gains_eq hf hl, fun fd ↦ ?_, fun _ hm _ ↦ ht.sockets hm,
    fun _ _ hm hw _ ↦ ht.waits hm hw, fun os hos hs ↦ ⟨ht.none_open hos hs, ?_⟩⟩
  · rw [ht.custody.open_iff, ht.steady.keeps_iff]
  · intro later opening earlier fd hj hfd
    have hopen : IsOpen fd (opening :: earlier) := hfd.imp_right .inl
    have hend := ht.none_open hos hs fd
    rw [hj] at hl hend
    exact Journal.closedOnce_of_licit hl hopen hend

end Estate

namespace Visit

def finished : Estate Simulation.World Unit Unit :=
  ⟨.absent (Reactor.dispose kept.reactor).2.os, []⟩

theorem finished_arises (outside : Phase Unit Unit → Prop) :
    Estate.Arises policy outside finished := by
  obtain ⟨w, hw⟩ := kept_waits
  have hbuild : Estate.Act policy outside ⟨.absent ⟨world, []⟩, []⟩ ⟨.alive ⟨built, .idle⟩, []⟩ :=
    .step (.build builder () ⟨world, []⟩ [])
  have hadopt : Estate.Act policy outside ⟨.alive ⟨built, .idle⟩, []⟩
      ⟨.alive ⟨(Reactor.adopt 1000 built).2, .idle⟩, []⟩ :=
    .adopt built [] 1000 (.inl (by decide +kernel))
  have hstart : Estate.Act policy outside ⟨.alive ⟨(Reactor.adopt 1000 built).2, .idle⟩, []⟩
      ⟨.alive ⟨started, .waiting started.prepare⟩, []⟩ := .start _ []
  have hresume : Estate.Act policy outside ⟨.alive ⟨started, .waiting started.prepare⟩, []⟩
      ⟨.alive kept, []⟩ := by
    unfold kept turned
    exact .resume started started.prepare (.ok [0, 1]) []
  have hfail : Estate.Act policy outside ⟨.alive kept, []⟩ ⟨.alive ⟨kept.reactor, .idle⟩, []⟩ := by
    have h : Moment.Inner policy outside ⟨kept.reactor, .waiting w⟩ ⟨kept.reactor, .idle⟩ :=
      .fail kept.reactor w
    rw [← hw] at h
    exact .step (.inner [] h)
  exact ⟨⟨world, []⟩, rfl, .tail (.tail (.tail (.tail (.tail (.single hbuild) hadopt) hstart)
    hresume) hfail) (.dispose kept.reactor [])⟩

/-- The socket of the one peer was closed with all the others. -/
theorem finished_in_order : Estate.Arises policy (fun _ ↦ True) finished ∧ Fresh finished.journal ∧
    gains 1003 finished.journal = 1 ∧ finished.InOrder := by
  have ho := finished_arises fun _ ↦ True
  have hf : Fresh finished.journal := by decide +kernel
  exact ⟨ho, hf, by decide +kernel, ho.inOrder hf⟩

end Visit

end PollReactor
