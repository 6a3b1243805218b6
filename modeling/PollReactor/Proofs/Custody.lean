import PollReactor.Proofs.Agreement
import PollReactor.Proofs.Licit

namespace PollReactor

open Journal (Adds Brings IsOpen Fresh Licit Secured)

variable {κ π ν : Type}

/-- Calls were made on open descriptors only. Those that are open now are the descriptors `own` and
the listening sockets `spare`. -/
structure Custody (j : Journal ν) (own : Fd → Prop) (spare : List Fd) : Prop where
  licit : Licit j
  open_iff : ∀ fd, IsOpen fd j ↔ own fd ∨ fd ∈ spare
  nodup : spare.Nodup
  apart : ∀ fd ∈ spare, ¬ own fd

namespace Custody

variable {j j' : Journal ν} {own own' : Fd → Prop} {spare : List Fd} {fd : Fd}

theorem opened (h : Custody j own spare) (hfd : own fd) : IsOpen fd j :=
  (h.open_iff fd).2 (.inl hfd)

theorem opened_spare (h : Custody j own spare) (hfd : fd ∈ spare) : IsOpen fd j :=
  (h.open_iff fd).2 (.inr hfd)

theorem calls {S : Fd → Prop} (h : Custody j own spare) (hj : Adds (Entry.Minds S) j j')
    (hS : ∀ fd, S fd → IsOpen fd j) : Custody j' own spare where
  licit := h.licit.minds hj hS
  open_iff fd := (Journal.isOpen_minds hj).trans (h.open_iff fd)
  nodup := h.nodup
  apart := h.apart

theorem minds (h : Custody j own spare) (hj : Adds (Entry.Minds own) j j')
    (hown : ∀ fd, own' fd ↔ own fd) : Custody j' own' spare := by
  obtain rfl : own' = own := funext fun fd ↦ propext (hown fd)
  exact h.calls hj fun _ ↦ h.opened

theorem gain {fds : List Fd} (h : Custody j own spare) (hl : Licit j') (hj : Brings fds j j')
    (hown : ∀ fd, own' fd ↔ fd ∈ fds ∨ own fd) : Custody j' own' spare where
  licit := hl
  open_iff fd := by rw [hj.open_iff, h.open_iff, hown, or_assoc]
  nodup := h.nodup
  apart fd hfd ho := by
    rcases (hown fd).1 ho with hn | ho
    · exact hj.unused fd hn (h.opened_spare hfd)
    · exact h.apart fd hfd ho

theorem plain {κ α : Type} {act : OsExcept κ (Mark ν) α} {o : Os κ (Mark ν)} {fds : List Fd}
    (h : Custody o.journal own spare) (hp : IsPlainOn fds act)
    (hfds : ∀ fd ∈ fds, IsOpen fd o.journal) : Custody (act o).2.journal own spare :=
  h.calls (hp.minds o) hfds

theorem lose (h : Custody j own spare) (hfd : own fd)
    (hown : ∀ fd', own' fd' ↔ fd' ≠ fd ∧ own fd') (a : Except Errno Unit) :
    Custody (.sys (.close fd) a :: j) own' spare where
  licit := h.licit.close (h.opened hfd) a
  open_iff fd' := by
    have hs : fd' ∈ spare → fd' ≠ fd := by
      rintro hs rfl
      exact h.apart fd' hs hfd
    rw [Journal.isOpen_close, h.open_iff, hown]
    tauto
  nodup := h.nodup
  apart fd' hfd' ho := h.apart fd' hfd' ((hown fd').1 ho).2

theorem stock {fds : List Fd} (h : Custody j own spare) (hl : Licit j') (hj : Brings fds j j') :
    Custody j' own (fds ++ spare) where
  licit := hl
  open_iff fd := by
    rw [hj.open_iff, h.open_iff, List.mem_append]
    tauto
  nodup := List.nodup_append.2 ⟨hj.nodup, h.nodup, fun fd hfd fd' hfd' he ↦
    hj.unused fd hfd (h.opened_spare (he ▸ hfd'))⟩
  apart fd hfd ho := by
    rcases List.mem_append.1 hfd with hfd | hfd
    · exact hj.unused fd hfd (h.opened ho)
    · exact h.apart fd hfd ho

theorem shed (h : Custody j own spare) (hfd : fd ∈ spare) (a : Except Errno Unit) :
    Custody (.sys (.close fd) a :: j) own (spare.erase fd) where
  licit := h.licit.close (h.opened_spare hfd) a
  open_iff fd' := by
    have ho : own fd' → fd' ≠ fd := by
      rintro ho rfl
      exact h.apart fd' hfd ho
    rw [Journal.isOpen_close, h.open_iff, h.nodup.mem_erase_iff]
    tauto
  nodup := h.nodup.erase fd
  apart fd' hfd' := h.apart fd' (List.mem_of_mem_erase hfd')

theorem hand (h : Custody j own spare) (hfd : fd ∈ spare)
    (hown : ∀ fd', own' fd' ↔ fd' = fd ∨ own fd') : Custody j own' (spare.erase fd) where
  licit := h.licit
  open_iff fd' := by
    rw [h.open_iff, hown, h.nodup.mem_erase_iff]
    by_cases he : fd' = fd
    · simp [he, hfd]
    · simp [he]
  nodup := h.nodup.erase fd
  apart fd' hfd' ho := by
    obtain ⟨hne, hs⟩ := h.nodup.mem_erase_iff.1 hfd'
    rcases (hown fd').1 ho with rfl | ho
    · exact hne rfl
    · exact h.apart fd' hs ho

end Custody

namespace Reactor

variable {r r' : Reactor κ π ν} {hand : Option (Token Stream)} {spare : List Fd}

def Has (r : Reactor κ π ν) (hand : Option (Token Stream)) (fd : Fd) : Prop :=
  ∃ o, r.owned hand o = some fd

theorem has_iff {fd : Fd} : r.Has hand fd ↔ r.waker.receiver = fd ∨ r.waker.sender = fd ∨
    r.listener = some fd ∨ (hand.bind fun t ↦ t.value.fd) = some fd ∨
      ∃ id, (r.place? id).bind (·.fd) = some fd := by
  have hhand : r.owned hand .hand = hand.bind fun t ↦ t.value.fd := by cases hand <;> rfl
  constructor
  · rintro ⟨_ | _ | _ | _ | id, h⟩
    · exact .inl (Option.some.inj h)
    · exact .inr (.inl (Option.some.inj h))
    · exact .inr (.inr (.inl h))
    · exact .inr (.inr (.inr (.inl (hhand.symm.trans h))))
    · exact .inr (.inr (.inr (.inr ⟨id, h⟩)))
  · rintro (h | h | h | h | ⟨id, h⟩)
    · exact ⟨.receiver, congrArg some h⟩
    · exact ⟨.sender, congrArg some h⟩
    · exact ⟨.listener, h⟩
    · exact ⟨.hand, hhand.trans h⟩
    · exact ⟨.conn id, h⟩

theorem Still.has {C : Entry (Mark ν) → Prop} (h : Still C r r') (hand : Option (Token Stream))
    (fd : Fd) : r'.Has hand fd ↔ r.Has hand fd := by
  unfold Has
  simp only [h.owned]

theorem Still.custody {C : Entry (Mark ν) → Prop} (h : Still C r r')
    (hc : Custody r.os.journal (r.Has hand) spare)
    (hj : Adds (Entry.Minds (r.Has hand)) r.os.journal r'.os.journal) :
    Custody r'.os.journal (r'.Has hand) spare :=
  hc.minds hj (h.has hand)

theorem minds_remark {S : Fd → Prop} {m : Mark ν} (h : (Entry.remark m).adopts? = none) :
    (Entry.remark m).Minds S :=
  ⟨rfl, rfl, h, List.forall_mem_nil _⟩

theorem has_conn {id : Nat} {c : Conn} {fd : Fd} (hc : r.conn? id = some c)
    (hfd : c.fd? = some fd) : r.Has hand fd := ⟨.conn id, owned_of_fd? hc hfd⟩

theorem minds_call {S : Fd → Prop} {c : SysCall} {a : c.Answer}
    (hs : c.isSetup = false) (hn : ∀ fd ∈ c.names, S fd) :
    (Entry.sys (μ := Mark ν) c a).Minds S := by
  cases c <;> first | exact ⟨rfl, rfl, rfl, hn⟩ | cases hs

theorem OfService.minds {fd? : Option Fd} {sends : Bool} {S : Fd → Prop} {e : Entry (Mark ν)}
    (h : e.OfService fd? sends) (hS : ∀ fd, fd? = some fd → S fd) : e.Minds S := by
  rcases h.input_or_output with h | h
  · cases h with
    | recv fd | recvUrgent fd => exact minds_call rfl (List.forall_mem_singleton.2 (hS fd rfl))
    | clock => exact minds_call rfl (List.forall_mem_nil _)
  · cases h with
    | send fd => exact minds_call rfl (List.forall_mem_singleton.2 (hS fd rfl))
    | clock => exact minds_call rfl (List.forall_mem_nil _)

variable [Kernel κ] {P : Policy π ν}

theorem wake_minds (r : Reactor κ π ν) :
    Adds (Entry.Minds (r.Has hand)) r.os.journal (wake r).2.os.journal := by
  unfold wake
  rw [bind_run, get_run, bind_run, modify_run]
  unfold Waker.wake
  cases r.waker.signaled
  · exact .single (minds_call rfl (List.forall_mem_singleton.2 ⟨.sender, rfl⟩))
  · exact .refl _

theorem actAll_minds {es : List Effect} {r : Reactor κ π ν}
    (h : ∀ fd, .shutdown fd ∈ es → r.Has hand fd) :
    Adds (Entry.Minds (r.Has hand)) r.os.journal (actAll es r).2.os.journal := by
  induction es generalizing r with
  | nil => exact .refl _
  | cons e es ih =>
    have he : Adds (Entry.Minds (r.Has hand)) r.os.journal (act e r).2.os.journal := by
      cases e with
      | shutdown fd =>
        exact .single (minds_call rfl
          (List.forall_mem_singleton.2 (h fd List.mem_cons_self)))
      | wake => exact wake_minds r
    have hhas := (act_still e r).has hand
    have hes := ih (r := (act e r).2) fun fd hfd ↦
      (hhas fd).2 (h fd (List.mem_cons_of_mem _ hfd))
    exact he.trans (hes.mono fun _ hm ↦ hm.mono fun fd ↦ (hhas fd).1)

theorem Stir.minds (h : Stir r r') :
    Adds (Entry.Minds (r.Has hand)) r.os.journal r'.os.journal := by
  cases h with
  | called id c op hc =>
    rw [callConn_run hc]
    have hs := Still.setConn (C := Entry.OfRequest r.waker.sender) hc (c.perform_place op)
    have hs := hs.trans (.remark _ (.called id c op))
    have hhas := hs.has hand
    have hown (fd : Fd) (hfd : .shutdown fd ∈ (c.perform op).2.2) : r.Has hand fd :=
      has_conn hc (c.perform_own hfd)
    have hes := actAll_minds fun fd hfd ↦ (hhas fd).2 (hown fd hfd)
    exact Adds.trans (.single (minds_remark rfl))
      (hes.mono fun _ hm ↦ hm.mono fun fd ↦ (hhas fd).1)
  | wake => exact wake_minds r
  | cancel => exact wake_minds { r with cancelled := true }
  | clock => exact .single (minds_call rfl (List.forall_mem_nil _))
  | answered q a _ => exact .single (minds_remark rfl)

theorem request_minds (q : Request) (r : Reactor κ π ν) :
    Adds (Entry.Minds (r.Has hand)) r.os.journal (request q r).2.os.journal := by
  have hs := request_stirs q r
  generalize (request q r).2 = r' at hs ⊢
  have hboth : Adds (Entry.Minds (r.Has hand)) r.os.journal r'.os.journal ∧
      ∀ fd, r'.Has hand fd ↔ r.Has hand fd := by
    induction hs with
    | refl => exact ⟨.refl _, fun _ ↦ Iff.rfl⟩
    | tail _ h ih =>
      obtain ⟨hj, hhas⟩ := ih
      exact ⟨hj.trans (h.minds.mono fun _ hm ↦ hm.mono fun fd ↦ (hhas fd).1),
        fun fd ↦ (h.still.has hand fd).trans (hhas fd)⟩
  exact hboth.1

theorem settle_minds (events : List Event) (r : Reactor κ π ν) :
    Adds (Entry.Minds (r.Has hand)) r.os.journal (settleWaker events r).2.os.journal := by
  refine (settleWaker_still events r).journal.mono fun e he ↦ ?_
  cases he
  exact minds_call rfl (List.forall_mem_singleton.2 ⟨.receiver, rfl⟩)

theorem attend_custody (w : Watched) (event : Event) (now : Nat)
    (hc : Custody r.os.journal (r.Has hand) spare) :
    Custody (attend P w event now r).1.os.journal ((attend P w event now r).1.Has hand) spare := by
  cases hconn : r.conn? w.id with
  | none =>
    rw [attend_of_none hconn]
    exact hc
  | some c =>
    have ha := attend_attended (P := P) hconn event now
    have hs {sends : Bool} {r' : Reactor κ π ν} (hs : Service r w.id c sends r') :
        Custody r'.os.journal (r'.Has hand) spare :=
      (hs.still hconn).custody hc ((hs.still hconn).journal.mono fun _ he ↦
        OfService.minds he fun _ hfd ↦ has_conn hconn hfd)
    generalize attend P w event now r = out at ha ⊢
    cases ha with
    | ended h' => exact hs h'
    | silent h' => exact hs h'
    | told h' => exact (hs h').minds (.single (minds_remark rfl)) fun _ ↦ Iff.rfl

omit [Kernel κ] in
theorem has_some {t : Token Stream} {fd : Fd} :
    r.Has (some t) fd ↔ t.value.fd = some fd ∨ r.Has none fd := by
  rw [has_iff, has_iff, Option.bind_some, Option.bind_none]
  simp only [reduceCtorEq, false_or]
  tauto

omit [Kernel κ] in
theorem has_without {hand' : Option (Token Stream)} {o₀ : Owner} {fd : Fd} (hl : Ledger r hand)
    (h₀ : r.owned hand o₀ = some fd)
    (h : ∀ o, r'.owned hand' o = if o = o₀ then none else r.owned hand o) (fd' : Fd) :
    r'.Has hand' fd' ↔ fd' ≠ fd ∧ r.Has hand fd' := by
  constructor
  · rintro ⟨o, ho⟩
    rw [h] at ho
    split_ifs at ho with hne
    exact ⟨fun he ↦ hne (hl.apart o o₀ fd (he ▸ ho) h₀), o, ho⟩
  · rintro ⟨hne, o, ho⟩
    refine ⟨o, ?_⟩
    rw [h, if_neg, ho]
    rintro rfl
    exact hne (Option.some.inj (ho.symm.trans h₀))

theorem has_enrolled {t : Token Stream} {fd : Fd} (peer : Net.SocketAddr) (d : Draft) (now : Nat) :
    (enrolled t peer d now r).Has none fd ↔ r.Has (some t) fd := by
  have hnew : r.place? (r.conns.size + 1) = none := by
    rw [place?, conn?_of_size_lt (Nat.lt_succ_self _)]
    rfl
  have hconns : (∃ id, ((enrolled t peer d now r).place? id).bind (·.fd) = some fd) ↔
      t.value.fd = some fd ∨ ∃ id, (r.place? id).bind (·.fd) = some fd := by
    simp only [place?_enrolled]
    constructor
    · rintro ⟨id, h⟩
      split_ifs at h
      · exact .inl h
      · exact .inr ⟨id, h⟩
    · rintro (h | ⟨id, h⟩)
      · exact ⟨r.conns.size + 1, by rwa [if_pos rfl]⟩
      · refine ⟨id, ?_⟩
        rwa [if_neg]
        rintro rfl
        rw [hnew] at h
        cases h
  rw [has_iff, hconns, has_iff, Option.bind_none, Option.bind_some]
  simp only [reduceCtorEq, false_or]
  exact Iff.rfl

theorem turnAway_licit {listener : Fd} (h : Licit r.os.journal)
    (hl : IsOpen listener r.os.journal) (hf : Fresh (turnAway listener r).2.os.journal) :
    Licit (turnAway listener r).2.os.journal := by
  obtain ⟨-, ha⟩ := Sockets.accept_lawful (κ := κ) (ν := ν) listener r.os
  have he : systemExcept (Sockets.accept listener) r =
    ((Sockets.accept listener r.os).1, { r with os := (Sockets.accept listener r.os).2 }) := rfl
  unfold turnAway at hf ⊢
  rw [bind_run, he] at hf ⊢
  generalize Sockets.accept listener r.os = out at ha hf ⊢
  rcases out with ⟨_ | ⟨client, peer⟩, os⟩
  · exact ha hf ⟨h, List.nodup_singleton _, by simpa using hl⟩
  · replace ha := ha hf.2 ⟨h, List.nodup_singleton _, by simpa using hl⟩
    exact ha.licit.close (ha.opened client List.mem_cons_self) _

theorem welcome_licit {listener : Fd} (hh : Holding r none) (h : Licit r.os.journal)
    (hl : IsOpen listener r.os.journal) (hf : Fresh (welcome P listener r).1.os.journal) :
    Licit (welcome P listener r).1.os.journal := by
  unfold welcome at hf ⊢
  obtain ⟨-, hr⟩ | ⟨slot, free, s, -, hs, hr⟩ := hh.kept.reserve
  · rw [hr] at hf ⊢
    exact turnAway_licit h hl hf
  · obtain rfl := hh.parked slot s hs
    obtain ⟨-, ha⟩ := Sockets.accept_lawful (κ := κ) (ν := ν) listener r.os
    have he : systemExcept (Sockets.accept listener)
        { r with pool := r.pool.without slot free } = ((Sockets.accept listener r.os).1,
          { r with pool := r.pool.without slot free, os := (Sockets.accept listener r.os).2 }) :=
      rfl
    rw [hr] at hf ⊢
    dsimp only at hf ⊢
    rw [he] at hf ⊢
    generalize Sockets.accept listener r.os = out at ha hf ⊢
    rcases out with ⟨_ | ⟨client, peer⟩, os⟩
    · exact ha hf ⟨h, List.nodup_singleton _, by simpa using hl⟩
    · exact ⟨List.forall_mem_nil _, (ha hf.2 ⟨h, List.nodup_singleton _, by simpa using hl⟩).licit⟩

theorem welcome_custody {listener : Fd} (hh : Holding r none)
    (hc : Custody r.os.journal (r.Has none) spare) (hl : r.listener = some listener)
    (hf : Fresh (welcome P listener r).1.os.journal) :
    Custody (welcome P listener r).1.os.journal
      ((welcome P listener r).1.Has (Next.token? (welcome P listener r).2)) spare := by
  have hlicit := welcome_licit hh hc.licit (hc.opened ⟨.listener, hl⟩) hf
  obtain ⟨os, he, hy⟩ | ⟨slot, free, os, client, peer, -, -, hy, he⟩ :=
    welcome_spec (P := P) hh listener
  · rw [he] at hf hlicit ⊢
    exact hc.gain hlicit (hy.brings hf) fun fd ↦ (or_iff_right List.not_mem_nil).symm
  · rw [he] at hf hlicit ⊢
    have hc' : Custody os.journal (r.Has (some ⟨r.pool.id, slot, ⟨some client, false⟩⟩)) spare :=
      hc.gain hlicit.2 (hy.brings hf.2) fun fd ↦ by
        rw [has_some, List.mem_singleton, Option.some.injEq, eq_comm]
    exact hc'.minds (.single (minds_remark rfl)) fun _ ↦ Iff.rfl

theorem decide_custody {t : Token Stream} (hh : Holding r (some t)) (hl : Ledger r (some t))
    (hc : Custody r.os.journal (r.Has (some t)) spare) (peer : Net.SocketAddr)
    (result : Except Panic (Option Draft)) :
    Custody (decide t peer r result).1.os.journal ((decide t peer r result).1.Has none)
      spare := by
  obtain ⟨fd, hfd⟩ := hh.hand_fd
  have hhand : r.owned (some t) .hand = some fd := hfd
  have hnone (fd' : Fd) : r.Has none fd' ↔ fd' ≠ fd ∧ r.Has (some t) fd' :=
    has_without hl hhand (fun o ↦ by cases o <;> rfl) fd'
  rcases result with p | _ | d
  · have he : (decide t peer r (.error p)).1 =
        { r with os := (Os.call (.close fd) (remark (.raised p) r).2.os).2 } := by
      show (system t.value.close (remark (.raised p) r).2).2 = _
      rw [system_close hfd]
      rfl
    have hraised : Custody (remark (.raised p) r).2.os.journal (r.Has (some t)) spare :=
      hc.minds (.single (minds_remark rfl)) fun _ ↦ Iff.rfl
    rw [he]
    exact hraised.lose (has_some.2 (.inl hfd)) hnone _
  · show Custody (closeAndRelease t r).2.os.journal ((closeAndRelease t r).2.Has none) spare
    rw [closeAndRelease_run hfd]
    exact hc.lose (has_some.2 (.inl hfd)) hnone _
  · obtain ⟨now, he⟩ := enroll_run t peer d r
    show Custody (enroll t peer d r).2.os.journal ((enroll t peer d r).2.Has none) spare
    rw [he]
    have hj : Adds (Entry.Minds (r.Has (some t))) r.os.journal
        (enrolled t peer d now r).os.journal :=
      .cons (.single (minds_call rfl (List.forall_mem_nil _))) (minds_remark rfl)
    exact hc.minds hj fun _ ↦ has_enrolled peer d now

theorem part_custody (hl : Ledger r hand)
    (hc : Custody r.os.journal (r.Has hand) spare) {id : Nat}
    (hp : ∀ p, r.place? id = some p → p.fd.isSome) :
    Custody (part id r).os.journal ((part id r).Has hand) spare := by
  cases hplace : r.place? id with
  | none =>
    rw [part_of_none hplace]
    exact hc
  | some p =>
    obtain ⟨fd, hfd⟩ := Option.isSome_iff_exists.1 (hp p hplace)
    have hown : r.owned hand (.conn id) = some fd := by
      rw [owned_conn, hplace]
      exact hfd
    obtain ⟨c, hconn, hcp⟩ := Option.bind_eq_some_iff.1 hplace
    obtain ⟨t, ht, rfl⟩ := Option.map_eq_some_iff.1 hcp
    rw [part_of_some hconn ht hfd]
    refine hc.lose ⟨_, hown⟩ (has_without hl hown fun o ↦ ?_) _
    cases o with
    | conn id' =>
      show ((r.setConn id { c with socket := none }).place? id').bind (·.fd) = _
      rw [place?_without_socket hconn, owned_conn]
      simp only [Owner.conn.injEq]
      split_ifs <;> rfl
    | _ => rfl

theorem closeListener_custody (hl : Ledger r hand)
    (hc : Custody r.os.journal (r.Has hand) spare) :
    Custody (closeListener r).2.os.journal ((closeListener r).2.Has hand) spare := by
  rw [closeListener_run]
  cases hlis : r.listener with
  | none => exact hc
  | some fd =>
    have hown : r.owned hand .listener = some fd := hlis
    exact hc.lose ⟨_, hown⟩ (has_without hl hown fun o ↦ by cases o <;> rfl) _

theorem advance_custody {n : Nat} (first : Task π ν) (h : Sound n r first.token?)
    (hl : Ledger r first.token?) (hc : Custody r.os.journal (r.Has first.token?) spare)
    (ha : ∀ fd, first = .accept fd → r.listener = some fd)
    (hf : Fresh (advance P first r).1.os.journal) :
    Custody (advance P first r).1.os.journal
      ((advance P first r).1.Has (Next.token? (advance P first r).2)) spare := by
  have hremark {hand : Option (Token Stream)} {r : Reactor κ π ν} (m : Mark ν)
      (hm : (Entry.remark m).adopts? = none) (hc : Custody r.os.journal (r.Has hand) spare) :
      Custody (remark m r).2.os.journal ((remark m r).2.Has hand) spare :=
    hc.minds (.single (minds_remark hm)) fun _ ↦ Iff.rfl
  -- Only an admission has a socket in hand.
  have hnone (hn : first.isEntrance = false)
      (hs : Custody (advance P first r).1.os.journal ((advance P first r).1.Has none) spare) :
      Custody (advance P first r).1.os.journal
        ((advance P first r).1.Has (Next.token? (advance P first r).2)) spare := by
    rw [(advance_proper first r).token?_eq_none hn]
    exact hs
  cases first with
  | accept listener => exact welcome_custody h.holding hc (ha listener rfl) hf
  | meet t peer script =>
    cases script with
    | done out =>
      rcases out with ⟨result, app⟩
      have hl := hl.still (C := fun _ ↦ False) (.app r app) fun _ he ↦ he.elim
      have hc : Custody r.os.journal (Has { r with app } (some t)) spare := hc
      have hs := decide_custody (app_sound h app).holding hl hc peer result
      rcases result with _ | _ | _
      · exact hs
      · exact hs
      · exact hs
    | ask q next => exact (request_still q r).custody hc (request_minds q r)
    | say v next => exact hremark _ rfl hc
  | settle events => exact (settleWaker_still events r).custody hc (settle_minds events r)
  | serveAll events watched =>
    exact hnone rfl (hc.minds (.single (minds_call rfl (List.forall_mem_nil _))) fun _ ↦ Iff.rfl)
  | serve w event now => exact hnone rfl (attend_custody w event now hc)
  | hear script =>
    cases script with
    | done out =>
      rcases out with ⟨_ | _, app⟩
      · exact hremark (r := { r with app }) _ rfl hc
      · exact hc
    | ask q next => exact (request_still q r).custody hc (request_minds q r)
    | say v next => exact hremark _ rfl hc
  | hasten id =>
    refine hnone rfl ?_
    simp only [advance]
    split
    · exact hc
    · split_ifs
      · exact (wake_still r).custody hc (wake_minds r)
      · exact hc
  | check id =>
    refine hnone rfl ?_
    simp only [advance]
    split <;> exact hc
  | finalize id why =>
    have hp := part_custody hl hc fun p hp ↦ (h.holding.out (.conn id) p hp).2.2
    exact hremark _ rfl hp
  | proceed =>
    refine hnone rfl ?_
    simp only [advance]
    split_ifs
    · exact hc
    · exact hremark _ rfl hc
  | closeListener => exact closeListener_custody hl hc

theorem init_custody {fd : Fd} (hc : Custody r.os.journal (r.Has none) spare) (hfd : fd ∈ spare) :
    Custody (init fd r).2.os.journal ((init fd r).2.Has none) (spare.erase fd) := by
  have hask {fd' : Fd} (hfd' : IsOpen fd' r.os.journal) :
      Custody (systemExcept (Sockets.localAddr fd') r).2.os.journal (r.Has none) spare :=
    hc.plain (.localAddr (List.mem_singleton_self fd')) (List.forall_mem_singleton.2 hfd')
  have hclose {r' : Reactor κ π ν} (hc : Custody r'.os.journal (r.Has none) spare) :
      Custody (system (attempt (.close fd)) r').2.os.journal (r.Has none) (spare.erase fd) :=
    hc.shed hfd _
  rw [init_run]
  cases hl : r.listener with
  | some bound =>
    have hne : bound ≠ fd := by
      rintro rfl
      exact hc.apart bound hfd ⟨.listener, hl⟩
    dsimp only
    rw [if_neg hne]
    exact hclose (hask (hc.opened ⟨.listener, hl⟩))
  | none =>
    have h := hask (hc.opened_spare hfd)
    have he : systemExcept (Sockets.localAddr fd) r =
      ((Sockets.localAddr fd r.os).1, { r with os := (Sockets.localAddr fd r.os).2 }) := rfl
    dsimp only
    rw [he] at h ⊢
    generalize Sockets.localAddr fd r.os = out at h ⊢
    rcases out with ⟨_ | _, os⟩
    · exact hclose h
    · refine h.hand hfd fun fd' ↦ ?_
      rw [has_iff, has_iff, hl]
      simp only [accepted, Option.some.injEq, reduceCtorEq, false_or, eq_comm (a := fd)]
      tauto

end Reactor

end PollReactor
