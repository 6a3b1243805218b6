import PollReactor.Proofs.Estate.Order

namespace PollReactor

open Journal (Adds Fresh IsOpen)
open Net (SockNameFormat SocketAddr)

variable {κ π ν : Type} {α β : Type}

def Errno.of? : Except Errno α → Option Errno
  | .ok _ => none
  | .error e => some e

def SysCall.failure? : (c : SysCall) → c.Answer → Option Errno
  | socket _, a => Errno.of? a
  | pipe, a => Errno.of? a
  | statusFlags _, a => Errno.of? a
  | setStatusFlags .., a => Errno.of? a
  | descriptorFlags _, a => Errno.of? a
  | setDescriptorFlags .., a => Errno.of? a
  | setNonblocking _, a => Errno.of? a
  | setOption .., a => Errno.of? a
  | bind .., a => Errno.of? a
  | listen .., a => Errno.of? a
  | localName _, a => Errno.of? a
  | accept _, a => Errno.of? a
  | read .., a => Errno.of? a
  | write .., a => Errno.of? a
  | recv .., a => Errno.of? a
  | recvUrgent _, a => Errno.of? a
  | send .., a => Errno.of? a
  | shutdown _, a => Errno.of? a
  | close _, a => Errno.of? a
  | clock, _ => none

def Entry.failure? : Entry (Mark ν) → Option Errno
  | .sys c a => c.failure? a
  | .remark _ => none

namespace Journal

def Smooth (j j' : Journal ν) : Prop := Adds (·.failure? = none) j j'

/-- Between the two, descriptors were closed and nothing else was done. -/
def Closes (j j' : Journal ν) : Prop := Adds (·.closes?.isSome) j j'

/-- Between the two, all went well up to a call that failed, or told a name that is no address; it
did not close anything. Behind it, descriptors were closed and nothing else was done. -/
inductive FailsWith (j j' : Journal ν) : IoError → Prop where
  | call {j₁ : Journal ν} {entry : Entry (Mark ν)} {e : Errno} (hsmooth : Smooth j j₁)
      (hfails : entry.failure? = some e ∧ entry.closes? = none)
      (hcloses : Closes (entry :: j₁) j') : FailsWith j j' (.os e)
  | name {j₁ : Journal ν} {fd : Fd} {name : Bytes} {e : IoError} (hsmooth : Smooth j j₁)
      (hdecode : SockNameFormat.posix.decode name = .error e)
      (hcloses : Closes (.sys (.localName fd) (.ok name) :: j₁) j') : FailsWith j j' e

variable {j j' j'' : Journal ν} {e : IoError}

theorem FailsWith.after (h : FailsWith j' j'' e) (hs : Smooth j j') : FailsWith j j'' e := by
  cases h with
  | call hsmooth hfails hcloses => exact .call (hs.trans hsmooth) hfails hcloses
  | name hsmooth hdecode hcloses => exact .name (hs.trans hsmooth) hdecode hcloses

theorem FailsWith.closes (h : FailsWith j j' e) (hc : Closes j' j'') : FailsWith j j'' e := by
  cases h with
  | call hsmooth hfails hcloses => exact .call hsmooth hfails (hcloses.trans hc)
  | name hsmooth hdecode hcloses => exact .name hsmooth hdecode (hcloses.trans hc)

end Journal

open Journal (Closes FailsWith Smooth)

section

variable [Kernel κ]

theorem attempt_closes (fd : Fd) (o : Os κ (Mark ν)) :
    Closes o.journal (attempt (.close fd) o).2.journal := .single rfl

theorem closeAll_closes (fds : List Fd) (o : Os κ (Mark ν)) :
    Closes o.journal (closeAll fds o).2.journal := by
  induction fds generalizing o with
  | nil => exact .refl _
  | cons fd fds ih => exact (attempt_closes fd o).trans (ih (attempt (.close fd) o).2)

end

/-- The act fails if a call of it does, and then as that call did. -/
def Candid (act : OsExcept κ (Mark ν) α) : Prop :=
  ∀ o, match act o with
    | (.ok _, o') => Smooth o.journal o'.journal
    | (.error e, o') => FailsWith o.journal o'.journal e

namespace Candid

theorem pure (a : α) : Candid (Pure.pure a : OsExcept κ (Mark ν) α) := fun o ↦ .refl o.journal

theorem bind {x : OsExcept κ (Mark ν) β} {f : β → OsExcept κ (Mark ν) α} (hx : Candid x)
    (hf : ∀ b, Candid (f b)) : Candid (x >>= f) := by
  intro o
  have hx := hx o
  rw [except_bind]
  generalize x o = out at hx ⊢
  rcases out with ⟨e | b, o'⟩
  · exact hx
  · have hf := hf b o'
    dsimp only at hx ⊢
    generalize f b o' = out at hf ⊢
    rcases out with ⟨e | a, o''⟩
    · exact FailsWith.after hf hx
    · exact hx.trans hf

theorem demand {answer : OsM κ (Mark ν) (Except Errno α)} (entry : Except Errno α → Entry (Mark ν))
    (hj : ∀ o, (answer o).2.journal = entry (answer o).1 :: o.journal)
    (h : ∀ a, (entry a).failure? = Errno.of? a ∧ (entry a).closes? = none) :
    Candid (demand answer) := by
  intro o
  have hj := hj o
  unfold PollReactor.demand
  generalize answer o = out at hj ⊢
  rcases out with ⟨e | a, o'⟩
  · refine .call (.refl o.journal) (h (.error e)) ?_
    rw [← hj]
    exact .refl o'.journal
  · show Smooth o.journal o'.journal
    rw [hj]
    exact .single (h (.ok a)).1

variable [Kernel κ]

theorem closing {act : OsExcept κ (Mark ν) α} (h : Candid act) (fds : List Fd) :
    Candid (closingOnError fds act) := by
  intro o
  have h := h o
  unfold closingOnError
  generalize act o = out at h ⊢
  rcases out with ⟨e | a, o'⟩
  · exact FailsWith.closes h (closeAll_closes fds o')
  · exact h

theorem setNonblocking (fd : Fd) : Candid (κ := κ) (ν := ν) (Sockets.setNonblocking fd) :=
  .bind (.demand (.sys (.statusFlags fd)) (fun _ ↦ rfl) fun _ ↦ ⟨rfl, rfl⟩) fun _ ↦
    .demand (.sys (.setStatusFlags fd _)) (fun _ ↦ rfl) fun _ ↦ ⟨rfl, rfl⟩

theorem setCloseOnExec (fd : Fd) : Candid (κ := κ) (ν := ν) (Sockets.setCloseOnExec fd) :=
  .bind (.demand (.sys (.descriptorFlags fd)) (fun _ ↦ rfl) fun _ ↦ ⟨rfl, rfl⟩) fun _ ↦
    .demand (.sys (.setDescriptorFlags fd _)) (fun _ ↦ rfl) fun _ ↦ ⟨rfl, rfl⟩

theorem configure (fd : Fd) : Candid (κ := κ) (ν := ν) (Sockets.configure fd) :=
  .bind (.setNonblocking fd) fun _ ↦ .setCloseOnExec fd

theorem allowIpv4 (fd : Fd) (family : Nat) :
    Candid (κ := κ) (ν := ν) (Sockets.allowIpv4 fd family) := by
  unfold Sockets.allowIpv4
  split
  · exact .demand (.sys (.setOption fd _ _ _)) (fun _ ↦ rfl) fun _ ↦ ⟨rfl, rfl⟩
  · exact .pure ()

theorem openPipe : Candid (Sockets.openPipe (κ := κ) (μ := Mark ν)) :=
  .bind (.demand (.sys .pipe) (fun _ ↦ rfl) fun _ ↦ ⟨rfl, rfl⟩) fun ends ↦
    .bind (.closing (.bind (.configure ends.1) fun _ ↦ .configure ends.2) _) fun _ ↦ .pure _

theorem openSocket (family : Nat) :
    Candid (Sockets.openSocket (κ := κ) (μ := Mark ν) family) :=
  .bind (.demand (.sys (.socket family)) (fun _ ↦ rfl) fun _ ↦ ⟨rfl, rfl⟩) fun fd ↦
    .bind (.closing (.configure fd) _) fun _ ↦ .pure _

theorem listenOn {text : String} (h : (SocketAddr.parse? text).isSome) :
    Candid (Sockets.listenOn (κ := κ) (μ := Mark ν) text) := by
  unfold Sockets.listenOn
  split
  · refine .bind (.openSocket _) fun fd ↦ .bind (.closing ?_ _) fun _ ↦ .pure _
    refine .bind (.demand (.sys (.setOption fd _ _ _)) (fun _ ↦ rfl) fun _ ↦ ⟨rfl, rfl⟩) fun _ ↦
      .bind (.allowIpv4 fd _) fun _ ↦ .bind ?_ fun _ ↦ ?_
    · exact .demand (.sys (.bind fd _)) (fun _ ↦ rfl) fun _ ↦ ⟨rfl, rfl⟩
    · exact .demand (.sys (.listen fd _)) (fun _ ↦ rfl) fun _ ↦ ⟨rfl, rfl⟩
  · rename_i hnone
    obtain ⟨addr, haddr⟩ := Option.isSome_iff_exists.1 h
    exact absurd haddr (hnone addr)

end Candid

namespace Sockets

variable [Kernel κ]

theorem listenOn_unreadable {text : String} (h : SocketAddr.parse? text = none)
    (o : Os κ (Mark ν)) : listenOn text o = (.error .invalidAddress, o) := by
  unfold listenOn
  rw [h]
  rfl

theorem localAddr_run (fd : Fd) (o : Os κ (Mark ν)) :
    localAddr fd o = match Os.call (.localName fd) o with
      | (.ok name, os) => (SockNameFormat.posix.decode name, os)
      | (.error e, os) => (.error (.os e), os) := by
  unfold localAddr
  rw [except_bind]
  unfold demand sys
  rcases Os.call (.localName fd) o with ⟨e | name, os⟩ <;> rfl

inductive AddressTold (fd : Fd) (o : Os κ (Mark ν)) :
    Except IoError SocketAddr × Os κ (Mark ν) → Prop where
  | told {name : Bytes} {addr : SocketAddr} {os : Os κ (Mark ν)}
      (hj : os.journal = .sys (.localName fd) (.ok name) :: o.journal)
      (hdecode : SockNameFormat.posix.decode name = .ok addr) : AddressTold fd o (.ok addr, os)
  | failed {e : IoError} {os : Os κ (Mark ν)} (hplain : Adds Entry.IsPlain o.journal os.journal)
      (h : FailsWith o.journal os.journal e) : AddressTold fd o (.error e, os)

theorem localAddr_told (fd : Fd) (o : Os κ (Mark ν)) : AddressTold fd o (localAddr fd o) := by
  have hj : (Os.call (.localName fd) o).2.journal =
    .sys (.localName fd) (Os.call (.localName fd) o).1 :: o.journal := rfl
  have hplain := localAddr_plain fd o
  rw [localAddr_run] at hplain ⊢
  generalize Os.call (.localName fd) o = out at hj hplain ⊢
  rcases out with ⟨e | name, os⟩
  all_goals
    dsimp only at hj hplain ⊢
    have hcloses : Closes os.journal os.journal := .refl os.journal
    nth_rewrite 1 [hj] at hcloses
  · exact .failed hplain (.call (.refl o.journal) ⟨rfl, rfl⟩ hcloses)
  · cases hd : SockNameFormat.posix.decode name with
    | ok addr => exact .told hj hd
    | error e => exact .failed hplain (.name (.refl o.journal) hd hcloses)

omit [Kernel κ] in
theorem AddressTold.plain {fd : Fd} {o : Os κ (Mark ν)}
    {out : Except IoError SocketAddr × Os κ (Mark ν)} (h : AddressTold fd o out) :
    Adds Entry.IsPlain o.journal out.2.journal := by
  cases h with
  | @told name addr os hj _ =>
    show Adds _ o.journal os.journal
    rw [hj]
    exact .single ⟨rfl, rfl, rfl, rfl⟩
  | failed hplain _ => exact hplain

end Sockets

inductive Builder.Built (b : Builder) (os : Os κ (Mark ν)) :
    Except Halt (Reactor κ π ν) × Os κ (Mark ν) → Prop where
  | built {r : Reactor κ π ν} (hsmooth : Smooth os.journal r.os.journal)
      (hopen : Journal.Brings [r.waker.receiver, r.waker.sender] os.journal r.os.journal)
      (hlistener : r.listener = none) : Built b os (.ok r, r.os)
  | unfit {f : Failure} (h : b.defaults.check = .error f) : Built b os (.error (.failure f), os)
  | poolless {h : Halt} (hdefaults : b.defaults.check = .ok ()) (hpool : b.pool = .error h) :
      Built b os (.error h, os)
  | pipeless {e : IoError} {os' : Os κ (Mark ν)}
      (hopen : ∀ fd, IsOpen fd os'.journal ↔ IsOpen fd os.journal)
      (hfails : FailsWith os.journal os'.journal e) :
      Built b os (.error (.failure (.poll e)), os')

theorem Builder.build_built [Kernel κ] (b : Builder) (app : π) (os : Os κ (Mark ν))
    (hf : Fresh (b.build app os).2.journal) : b.Built os (b.build app os) := by
  have hy := Sockets.openPipe_opening os.journal os (.refl _)
  have hc := Candid.openPipe os
  unfold build at hf ⊢
  cases hd : b.defaults.check with
  | error f => exact .unfit hd
  | ok _ =>
    cases hp : b.pool with
    | error h => exact .poolless hd hp
    | ok pool =>
      rw [hd, hp] at hf
      dsimp only at hf ⊢
      generalize Sockets.openPipe os = out at hy hc hf ⊢
      rcases out with ⟨e | ⟨receiver, sender⟩, os'⟩
      · exact .pipeless (fun fd ↦ by simpa using (hy.brings hf).open_iff fd) hc
      · exact .built hc (hy.brings hf) rfl

namespace Reactor

variable [Kernel κ] {r : Reactor κ π ν}

def Listens (r : Reactor κ π ν) : Prop := ∀ fd, r.listener = some fd → IsOpen fd r.os.journal

/-- Why a reactor does not take a listening socket over: a call failed, or it has another one, whose
address it asked for. -/
inductive Refuses (r : Reactor κ π ν) (j : Journal ν) : Failure → Prop where
  | io {e : IoError} (h : FailsWith r.os.journal j e) : Refuses r j (.io e)
  | bound {fd : Fd} {j₁ : Journal ν} {name : Bytes} {addr : SocketAddr}
      (hlistener : r.listener = some fd) (hsmooth : Smooth r.os.journal j₁)
      (hdecode : SockNameFormat.posix.decode name = .ok addr)
      (hcloses : Closes (.sys (.localName fd) (.ok name) :: j₁) j) :
      Refuses r j (.alreadyBound addr)

inductive HandedOver (fd : Fd) (r : Reactor κ π ν) :
    Except Failure Unit × Reactor κ π ν → Prop where
  | again (h : r.listener = some fd) : HandedOver fd r (.ok (), r)
  | taken {os : Os κ (Mark ν)} (h : r.listener = none) (hsmooth : Smooth r.os.journal os.journal)
      (hopen : ∀ fd', IsOpen fd' os.journal ↔ IsOpen fd' r.os.journal) :
      HandedOver fd r (.ok (), { r with os, listener := some fd })
  | refused {f : Failure} {os : Os κ (Mark ν)} (h : r.listener ≠ some fd)
      (hopen : ∀ fd', IsOpen fd' os.journal ↔ fd' ≠ fd ∧ IsOpen fd' r.os.journal)
      (hwhy : Refuses r os.journal f) : HandedOver fd r (.error f, { r with os })

omit [Kernel κ] in
theorem systemExcept_run (act : OsExcept κ (Mark ν) α) (r : Reactor κ π ν) :
    systemExcept act r = ((act r.os).1, { r with os := (act r.os).2 }) := rfl

theorem init_run_of_listener {fd l : Fd} (hl : r.listener = some l) (hfd : l ≠ fd) :
    init fd r = match Sockets.localAddr l r.os with
      | (.ok addr, os) =>
        (.error (.alreadyBound addr), { r with os := (attempt (.close fd) os).2 })
      | (.error e, os) => (.error (.io e), { r with os := (attempt (.close fd) os).2 }) := by
  unfold init
  rw [bind_run, get_run]
  conv_lhs => rw [hl]
  dsimp only
  rw [if_neg hfd, bind_run, systemExcept_run]
  rcases Sockets.localAddr l r.os with ⟨e | addr, os⟩ <;> rfl

theorem init_run_of_none {fd : Fd} (hl : r.listener = none) :
    init fd r = match Sockets.localAddr fd r.os with
      | (.ok _, os) => (.ok (), { r with os, listener := some fd })
      | (.error e, os) => (.error (.io e), { r with os := (attempt (.close fd) os).2 }) := by
  unfold init
  rw [bind_run, get_run]
  conv_lhs => rw [hl]
  dsimp only
  rw [bind_run, systemExcept_run]
  rcases Sockets.localAddr fd r.os with ⟨e | addr, os⟩ <;> rfl

theorem init_run_again {fd : Fd} (hl : r.listener = some fd) : init fd r = (.ok (), r) := by
  unfold init
  rw [bind_run, get_run]
  conv_lhs => rw [hl]
  dsimp only
  rw [if_pos rfl]
  rfl

theorem HandedOver.refused_closed {fd : Fd} {f : Failure} {os : Os κ (Mark ν)}
    (hne : r.listener ≠ some fd) (hplain : Adds Entry.IsPlain r.os.journal os.journal)
    (hwhy : Refuses r (attempt (.close fd) os).2.journal f) :
    HandedOver fd r (.error f, { r with os := (attempt (.close fd) os).2 }) :=
  .refused hne
    (fun _ ↦ Journal.isOpen_close.trans (and_congr_right fun _ ↦ Journal.isOpen_plain hplain)) hwhy

theorem init_handedOver (fd : Fd) (r : Reactor κ π ν) : HandedOver fd r (init fd r) := by
  by_cases hfd : r.listener = some fd
  · rw [init_run_again hfd]
    exact .again hfd
  · cases hl : r.listener with
    | some l =>
      -- There is a listening socket already: its name is asked for, and the new socket is closed.
      have hne : l ≠ fd := fun h ↦ hfd (hl.trans (congrArg some h))
      have htold := Sockets.localAddr_told l r.os
      rw [init_run_of_listener hl hne]
      generalize Sockets.localAddr l r.os = out at htold ⊢
      have hplain := htold.plain
      cases htold with
      | @told name addr os hj hdecode =>
        have hcloses := attempt_closes fd os
        rw [hj] at hcloses
        exact .refused_closed hfd hplain (.bound hl (.refl r.os.journal) hdecode hcloses)
      | @failed e os _ h =>
        exact .refused_closed hfd hplain (.io (h.closes (attempt_closes fd os)))
    | none =>
      have htold := Sockets.localAddr_told fd r.os
      rw [init_run_of_none hl]
      generalize Sockets.localAddr fd r.os = out at htold ⊢
      have hplain := htold.plain
      cases htold with
      | @told name addr os hj hdecode =>
        have hsmooth : Smooth r.os.journal os.journal := by
          rw [hj]
          exact .single rfl
        exact .taken hl hsmooth fun _ ↦ Journal.isOpen_plain hplain
      | @failed e os _ h =>
        exact .refused_closed hfd hplain (.io (h.closes (attempt_closes fd os)))

inductive Bound (text : String) (r : Reactor κ π ν) :
    Except Failure SocketAddr × Reactor κ π ν → Prop where
  | taken {fd : Fd} {addr : SocketAddr} {os : Os κ (Mark ν)} (h : r.listener = none)
      (hsmooth : Smooth r.os.journal os.journal)
      (hopen : Journal.Brings [fd] r.os.journal os.journal) :
      Bound text r (.ok addr, { r with os, listener := some fd })
  | unreadable (h : SocketAddr.parse? text = none) :
      Bound text r (.error (.io .invalidAddress), r)
  | refused {f : Failure} {os : Os κ (Mark ν)}
      (hopen : ∀ fd, IsOpen fd os.journal ↔ IsOpen fd r.os.journal)
      (hwhy : Refuses r os.journal f) : Bound text r (.error f, { r with os })

omit [Kernel κ] in
theorem Refuses.after {os : Os κ (Mark ν)} {j : Journal ν} {f : Failure}
    (h : Refuses { r with os } j f) (hs : Smooth r.os.journal os.journal) : Refuses r j f := by
  cases h with
  | io h => exact .io (h.after hs)
  | bound hlistener hsmooth hdecode hcloses =>
    exact .bound hlistener (hs.trans hsmooth) hdecode hcloses

omit [Kernel κ] in
theorem isOpen_brought {fd fd' : Fd} {j j' : Journal ν} (h : Journal.Brings [fd] j j') :
    fd' ≠ fd ∧ IsOpen fd' j' ↔ IsOpen fd' j := by
  have hnew := h.unused fd (List.mem_singleton_self fd)
  rw [h.open_iff, List.mem_singleton]
  constructor
  · rintro ⟨hne, rfl | hold⟩
    · exact absurd rfl hne
    · exact hold
  · intro hold
    refine ⟨?_, .inr hold⟩
    rintro rfl
    exact hnew hold

omit [Kernel κ] in
theorem HandedOver.bound {text : String} {fd : Fd} {addr : SocketAddr} {os : Os κ (Mark ν)}
    {out : Except Failure Unit × Reactor κ π ν} (h : HandedOver fd { r with os } out)
    (hl : r.listener ≠ some fd) (hs : Smooth r.os.journal os.journal)
    (hopen : Journal.Brings [fd] r.os.journal os.journal) :
    Bound text r (out.1.map fun _ ↦ addr, out.2) := by
  cases h with
  | again h => exact absurd h hl
  | @taken os' h hsmooth hsame =>
    exact .taken h (hs.trans hsmooth)
      ⟨hopen.nodup, hopen.unused, fun fd' ↦ (hsame fd').trans (hopen.open_iff fd')⟩
  | refused _ hclosed hwhy =>
    exact .refused (fun fd' ↦ (hclosed fd').trans (isOpen_brought hopen)) (hwhy.after hs)

theorem bind_run_of_failed {text : String} {e : IoError} {os : Os κ (Mark ν)}
    (h : Sockets.listenOn text r.os = (.error e, os)) :
    bind text r = (.error (.io e), { r with os }) := by
  unfold bind
  rw [bind_run, systemExcept_run, h]
  rfl

theorem bind_run_of_opened {text : String} {fd : Fd} {os : Os κ (Mark ν)}
    (h : Sockets.listenOn text r.os = (.ok fd, os)) :
    bind text r = match Sockets.localAddr fd os with
      | (.error e, os) => (.error (.io e), { r with os := (attempt (.close fd) os).2 })
      | (.ok addr, os) =>
        ((init fd { r with os }).1.map fun _ ↦ addr, (init fd { r with os }).2) := by
  unfold bind
  rw [bind_run, systemExcept_run, h]
  dsimp only
  rw [bind_run, systemExcept_run]
  rcases Sockets.localAddr fd os with ⟨e | addr, os'⟩
  · rfl
  · dsimp only
    rw [bind_run]
    rcases init fd { r with os := os' } with ⟨f | _, r'⟩ <;> rfl

theorem bind_bound {text : String} (hl : r.Listens) (hf : Fresh (bind text r).2.os.journal) :
    Bound text r (bind text r) := by
  cases hp : SocketAddr.parse? text with
  | none =>
    rw [bind_run_of_failed (Sockets.listenOn_unreadable hp r.os)]
    exact .unreadable hp
  | some addr =>
    have hc := Candid.listenOn (κ := κ) (ν := ν) (Option.isSome_of_eq_some hp) r.os
    have hy := Sockets.listenOn_opening text r.os.journal r.os (.refl _)
    cases ho : Sockets.listenOn text r.os with
    | mk opened os =>
      rw [ho] at hc hy
      cases opened with
      | error e =>
        rw [bind_run_of_failed ho] at hf ⊢
        exact .refused (fun fd ↦ by simpa using (hy.brings hf).open_iff fd) (.io hc)
      | ok fd =>
        rw [bind_run_of_opened ho] at hf ⊢
        have htold := Sockets.localAddr_told fd os
        generalize Sockets.localAddr fd os = out at hf htold ⊢
        have hplain := htold.plain
        cases htold with
        | @failed e os' _ h =>
          have hb := (hy.plain hplain).brings hf.2
          exact .refused (fun fd' ↦ Journal.isOpen_close.trans (isOpen_brought hb))
            (.io ((h.after hc).closes (attempt_closes fd os')))
        | @told name addr os' hj hdecode =>
          have hs : Smooth r.os.journal os'.journal := by
            rw [hj]
            exact hc.cons rfl
          have hf' := (init_relisten fd { r with os := os' }).journal.fresh hf
          have hb := (hy.plain hplain).brings hf'
          -- The new socket is not the one the reactor has, as that was open before.
          have hne : r.listener ≠ some fd := fun h ↦
            hb.unused fd (List.mem_singleton_self fd) (hl fd h)
          exact (init_handedOver fd { r with os := os' }).bound hne hs hb

omit [Kernel κ] in
theorem Bound.listens {text : String} {out : Except Failure SocketAddr × Reactor κ π ν}
    (h : Bound text r out) (hl : r.Listens) : out.2.Listens := by
  cases h with
  | @taken fd addr os _ _ hopen =>
    rintro fd' ⟨⟩
    exact (hopen.open_iff fd).2 (.inl (List.mem_singleton_self fd))
  | unreadable => exact hl
  | refused hopen _ => exact fun fd hfd ↦ (hopen fd).2 (hl fd hfd)

omit [Kernel κ] in
theorem HandedOver.listens {fd : Fd} {out : Except Failure Unit × Reactor κ π ν}
    (h : HandedOver fd r out) (hfd : IsOpen fd r.os.journal) (hl : r.Listens) :
    out.2.Listens := by
  cases h with
  | again => exact hl
  | taken _ _ hopen =>
    rintro fd' ⟨⟩
    exact (hopen fd).2 hfd
  | refused hne hopen _ =>
    intro l hl'
    refine (hopen l).2 ⟨?_, hl l hl'⟩
    rintro rfl
    exact hne hl'

end Reactor

namespace Estate

variable [Kernel κ] {P : Policy π ν} {outside : Phase π ν → Prop} {e : Estate κ π ν}

omit [Kernel κ] in
theorem Tidy.listens (h : Tidy e) {m : Moment κ π ν} (hm : e.tenure = .alive m) :
    m.reactor.Listens := by
  intro fd hfd
  have hc := h.custody
  unfold Estate.journal at hc
  rw [hm] at hc
  exact hc.opened ⟨.listener, hfd⟩

/-- A set-up that fails leaves everything as it was, closes what it opened or was handed, and tells
of the call that failed. -/
theorem Arises.set_up_atomic (h : Arises P outside e) :
    (∀ (b : Builder) (app : π) (os : Os κ (Mark ν)), Fresh (b.build app os).2.journal →
      b.Built os (b.build app os)) ∧
    ∀ r, e.tenure = .alive ⟨r, .idle⟩ →
      (∀ text, Fresh (Reactor.bind text r).2.os.journal →
        r.Bound text (Reactor.bind text r) ∧ (Reactor.bind text r).2.Listens) ∧
      ∀ fd, r.HandedOver fd (Reactor.init fd r) ∧
        (Fresh r.os.journal → fd ∈ e.spare ∨ r.listener = some fd →
          (Reactor.init fd r).2.Listens) := by
  refine ⟨Builder.build_built, fun r hr ↦ ?_⟩
  have hjournal : e.journal = r.os.journal := by
    rw [Estate.journal, hr]
    rfl
  have hl (hf : Fresh r.os.journal) : r.Listens := (h.tidy (hjournal ▸ hf)).listens hr
  constructor
  · intro text hf
    have hl := hl ((Reactor.SetUp.bind text).relisten.journal.fresh hf)
    have hb := Reactor.bind_bound hl hf
    exact ⟨hb, hb.listens hl⟩
  · intro fd
    have hi := Reactor.init_handedOver fd r
    refine ⟨hi, fun hf hfd ↦ hi.listens ?_ (hl hf)⟩
    rcases hfd with hfd | hfd
    · rw [← hjournal]
      exact (h.tidy (hjournal ▸ hf)).custody.opened_spare hfd
    · exact hl hf fd hfd

end Estate

namespace Visit

open Simulation

/-- Bound to the socket it was given, and the system will not tell the next but one name. -/
def secretive : Reactor World Unit Unit :=
  let r := (Reactor.adopt 1000 built).2
  { r with os.kernel := { r.os.kernel with
      faults := [⟨some .getsockname, none, .fail .eio, 1, 1⟩] } }

theorem secretive_arises : Estate.Arises policy (fun _ ↦ True) ⟨.alive ⟨secretive, .idle⟩, []⟩ := by
  refine ⟨⟨world, []⟩, rfl, .tail (.tail (.single ?_) (.adopt built [] 1000 (.inl ?_))) ?_⟩
  · exact .step (.build builder () ⟨world, []⟩ [])
  · decide +kernel
  · exact .step (.kernel (.alive ⟨(Reactor.adopt 1000 built).2, .idle⟩) [] secretive.os.kernel)

theorem secretive_atomic :
    Fresh (builder.build () (⟨world, []⟩ : Os World (Mark Unit))).2.journal ∧
    builder.Built ⟨world, []⟩ (builder.build () (⟨world, []⟩ : Os World (Mark Unit))) ∧
    Fresh (Reactor.bind "127.0.0.1:0" secretive).2.os.journal ∧
    secretive.Bound "127.0.0.1:0" (Reactor.bind "127.0.0.1:0" secretive) ∧
    (Reactor.bind "127.0.0.1:0" secretive).1 = .error (.io (.os .eio)) ∧
    Journal.closings 1003 (Reactor.bind "127.0.0.1:0" secretive).2.os.journal = 1 ∧
    (Reactor.bind "127.0.0.1:0" secretive).2.Listens ∧
    secretive.HandedOver 1000 (Reactor.init 1000 secretive) ∧
    (Reactor.init 1000 secretive).2.Listens := by
  obtain ⟨hbuild, hset⟩ := secretive_arises.set_up_atomic
  obtain ⟨hbind, hinit⟩ := hset secretive rfl
  have hf : Fresh (builder.build () (⟨world, []⟩ : Os World (Mark Unit))).2.journal := by
    decide +kernel
  have hf' : Fresh (Reactor.bind "127.0.0.1:0" secretive).2.os.journal := by decide +kernel
  obtain ⟨hbound, hl⟩ := hbind "127.0.0.1:0" hf'
  obtain ⟨hagain, hl'⟩ := hinit 1000
  exact ⟨hf, hbuild builder () _ hf, hf', hbound, by decide +kernel, by decide +kernel, hl,
    hagain, hl' (by decide +kernel) (.inr rfl)⟩

end Visit

end PollReactor
