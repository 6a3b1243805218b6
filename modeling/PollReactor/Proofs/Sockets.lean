import PollReactor.Proofs.Journal
import PollReactor.Proofs.Running
import PollReactor.Sockets

namespace PollReactor

def SysCall.isSetup : SysCall → Bool
  | read .. => false
  | write .. => false
  | recv .. => false
  | recvUrgent _ => false
  | send .. => false
  | shutdown _ => false
  | clock => false
  | _ => true

def Entry.isSetup {μ : Type} : Entry μ → Bool
  | .sys c _ => c.isSetup
  | .remark _ => false

/-- A call by which no descriptor comes or goes. -/
def Entry.IsPlain {ν : Type} (e : Entry (Mark ν)) : Prop :=
  e.isSetup ∧ e.opens = [] ∧ e.closes? = none ∧ e.adopts? = none

namespace Journal

variable {ν : Type}

/-- Between the two, the descriptors `fds` were opened; others were closed as soon as opened. -/
def Yields (fds : List Fd) (j j' : Journal ν) : Prop :=
  Adds (·.isSetup) j j' ∧
    (Fresh j' → (fds.Nodup ∧ ∀ fd ∈ fds, ¬ IsOpen fd j) ∧
      ∀ fd, IsOpen fd j' ↔ fd ∈ fds ∨ IsOpen fd j)

theorem Yields.refl (j : Journal ν) : Yields [] j j :=
  ⟨.refl j, fun _ ↦ ⟨⟨.nil, fun _ h ↦ by cases h⟩, fun fd ↦ by simp⟩⟩

theorem isOpen_plain {fd : Fd} {j j' : Journal ν} (h : Adds Entry.IsPlain j j') :
    IsOpen fd j' ↔ IsOpen fd j :=
  isOpen_minds (S := fun _ ↦ True) (h.mono fun _ ⟨_, ho, hc, ha⟩ ↦
    ⟨ho, hc, ha, fun _ _ ↦ trivial⟩)

theorem Yields.plain {fds : List Fd} {j j' j'' : Journal ν} (h : Yields fds j j')
    (hp : Adds Entry.IsPlain j' j'') : Yields fds j j'' := by
  refine ⟨h.1.trans (hp.mono fun e he ↦ he.1), ?_⟩
  intro hf
  obtain ⟨hn, ho⟩ := h.2 (hp.fresh hf)
  exact ⟨hn, fun fd ↦ (isOpen_plain hp).trans (ho fd)⟩

end Journal

open Journal

variable {κ ν : Type} [Kernel κ] {α β : Type}

theorem closeAll_journal (fds : List Fd) (o : Os κ (Mark ν)) :
    Adds (·.isSetup) o.journal (closeAll fds o).2.journal ∧
      ∀ fd, IsOpen fd (closeAll fds o).2.journal ↔ fd ∉ fds ∧ IsOpen fd o.journal := by
  induction fds generalizing o with
  | nil =>
    refine ⟨.refl _, ?_⟩
    intro fd
    show IsOpen fd o.journal ↔ fd ∉ [] ∧ IsOpen fd o.journal
    simp
  | cons fd fds ih =>
    obtain ⟨ha, ho⟩ := ih (attempt (.close fd) o).2
    have he : (closeAll (fd :: fds) o).2 = (closeAll fds (attempt (.close fd) o).2).2 := rfl
    rw [he]
    have h1 : Adds (·.isSetup) o.journal (attempt (.close fd) o).2.journal := .single rfl
    refine ⟨h1.trans ha, ?_⟩
    intro fd'
    rw [ho]
    show _ ∧ IsOpen fd' (.sys (.close fd) _ :: o.journal) ↔ _
    rw [isOpen_close, List.mem_cons]
    grind

theorem Journal.Yields.closed {fds : List Fd} {j : Journal ν} {o : Os κ (Mark ν)}
    (h : Yields fds j o.journal) : Yields [] j (closeAll fds o).2.journal := by
  obtain ⟨ha, hc⟩ := closeAll_journal fds o
  refine ⟨h.1.trans ha, fun hf ↦ ⟨⟨.nil, fun _ h ↦ by cases h⟩, ?_⟩⟩
  intro fd
  obtain ⟨⟨-, hn⟩, ho⟩ := h.2 (ha.fresh hf)
  rw [hc, ho]
  have := hn fd
  grind

def IsPlainAct (act : OsExcept κ (Mark ν) α) : Prop :=
  ∀ o, Adds Entry.IsPlain o.journal (act o).2.journal

/-- With the descriptors `fds` opened so far, the act goes on to hand some out, or to close them all
and fail. -/
def Opening (fds : List Fd) (act : OsExcept κ (Mark ν) α) (gives : α → List Fd) : Prop :=
  ∀ (j : Journal ν) (o : Os κ (Mark ν)), Yields fds j o.journal →
    match act o with
    | (.ok a, o') => Yields (gives a) j o'.journal
    | (.error _, o') => Yields [] j o'.journal

def IsPlainOn (fds : List Fd) (act : OsExcept κ (Mark ν) α) : Prop :=
  ∀ o, Adds (fun e ↦ e.IsPlain ∧ ∀ fd ∈ e.names, fd ∈ fds) o.journal (act o).2.journal

namespace IsPlainOn

variable {fds : List Fd} {fd : Fd}

omit [Kernel κ] in
theorem plain {act : OsExcept κ (Mark ν) α} (h : IsPlainOn fds act) : IsPlainAct act :=
  fun o ↦ (h o).mono fun _ he ↦ he.1

omit [Kernel κ] in
theorem minds {act : OsExcept κ (Mark ν) α} (h : IsPlainOn fds act) (o : Os κ (Mark ν)) :
    Adds (Entry.Minds (· ∈ fds)) o.journal (act o).2.journal :=
  (h o).mono fun _ ⟨⟨_, ho, hc, ha⟩, hn⟩ ↦ ⟨ho, hc, ha, hn⟩

omit [Kernel κ] in
theorem pure (a : α) : IsPlainOn fds (Pure.pure a : OsExcept κ (Mark ν) α) :=
  fun o ↦ .refl o.journal

omit [Kernel κ] in
theorem bind {x : OsExcept κ (Mark ν) α} {f : α → OsExcept κ (Mark ν) β} (hx : IsPlainOn fds x)
    (hf : ∀ a, IsPlainOn fds (f a)) : IsPlainOn fds (x >>= f) := by
  intro o
  have hx := hx o
  rw [except_bind]
  generalize x o = out at hx ⊢
  rcases out with ⟨e | a, o'⟩
  · exact hx
  · exact hx.trans (hf a o')

omit [Kernel κ] in
theorem demand {answer : OsM κ (Mark ν) (Except Errno α)} (entry : Except Errno α → Entry (Mark ν))
    (hj : ∀ o, (answer o).2.journal = entry (answer o).1 :: o.journal)
    (h : ∀ a, (entry a).IsPlain) (hn : ∀ a, (entry a).names = [fd]) (hfd : fd ∈ fds) :
    IsPlainOn fds (demand answer) := by
  intro o
  have hp : Adds (fun e : Entry (Mark ν) ↦ e.IsPlain ∧ ∀ fd ∈ e.names, fd ∈ fds) o.journal
      (answer o).2.journal := by
    rw [hj]
    refine .single ⟨h _, ?_⟩
    rw [hn]
    exact fun fd' hfd' ↦ List.mem_singleton.1 hfd' ▸ hfd
  unfold PollReactor.demand
  rcases he : answer o with ⟨e | a, o'⟩
  all_goals
    rw [he] at hp
    exact hp

theorem setNonblocking (h : fd ∈ fds) :
    IsPlainOn (κ := κ) (ν := ν) fds (Sockets.setNonblocking fd) :=
  .bind (.demand (.sys (.statusFlags fd)) (fun _ ↦ rfl) (fun _ ↦ ⟨rfl, rfl, rfl, rfl⟩)
      (fun _ ↦ rfl) h) fun _ ↦
    .demand (.sys (.setStatusFlags fd _)) (fun _ ↦ rfl) (fun _ ↦ ⟨rfl, rfl, rfl, rfl⟩)
      (fun _ ↦ rfl) h

theorem setCloseOnExec (h : fd ∈ fds) :
    IsPlainOn (κ := κ) (ν := ν) fds (Sockets.setCloseOnExec fd) :=
  .bind (.demand (.sys (.descriptorFlags fd)) (fun _ ↦ rfl) (fun _ ↦ ⟨rfl, rfl, rfl, rfl⟩)
      (fun _ ↦ rfl) h) fun _ ↦
    .demand (.sys (.setDescriptorFlags fd _)) (fun _ ↦ rfl) (fun _ ↦ ⟨rfl, rfl, rfl, rfl⟩)
      (fun _ ↦ rfl) h

theorem configure (h : fd ∈ fds) : IsPlainOn (κ := κ) (ν := ν) fds (Sockets.configure fd) :=
  .bind (.setNonblocking h) fun _ ↦ .setCloseOnExec h

theorem allowIpv4 (h : fd ∈ fds) (family : Nat) :
    IsPlainOn (κ := κ) (ν := ν) fds (Sockets.allowIpv4 fd family) := by
  unfold Sockets.allowIpv4
  split
  · exact .demand (.sys (.setOption fd _ _ _)) (fun _ ↦ rfl) (fun _ ↦ ⟨rfl, rfl, rfl, rfl⟩)
      (fun _ ↦ rfl) h
  · exact .pure ()

omit [Kernel κ] in
theorem decodeName (name : Bytes) : IsPlainOn (κ := κ) (ν := ν) fds (Sockets.decodeName name) :=
  fun o ↦ .refl o.journal

theorem prepareListener (h : fd ∈ fds) (family : Nat) (name : Bytes) :
    IsPlainOn (κ := κ) (ν := ν) fds (do
      PollReactor.demand (sys (.setOption fd Sockets.socketLevel Sockets.reuseAddress 1))
      Sockets.allowIpv4 fd family
      PollReactor.demand (sys (.bind fd name))
      PollReactor.demand (sys (.listen fd Sockets.backlog))) := by
  refine .bind (.demand (.sys (.setOption fd _ _ _)) (fun _ ↦ rfl) (fun _ ↦ ⟨rfl, rfl, rfl, rfl⟩)
    (fun _ ↦ rfl) h) fun _ ↦ .bind (.allowIpv4 h _) fun _ ↦ .bind ?_ fun _ ↦ ?_
  · exact .demand (.sys (.bind fd _)) (fun _ ↦ rfl) (fun _ ↦ ⟨rfl, rfl, rfl, rfl⟩)
      (fun _ ↦ rfl) h
  · exact .demand (.sys (.listen fd _)) (fun _ ↦ rfl) (fun _ ↦ ⟨rfl, rfl, rfl, rfl⟩)
      (fun _ ↦ rfl) h

theorem localAddr (h : fd ∈ fds) : IsPlainOn (κ := κ) (ν := ν) fds (Sockets.localAddr fd) :=
  .bind (.demand (.sys (.localName fd)) (fun _ ↦ rfl) (fun _ ↦ ⟨rfl, rfl, rfl, rfl⟩)
    (fun _ ↦ rfl) h) fun name ↦ .decodeName name

end IsPlainOn

namespace Opening

variable {fds : List Fd} {gives : α → List Fd}

omit [Kernel κ] in
theorem pure {a : α} (h : gives a = fds) :
    Opening fds (Pure.pure a : OsExcept κ (Mark ν) α) gives := by
  intro j o hy
  show Yields (gives a) j o.journal
  rw [h]
  exact hy

omit [Kernel κ] in
theorem fail (e : IoError) : Opening [] (throw e : OsExcept κ (Mark ν) α) gives :=
  fun _ _ hy ↦ hy

omit [Kernel κ] in
theorem bind {x : OsExcept κ (Mark ν) β} {held : β → List Fd} {f : β → OsExcept κ (Mark ν) α}
    (hx : Opening fds x held) (hf : ∀ b, Opening (held b) (f b) gives) :
    Opening fds (x >>= f) gives := by
  intro j o hy
  have hx := hx j o hy
  rw [except_bind]
  generalize x o = out at hx ⊢
  rcases out with ⟨e | b, o'⟩
  · exact hx
  · exact hf b j o' hx

theorem closing {act : OsExcept κ (Mark ν) α} (h : IsPlainOn fds act) :
    Opening fds (closingOnError fds act) fun _ ↦ fds := by
  intro j o hy
  have h := h.plain o
  unfold closingOnError
  generalize act o = out at h ⊢
  rcases out with ⟨e | a, o'⟩
  · exact (hy.plain h).closed
  · exact hy.plain h

omit [Kernel κ] in
theorem demand {answer : OsM κ (Mark ν) (Except Errno α)} (entry : Except Errno α → Entry (Mark ν))
    (hj : ∀ o, (answer o).2.journal = entry (answer o).1 :: o.journal)
    (h : ∀ a, (entry a).isSetup ∧ (entry a).closes? = none ∧ (entry a).adopts? = none ∧
      (entry a).opens = match a with
        | .ok a => gives a
        | .error _ => []) : Opening [] (demand answer) gives := by
  intro j o hy
  obtain ⟨hs, hc, ha, ho⟩ := h (answer o).1
  have hy' : Yields (entry (answer o).1).opens j (answer o).2.journal := by
    rw [hj]
    refine ⟨hy.1.cons hs, ?_⟩
    intro hf
    obtain ⟨⟨hn, hfresh⟩, hf⟩ := hf
    have hiff := (hy.2 hf).2
    simp only [List.not_mem_nil, false_or] at hiff
    refine ⟨⟨hn, fun fd hfd ↦ by rw [← hiff]; exact hfresh fd hfd⟩, ?_⟩
    intro fd
    simp [Journal.IsOpen, hc, ha, hiff]
  unfold PollReactor.demand
  rcases he : answer o with ⟨e | a, o'⟩
  all_goals
    rw [he] at ho hy'
    rw [ho] at hy'
    exact hy'

end Opening

namespace Sockets

theorem openPipe_opening :
    Opening [] (openPipe (κ := κ) (μ := Mark ν)) fun ends ↦ [ends.1, ends.2] := by
  have hpipe : Opening [] (demand (sys (κ := κ) (μ := Mark ν) .pipe))
      fun ends ↦ [ends.1, ends.2] := by
    refine .demand (.sys .pipe) (fun _ ↦ rfl) fun a ↦ ⟨rfl, rfl, rfl, ?_⟩
    rcases a with e | ⟨receiver, sender⟩ <;> rfl
  exact hpipe.bind fun ends ↦
    .bind (.closing (.bind (.configure List.mem_cons_self) fun _ ↦
      .configure (List.mem_cons_of_mem _ List.mem_cons_self))) fun _ ↦ .pure rfl

theorem openSocket_opening (family : Nat) :
    Opening [] (openSocket (κ := κ) (μ := Mark ν) family) fun fd ↦ [fd] := by
  have hsocket : Opening [] (demand (sys (κ := κ) (μ := Mark ν) (.socket family)))
      fun fd ↦ [fd] := by
    refine .demand (.sys (.socket family)) (fun _ ↦ rfl) fun a ↦ ⟨rfl, rfl, rfl, ?_⟩
    rcases a with e | fd <;> rfl
  exact hsocket.bind fun fd ↦
    .bind (.closing (.configure List.mem_cons_self)) fun _ ↦ .pure rfl

theorem listenOn_opening (text : String) :
    Opening [] (listenOn (κ := κ) (μ := Mark ν) text) fun fd ↦ [fd] := by
  unfold listenOn
  split
  · exact .bind (openSocket_opening _) fun fd ↦
      .bind (.closing (.prepareListener List.mem_cons_self _ _)) fun _ ↦ .pure rfl
  · exact .fail _

theorem localAddr_plain (fd : Fd) : IsPlainAct (localAddr (κ := κ) (μ := Mark ν) fd) :=
  (IsPlainOn.localAddr (List.mem_singleton_self fd)).plain

theorem accept_opening (fd : Fd) :
    Opening [] (accept (κ := κ) (μ := Mark ν) fd) fun peer ↦ [peer.1] := by
  have haccept : Opening [] (demand (sys (κ := κ) (μ := Mark ν) (.accept fd)))
      fun peer ↦ [peer.1] := by
    refine .demand (.sys (.accept fd)) (fun _ ↦ rfl) fun a ↦ ⟨rfl, rfl, rfl, ?_⟩
    rcases a with e | ⟨client, name⟩ <;> rfl
  exact haccept.bind fun peer ↦
    .bind (.closing (.configure List.mem_cons_self)) fun _ ↦
      .bind (.closing (.decodeName peer.2)) fun _ ↦ .pure rfl

theorem adopt_plain (fd : Fd) (o : Os κ (Mark ν)) :
    Adds Entry.IsPlain o.journal (adopt fd o).2.journal :=
  (IsPlainOn.setNonblocking (List.mem_singleton_self fd)).plain o

theorem adoptOwned_plain (fd : Fd) :
    IsPlainOn (κ := κ) (ν := ν) [fd] (demand (sys (.setNonblocking fd))) :=
  .demand (.sys (.setNonblocking fd)) (fun _ ↦ rfl) (fun _ ↦ ⟨rfl, rfl, rfl, rfl⟩) (fun _ ↦ rfl)
    List.mem_cons_self

theorem adoptOwned_journal (fd : Fd) (o : Os κ (Mark ν)) : match adoptOwned fd o with
    | (.ok fd', o') => fd' = fd ∧ Adds Entry.IsPlain o.journal o'.journal
    | (.error _, o') => Adds (·.isSetup) o.journal o'.journal ∧
        ∀ fd', IsOpen fd' o'.journal ↔ fd' ≠ fd ∧ IsOpen fd' o.journal := by
  have hp := (adoptOwned_plain (κ := κ) (ν := ν) fd).plain o
  unfold adoptOwned
  generalize demand (sys (.setNonblocking fd)) o = out at hp ⊢
  rcases out with ⟨e | ⟨⟩, o'⟩
  · have hs : Adds (·.isSetup) o.journal o'.journal := hp.mono fun e he ↦ he.1
    refine ⟨(hs.cons rfl).cons rfl, ?_⟩
    intro fd'
    rw [← isOpen_plain hp]
    show IsOpen fd' (.sys (.close fd) _ :: .sys (.descriptorFlags fd) _ :: o'.journal) ↔ _
    rw [isOpen_close]
    exact and_congr_right fun _ ↦ isOpen_plain (.single ⟨rfl, rfl, rfl, rfl⟩)
  · exact ⟨rfl, hp⟩

end Sockets

end PollReactor
