import PollReactor.Proofs.Holding

namespace PollReactor

def Entry.OfSetup {ν : Type} (e : Entry (Mark ν)) : Prop := e.isSetup ∨ e.adopts?.isSome

section

open Journal (Adds)

variable {κ ν α : Type} {act : OsExcept κ (Mark ν) α}

theorem IsPlainAct.setup (h : IsPlainAct act) (o : Os κ (Mark ν)) :
    Adds Entry.OfSetup o.journal (act o).2.journal := (h o).mono fun _ he ↦ .inl he.1

theorem Opening.setup {gives : α → List Fd} (h : Opening [] act gives) (o : Os κ (Mark ν)) :
    Adds Entry.OfSetup o.journal (act o).2.journal := by
  have hy := h o.journal o (.refl _)
  generalize act o = out at hy ⊢
  rcases out with ⟨_ | _, os⟩
  · exact hy.1.mono fun _ ↦ .inl
  · exact hy.1.mono fun _ ↦ .inl

theorem Sockets.adoptOwned_setup [Kernel κ] (fd : Fd) (o : Os κ (Mark ν)) :
    Adds Entry.OfSetup o.journal (adoptOwned fd o).2.journal := by
  have h := adoptOwned_journal fd o
  generalize adoptOwned fd o = out at h ⊢
  rcases out with ⟨_ | _, os⟩
  · exact h.1.mono fun _ ↦ .inl
  · exact h.2.mono fun _ he ↦ .inl he.1

end

namespace Reactor

open Journal (Adds IsOpen Fresh Yields)

variable {κ π ν : Type} {r r' : Reactor κ π ν} {hand : Option (Token Stream)}

def Relisten (r r' : Reactor κ π ν) : Prop :=
  ∃ os listener, r' = { r with os, listener } ∧ Adds Entry.OfSetup r.os.journal os.journal

theorem Relisten.refl (r : Reactor κ π ν) : Relisten r r := ⟨r.os, r.listener, rfl, .refl _⟩

theorem Relisten.trans {r'' : Reactor κ π ν} (h : Relisten r r') (h' : Relisten r' r'') :
    Relisten r r'' := by
  obtain ⟨os, listener, rfl, hj⟩ := h
  obtain ⟨os', listener', rfl, hj'⟩ := h'
  exact ⟨os', listener', rfl, hj.trans hj'⟩

theorem Relisten.journal (h : Relisten r r') : Adds Entry.OfSetup r.os.journal r'.os.journal := by
  obtain ⟨os, listener, rfl, hj⟩ := h
  exact hj

theorem Relisten.holding (h : Relisten r r') (hh : Holding r hand) : Holding r' hand := by
  obtain ⟨os, listener, rfl, -⟩ := h
  exact ⟨hh.kept, hh.parked, hh.nodup, hh.live_iff, hh.out, hh.apart⟩

theorem Ledger.os (h : Ledger r hand) {os : Os κ (Mark ν)}
    (hopen : ∀ o fd, r.owned hand o = some fd → IsOpen fd r.os.journal → IsOpen fd os.journal) :
    Ledger { r with os } hand :=
  h.pass id (fun _ _ ho ↦ ho) (fun _ _ _ _ h ↦ h) fun o fd ho ↦ hopen o fd ho

theorem relisten_plain {α : Type} {act : OsExcept κ (Mark ν) α} (h : IsPlainAct act)
    (r : Reactor κ π ν) : Relisten r (systemExcept act r).2 :=
  ⟨_, r.listener, rfl, h.setup r.os⟩

theorem ledger_plain {α : Type} {act : OsExcept κ (Mark ν) α} (hp : IsPlainAct act)
    (h : Ledger r hand) : Ledger (systemExcept act r).2 hand :=
  h.os fun _ _ _ hopen ↦ (Journal.isOpen_plain (hp r.os)).2 hopen

/-- The descriptor is open and nobody's. -/
def Loose (r : Reactor κ π ν) (hand : Option (Token Stream)) (fd : Fd) : Prop :=
  IsOpen fd r.os.journal ∧ ∀ o, r.owned hand o ≠ some fd

theorem loose_plain {α : Type} {act : OsExcept κ (Mark ν) α} (hp : IsPlainAct act) {fd : Fd}
    (h : Loose r hand fd) : Loose (systemExcept act r).2 hand fd :=
  ⟨(Journal.isOpen_plain (hp r.os)).2 h.1, fun o ho ↦ h.2 o ho⟩

variable [Kernel κ]

theorem relisten_close (fd : Fd) (r : Reactor κ π ν) :
    Relisten r (system (attempt (.close fd)) r).2 :=
  ⟨_, r.listener, rfl, .single (.inl rfl)⟩

theorem ledger_close {fd : Fd} (h : Ledger r hand) (hfd : ∀ o, r.owned hand o ≠ some fd) :
    Ledger (system (attempt (.close fd)) r).2 hand := by
  apply h.os
  intro o fd' ho hopen
  show IsOpen fd' (.sys (.close fd) _ :: r.os.journal)
  exact Journal.isOpen_close.2 ⟨fun he ↦ hfd o (he ▸ ho), hopen⟩

def accepted (fd : Fd) : Except IoError Net.SocketAddr × Reactor κ π ν → Reactor κ π ν
  | (.ok _, r) => { r with listener := some fd }
  | (.error _, r) => (system (attempt (.close fd)) r).2

theorem init_run (fd : Fd) (r : Reactor κ π ν) : (init fd r).2 = match r.listener with
    | some bound => if bound = fd then r
      else (system (attempt (.close fd)) (systemExcept (Sockets.localAddr bound) r).2).2
    | none => accepted fd (systemExcept (Sockets.localAddr fd) r) := by
  unfold init
  rw [bind_run, get_run]
  cases r.listener with
  | some bound =>
    dsimp only
    split_ifs
    · rfl
    · rw [bind_run]
      rcases systemExcept (Sockets.localAddr bound) r with ⟨_ | _, r'⟩ <;> rfl
  | none =>
    dsimp only
    rw [bind_run]
    rcases systemExcept (Sockets.localAddr fd) r with ⟨_ | _, r'⟩ <;> rfl

theorem init_relisten (fd : Fd) (r : Reactor κ π ν) : Relisten r (init fd r).2 := by
  have hplain (fd : Fd) := relisten_plain (Sockets.localAddr_plain fd) r
  rw [init_run]
  cases r.listener with
  | some bound =>
    dsimp only
    split_ifs
    · exact .refl r
    · exact (hplain bound).trans (relisten_close fd _)
  | none =>
    have h := hplain fd
    dsimp only
    generalize systemExcept (Sockets.localAddr fd) r = out at h ⊢
    rcases out with ⟨_ | _, r'⟩
    · exact h.trans (relisten_close fd r')
    · exact h.trans ⟨r'.os, some fd, rfl, .refl _⟩

theorem init_ledger {fd : Fd} (h : Ledger r hand) (hopen : IsOpen fd r.os.journal)
    (hfd : ∀ o, r.owned hand o = some fd → o = .listener) : Ledger (init fd r).2 hand := by
  have hplain (fd : Fd) : Ledger (systemExcept (Sockets.localAddr fd) r).2 hand :=
    ledger_plain (Sockets.localAddr_plain fd) h
  rw [init_run]
  cases hl : r.listener with
  | some bound =>
    dsimp only
    split_ifs with hb
    · exact h
    · refine ledger_close (hplain bound) fun o ho ↦ hb ?_
      have ho : r.owned hand o = some fd := ho
      have hol := hfd o ho
      rw [hol] at ho
      exact Option.some.inj (hl.symm.trans ho)
  | none =>
    have hnot (o : Owner) : r.owned hand o ≠ some fd := by
      intro ho
      rw [hfd o ho] at ho
      cases hl.symm.trans ho
    have hp := hplain fd
    have hfr : (systemExcept (Sockets.localAddr fd) r).2 =
      { r with os := (Sockets.localAddr fd r.os).2 } := rfl
    have hopen' : IsOpen fd (systemExcept (Sockets.localAddr fd) r).2.os.journal :=
      (Journal.isOpen_plain (Sockets.localAddr_plain fd r.os)).2 hopen
    have hnot' (o : Owner) : (systemExcept (Sockets.localAddr fd) r).2.owned hand o ≠ some fd := by
      intro ho
      exact hnot o ho
    dsimp only
    generalize systemExcept (Sockets.localAddr fd) r = out at hp hopen' hnot' ⊢
    rcases out with ⟨_ | _, r'⟩
    · exact ledger_close hp hnot'
    · refine hp.gain .listener fd ?_ (fun o ho ↦ absurd ho (hnot' o)) hopen' fun _ _ _ h ↦ h
      intro o fd' ho
      cases o with
      | listener => exact .inl ⟨rfl, (Option.some.inj ho).symm⟩
      | _ => exact .inr ho

section

variable {α : Type} {act : OsExcept κ (Mark ν) α} {gives : α → List Fd}

omit [Kernel κ] in
theorem relisten_opening (ho : Opening [] act gives) (r : Reactor κ π ν) :
    Relisten r (systemExcept act r).2 := ⟨_, r.listener, rfl, ho.setup r.os⟩

omit [Kernel κ] in
theorem ledger_opening (ho : Opening [] act gives) (h : Ledger r hand)
    (hf : Fresh (systemExcept act r).2.os.journal) : Ledger (systemExcept act r).2 hand := by
  have hy := ho r.os.journal r.os (.refl _)
  apply h.os
  intro o fd _ hopen
  show IsOpen fd (act r.os).2.journal
  replace hf : Fresh (act r.os).2.journal := hf
  generalize act r.os = out at hy hf ⊢
  rcases out with ⟨_ | _, os⟩
  · exact ((hy.2 hf).2 fd).2 (.inr hopen)
  · exact ((hy.2 hf).2 fd).2 (.inr hopen)

omit [Kernel κ] in
theorem opening_unowned (ho : Opening [] act gives) (h : Ledger r hand) {a : α} {r' : Reactor κ π ν}
    (hr : systemExcept act r = (.ok a, r')) (hf : Fresh r'.os.journal) {fd : Fd}
    (hfd : fd ∈ gives a) : Loose r' hand fd := by
  have hy := ho r.os.journal r.os (.refl _)
  obtain ⟨h1, rfl⟩ := Prod.mk.inj hr
  replace h1 : (act r.os).1 = .ok a := h1
  replace hf : Fresh (act r.os).2.journal := hf
  have hown (o : Owner) (ho : r.owned hand o = some fd) : IsOpen fd r.os.journal := h.opened o fd ho
  show IsOpen fd (act r.os).2.journal ∧ _
  generalize (act r.os) = out at hy h1 hf ⊢
  rcases out with ⟨_ | a', os⟩
  · cases h1
  · obtain rfl := Except.ok.inj h1
    obtain ⟨⟨-, hn⟩, hiff⟩ := hy.2 hf
    exact ⟨(hiff fd).2 (.inl hfd), fun o ho ↦ hn fd hfd (hown o ho)⟩

end

theorem closeListener_run (r : Reactor κ π ν) : (closeListener r).2 = match r.listener with
    | none => r
    | some fd => (system (attempt (.close fd)) { r with listener := none }).2 := by
  unfold closeListener
  rw [bind_run, get_run]
  cases r.listener <;> rfl

theorem closeListener_relisten (r : Reactor κ π ν) : Relisten r (closeListener r).2 := by
  rw [closeListener_run]
  cases r.listener with
  | none => exact .refl r
  | some fd =>
    have h : Relisten r { r with listener := none } := ⟨r.os, none, rfl, .refl _⟩
    exact h.trans (relisten_close fd _)

theorem closeListener_ledger (h : Ledger r hand) : Ledger (closeListener r).2 hand := by
  rw [closeListener_run]
  cases hl : r.listener with
  | none => exact h
  | some fd =>
    have hsub (o : Owner) (fd' : Fd) (ho : owned { r with listener := none } hand o = some fd') :
        o ≠ .listener ∧ r.owned hand o = some fd' := by
      cases o with
      | listener => cases ho
      | _ => exact ⟨nofun, ho⟩
    have h' : Ledger { r with listener := none } hand :=
      h.pass id (fun o fd' ho ↦ (hsub o fd' ho).2) (fun _ _ _ _ h ↦ h) fun _ _ _ h ↦ h
    apply ledger_close h'
    intro o ho
    obtain ⟨hne, ho⟩ := hsub o fd ho
    exact hne (h.apart o .listener fd ho hl)

/-- Opens a socket, or takes one over, and goes on with it. -/
def opened (next : Fd → Reactor κ π ν → Reactor κ π ν) :
    Except IoError Fd × Reactor κ π ν → Reactor κ π ν
  | (.ok fd, r) => next fd r
  | (.error _, r) => r

def bound (fd : Fd) : Except IoError Net.SocketAddr × Reactor κ π ν → Reactor κ π ν
  | (.ok _, r) => (init fd r).2
  | (.error _, r) => (system (attempt (.close fd)) r).2

theorem bind_eq (text : String) (r : Reactor κ π ν) : (bind text r).2 =
    opened (fun fd r ↦ bound fd (systemExcept (Sockets.localAddr fd) r))
      (systemExcept (Sockets.listenOn text) r) := by
  unfold bind
  rw [bind_run]
  rcases systemExcept (Sockets.listenOn text) r with ⟨_ | fd, r'⟩
  · rfl
  · dsimp only [opened]
    rw [bind_run]
    rcases systemExcept (Sockets.localAddr fd) r' with ⟨_ | addr, r''⟩
    · rfl
    · dsimp only [bound]
      rw [bind_run]
      rcases init fd r'' with ⟨_ | _, out⟩ <;> rfl

theorem listen_eq (text : String) (r : Reactor κ π ν) : (listen text r).2 =
    opened (fun fd r ↦ (init fd r).2) (systemExcept (Sockets.listenOn text) r) := by
  unfold listen
  rw [bind_run]
  rcases systemExcept (Sockets.listenOn text) r with ⟨_ | fd, r'⟩ <;> rfl

theorem adoptOwned_eq (fd : Fd) (r : Reactor κ π ν) : (adoptOwned fd r).2 =
    opened (fun fd r ↦ (init fd r).2)
      (systemExcept (Sockets.adoptOwned fd) (remark (.adopted fd) r).2) := by
  unfold adoptOwned
  rw [bind_run, bind_run]
  rcases systemExcept (Sockets.adoptOwned fd) (remark (.adopted fd) r).2 with ⟨_ | fd, r'⟩ <;> rfl

theorem localAddr_eq (r : Reactor κ π ν) : (localAddr r).2 = match r.listener with
    | none => r
    | some fd => (systemExcept (Sockets.localAddr fd) r).2 := by
  unfold localAddr
  rw [bind_run, get_run]
  cases r.listener <;> rfl

omit [Kernel κ] in
theorem relisten_adopted (fd : Fd) (r : Reactor κ π ν) :
    Relisten r (remark (.adopted fd) r).2 :=
  ⟨_, r.listener, rfl, .single (.inr rfl)⟩

theorem relisten_adoptOwned (fd : Fd) (r : Reactor κ π ν) :
    Relisten r (systemExcept (Sockets.adoptOwned fd) r).2 :=
  ⟨_, r.listener, rfl, Sockets.adoptOwned_setup fd r.os⟩

omit [Kernel κ] in
theorem relisten_opened {next : Fd → Reactor κ π ν → Reactor κ π ν}
    (hn : ∀ fd r, Relisten r (next fd r)) {act : OsExcept κ (Mark ν) Fd}
    (h : Relisten r (systemExcept act r).2) : Relisten r (opened next (systemExcept act r)) := by
  generalize systemExcept act r = out at h ⊢
  rcases out with ⟨_ | fd, r₁⟩
  · exact h
  · exact h.trans (hn fd r₁)

theorem relisten_bound (fd : Fd) (r : Reactor κ π ν) :
    Relisten r (bound fd (systemExcept (Sockets.localAddr fd) r)) := by
  have h := relisten_plain (Sockets.localAddr_plain fd) r
  generalize systemExcept (Sockets.localAddr fd) r = out at h ⊢
  rcases out with ⟨_ | _, r₁⟩
  · exact h.trans (relisten_close fd r₁)
  · exact h.trans (init_relisten fd r₁)

theorem SetUp.relisten (h : r.SetUp r') : Relisten r r' := by
  cases h with
  | bind text =>
    rw [bind_eq]
    exact relisten_opened relisten_bound (relisten_opening (Sockets.listenOn_opening text) r)
  | listen text =>
    rw [listen_eq]
    exact relisten_opened init_relisten (relisten_opening (Sockets.listenOn_opening text) r)
  | init fd => exact init_relisten fd r
  | adopt fd =>
    have h := relisten_adopted fd r
    have h' : Relisten (remark (.adopted fd) r).2
        (system (Sockets.adopt fd) (remark (.adopted fd) r).2).2 :=
      ⟨_, r.listener, rfl, (Sockets.adopt_plain fd _).mono fun _ he ↦ .inl he.1⟩
    exact (h.trans h').trans (init_relisten _ _)
  | adoptOwned fd =>
    rw [adoptOwned_eq]
    have h := relisten_opened init_relisten (relisten_adoptOwned fd (remark (.adopted fd) r).2)
    exact (relisten_adopted fd r).trans h
  | localAddr =>
    rw [localAddr_eq]
    cases r.listener with
    | none => exact .refl r
    | some fd => exact relisten_plain (Sockets.localAddr_plain fd) r

omit [Kernel κ] in
theorem only_listener {fd : Fd} (h : Ledger r none) (hfd : ¬ r.Owns fd ∨ r.listener = some fd)
    (o : Owner) (ho : r.owned none o = some fd) : o = .listener := by
  rcases hfd with hfd | hfd
  · exact absurd (owns_iff.2 ⟨o, ho⟩) hfd
  · exact h.apart o .listener fd ho hfd

omit [Kernel κ] in
theorem ledger_adopted (fd : Fd) (h : Ledger r hand) : Ledger (remark (.adopted fd) r).2 hand :=
  h.os fun _ _ _ hopen ↦ hopen.cons rfl

theorem loose_ledger {fd : Fd} (h : Ledger r hand) (hfd : Loose r hand fd) :
    Ledger (init fd r).2 hand :=
  init_ledger h hfd.1 fun o ho ↦ absurd ho (hfd.2 o)

theorem ledger_bound {fd : Fd} (h : Ledger r hand) (hfd : Loose r hand fd) :
    Ledger (bound fd (systemExcept (Sockets.localAddr fd) r)) hand := by
  have hp := Sockets.localAddr_plain (κ := κ) (ν := ν) fd
  have hl : Ledger (systemExcept (Sockets.localAddr fd) r).2 hand := ledger_plain hp h
  replace hfd : Loose (systemExcept (Sockets.localAddr fd) r).2 hand fd := loose_plain hp hfd
  generalize systemExcept (Sockets.localAddr fd) r = out at hl hfd ⊢
  rcases out with ⟨_ | _, r₁⟩
  · exact ledger_close hl hfd.2
  · exact loose_ledger hl hfd

theorem ledger_opened {next : Fd → Reactor κ π ν → Reactor κ π ν}
    (hn : ∀ fd r, Relisten r (next fd r))
    (hl : ∀ {fd r}, Ledger r hand → Loose r hand fd → Ledger (next fd r) hand) (text : String)
    (h : Ledger r hand)
    (hf : Fresh (opened next (systemExcept (Sockets.listenOn text) r)).os.journal) :
    Ledger (opened next (systemExcept (Sockets.listenOn text) r)) hand := by
  have ho := Sockets.listenOn_opening (κ := κ) (ν := ν) text
  have h1 (hf) := ledger_opening (r := r) ho h hf
  have h2 (fd : Fd) (r₁ : Reactor κ π ν)
      (hr : systemExcept (Sockets.listenOn text) r = (.ok fd, r₁))
      (hf : Fresh r₁.os.journal) : Loose r₁ hand fd :=
    opening_unowned ho h hr hf List.mem_cons_self
  generalize systemExcept (Sockets.listenOn text) r = out at h1 h2 hf ⊢
  rcases out with ⟨_ | fd, r₁⟩
  · exact h1 hf
  · have hf₁ : Fresh r₁.os.journal := (hn fd r₁).journal.fresh hf
    exact hl (h1 hf₁) (h2 fd r₁ rfl hf₁)

theorem adopt_ledger {fd : Fd} (h : Ledger r none) (hfd : ¬ r.Owns fd ∨ r.listener = some fd) :
    Ledger (adopt fd r).2 none := by
  have hplain := Sockets.adopt_plain fd (remark (κ := κ) (π := π) (ν := ν) (.adopted fd) r).2.os
  have hl : Ledger (system (Sockets.adopt fd) (remark (.adopted fd) r).2).2 none :=
    (ledger_adopted fd h).os fun _ _ _ hopen ↦ (Journal.isOpen_plain hplain).2 hopen
  refine init_ledger hl ?_ fun o ho ↦ only_listener h hfd o ho
  exact (Journal.isOpen_plain hplain).2 (.inr (.inl rfl))

theorem adoptOwned_ledger {fd : Fd} (h : Ledger r none) (hfd : ¬ r.Owns fd) :
    Ledger (adoptOwned fd r).2 none := by
  have h1 := ledger_adopted fd h
  have hnot (o : Owner) : (remark (.adopted fd) r).2.owned none o ≠ some fd := by
    intro ho
    exact hfd (owns_iff.2 ⟨o, ho⟩)
  have hopen : IsOpen fd (remark (κ := κ) (.adopted fd) r).2.os.journal := .inr (.inl rfl)
  rw [adoptOwned_eq]
  generalize (remark (.adopted fd) r).2 = r₁ at h1 hnot hopen
  have h2 := Sockets.adoptOwned_journal fd r₁.os
  have he : systemExcept (Sockets.adoptOwned fd) r₁ =
    ((Sockets.adoptOwned fd r₁.os).1, { r₁ with os := (Sockets.adoptOwned fd r₁.os).2 }) := rfl
  rw [he]
  generalize Sockets.adoptOwned fd r₁.os = out at h2 ⊢
  rcases out with ⟨_ | fd', os⟩
  · exact h1.os fun o fd' ho hopen ↦ (h2.2 fd').2 ⟨fun he ↦ hnot o (he ▸ ho), hopen⟩
  · obtain ⟨rfl, hp⟩ := h2
    have h3 : Ledger { r₁ with os } none :=
      h1.os fun _ _ _ hopen ↦ (Journal.isOpen_plain hp).2 hopen
    exact loose_ledger h3 ⟨(Journal.isOpen_plain hp).2 hopen, hnot⟩

theorem SetUp.ledger (h : r.SetUp r') (hl : Ledger r none) (hf : Fresh r'.os.journal) :
    Ledger r' none := by
  cases h with
  | bind text =>
    rw [bind_eq] at hf ⊢
    exact ledger_opened relisten_bound ledger_bound text hl hf
  | listen text =>
    rw [listen_eq] at hf ⊢
    exact ledger_opened init_relisten loose_ledger text hl hf
  | init fd hopen hfd => exact init_ledger hl hopen (only_listener hl hfd)
  | adopt fd hfd => exact adopt_ledger hl hfd
  | adoptOwned fd hfd => exact adoptOwned_ledger hl hfd
  | localAddr =>
    rw [localAddr_eq]
    cases r.listener with
    | none => exact hl
    | some fd => exact ledger_plain (Sockets.localAddr_plain fd) hl

end Reactor

end PollReactor
