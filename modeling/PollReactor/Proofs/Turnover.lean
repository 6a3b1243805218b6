import PollReactor.Proofs.Deed

namespace PollReactor

open Journal (Adds)

variable {κ π ν : Type}

namespace Entry

def isQuiet : Entry (Mark ν) → Bool
  | .remark (.admitted ..) => false
  | .remark (.callback _) => false
  | _ => true

theorem IsChore.quiet {e : Entry (Mark ν)} (h : e.IsChore) : e.isQuiet := by
  cases h with
  | call => rfl
  | adopted => rfl

theorem OfRequest.quiet {sender : Fd} {e : Entry (Mark ν)} (h : e.OfRequest sender) :
    e.isQuiet := by
  cases h with
  | effect h => exact h.chore.quiet
  | _ => rfl

theorem OfService.quiet {fd? : Option Fd} {sends : Bool} {e : Entry (Mark ν)}
    (h : e.OfService fd? sends) : e.isQuiet := by
  rcases h.input_or_output with h | h <;> cases h <;> rfl

theorem OfAdmission.quiet {e : Entry (Mark ν)} (h : e.OfAdmission) : e.isQuiet := by
  cases h with
  | setup h => exact (chore_of_isSetup h).quiet
  | _ => rfl

end Entry

def Task.subjects : Task π ν → List Nat
  | serveAll _ watched => watched.map (·.id)
  | serve w .. => [w.id]
  | check id => [id]
  | finalize id _ => [id]
  | _ => []

def Phase.subjects : Phase π ν → List Nat
  | idle => []
  | waiting w => w.watched.map (·.id)
  | busy first rest => first.subjects ++ rest.flatMap Task.subjects

theorem Phase.subjects_ofTasks (ts : List (Task π ν)) :
    (ofTasks ts).subjects = ts.flatMap Task.subjects := by
  cases ts <;> rfl

namespace Reactor

variable [Kernel κ] {P : Policy π ν} {r r' : Reactor κ π ν}

/-- What a task does to the list of connections, and the one admission or callback that it makes. -/
inductive Turnover (first : Task π ν) (r r' : Reactor κ π ν) : Prop where
  | quiet (live : r'.live = r.live) (size : r'.conns.size = r.conns.size)
      (journal : Adds (·.isQuiet) r.os.journal r'.os.journal)
  | told (cb : Callback) (ht : cb.isTerminal = false) (hid : cb.id ∈ first.subjects)
      (live : r'.live = r.live) (size : r'.conns.size = r.conns.size) (j : Journal ν)
      (hj : Adds (·.isQuiet) r.os.journal j)
      (journal : r'.os.journal = .remark (.callback cb) :: j)
  | admitted (fd : Option Fd) (d : Draft) (live : r'.live = r.live ++ [r.conns.size + 1])
      (size : r'.conns.size = r.conns.size + 1) (j : Journal ν)
      (hj : Adds (·.isQuiet) r.os.journal j)
      (journal : r'.os.journal = .remark (.admitted (r.conns.size + 1) fd d) :: j)
  | ended (id : Nat) (why : Teardown) (hfirst : first = .finalize id why)
      (live : r'.live = r.live.filter (· ≠ id)) (size : r'.conns.size = r.conns.size)
      (j : Journal ν) (hj : Adds (·.isQuiet) r.os.journal j)
      (journal : r'.os.journal = .remark (.callback (why.callback id)) :: j)

omit [Kernel κ] in
theorem Still.turnover {C : Entry (Mark ν) → Prop} {first : Task π ν} (h : Still C r r')
    (hC : ∀ e, C e → e.isQuiet) : Turnover first r r' :=
  .quiet h.live h.size (h.journal.mono hC)

omit [Kernel κ] in
theorem Relisten.turnover {first : Task π ν} (h : Relisten r r') : Turnover first r r' := by
  obtain ⟨os, listener, rfl, hj⟩ := h
  exact .quiet rfl rfl (hj.mono fun _ he ↦ he.chore.quiet)

omit [Kernel κ] in
theorem remark_turnover {first : Task π ν} {m : Mark ν} (h : (Entry.remark m).isQuiet)
    (r : Reactor κ π ν) : Turnover first r (remark m r).2 :=
  .quiet rfl rfl (.single h)

omit [Kernel κ] in
theorem Repool.turnover {first : Task π ν} (h : Repool r r') : Turnover first r r' := by
  obtain ⟨os, pool, rfl, hj⟩ := h
  exact .quiet rfl rfl (hj.mono fun _ he ↦ he.quiet)

theorem Deed.turnover {first : Task π ν} (h : Deed first r r') : Turnover first r r' := by
  cases h with
  | nothing => exact .quiet rfl rfl (.refl _)
  | aside m hm => exact remark_turnover (by cases m <;> first | rfl | cases hm) r
  | request q => exact (request_still q r).turnover fun _ he ↦ he.quiet
  | wake => exact (wake_still r).turnover fun _ he ↦ he.chore.quiet
  | settled events => exact (settleWaker_still events r).turnover fun _ he ↦ he.chore.quiet
  | clock => exact (clock_still r).turnover fun _ he ↦ he.quiet
  | repooled h => exact h.turnover
  | enrolled t peer d now =>
    exact .admitted t.value.fd d rfl (Array.size_push _) (.sys .clock now :: r.os.journal)
      (.single rfl) rfl
  | served _ hc hs => exact (hs.still hc).turnover fun _ he ↦ he.quiet
  | told hfirst hc hs cb hid ht =>
    have hst := hs.still hc
    refine .told cb ht ?_ hst.live hst.size _ (hst.journal.mono fun _ he ↦ he.quiet) rfl
    rw [hfirst, hid]
    exact List.mem_cons_self
  | @ended id why hfirst =>
    obtain ⟨os, pool, conns, he, hn, -, hj⟩ := part_spec id r
    refine .ended id why hfirst ?_ ?_ (part id r).os.journal ?_ rfl
    · exact congrArg live he
    · exact (congrArg (·.conns.size) he).trans hn
    · rw [he]
      exact hj.mono fun _ he ↦ (Entry.chore_of_isSetup he).quiet
  | relistened h => exact h.turnover

theorem advance_turnover (first : Task π ν) (r : Reactor κ π ν) :
    Turnover first r (advance P first r).1 := by
  obtain ⟨app, h⟩ := advance_deed (P := P) first r
  cases h.turnover with
  | quiet live size journal => exact .quiet live size journal
  | told cb ht hid live size j hj journal => exact .told cb ht hid live size j hj journal
  | admitted fd d live size j hj journal => exact .admitted fd d live size j hj journal
  | ended id why hfirst live size j hj journal => exact .ended id why hfirst live size j hj journal

def Follows (first : Task π ν) (r : Reactor κ π ν) : Next π ν → Prop
  | .go ts => (ts.flatMap Task.subjects).Sublist first.subjects
  | .only ts => ts = [] ∨ ts = r.live.map (.finalize · .closed)
  | .wait w => (w.watched.map (·.id)).Sublist r.live

theorem subjects_finalizeAll (ids : List Nat) (why : Teardown) :
    (ids.map (Task.finalize (π := π) (ν := ν) · why)).flatMap Task.subjects = ids := by
  induction ids with
  | nil => rfl
  | cons id ids ih => exact congrArg (id :: ·) ih

omit [Kernel κ] in
theorem Follows.phase {first : Task π ν} {next : Next π ν} (h : Follows first r next)
    {rest : List (Task π ν)} (hn : (first.subjects ++ rest.flatMap Task.subjects).Nodup)
    (hs : ∀ id ∈ first.subjects ++ rest.flatMap Task.subjects, id ∈ r.live) (hl : r.live.Nodup) :
    (next.phase rest).subjects.Nodup ∧ ∀ id ∈ (next.phase rest).subjects, id ∈ r.live := by
  have hsub {l l' : List Nat} (h : l.Sublist l') (hn : l'.Nodup) (hs : ∀ id ∈ l', id ∈ r.live) :
      l.Nodup ∧ ∀ id ∈ l, id ∈ r.live :=
    ⟨h.nodup hn, fun id hid ↦ hs id (h.subset hid)⟩
  cases next with
  | go ts =>
    simp only [Next.phase, Phase.subjects_ofTasks, List.flatMap_append]
    exact hsub (List.Sublist.append_right h _) hn hs
  | only ts =>
    simp only [Next.phase, Phase.subjects_ofTasks]
    rcases h with rfl | rfl
    · exact ⟨.nil, fun _ hid ↦ absurd hid List.not_mem_nil⟩
    · rw [subjects_finalizeAll]
      exact ⟨hl, fun _ h ↦ h⟩
  | wait w => exact hsub h hl fun _ h ↦ h

theorem subjects_serves (events : List Event) (now : Nat) (ws : List Watched) (place : Nat) :
    (serves (π := π) (ν := ν) events now ws place).flatMap Task.subjects = ws.map (·.id) := by
  induction ws generalizing place with
  | nil => rfl
  | cons w ws ih => exact congrArg (w.id :: ·) (ih (place + 1))

theorem subjects_afterService (id : Nat) (sends : Bool) :
    (afterService (π := π) (ν := ν) id sends).flatMap Task.subjects = [id] := by
  cases sends <;> rfl

omit [Kernel κ] in
theorem prepare_watched (r : Reactor κ π ν) : (r.prepare.watched.map (·.id)).Sublist r.live := by
  show ((r.watchedOf.map (·.2)).map (·.id)).Sublist r.live
  unfold watchedOf
  generalize r.live = ids
  induction ids with
  | nil => exact .slnil
  | cons id ids ih =>
    rw [List.filterMap_cons]
    cases r.conn? id with
    | none => exact ih.cons id
    | some c => exact ih.cons_cons id

theorem attend_follows (w : Watched) (event : Event) (now : Nat) (r : Reactor κ π ν) :
    (attend P w event now r).2.flatMap Task.subjects = [w.id] := by
  have ha := attend_aftermath (P := P) w event now r
  generalize (attend P w event now r).2 = ts at ha ⊢
  cases ha with
  | ended => rfl
  | silent sends => exact subjects_afterService _ sends
  | told script sends => exact subjects_afterService _ sends

theorem advance_follows (first : Task π ν) (r : Reactor κ π ν) :
    Follows first r (advance P first r).2 := by
  have hadv := advance_advanced (P := P) first r
  generalize advance P first r = out at hadv ⊢
  cases hadv with
  | done => exact List.nil_sublist _
  | vacant | raised => exact .inl rfl
  | welcomed | met => exact .refl []
  | heard => exact List.nil_sublist _
  | shared events watched now =>
    show ((serves _ _ _ _).flatMap Task.subjects).Sublist _
    rw [subjects_serves]
    exact .refl _
  | attended w event now =>
    show ((attend P w event now r).2.flatMap Task.subjects).Sublist _
    rw [attend_follows]
    exact .refl _
  | dropped => exact .refl _
  | cleared => exact .inr rfl
  | waits => exact prepare_watched r

end Reactor

end PollReactor
