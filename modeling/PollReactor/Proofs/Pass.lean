import PollReactor.Proofs.Attendance

namespace PollReactor

open Journal (Returned)
open Relation (ReflTransGen)

variable {κ π ν : Type}

def Task.watches : Task π ν → List Watched
  | serveAll _ watched => watched
  | serve x .. => [x]
  | _ => []

def Phase.watches : Phase π ν → List Watched
  | idle => []
  | waiting w => w.watched
  | busy first rest => first.watches ++ rest.flatMap Task.watches

theorem Phase.watches_ofTasks (ts : List (Task π ν)) :
    (ofTasks ts).watches = ts.flatMap Task.watches := by
  cases ts <;> rfl

theorem Task.watches_eq_nil {t : Task π ν} (h : t.isInformed = false) : t.watches = [] := by
  cases t <;> first | rfl | cases h

theorem Task.watches_subjects {t : Task π ν} {x : Watched} (h : x ∈ t.watches) :
    x.id ∈ t.subjects := by
  cases t with
  | serveAll events watched => exact List.mem_map_of_mem h
  | serve x' event now =>
    obtain rfl := List.mem_singleton.1 h
    exact List.mem_cons_self
  | _ => cases h

namespace Reactor

variable [Kernel κ] {P : Policy π ν} {r : Reactor κ π ν}

theorem watches_serves (events : List Event) (now : Nat) (ws : List Watched) (place : Nat) :
    (serves (π := π) (ν := ν) events now ws place).flatMap Task.watches = ws := by
  induction ws generalizing place with
  | nil => rfl
  | cons x ws ih => exact congrArg (x :: ·) (ih (place + 1))

omit [Kernel κ] in
theorem watches_turnTasks (w : Wait) (events : List Event) (r : Reactor κ π ν) :
    (turnTasks w events r).flatMap Task.watches = w.watched := by
  have hrest : (.settle events :: .serveAll events w.watched :: [.proceed] :
      List (Task π ν)).flatMap Task.watches = w.watched := List.append_nil _
  unfold turnTasks
  split_ifs
  · cases r.listener <;> exact hrest
  · exact hrest

omit [Kernel κ] in
theorem watched_prepare {x : Watched} (h : x ∈ r.prepare.watched) :
    ∃ c, r.conn? x.id = some c ∧ x.interest = c.interest := by
  obtain ⟨⟨c, x'⟩, hx, rfl⟩ := List.mem_map.1 h
  exact ⟨c, (mem_watchedOf hx).2⟩

theorem advance_watches (first : Task π ν) (r : Reactor κ π ν) (rest : List (Task π ν)) :
    ((advance P first r).2.phase rest).watches ⊆ first.watches ++ rest.flatMap Task.watches ∨
      (advance P first r).2.phase rest = .waiting r.prepare := by
  have hnone {ts : List (Task π ν)} (h : ∀ t ∈ ts, t.isInformed = false) :
      ts.flatMap Task.watches = [] :=
    List.flatMap_eq_nil_iff.2 fun t ht ↦ Task.watches_eq_nil (h t ht)
  have h := advance_brings (P := P) first r
  generalize advance P first r = out at h ⊢
  cases h with
  | other h =>
    refine .inl ?_
    rw [Next.phase, Phase.watches_ofTasks, List.flatMap_append, hnone h]
    exact List.subset_append_right _ _
  | serves events watched now hfirst =>
    refine .inl ?_
    rw [Next.phase, Phase.watches_ofTasks, List.flatMap_append, watches_serves, hfirst]
    exact List.Subset.refl _
  | breaks h =>
    refine .inl ?_
    rw [Next.phase, Phase.watches_ofTasks, hnone h]
    exact List.nil_subset _
  | waits => exact .inr rfl

end Reactor

/-- The task is none of the turn itself, but of what one of its parts leads to. -/
def Task.isErrand : Task π ν → Bool
  | serveAll .. => false
  | serve .. => false
  | proceed => false
  | closeListener => false
  | _ => true

namespace Reactor

variable [Kernel κ] {P : Policy π ν}

theorem advance_errand {first : Task π ν} (h : first.isErrand) {r : Reactor κ π ν}
    (hk : r.pool.Kept) :
    (∃ ts, (advance P first r).2 = .go ts ∧ ∀ t ∈ ts, t.isErrand) ∨
      (advance P first r).2 = .only [] ∧ ¬ Returned (advance P first r).1.os.journal := by
  have hadv := advance_advanced (P := P) first r
  generalize advance P first r = out at hadv ⊢
  cases hadv with
  | done => exact .inl ⟨_, rfl, List.forall_mem_nil _⟩
  | @vacant listener slot hslot =>
    obtain ⟨-, hr⟩ | ⟨_, _, _, -, -, hr⟩ := hk.reserve
    · cases hr.symm.trans hslot
    · cases hr.symm.trans hslot
  | raised _ hraised => exact .inr ⟨rfl, hraised⟩
  | welcomed | met | heard | dropped => exact .inl ⟨_, rfl, List.forall_mem_singleton.2 rfl⟩
  | shared | attended | cleared | waits => cases h

theorem attend_errands (x : Watched) (event : Event) (now : Nat) (r : Reactor κ π ν) :
    ∀ t ∈ (attend P x event now r).2, t.isErrand := by
  intro t ht
  cases attend_sequel ht <;> rfl

end Reactor

namespace Moment

open Reactor

variable [Kernel κ] {P : Policy π ν} {outside : Phase π ν → Prop} {w : Wait} {events : List Event}
  {m₀ m m' : Moment κ π ν}

/-- Behind the moment `m₀` the clock was looked at before the connections were served, and showed
`now`. -/
def Clocked (P : Policy π ν) (outside : Phase π ν → Prop) (w : Wait) (events : List Event)
    (m₀ : Moment κ π ν) (now : Nat) (m : Moment κ π ν) : Prop :=
  ∃ m', ReflTransGen (Turns P outside) m₀ m' ∧
    m'.phase = .busy (.serveAll events w.watched) [.proceed] ∧
    (tasked P m').journal = .sys .clock now :: m'.journal ∧
    ReflTransGen (Turns P outside) (tasked P m') m

/-- The connection `x` is served at the moment `m` of a turn that began at `m₀`. -/
structure Place (P : Policy π ν) (outside : Phase π ν → Prop) (w : Wait) (events : List Event)
    (m₀ : Moment κ π ν) (x : Watched) (event : Event) (now : Nat) (m : Moment κ π ν) : Prop where
  reached : ReflTransGen (Turns P outside) m₀ m
  served : ∃ rest, m.phase = .busy (.serve x event now) rest
  clocked : Clocked P outside w events m₀ now m

def Passed (P : Policy π ν) (outside : Phase π ν → Prop) (w : Wait) (events : List Event)
    (m₀ : Moment κ π ν) (x : Watched) (m : Moment κ π ν) : Prop :=
  ∃ m' event now, Place P outside w events m₀ x event now m' ∧
    ReflTransGen (Turns P outside) (tasked P m') m

/-- How far a turn has come that began at `m₀`. It is broken off if a callback raises. -/
inductive Stage (P : Policy π ν) (outside : Phase π ν → Prop) (w : Wait) (events : List Event)
    (m₀ m : Moment κ π ν) : Prop where
  | before (ts : List (Task π ν)) (h : ∀ t ∈ ts, t.isErrand)
      (hm : m.phase.tasks = ts ++ [.serveAll events w.watched, .proceed])
  | among (ts : List (Task π ν)) (h : ∀ t ∈ ts, t.isErrand) (now k : Nat)
      (hm : m.phase.tasks = ts ++ (serves events now (w.watched.drop k) k ++ [.proceed]))
      (clocked : Clocked P outside w events m₀ now m)
      (passed : ∀ x ∈ w.watched.take k, Passed P outside w events m₀ x m)
  | done (h : ∀ t ∈ m.phase.tasks, t.isErrand)
      (passed : ∀ x ∈ w.watched, Passed P outside w events m₀ x m)
  | broken (hm : m.phase.tasks = []) (h : ¬ Returned m.journal)

theorem Clocked.tail {now : Nat} (h : Clocked P outside w events m₀ now m)
    (hs : Turns P outside m m') : Clocked P outside w events m₀ now m' := by
  obtain ⟨m₁, hreached, hphase, hclock, hpath⟩ := h
  exact ⟨m₁, hreached, hphase, hclock, hpath.tail hs⟩

theorem Passed.tail {x : Watched} (h : Passed P outside w events m₀ x m)
    (hs : Turns P outside m m') : Passed P outside w events m₀ x m' := by
  obtain ⟨m₁, event, now, hplace, hpath⟩ := h
  exact ⟨m₁, event, now, hplace, hpath.tail hs⟩

theorem Stage.beside {r r' : Reactor κ π ν} {phase : Phase π ν}
    (h : Stage P outside w events m₀ ⟨r, phase⟩) (hs : Turns P outside ⟨r, phase⟩ ⟨r', phase⟩) :
    Stage P outside w events m₀ ⟨r', phase⟩ := by
  cases h with
  | before ts h hm => exact .before ts h hm
  | among ts h now k hm clocked passed =>
    exact .among ts h now k hm (clocked.tail hs) fun x hx ↦ (passed x hx).tail hs
  | done h passed => exact .done h fun x hx ↦ (passed x hx).tail hs
  | broken hm h => exact .broken hm (mt hs.2.returned h)

theorem errand_tasks {first : Task π ν} (h : first.isErrand) {r : Reactor κ π ν}
    (hk : r.pool.Kept) (rest : List (Task π ν)) :
    (∃ ts, ((advance P first r).2.phase rest).tasks = ts ++ rest ∧ ∀ t ∈ ts, t.isErrand) ∨
      ((advance P first r).2.phase rest).tasks = [] ∧
        ¬ Returned (advance P first r).1.os.journal := by
  rcases advance_errand (P := P) h hk with ⟨ts, hgo, hts⟩ | ⟨hstop, hraised⟩
  · refine .inl ⟨ts, ?_, hts⟩
    rw [hgo]
    exact Phase.tasks_ofTasks _
  · rw [hstop]
    exact .inr ⟨rfl, hraised⟩

section

variable {r : Reactor κ π ν} {first : Task π ν} {rest : List (Task π ν)}

theorem Stage.opened (hr : ReflTransGen (Turns P outside) m₀
    ⟨r, .busy (.serveAll events w.watched) [.proceed]⟩) :
    Stage P outside w events m₀
      (Moment.tasked P ⟨r, .busy (.serveAll events w.watched) [.proceed]⟩) := by
  refine .among [] (List.forall_mem_nil _) (system (sys .clock) r).1 0 ?_
    ⟨_, hr, rfl, rfl, .refl⟩ (by simp)
  exact Phase.tasks_ofTasks _

theorem Stage.served {now k : Nat} (hk : k < w.watched.length)
    (hm : first :: rest = serves events now (w.watched.drop k) k ++ [.proceed])
    (hr : ReflTransGen (Turns P outside) m₀ ⟨r, .busy first rest⟩)
    (clocked : Clocked P outside w events m₀ now ⟨r, .busy first rest⟩)
    (passed : ∀ x ∈ w.watched.take k, Passed P outside w events m₀ x ⟨r, .busy first rest⟩) :
    Stage P outside w events m₀ (Moment.tasked P ⟨r, .busy first rest⟩) := by
  have hs : Turns P outside ⟨r, .busy first rest⟩ (Moment.tasked P ⟨r, .busy first rest⟩) :=
    ⟨rfl, .task r first rest⟩
  rw [List.drop_eq_getElem_cons hk] at hm
  cases hm
  refine .among (attend P w.watched[k] (eventOf events k) now r).2
    (attend_errands _ _ _ _) now (k + 1) (Phase.tasks_ofTasks _) (clocked.tail hs) ?_
  intro x hx
  rw [List.take_succ_eq_append_getElem hk, List.mem_append, List.mem_singleton] at hx
  rcases hx with hx | rfl
  · exact (passed x hx).tail hs
  · exact ⟨_, _, now, ⟨hr, ⟨_, rfl⟩, clocked⟩, .refl⟩

theorem Stage.ended
    (passed : ∀ x ∈ w.watched, Passed P outside w events m₀ x ⟨r, .busy .proceed []⟩) :
    Stage P outside w events m₀ (Moment.tasked P ⟨r, .busy .proceed []⟩) := by
  refine .done ?_ fun x hx ↦ (passed x hx).tail ⟨rfl, .task r .proceed []⟩
  show ∀ t ∈ ((advance P .proceed r).2.phase []).tasks, _
  simp only [advance]
  split_ifs
  · rw [Next.phase, Phase.tasks_ofTasks]
    exact List.forall_mem_map.2 fun _ _ ↦ rfl
  · exact List.forall_mem_nil _

theorem Stage.tasked (h : Stage P outside w events m₀ ⟨r, .busy first rest⟩)
    (hr : ReflTransGen (Turns P outside) m₀ ⟨r, .busy first rest⟩) (hk : r.pool.Kept) :
    Stage P outside w events m₀ (tasked P ⟨r, .busy first rest⟩) := by
  have hs : Turns P outside ⟨r, .busy first rest⟩ (Moment.tasked P ⟨r, .busy first rest⟩) :=
    ⟨rfl, .task r first rest⟩
  -- An errand ahead of the next service keeps the turn at its stage.
  cases h with
  | before ts hts hm =>
    cases ts with
    | nil =>
      cases hm
      exact .opened hr
    | cons t ts =>
      cases hm
      obtain ⟨ht, hts⟩ := List.forall_mem_cons.1 hts
      rcases errand_tasks (P := P) ht hk (ts ++ [.serveAll events w.watched, .proceed]) with
        ⟨ts', hm, hts'⟩ | ⟨hm, hraised⟩
      · refine .before (ts' ++ ts) (List.forall_mem_append.2 ⟨hts', hts⟩) ?_
        rw [List.append_assoc]
        exact hm
      · exact .broken hm hraised
  | among ts hts now k hm clocked passed =>
    cases ts with
    | nil =>
      by_cases hk : k < w.watched.length
      · exact .served hk hm hr clocked passed
      · rw [List.drop_eq_nil_of_le (by omega)] at hm
        cases hm
        rw [List.take_of_length_le (by omega)] at passed
        exact .ended passed
    | cons t ts =>
      cases hm
      obtain ⟨ht, hts⟩ := List.forall_mem_cons.1 hts
      rcases errand_tasks (P := P) ht hk
        (ts ++ (serves events now (w.watched.drop k) k ++ [.proceed])) with
        ⟨ts', hm, hts'⟩ | ⟨hm, hraised⟩
      · refine .among (ts' ++ ts) (List.forall_mem_append.2 ⟨hts', hts⟩) now k ?_
          (clocked.tail hs) fun x hx ↦ (passed x hx).tail hs
        rw [List.append_assoc]
        exact hm
      · exact .broken hm hraised
  | done hts passed =>
    obtain ⟨ht, hts⟩ := List.forall_mem_cons.1 hts
    rcases errand_tasks (P := P) ht hk rest with ⟨ts', hm, hts'⟩ | ⟨hm, hraised⟩
    · refine .done ?_ fun x hx ↦ (passed x hx).tail hs
      show ∀ t ∈ ((advance P first r).2.phase rest).tasks, _
      rw [hm]
      exact List.forall_mem_append.2 ⟨hts', hts⟩
    · exact .broken hm hraised
  | broken hm => cases hm

end

theorem Stage.step (h : Stage P outside w events m₀ m) (hr : ReflTransGen (Turns P outside) m₀ m)
    (hk : m.reactor.pool.Kept) (hs : Turns P outside m m') : Stage P outside w events m₀ m' := by
  obtain ⟨hb, hstep⟩ := hs
  cases hstep with
  | kernel r phase k => exact h.beside ⟨hb, .kernel r phase k⟩
  | listener r phase text => exact h.beside ⟨hb, .listener r phase text⟩
  | request r phase q ho => exact h.beside ⟨hb, .request r phase q ho⟩
  | task r first rest => exact h.tasked hr hk
  | _ => cases hb

def opened (w : Wait) (events : List Event) (r : Reactor κ π ν) : Moment κ π ν :=
  ⟨r, .ofTasks (turnTasks w events r)⟩

theorem agrees_of_turns {n : Nat} (ha : Agrees n m₀) (h : ReflTransGen (Turns P outside) m₀ m) :
    Agrees n m := by
  induction h with
  | refl => exact ha
  | tail _ hs ih => exact hs.2.agrees ih

theorem stage_of_turns {n : Nat} {r : Reactor κ π ν} (ha : Agrees n (opened w events r))
    (h : ReflTransGen (Turns P outside) (opened w events r) m) :
    Stage P outside w events (opened w events r) m := by
  induction h with
  | refl =>
    refine .before ((if isReported events listenerToken then r.listener.toList.map .accept
      else []) ++ [.settle events]) ?_ ?_
    · refine List.forall_mem_append.2 ⟨?_, List.forall_mem_singleton.2 rfl⟩
      split_ifs
      · exact List.forall_mem_map.2 fun _ _ ↦ rfl
      · exact List.forall_mem_nil _
    · refine (Phase.tasks_ofTasks _).trans ?_
      rw [List.append_assoc]
      rfl
  | tail hr hs ih => exact ih.step hr (agrees_of_turns ha hr).sound.holding.kept hs

theorem place_of_turns {n : Nat} {r : Reactor κ π ν} (ha : Agrees n (opened w events r))
    {x : Watched} {event : Event} {now : Nat} {rest : List (Task π ν)}
    (h : ReflTransGen (Turns P outside) (opened w events r) m)
    (hm : m.phase = .busy (.serve x event now) rest) :
    Place P outside w events (opened w events r) x event now m := by
  refine ⟨h, ⟨rest, hm⟩, ?_⟩
  have hstage := stage_of_turns ha h
  have htasks : m.phase.tasks = .serve x event now :: rest := by
    rw [hm]
    rfl
  cases hstage with
  | before ts hts hm =>
    rw [hm] at htasks
    cases ts with
    | nil => cases htasks
    | cons t ts =>
      cases htasks
      cases hts _ List.mem_cons_self
  | among ts hts now' k hm clocked =>
    rw [hm] at htasks
    cases ts with
    | nil =>
      by_cases hk : k < w.watched.length
      · rw [List.drop_eq_getElem_cons hk] at htasks
        cases htasks
        exact clocked
      · rw [List.drop_eq_nil_of_le (by omega)] at htasks
        cases htasks
    | cons t ts =>
      cases htasks
      cases hts _ List.mem_cons_self
  | done hts =>
    rw [htasks] at hts
    cases hts _ List.mem_cons_self
  | broken hm =>
    rw [hm] at htasks
    cases htasks

theorem passed_of_turns {n : Nat} {r : Reactor κ π ν} (ha : Agrees n (opened w events r))
    (h : ReflTransGen (Turns P outside) (opened w events r) m) (hm : m.phase.isBusy = false)
    (hr : Returned m.journal) {x : Watched} (hx : x ∈ w.watched) :
    Passed P outside w events (opened w events r) x m := by
  have htasks : m.phase.tasks = [] := by
    cases hphase : m.phase with
    | busy =>
      rw [hphase] at hm
      cases hm
    | _ => rfl
  cases stage_of_turns ha h with
  | before ts _ hm =>
    rw [hm] at htasks
    simp at htasks
  | among ts _ now k hm =>
    rw [hm] at htasks
    simp at htasks
  | done _ passed => exact passed x hx
  | broken _ h => exact absurd hr h

end Moment

end PollReactor
