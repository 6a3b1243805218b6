import PollReactor.Proofs.Agreement
import PollReactor.Proofs.Race

namespace PollReactor

variable {κ π ν : Type}

/-- The reports that a task has yet to look at. -/
def Task.reports : Task π ν → List (List Event)
  | settle events => [events]
  | _ => []

def Phase.reports : Phase π ν → List (List Event)
  | busy first rest => (first :: rest).flatMap Task.reports
  | _ => []

theorem Phase.reports_ofTasks (ts : List (Task π ν)) :
    (ofTasks ts).reports = ts.flatMap Task.reports := by
  cases ts <;> rfl

/-- Between a report and the look at it, the loop may go on only with that look. -/
def Stage.ofReports : List (List Event) → Stage
  | [] => serving
  | events :: _ => reported events

theorem Stage.resets_ofReports (reports : List (List Event)) :
    (ofReports reports).resets = false := by
  cases reports <;> rfl

def Phase.stage : Phase π ν → Stage
  | waiting w => .waiting w
  | phase => .ofReports phase.reports

theorem Phase.stage_ofTasks (ts : List (Task π ν)) :
    (ofTasks ts).stage = .ofReports (ts.flatMap Task.reports) := by
  cases ts <;> rfl

namespace Reactor

variable [Kernel κ] {P : Policy π ν} {r r' : Reactor κ π ν}

def Next.Calm (r : Reactor κ π ν) : Next π ν → Prop
  | .go ts => ts.flatMap Task.reports = []
  | .only ts => ts.flatMap Task.reports = []
  | .wait w => w = r.prepare

theorem reports_finalizeAll (ids : List Nat) (why : Teardown) :
    (ids.map fun id ↦ (.finalize id why : Task π ν)).flatMap Task.reports = [] := by
  simp [Task.reports]

theorem reports_afterService (id : Nat) (sends : Bool) :
    (afterService id sends : List (Task π ν)).flatMap Task.reports = [] := by
  cases sends <;> rfl

theorem attend_reports (w : Watched) (event : Event) (now : Nat) (r : Reactor κ π ν) :
    (attend P w event now r).2.flatMap Task.reports = [] := by
  have ha := attend_aftermath (P := P) w event now r
  generalize (attend P w event now r).2 = ts at ha ⊢
  cases ha with
  | ended => rfl
  | silent sends => exact reports_afterService _ sends
  | told script sends => exact reports_afterService _ sends

theorem advance_calm (first : Task π ν) (r : Reactor κ π ν) :
    Next.Calm (advance P first r).1 (advance P first r).2 := by
  have hadv := advance_advanced (P := P) first r
  generalize advance P first r = out at hadv ⊢
  cases hadv with
  | shared events watched now =>
    refine List.flatMap_eq_nil_iff.2 fun t ht ↦ ?_
    obtain ⟨w, event, rfl⟩ := mem_serves ht
    rfl
  | attended w event now => exact attend_reports w event now r
  | cleared => exact reports_finalizeAll _ _
  | _ => rfl

end Reactor

namespace Race

open Reactor

variable {ι : Type} [DecidableEq ι] [Kernel κ] {P : Policy π ν} {r r' : Reactor κ π ν}

theorem apart_runs {stage : Stage} {owes : ι → Bool} (hw : r'.waker = r.waker)
    (hj : Journal.Adds (·.isDry) r.os.journal r'.os.journal) :
    ∃ t, Run ⟨r, stage, owes⟩ t ⟨r', stage, owes⟩ :=
  ⟨_, Run.refl.step (.elsewhere hw hj)⟩

theorem deed_runs {first : Task π ν} (h : Deed first r r') (hfirst : first.reports = [])
    (stage : Stage) {owes : ι → Bool} {i : ι} (hi : owes i = false) :
    ∃ t, Run ⟨r, stage, owes⟩ t ⟨r', stage, owes⟩ := by
  cases h with
  | nothing => exact ⟨_, .refl⟩
  | aside m hm => exact apart_runs rfl (.single rfl)
  | request q => exact request_runs ⟨r, stage, owes⟩ hi q
  | wake => exact ⟨_, wake_runs ⟨r, stage, owes⟩ hi⟩
  | settled events he =>
    subst he
    cases hfirst
  | clock => exact apart_runs rfl (.single rfl)
  | repooled h =>
    obtain ⟨os, pool, rfl, hj⟩ := h
    exact apart_runs rfl (hj.mono fun _ he ↦ he.inert.1)
  | enrolled t peer d now => exact apart_runs rfl ⟨[_, _], rfl, by simp [Entry.isDry]⟩
  | served _ hc hs =>
    obtain ⟨os, c', rfl, hserved⟩ := hs.spec hc
    exact apart_runs rfl (hserved.journal.mono fun _ he ↦ he.inert.1)
  | told _ hc hs cb =>
    obtain ⟨os, c', rfl, hserved⟩ := hs.spec hc
    exact apart_runs rfl ((hserved.journal.mono fun _ he ↦ he.inert.1).cons rfl)
  | @ended id why _ =>
    obtain ⟨os, pool, conns, he, -, -, hj⟩ := part_spec id r
    rw [he]
    exact apart_runs rfl ((hj.mono fun _ he ↦ (Entry.inert_of_isSetup he).1).cons rfl)
  | relistened h =>
    obtain ⟨os, listener, rfl, hj⟩ := h
    exact apart_runs rfl (hj.mono fun _ he ↦ he.inert.1)

end Race

namespace Moment

open Reactor

variable {ι : Type} [DecidableEq ι] [Kernel κ] {P : Policy π ν} {outside : Phase π ν → Prop}
  {m m' : Moment κ π ν}

/-- A moment in which no call of the waker is under way. -/
def race (m : Moment κ π ν) : Race ι κ π ν := ⟨m.reactor, m.phase.stage, fun _ ↦ false⟩

omit [Kernel κ] in
theorem reports_turnTasks (w : Wait) (events : List Event) (r : Reactor κ π ν) :
    (turnTasks w events r).flatMap Task.reports = [events] := by
  unfold turnTasks
  split_ifs <;> cases r.listener <;> rfl

omit [Kernel κ] in
theorem reports_cleanupTasks (r : Reactor κ π ν) :
    (cleanupTasks r).flatMap Task.reports = [] := by
  simp [cleanupTasks, Task.reports]

theorem Step.reports (h : Step P outside m m') (hm : m.phase.reports.length ≤ 1) :
    m'.phase.reports.length ≤ 1 := by
  cases h with
  | start => exact Nat.zero_le 1
  | wake r w reported =>
    rw [Phase.reports_ofTasks, reports_turnTasks]
    exact Nat.le_refl 1
  | fail => exact Nat.zero_le 1
  | cleanup r =>
    rw [Phase.reports_ofTasks, reports_cleanupTasks]
    exact Nat.zero_le 1
  | task r first rest =>
    have hcalm := advance_calm (P := P) first r
    show (Next.phase rest (advance P first r).2).reports.length ≤ 1
    replace hm : (first.reports ++ rest.flatMap Task.reports).length ≤ 1 := hm
    rw [List.length_append] at hm
    generalize (advance P first r).2 = next at hcalm ⊢
    cases next with
    | go ts =>
      have hts : ts.flatMap Task.reports = [] := hcalm
      rw [Next.phase, Phase.reports_ofTasks, List.flatMap_append, hts]
      exact Nat.le_trans (Nat.le_add_left _ _) hm
    | only ts =>
      have hts : ts.flatMap Task.reports = [] := hcalm
      rw [Next.phase, Phase.reports_ofTasks, hts]
      exact Nat.zero_le 1
    | wait w => exact Nat.zero_le 1
  | _ => exact hm

theorem phase_runs {r : Reactor κ π ν} {next : Next π ν} (hcalm : Next.Calm r next)
    (rest : List (Task π ν)) (owes : ι → Bool) :
    ∃ t, Race.Run ⟨r, .ofReports (rest.flatMap Task.reports), owes⟩ t
      ⟨r, (next.phase rest).stage, owes⟩ := by
  have hleave : Race.Run ⟨r, .ofReports (rest.flatMap Task.reports), owes⟩ [.leave]
      ⟨r, .serving, owes⟩ :=
    Race.Run.refl.step (.leave (Stage.resets_ofReports _))
  cases next with
  | go ts =>
    have hts : ts.flatMap Task.reports = [] := hcalm
    rw [Next.phase, Phase.stage_ofTasks, List.flatMap_append, hts]
    exact ⟨_, .refl⟩
  | only ts =>
    have hts : ts.flatMap Task.reports = [] := hcalm
    rw [Next.phase, Phase.stage_ofTasks, hts]
    exact ⟨_, hleave⟩
  | wait w =>
    obtain rfl : w = r.prepare := hcalm
    exact ⟨_, hleave.step (.prepare rfl)⟩

theorem task_runs {first : Task π ν} {rest : List (Task π ν)} {r : Reactor κ π ν}
    (hm : (first.reports ++ rest.flatMap Task.reports).length ≤ 1) {owes : ι → Bool} {i : ι}
    (hi : owes i = false) :
    ∃ t, Race.Run ⟨r, .ofReports (first.reports ++ rest.flatMap Task.reports), owes⟩ t
      ⟨(advance P first r).1, ((advance P first r).2.phase rest).stage, owes⟩ := by
  by_cases hfirst : first.reports = []
  · obtain ⟨app, hd⟩ := advance_deed (P := P) first r
    rw [hfirst, List.nil_append]
    obtain ⟨t, ht⟩ : ∃ t, Race.Run ⟨r, .ofReports (rest.flatMap Task.reports), owes⟩ t
        ⟨{ r with app }, .ofReports (rest.flatMap Task.reports), owes⟩ :=
      Race.apart_runs rfl (.refl _)
    obtain ⟨t', ht'⟩ := Race.deed_runs hd hfirst (.ofReports (rest.flatMap Task.reports)) hi
    obtain ⟨t'', ht''⟩ := phase_runs (advance_calm (P := P) first r) rest owes
    exact ⟨_, (ht.trans ht').trans ht''⟩
  · cases first with
    | settle events =>
      have hrest : rest.flatMap Task.reports = [] := by
        have hlen : (events :: rest.flatMap Task.reports).length ≤ 1 := hm
        rw [List.length_cons] at hlen
        exact List.length_eq_zero_iff.1 (by omega)
      obtain ⟨t, ht⟩ := Race.settle_runs r events owes
      refine ⟨t, ?_⟩
      show Race.Run ⟨r, .ofReports (events :: rest.flatMap Task.reports), owes⟩ t
        ⟨(settleWaker events r).2, (Phase.ofTasks rest).stage, owes⟩
      rw [Phase.stage_ofTasks, hrest]
      exact ht
    | _ => exact absurd rfl hfirst

theorem Step.races (h : Step P outside m m') (hm : m.phase.reports.length ≤ 1) (i : ι) :
    ∃ t, Race.Run (m.race : Race ι κ π ν) t m'.race := by
  have hrelisten {r r' : Reactor κ π ν} (h : Relisten r r') (stage : Stage) :
      ∃ t, Race.Run ⟨r, stage, fun _ : ι ↦ false⟩ t ⟨r', stage, fun _ ↦ false⟩ := by
    obtain ⟨os, listener, rfl, hj⟩ := h
    exact Race.apart_runs rfl (hj.mono fun _ he ↦ he.inert.1)
  cases h with
  | kernel r phase k => exact Race.apart_runs rfl (.refl _)
  | listener r phase text =>
    exact hrelisten (relisten_opening (Sockets.listenOn_opening text) r) _
  | request r phase q _ => exact Race.request_runs ⟨r, phase.stage, _⟩ (i := i) rfl q
  | setUp h => exact hrelisten h.relisten _
  | memory r app => exact Race.apart_runs rfl (.refl _)
  | start => exact ⟨_, .refl⟩
  | wake r w reported =>
    refine ⟨[.report], ?_⟩
    unfold race
    rw [Phase.stage_ofTasks, reports_turnTasks]
    exact Race.Run.refl.step (.report rfl reported)
  | fail r w => exact ⟨_, Race.Run.refl.step (.leave rfl)⟩
  | cleanup r =>
    unfold race
    rw [Phase.stage_ofTasks, reports_cleanupTasks]
    exact ⟨_, .refl⟩
  | task r first rest => exact task_runs hm (i := i) rfl

/-- Every life is a run, whoever is taken for the thread that makes the requests. -/
theorem Occurs.races {b : Builder} (h : Occurs P outside b m) (i : ι) :
    ∃ app os r os', b.build app os = (.ok r, os') ∧ r.waker.signaled = false ∧
      ∃ t, Race.Run (Race.start r : Race ι κ π ν) t m.race := by
  refine (h.induction (motive := fun m ↦ m.phase.reports.length ≤ 1 ∧ ∃ app os r os',
    b.build app os = (.ok r, os') ∧ r.waker.signaled = false ∧
      ∃ t, Race.Run (Race.start r : Race ι κ π ν) t m.race) ?_ ?_).2
  · intro app os r os' hb _
    have hsignaled : r.waker.signaled = false := by
      obtain ⟨receiver, sender, -, -, rfl⟩ := build_eq hb
      rfl
    exact ⟨Nat.zero_le 1, app, os, r, os', hb, hsignaled, _, .refl⟩
  · rintro m m' hs ⟨hm, app, os, r, os', hb, hsignaled, t, ht⟩
    obtain ⟨t', ht'⟩ := hs.races hm i
    exact ⟨hs.reports hm, app, os, r, os', hb, hsignaled, _, ht.trans ht'⟩

end Moment

end PollReactor
