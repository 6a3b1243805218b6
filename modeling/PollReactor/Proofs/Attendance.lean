import PollReactor.Proofs.Routing.Turn
import PollReactor.Proofs.Transfer.Outcome

namespace PollReactor

variable {κ π ν : Type}

namespace Way

def callback (id : Nat) : Way → Callback
  | input => .dataReceived id
  | output => .dataSent id
  | urgent => .urgentReceived id

def Applies (event : Event) (i : Interest) (way : Way) : Prop := way.told event ∧ way.wanted i

end Way

namespace Reactor

variable [Kernel κ] {P : Policy π ν} {r : Reactor κ π ν} {x : Watched} {event : Event} {now : Nat}
  {c : Conn} {fd : Fd}

/-- What a transfer of the connection `c` on its descriptor `fd` comes to. -/
inductive Transferred (P : Policy π ν) (r : Reactor κ π ν) (id : Nat) (c : Conn) (fd : Fd)
    (way : Way) : Reactor κ π ν × List (Task π ν) → Prop where
  | failed {e : IoError} {c' : Conn} {os : Os κ (Mark ν)}
      (h : c.Outcome fd way r.os.journal (.failed e) c' os.journal) :
      Transferred P r id c fd way (setConn { r with os } id c', [.finalize id (.failed e)])
  | ended {c' : Conn} {os : Os κ (Mark ν)} (hw : way = .input)
      (h : c.Outcome fd way r.os.journal .still c' os.journal) :
      Transferred P r id c fd way (setConn { r with os } id c', [.finalize id .closed])
  | silent {upshot : Conn.Upshot} {c' : Conn} {os : Os κ (Mark ν)}
      (h : c.Outcome fd way r.os.journal upshot c' os.journal)
      (hu : upshot = .still ∨ upshot = .moved ∧ way ≠ .urgent) :
      Transferred P r id c fd way (setConn { r with os } id c', afterService id (way = .output))
  | told {c' : Conn} {os : Os κ (Mark ν)}
      (h : c.Outcome fd way r.os.journal .moved c' os.journal) :
      Transferred P r id c fd way
        (tell P (way.callback id) (afterService id (way = .output)) (setConn { r with os } id c'))

theorem attendInput_transferred (hfd : c.fd? = some fd) (id : Nat) :
    Transferred P r id c fd .input (attendInput P id c r) := by
  have h := Conn.receive_outcome hfd r.os
  unfold attendInput system
  generalize c.receive r.os = out at h ⊢
  rcases out with ⟨⟨e | n | _, c'⟩, os⟩
  · exact .failed h
  · dsimp only [Conn.Upshot.ofInput] at h ⊢
    by_cases hn : 0 < n
    · rw [if_pos hn] at h
      split_ifs
      · exact .told h
      · exact .silent h (.inr ⟨rfl, nofun⟩)
    · rw [if_neg hn] at h
      rw [if_neg fun hb ↦ hn hb.1]
      exact .silent h (.inl rfl)
  · exact .ended rfl h

theorem attendOutput_transferred (hfd : c.fd? = some fd) (id : Nat) :
    Transferred P r id c fd .output (attendOutput P id c r) := by
  have h := Conn.transmit_outcome hfd r.os
  unfold attendOutput system
  generalize c.transmit r.os = out at h ⊢
  rcases out with ⟨⟨e | n, c'⟩, os⟩
  · exact .failed h
  · dsimp only [Conn.Upshot.ofOutput] at h ⊢
    by_cases hn : 0 < n
    · rw [if_pos hn] at h
      split_ifs
      · exact .told h
      · exact .silent h (.inr ⟨rfl, nofun⟩)
    · rw [if_neg hn] at h
      rw [if_neg fun hb ↦ hn hb.1]
      exact .silent h (.inl rfl)

theorem attendUrgent_transferred (hfd : c.fd? = some fd) (id : Nat) :
    Transferred P r id c fd .urgent (attendUrgent P id c r) := by
  have h := Conn.receiveUrgent_outcome hfd r.os
  unfold attendUrgent system
  generalize c.receiveUrgent r.os = out at h ⊢
  rcases out with ⟨⟨e | stored, c'⟩, os⟩
  · exact .failed h
  · dsimp only [Conn.Upshot.ofUrgent] at h ⊢
    cases stored with
    | true => exact .told h
    | false => exact .silent h (.inl rfl)

inductive Attendance (P : Policy π ν) (r : Reactor κ π ν) (x : Watched) (event : Event) (now : Nat)
    (c : Conn) (fd : Fd) : Reactor κ π ν × List (Task π ν) → Prop where
  | leaves (hl : c.closePending ∧ c.output.isEmpty) :
      Attendance P r x event now c fd (r, [.finalize x.id .closed])
  | transfers {out : Reactor κ π ν × List (Task π ν)} (hl : ¬ (c.closePending ∧ c.output.isEmpty))
      (way : Way) (hw : way.Applies event x.interest) (h : Transferred P r x.id c fd way out) :
      Attendance P r x event now c fd out
  | hangs (hl : ¬ (c.closePending ∧ c.output.isEmpty))
      (hw : ∀ way : Way, ¬ way.Applies event x.interest) (hh : event.hangup) :
      Attendance P r x event now c fd (r.setConn x.id { c with hungUp := true }, [.check x.id])
  | idles (hl : ¬ (c.closePending ∧ c.output.isEmpty))
      (hw : ∀ way : Way, ¬ way.Applies event x.interest) (hh : event.hangup = false)
      (hi : c.isIdle now r.idleLimit) :
      Attendance P r x event now c fd (r, [.finalize x.id .timedOut])
  | rests (hl : ¬ (c.closePending ∧ c.output.isEmpty))
      (hw : ∀ way : Way, ¬ way.Applies event x.interest) (hh : event.hangup = false)
      (hi : c.isIdle now r.idleLimit = false) :
      Attendance P r x event now c fd (r, [.check x.id])

theorem attend_attendance (hc : r.conn? x.id = some c) (hfd : c.fd? = some fd) (event : Event)
    (now : Nat) : Attendance P r x event now c fd (attend P x event now r) := by
  have hnone (hin : ¬ (event.readable ∧ x.interest.read))
      (hout : ¬ (event.writable ∧ x.interest.write))
      (hurgent : ¬ (event.urgent ∧ x.interest.urgent)) (way : Way) :
      ¬ way.Applies event x.interest := by
    cases way with
    | input => exact hin
    | output => exact hout
    | urgent => exact hurgent
  unfold attend
  rw [hc]
  dsimp only
  split_ifs with hl hin hout hurgent hh hi
  · exact .leaves hl
  · exact .transfers hl .input hin (attendInput_transferred hfd x.id)
  · exact .transfers hl .output hout (attendOutput_transferred hfd x.id)
  · exact .transfers hl .urgent hurgent (attendUrgent_transferred hfd x.id)
  · exact .hangs hl (hnone hin hout hurgent) hh
  · exact .idles hl (hnone hin hout hurgent) (by simpa using hh) hi
  · exact .rests hl (hnone hin hout hurgent) (by simpa using hh) (by simpa using hi)

end Reactor

def Task.isVerdict : Task π ν → Bool
  | finalize _ .closed => false
  | finalize .. => true
  | _ => false

def Next.tasks : Next π ν → List (Task π ν)
  | go ts => ts
  | only ts => ts
  | wait _ => []

namespace Reactor

variable [Kernel κ] {P : Policy π ν}

theorem attend_verdict (x : Watched) (event : Event) (now : Nat) (r : Reactor κ π ν) :
    (∀ t ∈ (attend P x event now r).2, t.isVerdict = false) ∨
      ∃ why, (attend P x event now r).2 = [.finalize x.id why] := by
  have hafter (sends : Bool) :
      ∀ t ∈ afterService (π := π) (ν := ν) x.id sends, t.isVerdict = false := by
    cases sends <;> simp [afterService, Task.isVerdict]
  have ha := attend_aftermath (P := P) x event now r
  generalize (attend P x event now r).2 = ts at ha ⊢
  cases ha with
  | ended why => exact .inr ⟨why, rfl⟩
  | silent sends => exact .inl (hafter sends)
  | told script sends => exact .inl (List.forall_mem_cons.2 ⟨rfl, hafter sends⟩)

theorem advance_verdict (first : Task π ν) (r : Reactor κ π ν) :
    (∀ t ∈ (advance P first r).2.tasks, t.isVerdict = false) ∨ ∃ x event now why,
      first = .serve x event now ∧ (advance P first r).2 = .go [.finalize x.id why] := by
  have hadv := advance_advanced (P := P) first r
  generalize advance P first r = out at hadv ⊢
  cases hadv with
  | done | vacant | raised | waits => exact .inl (List.forall_mem_nil _)
  | welcomed | met | heard | dropped => exact .inl (List.forall_mem_singleton.2 rfl)
  | shared events watched now =>
    refine .inl fun t ht ↦ ?_
    obtain ⟨x, event, rfl⟩ := mem_serves ht
    rfl
  | attended x event now =>
    refine (attend_verdict (P := P) x event now r).imp_right ?_
    rintro ⟨why, h⟩
    exact ⟨x, event, now, why, rfl, congrArg Next.go h⟩
  | cleared => exact .inl (List.forall_mem_map.2 fun _ _ ↦ rfl)

end Reactor

/-- A verdict is carried out before anything else is done. -/
def Phase.IsPrompt : Phase π ν → Prop
  | busy _ rest => ∀ t ∈ rest, t.isVerdict = false
  | _ => True

namespace Moment

open Reactor

variable [Kernel κ] {P : Policy π ν} {outside : Phase π ν → Prop} {m m' : Moment κ π ν}

omit [Kernel κ] in
theorem turnTasks_verdict (w : Wait) (events : List Event) (r : Reactor κ π ν) :
    ∀ t ∈ turnTasks w events r, t.isVerdict = false := by
  have hrest : ∀ t ∈ [.settle events, .serveAll events w.watched, (.proceed : Task π ν)],
      t.isVerdict = false := by
    simp [Task.isVerdict]
  refine List.forall_mem_append.2 ⟨?_, hrest⟩
  split_ifs
  · exact List.forall_mem_map.2 fun _ _ ↦ rfl
  · exact List.forall_mem_nil _

omit [Kernel κ] in
theorem cleanupTasks_verdict (r : Reactor κ π ν) :
    ∀ t ∈ r.cleanupTasks (π := π) (ν := ν), t.isVerdict = false :=
  List.forall_mem_append.2 ⟨List.forall_mem_map.2 fun _ _ ↦ rfl, List.forall_mem_singleton.2 rfl⟩

theorem isPrompt_ofTasks {ts : List (Task π ν)} (h : ∀ t ∈ ts, t.isVerdict = false) :
    (Phase.ofTasks ts).IsPrompt := by
  cases ts with
  | nil => trivial
  | cons first rest => exact (List.forall_mem_cons.1 h).2

theorem Step.isPrompt (h : Step P outside m m') (hp : m.phase.IsPrompt) : m'.phase.IsPrompt := by
  cases h with
  | kernel | listener | request => exact hp
  | setUp | memory | fail => trivial
  | start => exact List.forall_mem_nil _
  | wake r w reported => exact isPrompt_ofTasks (turnTasks_verdict w _ r)
  | cleanup r => exact isPrompt_ofTasks (cleanupTasks_verdict r)
  | task r first rest =>
    rcases advance_verdict (P := P) first r with h | ⟨x, event, now, why, -, h⟩
    · generalize (advance P first r).2 = next at h ⊢
      cases next with
      | go ts => exact isPrompt_ofTasks (List.forall_mem_append.2 ⟨h, hp⟩)
      | only ts => exact isPrompt_ofTasks h
      | wait w => trivial
    · dsimp only
      rw [h]
      exact hp

theorem Occurs.isPrompt {b : Builder} (h : Occurs P outside b m) : m.phase.IsPrompt :=
  h.induction (motive := fun m ↦ m.phase.IsPrompt) (fun _ _ _ _ _ _ ↦ trivial)
    fun _ _ hs hp ↦ hs.isPrompt hp

end Moment

end PollReactor
