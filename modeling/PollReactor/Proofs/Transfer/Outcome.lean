import PollReactor.Proofs.Input
import PollReactor.Proofs.Routing

namespace PollReactor

variable {κ ν : Type}

namespace Entry

/-- At least one byte moved on the descriptor. -/
def stirs (fd : Fd) : Entry (Mark ν) → Bool
  | .sys (.recv fd' _) (.ok bs) => fd' = fd && !bs.1.isEmpty
  | .sys (.send fd' _) (.ok n) => fd' = fd && n.1 != 0
  | .sys (.recvUrgent fd') (.ok (some _)) => fd' = fd
  | _ => false

def urgent? (fd : Fd) : Entry (Mark ν) → Option UInt8
  | .sys (.recvUrgent fd') (.ok (some b)) => if fd' = fd then some b else none
  | _ => none

theorem stirs_of_isIdle {e : Entry (Mark ν)} (h : e.isIdle) (fd : Fd) : e.stirs fd = false := by
  cases e with
  | sys c a => cases c <;> first | rfl | cases h
  | remark => rfl

theorem stirs_of_moves {e : Entry (Mark ν)} {way : Way} {fd fd' : Fd}
    (h : e.moves? = some (way, fd)) (hne : fd ≠ fd') : e.stirs fd' = false := by
  cases e with
  | remark => cases h
  | sys c a =>
    cases c with
    | recv | send | recvUrgent =>
      cases h
      rcases a with _ | _ | _ <;> simp [stirs, hne]
    | _ => cases h

theorem urgent?_of_moves {e : Entry (Mark ν)} {way : Way} {fd fd' : Fd}
    (h : e.moves? = some (way, fd)) (hne : way = .urgent → fd ≠ fd') : e.urgent? fd' = none := by
  cases e with
  | remark => cases h
  | sys c a =>
    cases c with
    | recvUrgent =>
      cases h
      rcases a with _ | _ | _ <;> simp [urgent?, hne rfl]
    | _ => rfl

end Entry

section

variable [Kernel κ]

namespace Ring

/-- How a loop of transfers ended that had moved `moved` bytes before: what the calls behind `j`
tell of its result. -/
def Ran (fd : Fd) (way : Way) (moved : Nat) (result : Except IoError Nat) (new : Journal ν) :
    Prop :=
  (∀ e ∈ new, e.moves? = some (way, fd)) ∧ match result with
    | .ok n => moved ≤ n ∧ (moved < n ↔ ∃ e ∈ new, e.stirs fd)
    | .error e => e.kind ≠ .interrupted ∧
      (e.kind = .wouldBlock → moved = 0 ∧ ∀ e ∈ new, e.stirs fd = false)

theorem Ran.nil (fd : Fd) (way : Way) (moved : Nat) :
    Ran fd way moved (.ok moved) ([] : Journal ν) :=
  ⟨by simp, by simp⟩

variable {fd : Fd} {way : Way} {moved n : Nat} {result : Except IoError Nat} {new : Journal ν}
  {e : Entry (Mark ν)}

theorem Ran.not_stirs (h : Ran fd way moved (.ok moved) new) : ∀ e ∈ new, e.stirs fd = false := by
  intro e he
  rw [← Bool.not_eq_true]
  exact fun hs ↦ absurd (h.2.2.2 ⟨e, he, hs⟩) (Nat.lt_irrefl moved)

theorem Ran.after (h : Ran fd way (moved + n) result new) (he : e.moves? = some (way, fd))
    (hs : e.stirs fd = decide (0 < n)) : Ran fd way moved result (new ++ [e]) := by
  obtain ⟨hnew, h⟩ := h
  refine ⟨by simpa [or_imp, forall_and] using ⟨hnew, he⟩, ?_⟩
  cases result with
  | ok k =>
    obtain ⟨hle, hiff⟩ := h
    refine ⟨by omega, ?_⟩
    simp only [List.mem_append, List.mem_singleton, or_and_right, exists_or, ← hiff,
      exists_eq_left, hs, decide_eq_true_eq]
    omega
  | error e' =>
    refine ⟨h.1, fun hb ↦ ?_⟩
    obtain ⟨h0, hall⟩ := h.2 hb
    refine ⟨by omega, ?_⟩
    have hn : n = 0 := by omega
    simpa [or_imp, forall_and, hs, hn] using hall

theorem Ran.single_ok (he : e.moves? = some (way, fd)) (hs : e.stirs fd = false) :
    Ran fd way moved (.ok moved) [e] :=
  ⟨by simpa using he, by simpa using hs⟩

theorem Ran.single_error {err : IoError} (he : e.moves? = some (way, fd)) (hs : e.stirs fd = false)
    (hi : err.kind ≠ .interrupted) (hb : ¬ (err.kind = .wouldBlock ∧ 0 < moved)) :
    Ran fd way moved (.error err) [e] := by
  refine ⟨by simpa using he, hi, fun hw ↦ ⟨?_, by simpa using hs⟩⟩
  have hm : ¬ 0 < moved := fun hm ↦ hb ⟨hw, hm⟩
  omega

theorem fillFrom_ran (fd : Fd) (r : Ring) (moved : Nat) (o : Os κ (Mark ν)) :
    ∃ new, (fillFrom (.socket fd) r moved o).2.2.journal = new ++ o.journal ∧
      Ran fd .input moved (fillFrom (.socket fd) r moved o).1 new := by
  have hentry {room : Nat} {o o' : Os κ (Mark ν)}
      {answer : Except IoError { bs : Bytes // bs.length ≤ room }}
      (h : (Source.socket fd).pull room o = (answer, o')) : ∃ e : Entry (Mark ν),
        o'.journal = e :: o.journal ∧ e.moves? = some (.input, fd) ∧
          e.stirs fd = match answer with
            | .ok bs => decide (0 < bs.1.length)
            | .error _ => false := by
    obtain ⟨a, rfl, hj⟩ := pull_entry h
    refine ⟨_, hj, rfl, ?_⟩
    rcases a with _ | ⟨_ | _, _⟩ <;> simp [Entry.stirs, liftErrno]
  fun_induction fillFrom (Source.socket fd) r moved o with
  | case1 => exact ⟨[], rfl, .nil fd .input _⟩
  | case2 r moved o h hb o' hp =>
    obtain ⟨e, hj, he, hs⟩ := hentry hp
    exact ⟨[e], hj, .single_ok he (by simpa using hs)⟩
  | case3 r moved o h bs hb o' hp _ _ ih =>
    obtain ⟨e, hj, he, hs⟩ := hentry hp
    obtain ⟨new, hnew, hran⟩ := ih
    exact ⟨new ++ [e], by rw [hnew, hj]; simp, hran.after he hs⟩
  | case4 r moved o h e o' hp _ _ ih =>
    obtain ⟨e, hj, he, hs⟩ := hentry hp
    obtain ⟨new, hnew, hran⟩ := ih
    exact ⟨new ++ [e], by rw [hnew, hj]; simp, Ran.after (n := 0) hran he (by simpa using hs)⟩
  | case5 r moved o h e o' hp hi hb =>
    obtain ⟨e, hj, he, hs⟩ := hentry hp
    exact ⟨[e], hj, .single_ok he (by simpa using hs)⟩
  | case6 r moved o h e o' hp hi hb =>
    obtain ⟨e, hj, he, hs⟩ := hentry hp
    exact ⟨[e], hj, .single_error he (by simpa using hs) hi hb⟩

theorem flushFrom_ran (fd : Fd) (r : Ring) (moved : Nat) (o : Os κ (Mark ν)) :
    ∃ new, (flushFrom (.socket fd) r moved o).2.2.journal = new ++ o.journal ∧
      Ran fd .output moved (flushFrom (.socket fd) r moved o).1 new := by
  have hentry {bs : Bytes} {o o' : Os κ (Mark ν)}
      {answer : Except IoError { n : Nat // n ≤ bs.length }}
      (h : (Sink.socket fd).push bs o = (answer, o')) : ∃ e : Entry (Mark ν),
        o'.journal = e :: o.journal ∧ e.moves? = some (.output, fd) ∧
          e.stirs fd = match answer with
            | .ok n => decide (0 < n.1)
            | .error _ => false := by
    obtain ⟨a, rfl, hj⟩ := push_socket h
    refine ⟨_, hj, rfl, ?_⟩
    rcases a with _ | ⟨_ | _, _⟩ <;> simp [Entry.stirs, liftErrno]
  fun_induction flushFrom (Sink.socket fd) r moved o with
  | case1 => exact ⟨[], rfl, .nil fd .output _⟩
  | case2 r moved o h o' hn hp =>
    obtain ⟨e, hj, he, hs⟩ := hentry hp
    exact ⟨[e], hj, .single_error he (by simpa using hs) (by decide)
      (fun hw ↦ absurd hw.1 (by decide))⟩
  | case3 r moved o h n hn o' hp _ _ ih =>
    obtain ⟨e, hj, he, hs⟩ := hentry hp
    obtain ⟨new, hnew, hran⟩ := ih
    exact ⟨new ++ [e], by rw [hnew, hj]; simp, hran.after he hs⟩
  | case4 r moved o h e o' hp _ _ ih =>
    obtain ⟨e, hj, he, hs⟩ := hentry hp
    obtain ⟨new, hnew, hran⟩ := ih
    exact ⟨new ++ [e], by rw [hnew, hj]; simp, Ran.after (n := 0) hran he (by simpa using hs)⟩
  | case5 r moved o h e o' hp hi hb =>
    obtain ⟨e, hj, he, hs⟩ := hentry hp
    exact ⟨[e], hj, .single_ok he (by simpa using hs)⟩
  | case6 r moved o h e o' hp hi hb =>
    obtain ⟨e, hj, he, hs⟩ := hentry hp
    exact ⟨[e], hj, .single_error he (by simpa using hs) hi hb⟩

end Ring

namespace Conn

structure Moved (fd : Fd) (way : Way) (c : Conn) (new : Journal ν) (c' : Conn) : Prop where
  entries : ∀ e ∈ new, e.moves? = some (way, fd)
  once : way = .urgent → new.length = 1
  urgent : c'.urgent = (new.findSome? (·.urgent? fd)).or c.urgent

inductive Upshot where
  | moved
  | still
  | failed (e : IoError)

namespace Upshot

def ofInput : Except IoError Received → Upshot
  | .ok (.bytes n) => if 0 < n then moved else still
  | .ok .endOfStream => still
  | .error e => failed e

def ofOutput : Except IoError Nat → Upshot
  | .ok n => if 0 < n then moved else still
  | .error e => failed e

def ofUrgent : Except IoError Bool → Upshot
  | .ok stored => if stored then moved else still
  | .error e => failed e

end Upshot

/-- What a transfer makes of a connection, and of a journal `j`. -/
inductive Outcome (fd : Fd) (way : Way) (c : Conn) (j : Journal ν) :
    Upshot → Conn → Journal ν → Prop where
  | moved {new : Journal ν} {c' : Conn} (h : Moved fd way c new c')
      (hs : ∃ e ∈ new, e.stirs fd) (now : Nat) :
      Outcome fd way c j .moved { c' with lastActivity := now } (.sys .clock now :: (new ++ j))
  | still {new : Journal ν} {c' : Conn} (h : Moved fd way c new c')
      (hs : ∀ e ∈ new, e.stirs fd = false) (ha : c'.lastActivity = c.lastActivity) :
      Outcome fd way c j .still c' (new ++ j)
  /-- Of interruptions, only that of an urgent receive is a failure. -/
  | failed {new : Journal ν} {c' : Conn} (h : Moved fd way c new c')
      (hs : way = .urgent → ∀ e ∈ new, e.stirs fd = false) {e : IoError}
      (he : e.kind = .interrupted → ∃ n, e = .os n ∧ new = [.sys (.recvUrgent fd) (.error n)]) :
      Outcome fd way c j (.failed e) c' (new ++ j)

variable {fd : Fd} {way : Way} {c : Conn}

omit [Kernel κ] in
theorem moved_of_entries {new : Journal ν} {c' : Conn} (hw : way ≠ .urgent)
    (hn : ∀ e ∈ new, e.moves? = some (way, fd)) (hu : c'.urgent = c.urgent) :
    Moved fd way c new c' := by
  refine ⟨hn, fun h ↦ absurd h hw, ?_⟩
  have hnone : new.findSome? (·.urgent? fd) = none := by
    apply List.findSome?_eq_none_iff.2
    intro e he
    exact Entry.urgent?_of_moves (hn e he) fun h ↦ absurd h hw
  rw [hnone, Option.none_or, hu]

omit [Kernel κ] in
theorem Outcome.unchanged (hw : way ≠ .urgent) (j : Journal ν) :
    Outcome fd way c j .still c j := by
  have h : Moved fd way c ([] : Journal ν) c :=
    moved_of_entries hw (List.forall_mem_nil _) rfl
  exact .still h (List.forall_mem_nil _) rfl

theorem receive_outcome (hfd : c.fd? = some fd) (o : Os κ (Mark ν)) :
    Outcome fd .input c o.journal
      (.ofInput (c.receive o).1.1) (c.receive o).1.2 (c.receive o).2.journal := by
  have hw : Way.input ≠ .urgent := nofun
  obtain ⟨new, hj, hran⟩ := c.input.fillFrom_ran fd 0 o
  have hm (input : Ring) : Moved fd .input c new { c with input } :=
    moved_of_entries hw hran.1 rfl
  have hr := c.receive_receives o
  generalize c.receive o = out at hr ⊢
  cases hr with
  | unconnected hc => cases hfd.symm.trans hc
  | full => exact .unchanged hw o.journal
  | ended hc _ h =>
    cases hfd.symm.trans hc
    rw [h] at hj hran
    exact hj ▸ .still (hm _) hran.not_stirs rfl
  | blocked hc _ h he =>
    cases hfd.symm.trans hc
    rw [h] at hj hran
    exact hj ▸ .still (hm _) (hran.2.2 he).2 rfl
  | failed hc _ h =>
    cases hfd.symm.trans hc
    rw [h] at hj hran
    exact hj ▸ .failed (hm _) (absurd · hw) fun hi ↦ absurd hi hran.2.1
  | @moved _ _ input _ hc _ h =>
    cases hfd.symm.trans hc
    rw [h] at hj hran
    have hs := hran.2.2.1 (Nat.succ_pos _)
    have ho := Outcome.moved (j := o.journal) (hm input) hs
    rw [← hj] at ho
    exact ho _

theorem transmit_outcome (hfd : c.fd? = some fd) (o : Os κ (Mark ν)) :
    Outcome fd .output c o.journal
      (.ofOutput (c.transmit o).1.1) (c.transmit o).1.2 (c.transmit o).2.journal := by
  have hw : Way.output ≠ .urgent := nofun
  obtain ⟨new, hj, hran⟩ := c.output.flushFrom_ran fd 0 o
  have hm (output : Ring) (outputHigh : Bool) :
      Moved fd .output c new { c with output, outputHigh } :=
    moved_of_entries hw hran.1 rfl
  have ht := c.transmit_transmits o
  generalize c.transmit o = out at ht ⊢
  cases ht with
  | unconnected hc => cases hfd.symm.trans hc
  | empty => exact .unchanged hw o.journal
  | still hc _ h =>
    cases hfd.symm.trans hc
    rw [h] at hj hran
    exact hj ▸ .still (hm _ _) hran.not_stirs rfl
  | blocked hc _ h he =>
    cases hfd.symm.trans hc
    rw [h] at hj hran
    exact hj ▸ .still (hm _ _) (hran.2.2 he).2 rfl
  | failed hc _ h =>
    cases hfd.symm.trans hc
    rw [h] at hj hran
    exact hj ▸ .failed (hm _ c.outputHigh) (absurd · hw) fun hi ↦ absurd hi hran.2.1
  | @moved _ _ output _ hc _ h =>
    cases hfd.symm.trans hc
    rw [h] at hj hran
    have hs := hran.2.2.1 (Nat.succ_pos _)
    have ho := Outcome.moved (j := o.journal) (hm output (c.eased output).outputHigh) hs
    rw [← hj] at ho
    exact ho _

theorem receiveUrgent_outcome (hfd : c.fd? = some fd) (o : Os κ (Mark ν)) :
    Outcome fd .urgent c o.journal (.ofUrgent (c.receiveUrgent o).1.1) (c.receiveUrgent o).1.2
      (c.receiveUrgent o).2.journal := by
  have hmoved {a : (SysCall.recvUrgent fd).Answer} (c' : Conn)
      (hu : c'.urgent = ((Entry.sys (μ := Mark ν) (.recvUrgent fd) a).urgent? fd).or c.urgent) :
      Moved (ν := ν) fd .urgent c [.sys (.recvUrgent fd) a] c' :=
    ⟨by simp [Entry.moves?], fun _ ↦ rfl, by rw [hu, List.findSome?_singleton]⟩
  have hj : (sys (.recvUrgent fd) o).2.journal =
      [.sys (.recvUrgent fd) (sys (.recvUrgent fd) o).1] ++ o.journal := rfl
  unfold receiveUrgent
  rw [hfd]
  dsimp only
  rw [bind_run]
  generalize sys (.recvUrgent fd) o = out at hj ⊢
  rcases out with ⟨e | _ | b, o'⟩
  · dsimp only at hj ⊢
    by_cases hb : e = .eagain ∨ e = .einval
    · rw [if_pos hb]
      have ho := Outcome.still (j := o.journal) (hmoved (a := .error e) c rfl)
        (by simp [Entry.stirs]) rfl
      rw [← hj] at ho
      exact ho
    · rw [if_neg hb]
      have ho := Outcome.failed (j := o.journal) (hmoved (a := .error e) c rfl)
        (fun _ ↦ by simp [Entry.stirs]) (e := .os e) fun _ ↦ ⟨e, rfl, rfl⟩
      rw [← hj] at ho
      exact ho
  · dsimp only at hj ⊢
    have ho := Outcome.still (j := o.journal) (hmoved (a := .ok none) c rfl)
      (by simp [Entry.stirs]) rfl
    rw [← hj] at ho
    exact ho
  · dsimp only at hj ⊢
    have ho := Outcome.moved (j := o.journal)
      (hmoved (a := .ok (some b)) { c with urgent := some b } (by simp [Entry.urgent?]))
      (by simp [Entry.stirs]) (sys .clock o').1
    rw [← hj] at ho
    exact ho

end Conn

end

end PollReactor
