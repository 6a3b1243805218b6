import PollReactor.Proofs.Attendance

namespace PollReactor

variable {κ π ν : Type}

/-- The failure is one of the transfer, and not only of a call that finds nothing to do for now or
is made again. -/
def ErrorKind.isLasting : ErrorKind → Bool
  | wouldBlock => false
  | interrupted => false
  | _ => true

theorem ErrorKind.isLasting_iff {kind : ErrorKind} (h : kind ≠ .interrupted) :
    kind.isLasting ↔ kind ≠ .wouldBlock := by
  cases kind <;> simp_all [isLasting]

namespace Entry

/-- The call failed to move bytes on the descriptor. Only interruptions of an urgent receive are
failures; the system may say in two ways that there is no urgent byte. -/
def fails (fd : Fd) : Entry (Mark ν) → Bool
  | .sys (.recv fd' _) (.error e) => fd' = fd && e.kind.isLasting
  | .sys (.send fd' _) (.error e) => fd' = fd && e.kind.isLasting
  | .sys (.send fd' _) (.ok n) => fd' = fd && n.1 = 0
  | .sys (.recvUrgent fd') (.error e) => fd' = fd && e ≠ .eagain && e ≠ .einval
  | _ => false

theorem fails_of_moves {e : Entry (Mark ν)} {fd : Fd} (h : ∀ way, e.moves? ≠ some (way, fd)) :
    e.fails fd = false := by
  cases e with
  | remark => rfl
  | sys c a =>
    cases c with
    | recv fd' =>
      have hne : fd' ≠ fd := fun he ↦ h .input (by rw [he]; rfl)
      cases a <;> simp [fails, hne]
    | send fd' =>
      have hne : fd' ≠ fd := fun he ↦ h .output (by rw [he]; rfl)
      cases a <;> simp [fails, hne]
    | recvUrgent fd' =>
      have hne : fd' ≠ fd := fun he ↦ h .urgent (by rw [he]; rfl)
      cases a <;> simp [fails, hne]
    | _ => rfl

end Entry

def Journal.Faulty (fd : Fd) (j j' : Journal ν) : Prop :=
  ∃ new, j' = new ++ j ∧ ∃ e ∈ new, e.fails fd

theorem Journal.faulty_append {fd : Fd} {new j : Journal ν} :
    Faulty fd j (new ++ j) ↔ ∃ e ∈ new, e.fails fd := by
  constructor
  · rintro ⟨new', h, hf⟩
    exact List.append_cancel_right h ▸ hf
  · exact fun hf ↦ ⟨new, rfl, hf⟩

theorem Journal.not_faulty_self (fd : Fd) (j : Journal ν) : ¬ Faulty fd j j := by
  rintro ⟨new, hnew, e, he, -⟩
  obtain rfl := List.self_eq_append_left.1 hnew
  cases he

theorem Journal.faulty_cons {fd : Fd} {new j : Journal ν} {e : Entry (Mark ν)}
    (he : e.fails fd = false) : Faulty fd j (e :: (new ++ j)) ↔ ∃ e ∈ new, e.fails fd := by
  rw [← List.cons_append, faulty_append]
  simp [he]

section

variable [Kernel κ]

namespace Ring

/-- The calls of a loop of transfers tell whether it failed. -/
def Faults (fd : Fd) (result : Except IoError Nat) (new : Journal ν) : Prop :=
  (∃ e, result = .error e ∧ e.kind ≠ .wouldBlock) ↔ ∃ e ∈ new, e.fails fd

variable {fd : Fd} {result : Except IoError Nat} {new : Journal ν} {e : Entry (Mark ν)}

theorem Faults.ok {n : Nat} (h : ∀ e ∈ new, e.fails fd = false) : Faults fd (.ok n) new := by
  simpa [Faults] using h

theorem Faults.error {err : IoError} (he : e.fails fd = decide (err.kind ≠ .wouldBlock)) :
    Faults fd (.error err) [e] := by
  simp [Faults, he]

theorem Faults.after (h : Faults fd result new) (he : e.fails fd = false) :
    Faults fd result (new ++ [e]) := by
  simpa [Faults, or_and_right, exists_or, he] using h

theorem Faults.faulty (h : Faults fd result new) {j j' : Journal ν} (hj : j' = new ++ j) :
    Journal.Faulty fd j j' ↔ ∃ e, result = .error e ∧ e.kind ≠ .wouldBlock := by
  rw [hj, Journal.faulty_append]
  exact h.symm

theorem Faults.faulty_clock (h : Faults fd result new) {j j' : Journal ν} (hj : j' = new ++ j)
    (now : Nat) : Journal.Faulty fd j (.sys .clock now :: j') ↔
      ∃ e, result = .error e ∧ e.kind ≠ .wouldBlock := by
  rw [hj, Journal.faulty_cons rfl]
  exact h.symm

theorem fillFrom_faults (fd : Fd) (r : Ring) (moved : Nat) (o : Os κ (Mark ν)) :
    ∃ new, (fillFrom (.socket fd) r moved o).2.2.journal = new ++ o.journal ∧
      Faults fd (fillFrom (.socket fd) r moved o).1 new := by
  have hentry {room : Nat} {o o' : Os κ (Mark ν)}
      {answer : Except IoError { bs : Bytes // bs.length ≤ room }}
      (h : (Source.socket fd).pull room o = (answer, o')) : ∃ e : Entry (Mark ν),
        o'.journal = e :: o.journal ∧ e.fails fd = match answer with
          | .ok _ => false
          | .error e => e.kind.isLasting := by
    obtain ⟨a, rfl, hj⟩ := pull_entry h
    refine ⟨_, hj, ?_⟩
    cases a <;> simp [Entry.fails, liftErrno, IoError.kind]
  fun_induction fillFrom (Source.socket fd) r moved o with
  | case1 => exact ⟨[], rfl, .ok (List.forall_mem_nil _)⟩
  | case2 r moved o h hb o' hp =>
    obtain ⟨e, hj, he⟩ := hentry hp
    exact ⟨[e], hj, .ok (List.forall_mem_singleton.2 he)⟩
  | case3 r moved o h bs hb o' hp _ _ ih =>
    obtain ⟨e, hj, he⟩ := hentry hp
    obtain ⟨new, hnew, hf⟩ := ih
    exact ⟨new ++ [e], by rw [hnew, hj]; simp, hf.after he⟩
  | case4 r moved o h e o' hp hi _ ih =>
    obtain ⟨e', hj, he⟩ := hentry hp
    obtain ⟨new, hnew, hf⟩ := ih
    refine ⟨new ++ [e'], by rw [hnew, hj]; simp, hf.after ?_⟩
    simpa [hi, ErrorKind.isLasting] using he
  | case5 r moved o h e o' hp hi hb =>
    obtain ⟨e', hj, he⟩ := hentry hp
    refine ⟨[e'], hj, .ok (List.forall_mem_singleton.2 ?_)⟩
    simpa [hb.1, ErrorKind.isLasting] using he
  | case6 r moved o h e o' hp hi hb =>
    obtain ⟨e', hj, he⟩ := hentry hp
    refine ⟨[e'], hj, .error (he.trans ?_)⟩
    exact Bool.eq_iff_iff.2 ((ErrorKind.isLasting_iff hi).trans decide_eq_true_iff.symm)

theorem flushFrom_faults (fd : Fd) (r : Ring) (moved : Nat) (o : Os κ (Mark ν)) :
    ∃ new, (flushFrom (.socket fd) r moved o).2.2.journal = new ++ o.journal ∧
      Faults fd (flushFrom (.socket fd) r moved o).1 new := by
  have hentry {bs : Bytes} {o o' : Os κ (Mark ν)}
      {answer : Except IoError { n : Nat // n ≤ bs.length }}
      (h : (Sink.socket fd).push bs o = (answer, o')) : ∃ e : Entry (Mark ν),
        o'.journal = e :: o.journal ∧ e.fails fd = match answer with
          | .ok n => decide (n.1 = 0)
          | .error e => e.kind.isLasting := by
    obtain ⟨a, rfl, hj⟩ := push_socket h
    refine ⟨_, hj, ?_⟩
    cases a <;> simp [Entry.fails, liftErrno, IoError.kind]
  fun_induction flushFrom (Sink.socket fd) r moved o with
  | case1 => exact ⟨[], rfl, .ok (List.forall_mem_nil _)⟩
  | case2 r moved o h o' hn hp =>
    obtain ⟨e, hj, he⟩ := hentry hp
    exact ⟨[e], hj, .error (by simpa [IoError.kind, IoError.writeZero] using he)⟩
  | case3 r moved o h n hn o' hp h0 _ ih =>
    obtain ⟨e, hj, he⟩ := hentry hp
    obtain ⟨new, hnew, hf⟩ := ih
    exact ⟨new ++ [e], by rw [hnew, hj]; simp, hf.after (by simpa [h0] using he)⟩
  | case4 r moved o h e o' hp hi _ ih =>
    obtain ⟨e', hj, he⟩ := hentry hp
    obtain ⟨new, hnew, hf⟩ := ih
    refine ⟨new ++ [e'], by rw [hnew, hj]; simp, hf.after ?_⟩
    simpa [hi, ErrorKind.isLasting] using he
  | case5 r moved o h e o' hp hi hb =>
    obtain ⟨e', hj, he⟩ := hentry hp
    refine ⟨[e'], hj, .ok (List.forall_mem_singleton.2 ?_)⟩
    simpa [hb.1, ErrorKind.isLasting] using he
  | case6 r moved o h e o' hp hi hb =>
    obtain ⟨e', hj, he⟩ := hentry hp
    refine ⟨[e'], hj, .error (he.trans ?_)⟩
    exact Bool.eq_iff_iff.2 ((ErrorKind.isLasting_iff hi).trans decide_eq_true_iff.symm)

end Ring

namespace Conn

open Journal (Faulty)

variable {c : Conn} {fd : Fd}

theorem receive_faulty (hfd : c.fd? = some fd) (o : Os κ (Mark ν)) :
    (∃ e, (c.receive o).1.1 = .error e) ↔ Faulty fd o.journal (c.receive o).2.journal := by
  obtain ⟨new, hj, hf⟩ := c.input.fillFrom_faults fd 0 o
  have hplain := hf.faulty hj
  have hclock := hf.faulty_clock hj
  have hr := c.receive_receives o
  generalize c.receive o = out at hr ⊢
  cases hr with
  | unconnected hc => cases hfd.symm.trans hc
  | full => simp [Journal.not_faulty_self]
  | ended hc _ h =>
    cases hfd.symm.trans hc
    rw [h] at hplain
    simp [hplain]
  | blocked hc _ h he | failed hc _ h he =>
    cases hfd.symm.trans hc
    rw [h] at hplain
    simp [hplain, he]
  | moved hc _ h =>
    cases hfd.symm.trans hc
    rw [h] at hclock
    refine Iff.trans ?_ (hclock _).symm
    simp

theorem transmit_faulty (hfd : c.fd? = some fd) (o : Os κ (Mark ν)) :
    (∃ e, (c.transmit o).1.1 = .error e) ↔ Faulty fd o.journal (c.transmit o).2.journal := by
  obtain ⟨new, hj, hf⟩ := c.output.flushFrom_faults fd 0 o
  have hplain := hf.faulty hj
  have hclock := hf.faulty_clock hj
  have ht := c.transmit_transmits o
  generalize c.transmit o = out at ht ⊢
  cases ht with
  | unconnected hc => cases hfd.symm.trans hc
  | empty => simp [Journal.not_faulty_self]
  | still hc _ h =>
    cases hfd.symm.trans hc
    rw [h] at hplain
    simp [hplain]
  | blocked hc _ h he | failed hc _ h he =>
    cases hfd.symm.trans hc
    rw [h] at hplain
    simp [hplain, he]
  | moved hc _ h =>
    cases hfd.symm.trans hc
    rw [h] at hclock
    refine Iff.trans ?_ (hclock _).symm
    simp

theorem receiveUrgent_faulty (hfd : c.fd? = some fd) (o : Os κ (Mark ν)) :
    (∃ e, (c.receiveUrgent o).1.1 = .error e) ↔
      Faulty fd o.journal (c.receiveUrgent o).2.journal := by
  have hj : (sys (.recvUrgent fd) o).2.journal =
      [.sys (.recvUrgent fd) (sys (.recvUrgent fd) o).1] ++ o.journal := rfl
  unfold receiveUrgent
  rw [hfd]
  dsimp only
  rw [bind_run]
  generalize sys (.recvUrgent fd) o = out at hj ⊢
  rcases out with ⟨e | _ | b, o'⟩
  · have hfaulty : Faulty fd o.journal o'.journal ↔ e ≠ .eagain ∧ e ≠ .einval := by
      dsimp only at hj
      rw [hj, Journal.faulty_append]
      simp [Entry.fails]
    dsimp only
    by_cases hb : e = .eagain ∨ e = .einval
    · rw [if_pos hb]
      refine ⟨?_, fun hf ↦ absurd hb (not_or.2 (hfaulty.1 hf))⟩
      rintro ⟨e, ⟨⟩⟩
    · rw [if_neg hb]
      exact ⟨fun _ ↦ hfaulty.2 (not_or.1 hb), fun _ ↦ ⟨.os e, rfl⟩⟩
  · have hfaulty : ¬ Faulty fd o.journal o'.journal := by
      dsimp only at hj
      rw [hj, Journal.faulty_append]
      simp [Entry.fails]
    refine ⟨?_, fun hf ↦ absurd hf hfaulty⟩
    rintro ⟨e, ⟨⟩⟩
  · have hfaulty (now : Nat) : ¬ Faulty fd o.journal (.sys .clock now :: o'.journal) := by
      dsimp only at hj
      rw [hj, Journal.faulty_cons rfl]
      simp [Entry.fails]
    refine ⟨?_, fun hf ↦ absurd hf (hfaulty _)⟩
    rintro ⟨e, ⟨⟩⟩

end Conn

end

@[simp]
def Way.Tells (ch : Channel) : Way → Prop
  | input => ch.readMarks.low ≤ ch.input.len
  | output => ch.output.len < ch.writeMarks.low
  | urgent => True

namespace Reactor

variable [Kernel κ] {P : Policy π ν} {r : Reactor κ π ν} {x : Watched} {event : Event} {now : Nat}
  {c : Conn} {fd : Fd}

open Journal (Faulty)

/-- What a transfer of the connection `c` on its descriptor `fd` comes to, to the letter. -/
inductive Conveyed (P : Policy π ν) (r : Reactor κ π ν) (id : Nat) (c : Conn) (fd : Fd)
    (way : Way) : Reactor κ π ν × List (Task π ν) → Prop where
  | failed {e : IoError} {c' : Conn} {os : Os κ (Mark ν)}
      (h : c.Outcome fd way r.os.journal (.failed e) c' os.journal)
      (hf : Faulty fd r.os.journal os.journal) :
      Conveyed P r id c fd way (setConn { r with os } id c', [.finalize id (.failed e)])
  | still {c' : Conn} {os : Os κ (Mark ν)} {ts : List (Task π ν)}
      (h : c.Outcome fd way r.os.journal .still c' os.journal)
      (hf : ¬ Faulty fd r.os.journal os.journal) (hts : ∀ e, ts ≠ [.finalize id (.failed e)]) :
      Conveyed P r id c fd way (setConn { r with os } id c', ts)
  | silent {c' : Conn} {os : Os κ (Mark ν)}
      (h : c.Outcome fd way r.os.journal .moved c' os.journal)
      (hf : ¬ Faulty fd r.os.journal os.journal) (ht : ¬ way.Tells c'.toChannel) :
      Conveyed P r id c fd way (setConn { r with os } id c', afterService id (way = .output))
  | told {c' : Conn} {os : Os κ (Mark ν)}
      (h : c.Outcome fd way r.os.journal .moved c' os.journal)
      (hf : ¬ Faulty fd r.os.journal os.journal) (ht : way.Tells c'.toChannel) :
      Conveyed P r id c fd way
        (tell P (way.callback id) (afterService id (way = .output)) (setConn { r with os } id c'))

theorem attendInput_conveyed (hfd : c.fd? = some fd) (id : Nat) :
    Conveyed P r id c fd .input (attendInput P id c r) := by
  have h := Conn.receive_outcome hfd r.os
  have hf := Conn.receive_faulty hfd r.os
  unfold attendInput system
  generalize c.receive r.os = out at h hf ⊢
  rcases out with ⟨⟨e | n | _, c'⟩, os⟩
  · exact .failed h (hf.1 ⟨e, rfl⟩)
  · have hnone : ¬ Faulty fd r.os.journal os.journal := fun hfaulty ↦ by
      obtain ⟨e, ⟨⟩⟩ := hf.2 hfaulty
    dsimp only [Conn.Upshot.ofInput] at h ⊢
    by_cases hn : 0 < n
    · rw [if_pos hn] at h
      by_cases hl : c'.isReadLow
      · rw [if_neg (by simp [hl])]
        exact .silent h hnone (by simpa [Channel.isReadLow] using hl)
      · rw [if_pos ⟨hn, by simpa using hl⟩]
        exact .told h hnone (by simpa [Channel.isReadLow] using hl)
    · rw [if_neg hn] at h
      rw [if_neg fun hb ↦ hn hb.1]
      exact .still h hnone nofun
  · have hnone : ¬ Faulty fd r.os.journal os.journal := fun hfaulty ↦ by
      obtain ⟨e, ⟨⟩⟩ := hf.2 hfaulty
    exact .still h hnone nofun

theorem attendOutput_conveyed (hfd : c.fd? = some fd) (id : Nat) :
    Conveyed P r id c fd .output (attendOutput P id c r) := by
  have h := Conn.transmit_outcome hfd r.os
  have hf := Conn.transmit_faulty hfd r.os
  unfold attendOutput system
  generalize c.transmit r.os = out at h hf ⊢
  rcases out with ⟨⟨e | n, c'⟩, os⟩
  · exact .failed h (hf.1 ⟨e, rfl⟩)
  · have hnone : ¬ Faulty fd r.os.journal os.journal := fun hfaulty ↦ by
      obtain ⟨e, ⟨⟩⟩ := hf.2 hfaulty
    dsimp only [Conn.Upshot.ofOutput] at h ⊢
    by_cases hn : 0 < n
    · rw [if_pos hn] at h
      by_cases hl : c'.isWriteLow
      · rw [if_pos ⟨hn, hl⟩]
        exact .told h hnone (by simpa [Channel.isWriteLow] using hl)
      · rw [if_neg fun hb ↦ hl hb.2]
        exact .silent h hnone (by simpa [Channel.isWriteLow] using hl)
    · rw [if_neg hn] at h
      rw [if_neg fun hb ↦ hn hb.1]
      exact .still h hnone nofun

theorem attendUrgent_conveyed (hfd : c.fd? = some fd) (id : Nat) :
    Conveyed P r id c fd .urgent (attendUrgent P id c r) := by
  have h := Conn.receiveUrgent_outcome hfd r.os
  have hf := Conn.receiveUrgent_faulty hfd r.os
  unfold attendUrgent system
  generalize c.receiveUrgent r.os = out at h hf ⊢
  rcases out with ⟨⟨e | stored, c'⟩, os⟩
  · exact .failed h (hf.1 ⟨e, rfl⟩)
  · have hnone : ¬ Faulty fd r.os.journal os.journal := fun hfaulty ↦ by
      obtain ⟨e, ⟨⟩⟩ := hf.2 hfaulty
    dsimp only [Conn.Upshot.ofUrgent] at h ⊢
    cases stored with
    | true => exact .told h hnone trivial
    | false => exact .still h hnone nofun

theorem attend_conveyed (hc : r.conn? x.id = some c) (hfd : c.fd? = some fd) (event : Event)
    (now : Nat) :
    (∃ way : Way, way.Applies event x.interest ∧
      Conveyed P r x.id c fd way (attend P x event now r)) ∨
    (attend P x event now r).1.os.journal = r.os.journal ∧
      ((attend P x event now r).1.conn? x.id).isSome ∧
        ∀ e, (attend P x event now r).2 ≠ [.finalize x.id (.failed e)] := by
  unfold attend
  rw [hc]
  dsimp only
  split_ifs with hl hin hout hurgent hh hi
  · exact .inr ⟨rfl, by rw [hc]; rfl, nofun⟩
  · exact .inl ⟨.input, hin, attendInput_conveyed hfd x.id⟩
  · exact .inl ⟨.output, hout, attendOutput_conveyed hfd x.id⟩
  · exact .inl ⟨.urgent, hurgent, attendUrgent_conveyed hfd x.id⟩
  · exact .inr ⟨rfl, by rw [conn?_setConn hc, if_pos rfl]; rfl, nofun⟩
  · exact .inr ⟨rfl, by rw [hc]; rfl, nofun⟩
  · exact .inr ⟨rfl, by rw [hc]; rfl, nofun⟩

end Reactor

end PollReactor
