import Mathlib.Tactic.SplitIfs
import PollReactor.Proofs.Accord
import PollReactor.Proofs.Sockets
import PollReactor.Reactor.Turn

namespace PollReactor

open Os (Alike Shuns)

variable {κ ν : Type} [Kernel κ] {id : Nat} {fd fd' : Fd}

namespace Ring

structure Concur (id : Nat) (fd : Fd) (out out' : Except IoError Nat × Ring × Os κ (Mark ν)) :
    Prop where
  result : out.1 = out'.1
  ring : out.2.1 = out'.2.1
  os : Alike id fd out.2.2 out'.2.2

theorem pull_alike {o o' s : Os κ (Mark ν)} (h : Alike id fd o o') {room : Nat}
    {a : Except IoError { bs : Bytes // bs.length ≤ room }}
    (hp : (Source.socket fd).pull room o = (a, s)) :
    ∃ s', (Source.socket fd).pull room o' = (a, s') ∧ Alike id fd s s' := by
  obtain ⟨ha, hs⟩ := h.called (c := .recv fd room) List.mem_cons_self
  obtain ⟨rfl, rfl⟩ := Prod.mk.inj hp
  exact ⟨_, Prod.ext (congrArg liftErrno ha.symm) rfl, hs⟩

theorem push_alike {o o' s : Os κ (Mark ν)} (h : Alike id fd o o') {bs : Bytes}
    {a : Except IoError { n : Nat // n ≤ bs.length }}
    (hp : (Sink.socket fd).push bs o = (a, s)) :
    ∃ s', (Sink.socket fd).push bs o' = (a, s') ∧ Alike id fd s s' := by
  obtain ⟨ha, hs⟩ := h.called (c := .send fd bs) List.mem_cons_self
  obtain ⟨rfl, rfl⟩ := Prod.mk.inj hp
  exact ⟨_, Prod.ext (congrArg liftErrno ha.symm) rfl, hs⟩

theorem fillFrom_concur {o o' : Os κ (Mark ν)} (h : Alike id fd o o') (r : Ring) (moved : Nat) :
    Concur id fd (fillFrom (.socket fd) r moved o) (fillFrom (.socket fd) r moved o') := by
  -- The left run sets the pace: each of its pulls has its counterpart on the right.
  fun_induction fillFrom (Source.socket fd) r moved o generalizing o' with
  | case1 r moved o hr =>
    rw [fillFrom_eq, if_pos hr]
    exact ⟨rfl, rfl, h⟩
  | case2 r moved o hr _ s hp =>
    obtain ⟨s', hp', hs⟩ := pull_alike h hp
    rw [fillFrom_eq, if_neg hr, hp']
    exact ⟨rfl, rfl, hs⟩
  | case3 r moved o hr bs hbs s hp hb _ ih =>
    obtain ⟨s', hp', hs⟩ := pull_alike h hp
    rw [fillFrom_eq _ _ _ o', if_neg hr, hp']
    simp only [if_neg hb]
    exact ih hs
  | case4 r moved o hr e s hp he _ ih =>
    obtain ⟨s', hp', hs⟩ := pull_alike h hp
    rw [fillFrom_eq _ _ _ o', if_neg hr, hp']
    simp only [if_pos he]
    exact ih hs
  | case5 r moved o hr e s hp he hm =>
    obtain ⟨s', hp', hs⟩ := pull_alike h hp
    rw [fillFrom_eq, if_neg hr, hp']
    simp only [if_neg he, if_pos hm]
    exact ⟨rfl, rfl, hs⟩
  | case6 r moved o hr e s hp he hm =>
    obtain ⟨s', hp', hs⟩ := pull_alike h hp
    rw [fillFrom_eq, if_neg hr, hp']
    simp only [if_neg he, if_neg hm]
    exact ⟨rfl, rfl, hs⟩

theorem flushFrom_concur {o o' : Os κ (Mark ν)} (h : Alike id fd o o') (r : Ring) (moved : Nat) :
    Concur id fd (flushFrom (.socket fd) r moved o) (flushFrom (.socket fd) r moved o') := by
  fun_induction flushFrom (Sink.socket fd) r moved o generalizing o' with
  | case1 r moved o hr =>
    rw [flushFrom_eq, if_pos hr]
    exact ⟨rfl, rfl, h⟩
  | case2 r moved o hr s _ hp =>
    obtain ⟨s', hp', hs⟩ := push_alike h hp
    rw [flushFrom_eq, if_neg hr, hp']
    exact ⟨rfl, rfl, hs⟩
  | case3 r moved o hr n hn s hp h0 _ ih =>
    obtain ⟨s', hp', hs⟩ := push_alike h hp
    rw [flushFrom_eq _ _ _ o', if_neg hr, hp']
    simp only [if_neg h0]
    exact ih hs
  | case4 r moved o hr e s hp he _ ih =>
    obtain ⟨s', hp', hs⟩ := push_alike h hp
    rw [flushFrom_eq _ _ _ o', if_neg hr, hp']
    simp only [if_pos he]
    exact ih hs
  | case5 r moved o hr e s hp he hm =>
    obtain ⟨s', hp', hs⟩ := push_alike h hp
    rw [flushFrom_eq, if_neg hr, hp']
    simp only [if_neg he, if_pos hm]
    exact ⟨rfl, rfl, hs⟩
  | case6 r moved o hr e s hp he hm =>
    obtain ⟨s', hp', hs⟩ := push_alike h hp
    rw [flushFrom_eq, if_neg hr, hp']
    simp only [if_neg he, if_neg hm]
    exact ⟨rfl, rfl, hs⟩

section

variable {R : Os κ (Mark ν) → Os κ (Mark ν) → Prop} [IsPreorder (Os κ (Mark ν)) R]

theorem fillFrom_within (h : ∀ room, Within R (sys (.recv fd room))) (r : Ring) (moved : Nat)
    (o : Os κ (Mark ν)) : R o (fillFrom (.socket fd) r moved o).2.2 := by
  have hpull {room : Nat} {o s : Os κ (Mark ν)}
      {a : Except IoError { bs : Bytes // bs.length ≤ room }}
      (hp : (Source.socket fd).pull room o = (a, s)) : R o s := by
    cases hp
    exact h room o
  fun_induction fillFrom (Source.socket fd) r moved o with
  | case1 => exact refl_of R _
  | case2 r moved o hr _ s hp => exact hpull hp
  | case3 r moved o hr bs hbs s hp _ _ ih => exact trans_of R (hpull hp) ih
  | case4 r moved o hr e s hp _ _ ih => exact trans_of R (hpull hp) ih
  | case5 r moved o hr e s hp => exact hpull hp
  | case6 r moved o hr e s hp => exact hpull hp

theorem flushFrom_within (h : ∀ bs, Within R (sys (.send fd bs))) (r : Ring) (moved : Nat)
    (o : Os κ (Mark ν)) : R o (flushFrom (.socket fd) r moved o).2.2 := by
  have hpush {bs : Bytes} {o s : Os κ (Mark ν)} {a : Except IoError { n : Nat // n ≤ bs.length }}
      (hp : (Sink.socket fd).push bs o = (a, s)) : R o s := by
    cases hp
    exact h bs o
  fun_induction flushFrom (Sink.socket fd) r moved o with
  | case1 => exact refl_of R _
  | case2 r moved o hr s _ hp => exact hpush hp
  | case3 r moved o hr n hn s hp _ _ ih => exact trans_of R (hpush hp) ih
  | case4 r moved o hr e s hp _ _ ih => exact trans_of R (hpush hp) ih
  | case5 r moved o hr e s hp => exact hpush hp
  | case6 r moved o hr e s hp => exact hpush hp

end

/-- A transfer with the descriptor, as one act. -/
def moving (transfer : Os κ (Mark ν) → Except IoError Nat × Ring × Os κ (Mark ν)) :
    OsM κ (Mark ν) (Except IoError Nat × Ring) := fun o ↦
  (((transfer o).1, (transfer o).2.1), (transfer o).2.2)

theorem moving_tandem {transfer : Os κ (Mark ν) → Except IoError Nat × Ring × Os κ (Mark ν)}
    (h : ∀ o o', Alike id fd o o' → Concur id fd (transfer o) (transfer o'))
    (hu : ∀ o, Untimed o (transfer o).2.2) : Os.Tandem id fd (moving transfer) := by
  refine .of_untimed (fun _ _ ↦ trivial) hu fun o o' _ _ ho ↦ ?_
  obtain ⟨ha, hb, hs⟩ := h o o' ho
  exact ⟨Prod.ext ha hb, hs⟩

end Ring

namespace Conn

variable {c : Conn}

theorem touch_tandem (c : Conn) : Os.Tandem (κ := κ) (ν := ν) id fd c.touch :=
  Os.clock_tandem.bind fun _ ↦ .pure _

theorem touch_within (c : Conn) : Within (Shuns (κ := κ) (ν := ν) id fd) c.touch :=
  Within.bind (Os.sys_within List.not_mem_nil) fun _ ↦ .pure _

def afterFill (c : Conn) :
    Except IoError Nat × Ring → OsM κ (Mark ν) (Except IoError Received × Conn)
  | (.ok 0, input) => pure (.ok .endOfStream, { c with input })
  | (.ok (n + 1), input) => do
    let c ← touch { c with input }
    return (.ok (.bytes (n + 1)), c)
  | (.error e, input) =>
    pure (if e.kind = .wouldBlock then .ok (.bytes 0) else .error e, { c with input })

def afterFlush (c : Conn) :
    Except IoError Nat × Ring → OsM κ (Mark ν) (Except IoError Nat × Conn)
  | (.ok 0, output) => pure (.ok 0, c.eased output)
  | (.ok (n + 1), output) => do
    let c ← (c.eased output).touch
    return (.ok (n + 1), c)
  | (.error e, output) =>
    pure (if e.kind = .wouldBlock then (.ok 0, c.eased output) else (.error e, { c with output }))

theorem receive_eq (hfd : c.fd? = some fd) (hroom : ¬ c.input.isFull) :
    (c.receive : OsM κ (Mark ν) _) =
      Ring.moving (c.input.fillFrom (.socket fd) 0) >>= c.afterFill := by
  funext o
  rw [bind_run]
  unfold receive Ring.fill Ring.moving
  simp only [hfd, if_neg hroom]
  rcases Ring.fillFrom (.socket fd) c.input 0 o with ⟨e | _ | n, input, s⟩
  · by_cases he : e.kind = .wouldBlock
    · simp [afterFill, he, pure_run]
    · simp [afterFill, he, pure_run]
  · rfl
  · rfl

theorem transmit_eq (hfd : c.fd? = some fd) (hmore : ¬ c.output.isEmpty) :
    (c.transmit : OsM κ (Mark ν) _) =
      Ring.moving (c.output.flushFrom (.socket fd) 0) >>= c.afterFlush := by
  funext o
  rw [bind_run]
  unfold transmit Ring.flush Ring.moving
  simp only [hfd, if_neg hmore]
  rcases Ring.flushFrom (.socket fd) c.output 0 o with ⟨e | _ | n, output, s⟩
  · by_cases he : e.kind = .wouldBlock
    · simp [afterFlush, he, pure_run, eased]
    · simp [afterFlush, he, pure_run]
  · rfl
  · rfl

section

variable (h : ∀ fd', c.fd? = some fd' → fd' = fd)

include h

theorem receive_tandem : Os.Tandem (κ := κ) (ν := ν) id fd c.receive := by
  cases hc : c.fd? with
  | none =>
    unfold receive
    rw [hc]
    exact .pure _
  | some fd' =>
    obtain rfl := h fd' hc
    by_cases hroom : c.input.isFull
    · unfold receive
      simp only [hc, if_pos hroom]
      exact .pure _
    · rw [receive_eq hc hroom]
      refine (Ring.moving_tandem (fun _ _ ho ↦ Ring.fillFrom_concur ho c.input 0)
        (Ring.fillFrom_within (fun _ ↦ Os.sys_untimed nofun) c.input 0)).bind fun s ↦ ?_
      rcases (Ring.moving (c.input.fillFrom (.socket fd') 0) s).1 with ⟨_ | _ | n, input⟩
      · exact .pure _
      · exact .pure _
      · exact (touch_tandem _).bind fun _ ↦ .pure _

theorem transmit_tandem : Os.Tandem (κ := κ) (ν := ν) id fd c.transmit := by
  cases hc : c.fd? with
  | none =>
    unfold transmit
    rw [hc]
    exact .pure _
  | some fd' =>
    obtain rfl := h fd' hc
    by_cases hmore : c.output.isEmpty
    · unfold transmit
      simp only [hc, if_pos hmore]
      exact .pure _
    · rw [transmit_eq hc hmore]
      refine (Ring.moving_tandem (fun _ _ ho ↦ Ring.flushFrom_concur ho c.output 0)
        (Ring.flushFrom_within (fun _ ↦ Os.sys_untimed nofun) c.output 0)).bind fun s ↦ ?_
      rcases (Ring.moving (c.output.flushFrom (.socket fd') 0) s).1 with ⟨_ | _ | n, output⟩
      · exact .pure _
      · exact .pure _
      · exact (touch_tandem _).bind fun _ ↦ .pure _

theorem receiveUrgent_tandem : Os.Tandem (κ := κ) (ν := ν) id fd c.receiveUrgent := by
  unfold receiveUrgent
  cases hc : c.fd? with
  | none => exact .pure _
  | some fd' =>
    obtain rfl := h fd' hc
    refine (Os.sys_tandem List.mem_cons_self).bind fun s ↦ ?_
    rcases (sys (.recvUrgent fd') s).1 with e | _ | b
    · dsimp only
      split_ifs <;> exact .pure _
    · exact .pure _
    · exact (touch_tandem _).bind fun _ ↦ .pure _

end

section

variable (h : c.fd? ≠ some fd)

include h

theorem receive_within : Within (Shuns (κ := κ) (ν := ν) id fd) c.receive := by
  intro o
  have hr := c.receive_receives o
  have hfill {fd' : Fd} (hc : c.fd? = some fd') :
      Shuns id fd o (c.input.fillFrom (.socket fd') 0 o).2.2 := by
    have hne : fd ≠ fd' := fun he ↦ h (he ▸ hc)
    exact Ring.fillFrom_within (fun _ ↦ Os.sys_within (mt List.mem_singleton.1 hne)) c.input 0 o
  generalize c.receive o = out at hr ⊢
  cases hr with
  | unconnected | full => exact refl_of _ _
  | ended hc _ hs | blocked hc _ hs | failed hc _ hs =>
    have hfill := hfill hc
    rw [hs] at hfill
    exact hfill
  | moved hc _ hs =>
    have hfill := hfill hc
    rw [hs] at hfill
    exact trans_of _ hfill (touch_within c _)

theorem transmit_within : Within (Shuns (κ := κ) (ν := ν) id fd) c.transmit := by
  intro o
  have ht := c.transmit_transmits o
  have hflush {fd' : Fd} (hc : c.fd? = some fd') :
      Shuns id fd o (c.output.flushFrom (.socket fd') 0 o).2.2 := by
    have hne : fd ≠ fd' := fun he ↦ h (he ▸ hc)
    exact Ring.flushFrom_within (fun _ ↦ Os.sys_within (mt List.mem_singleton.1 hne)) c.output 0 o
  generalize c.transmit o = out at ht ⊢
  cases ht with
  | unconnected | empty => exact refl_of _ _
  | still hc _ hs | blocked hc _ hs | failed hc _ hs =>
    have hflush := hflush hc
    rw [hs] at hflush
    exact hflush
  | moved hc _ hs =>
    have hflush := hflush hc
    rw [hs] at hflush
    exact trans_of _ hflush (touch_within c _)

theorem receiveUrgent_within : Within (Shuns (κ := κ) (ν := ν) id fd) c.receiveUrgent := by
  unfold receiveUrgent
  cases hc : c.fd? with
  | none => exact .pure _
  | some fd' =>
    have hfd : fd ∉ (SysCall.recvUrgent fd').names := by
      intro hmem
      obtain rfl := List.mem_singleton.1 hmem
      exact h hc
    refine .bind (Os.sys_within hfd) fun s ↦ ?_
    rcases (sys (.recvUrgent fd') s).1 with e | _ | b
    · dsimp only
      split_ifs <;> exact .pure _
    · exact .pure _
    · exact .bind (touch_within _) fun _ ↦ .pure _

end

end Conn

theorem attempt_tandem {c : SysCall} (hc : fd ∈ c.names) :
    Os.Tandem (κ := κ) (ν := ν) id fd (attempt c) :=
  (Os.sys_tandem hc).bind fun _ ↦ .pure ()

theorem attempt_within {c : SysCall} (hc : fd ∉ c.names) :
    Within (Shuns (κ := κ) (ν := ν) id fd) (attempt c) :=
  Within.bind (Os.sys_within hc) fun _ ↦ .pure ()

theorem Stream.close_tandem {s : Stream} (h : ∀ fd', s.fd = some fd' → fd' = fd) :
    Os.Tandem (κ := κ) (ν := ν) id fd s.close := by
  unfold close
  cases hs : s.fd with
  | none => exact .pure _
  | some fd' =>
    obtain rfl := h fd' hs
    exact (attempt_tandem List.mem_cons_self).bind fun _ ↦ .pure _

theorem Stream.close_within {s : Stream} (h : s.fd ≠ some fd) :
    Within (Shuns (κ := κ) (ν := ν) id fd) s.close := by
  unfold close
  cases hs : s.fd with
  | none => exact .pure _
  | some fd' =>
    refine .bind (attempt_within fun hmem ↦ ?_) fun _ ↦ .pure _
    obtain rfl := List.mem_singleton.1 hmem
    exact h hs

theorem Waker.drain_shuns (h : fd' ≠ fd) (o : Os κ (Mark ν)) : Shuns id fd o (drain fd' o) := by
  have hread {o s : Os κ (Mark ν)} {a : Except Errno Nat} (hr : Os.call (.read fd' 64) o = (a, s)) :
      Shuns id fd o s := by
    cases hr
    exact .call (mt List.mem_singleton.1 h.symm) o
  fun_induction drain fd' o with
  | case1 o s hr => exact hread hr
  | case2 o n s hr _ _ ih => exact trans_of _ (hread hr) ih
  | case3 o e s hr => exact hread hr

def Os.Grows (o o' : Os κ (Mark ν)) : Prop := Journal.Adds (fun _ ↦ True) o.journal o'.journal

instance : IsPreorder (Os κ (Mark ν)) Os.Grows where
  refl o := .refl o.journal
  trans _ _ _ h h' := Journal.Adds.trans h h'

section

variable {α γ : Type} {R : Os κ (Mark ν) → Os κ (Mark ν) → Prop} [IsPreorder (Os κ (Mark ν)) R]

omit [Kernel κ] in
theorem Within.except_bind {x : OsExcept κ (Mark ν) α} {f : α → OsExcept κ (Mark ν) γ}
    (hx : Within R x) (hf : ∀ a, Within R (f a)) :
    Within R (x >>= f : OsExcept κ (Mark ν) γ) := by
  intro o
  have hx := hx o
  rw [PollReactor.except_bind]
  generalize x o = out at hx ⊢
  rcases out with ⟨e | a, s⟩
  · exact hx
  · exact trans_of R hx (hf a s)

omit [Kernel κ] [IsPreorder (Os κ (Mark ν)) R] in
theorem Within.demand {answer : OsM κ (Mark ν) (Except Errno α)} (h : Within R answer) :
    Within R (demand answer) := by
  intro o
  have h := h o
  unfold PollReactor.demand
  generalize answer o = out at h ⊢
  rcases out with ⟨e | a, s⟩ <;> exact h

theorem Within.closingOnError {act : OsExcept κ (Mark ν) α} (h : Within R act)
    (hclose : Within R (sys (.close fd))) : Within R (closingOnError [fd] act) := by
  intro o
  have h := h o
  unfold PollReactor.closingOnError
  generalize act o = out at h ⊢
  rcases out with ⟨e | a, s⟩
  · exact trans_of R h (hclose s)
  · exact h

theorem Sockets.setUp_within (h : ∀ c : SysCall, c.names = [fd] → Within R (sys c)) (name : Bytes) :
    Within R (do
      PollReactor.closingOnError [fd] (configure fd)
      let peer ← PollReactor.closingOnError [fd] (decodeName name)
      return (fd, peer) : OsExcept κ (Mark ν) (Fd × Net.SocketAddr)) := by
  have hclose := h (.close fd) rfl
  have hconfigure : Within R (configure fd) := by
    refine .except_bind ?_ fun _ ↦ ?_
    · exact .except_bind (.demand (h (.statusFlags fd) rfl)) fun _ ↦
        .demand (h (.setStatusFlags fd _) rfl)
    · exact .except_bind (.demand (h (.descriptorFlags fd) rfl)) fun _ ↦
        .demand (h (.setDescriptorFlags fd _) rfl)
  refine .except_bind (hconfigure.closingOnError hclose) fun _ ↦
    .except_bind ?_ fun _ o ↦ refl_of R o
  exact Within.closingOnError (fun o ↦ refl_of R o) hclose

end

theorem Sockets.accept_shuns {listener : Fd} {o : Os κ (Mark ν)} (hl : listener ≠ fd)
    (ho : Journal.IsOpen fd o.journal) (hf : Journal.Fresh (accept listener o).2.journal) :
    Shuns id fd o (accept listener o).2 ∧
      ∀ client peer, (accept listener o).1 = .ok (client, peer) → client ≠ fd := by
  refine ⟨?_, fun client peer ha he ↦ ?_⟩
  · have hcall : Shuns id fd o (sys (.accept listener) o).2 :=
      .call (mt List.mem_singleton.1 hl.symm) o
    have hj : (sys (.accept listener) o).2.journal =
        .sys (.accept listener) (sys (.accept listener) o).1 :: o.journal := rfl
    unfold accept at hf ⊢
    rw [except_bind] at hf ⊢
    unfold demand at hf ⊢
    generalize sys (.accept listener) o = out at hcall hj hf ⊢
    rcases out with ⟨e | ⟨client, name⟩, s⟩
    · exact hcall
    · -- The descriptor was not open when the system handed it out, so it is another one.
      have hcalls (c : SysCall) (_ : c.names = [client]) :
          Within (Os.Grows (κ := κ) (ν := ν)) (sys c) := fun _ ↦ .single trivial
      have hgrows : Os.Grows s _ := setUp_within hcalls name s
      have hfresh : Journal.Fresh s.journal := hgrows.fresh hf
      rw [hj] at hfresh
      have hne : client ≠ fd := fun he ↦ hfresh.1.2 client List.mem_cons_self (he ▸ ho)
      refine trans_of _ hcall (setUp_within (fun c hc ↦ Os.sys_within ?_) name s)
      rw [hc]
      exact mt List.mem_singleton.1 hne.symm
  · have hy := accept_opening (κ := κ) (ν := ν) listener o.journal o (.refl _)
    generalize accept listener o = out at hy ha hf
    rcases out with ⟨result, s⟩
    obtain rfl : result = .ok (client, peer) := ha
    obtain ⟨⟨-, hn⟩, -⟩ := hy.2 hf
    exact hn client List.mem_cons_self (he ▸ ho)

end PollReactor
