import PollReactor.Proofs.Report
import PollReactor.Proofs.Turnover

namespace PollReactor

open Journal (Adds Fresh)

variable {κ π ν : Type}

inductive Way where
  | input
  | output
  | urgent
  deriving DecidableEq

namespace Way

/-- The bit that asks for the readiness. -/
def bit : Way → UInt16
  | input => PollBits.posix.read
  | output => PollBits.posix.write
  | urgent => PollBits.posix.urgent

/-- The bits that report the readiness. A failure or a hang-up is told by the next read. -/
def reports : Way → UInt16
  | input => PollBits.posix.read ||| PollBits.posix.hangup ||| PollBits.posix.error |||
    PollBits.posix.invalid
  | output => PollBits.posix.write
  | urgent => PollBits.posix.urgent

def wanted (i : Interest) : Way → Bool
  | input => i.read
  | output => i.write
  | urgent => i.urgent

def told (e : Event) : Way → Bool
  | input => e.readable
  | output => e.writable
  | urgent => e.urgent

theorem request_bit {i : Interest} {way : Way} (h : way.wanted i) :
    PollBits.posix.request i &&& way.bit = way.bit := by
  obtain ⟨r, w, u⟩ := i
  cases way with
  | input =>
    obtain rfl : r = true := h
    cases w <;> cases u <;> decide
  | output =>
    obtain rfl : w = true := h
    cases r <;> cases u <;> decide
  | urgent =>
    obtain rfl : u = true := h
    cases r <;> cases w <;> decide

theorem not_isEmpty {i : Interest} {way : Way} (h : way.wanted i) : i.isEmpty = false := by
  cases way <;> simp_all [wanted, Interest.isEmpty]

theorem and_ne_zero {word bits more : UInt16} (hm : more &&& bits = bits)
    (h : word &&& bits ≠ 0) : word &&& more ≠ 0 := by
  intro h0
  rw [← hm, ← UInt16.and_assoc, h0, UInt16.zero_and] at h
  exact h rfl

theorem reports_of_told {token : Nat} {word : UInt16} {way : Way}
    (h : way.told (Event.ofWord token word)) : word &&& way.reports ≠ 0 := by
  have hbits : way.told (Event.ofBits .posix token word) := by
    unfold Event.ofWord at h
    split_ifs at h
    · exact h
    · cases way <;> cases h
  cases way with
  | input =>
    simp only [told, Event.ofBits, Bool.or_eq_true, bne_iff_ne] at hbits
    rcases hbits with hbits | hbits
    · exact and_ne_zero (by decide) hbits
    · exact and_ne_zero (by decide) hbits
  | output => simpa [told, Event.ofBits, reports] using hbits
  | urgent => simpa [told, Event.ofBits, reports] using hbits

end Way

namespace Entry

def moves? : Entry (Mark ν) → Option (Way × Fd)
  | .sys (.recv fd _) _ => some (.input, fd)
  | .sys (.send fd _) _ => some (.output, fd)
  | .sys (.recvUrgent fd) _ => some (.urgent, fd)
  | _ => none

theorem OfPlainInput.moves {fd? : Option Fd} {e : Entry (Mark ν)} (h : e.OfPlainInput fd?)
    {way : Way} {fd : Fd} (hm : e.moves? = some (way, fd)) : way = .input ∧ fd? = some fd := by
  cases h <;> cases hm
  exact ⟨rfl, rfl⟩

theorem OfUrgentInput.moves {fd? : Option Fd} {e : Entry (Mark ν)} (h : e.OfUrgentInput fd?)
    {way : Way} {fd : Fd} (hm : e.moves? = some (way, fd)) : way = .urgent ∧ fd? = some fd := by
  cases h <;> cases hm
  exact ⟨rfl, rfl⟩

theorem OfOutput.moves {fd? : Option Fd} {e : Entry (Mark ν)} (h : e.OfOutput fd?)
    {way : Way} {fd : Fd} (hm : e.moves? = some (way, fd)) : way = .output ∧ fd? = some fd := by
  cases h <;> cases hm
  exact ⟨rfl, rfl⟩

def isIdle (e : Entry (Mark ν)) : Bool := e.moves?.isNone

theorem IsChore.idle {e : Entry (Mark ν)} (h : e.IsChore) : e.isIdle := by
  cases h with
  | @call c h a => cases c <;> first | rfl | cases h
  | adopted => rfl

theorem OfRequest.idle {sender : Fd} {e : Entry (Mark ν)} (h : e.OfRequest sender) :
    e.isIdle := by
  cases h with
  | effect h => exact h.chore.idle
  | _ => rfl

theorem OfAdmission.idle {e : Entry (Mark ν)} (h : e.OfAdmission) : e.isIdle := by
  cases h with
  | setup h => exact (chore_of_isSetup h).idle
  | _ => rfl

end Entry

namespace Reactor

variable [Kernel κ] {P : Policy π ν} {r r' : Reactor κ π ν}

section

variable {C : Entry (Mark ν) → Prop} {c : Conn} (hC : ∀ cb, C (.remark (.callback cb)))

include hC

theorem attendInput_adds (h : ∀ e, e.OfPlainInput c.fd? → C e) (id : Nat) (r : Reactor κ π ν) :
    Adds C r.os.journal (attendInput P id c r).1.os.journal := by
  have hj := (c.receive_spec r.os).2.mono h
  unfold attendInput system
  generalize c.receive r.os = out at hj ⊢
  rcases out with ⟨⟨e | _ | n, c'⟩, os⟩
  · exact hj
  · dsimp only
    split_ifs
    · exact hj.cons (hC _)
    · exact hj
  · exact hj

theorem attendOutput_adds (h : ∀ e, e.OfOutput c.fd? → C e) (id : Nat) (r : Reactor κ π ν) :
    Adds C r.os.journal (attendOutput P id c r).1.os.journal := by
  have hj := (c.transmit_spec r.os).2.1.mono h
  unfold attendOutput system
  generalize c.transmit r.os = out at hj ⊢
  rcases out with ⟨⟨e | n, c'⟩, os⟩
  · exact hj
  · dsimp only
    split_ifs
    · exact hj.cons (hC _)
    · exact hj

theorem attendUrgent_adds (h : ∀ e, e.OfUrgentInput c.fd? → C e) (id : Nat)
    (r : Reactor κ π ν) : Adds C r.os.journal (attendUrgent P id c r).1.os.journal := by
  have hj := (c.receiveUrgent_spec r.os).2.mono h
  unfold attendUrgent system
  generalize c.receiveUrgent r.os = out at hj ⊢
  rcases out with ⟨⟨e | stored, c'⟩, os⟩
  · exact hj
  · dsimp only
    split_ifs
    · exact hj.cons (hC _)
    · exact hj

end

/-- Bytes move only in the service of a connection, on its descriptor, and in a way that the event
tells of and the connection was watched for. -/
def Moves (first : Task π ν) (r : Reactor κ π ν) (e : Entry (Mark ν)) : Prop :=
  ∀ way fd, e.moves? = some (way, fd) → ∃ x event now c, first = .serve x event now ∧
    r.conn? x.id = some c ∧ c.fd? = some fd ∧ way.told event ∧ way.wanted x.interest

omit [Kernel κ] in
theorem moves_of_idle {first : Task π ν} {e : Entry (Mark ν)} (h : e.isIdle) :
    Moves first r e := by
  intro way fd he
  rw [Entry.isIdle, he] at h
  cases h

theorem attend_moves (x : Watched) (event : Event) (now : Nat) (r : Reactor κ π ν) :
    Adds (Moves (.serve x event now) r) r.os.journal (attend P x event now r).1.os.journal := by
  unfold attend
  cases hc : r.conn? x.id with
  | none => exact .refl _
  | some c =>
    have hmoves {e : Entry (Mark ν)} (way : Way) (ht : way.told event)
        (hw : way.wanted x.interest)
        (he : ∀ {way' fd}, e.moves? = some (way', fd) → way' = way ∧ c.fd? = some fd) :
        Moves (.serve x event now) r e := by
      intro way' fd hm
      obtain ⟨rfl, hfd⟩ := he hm
      exact ⟨x, event, now, c, rfl, hc, hfd, ht, hw⟩
    have hC (cb : Callback) : Moves (.serve x event now) r (.remark (.callback cb)) :=
      moves_of_idle rfl
    dsimp only
    split_ifs with _ hin hout hurgent
    · exact .refl _
    · exact attendInput_adds hC (fun e he ↦ hmoves .input hin.1 hin.2 he.moves) _ _
    · exact attendOutput_adds hC (fun e he ↦ hmoves .output hout.1 hout.2 he.moves) _ _
    · exact attendUrgent_adds hC (fun e he ↦ hmoves .urgent hurgent.1 hurgent.2 he.moves) _ _
    · exact .refl _
    · exact .refl _
    · exact .refl _

theorem Deed.idle {first : Task π ν} (h : Deed first r r')
    (hs : ∀ x event now, first ≠ .serve x event now) :
    Adds (·.isIdle) r.os.journal r'.os.journal := by
  cases h with
  | nothing => exact .refl _
  | aside m _ => exact .single (C := (·.isIdle)) rfl
  | request q => exact (request_still q r).journal.mono fun _ he ↦ he.idle
  | wake => exact (wake_still r).journal.mono fun _ he ↦ he.chore.idle
  | settled events => exact (settleWaker_still events r).journal.mono fun _ he ↦ he.chore.idle
  | clock => exact .single (C := (·.isIdle)) rfl
  | repooled h =>
    obtain ⟨os, pool, rfl, hj⟩ := h
    exact hj.mono fun _ he ↦ he.idle
  | enrolled t peer d now =>
    exact .cons (C := (·.isIdle)) (.single (C := (·.isIdle)) rfl) rfl
  | served hfirst => exact absurd hfirst (hs _ _ _)
  | told hfirst => exact absurd hfirst (hs _ _ _)
  | @ended id =>
    obtain ⟨os, pool, conns, he, -, -, hj⟩ := part_spec id r
    have hp : Adds (·.isIdle) r.os.journal (part id r).os.journal := by
      rw [he]
      exact hj.mono fun _ he ↦ (Entry.chore_of_isSetup he).idle
    exact hp.cons rfl
  | relistened h =>
    obtain ⟨os, listener, rfl, hj⟩ := h
    exact hj.mono fun _ he ↦ he.chore.idle

theorem advance_moves (first : Task π ν) (r : Reactor κ π ν) :
    Adds (Moves first r) r.os.journal (advance P first r).1.os.journal := by
  by_cases hs : ∃ x event now, first = .serve x event now
  · obtain ⟨x, event, now, rfl⟩ := hs
    exact attend_moves x event now r
  · obtain ⟨app, hdeed⟩ := advance_deed (P := P) first r
    exact (hdeed.idle fun x event now he ↦ hs ⟨x, event, now, he⟩).mono fun _ ↦ moves_of_idle

end Reactor

def Task.isInformed : Task π ν → Bool
  | .accept _ => true
  | .settle _ => true
  | .serveAll .. => true
  | .serve .. => true
  | _ => false

namespace Reactor

variable [Kernel κ] {P : Policy π ν} {r r' : Reactor κ π ν}

inductive Brings (first : Task π ν) (r : Reactor κ π ν) : Reactor κ π ν × Next π ν → Prop where
  | other {r' : Reactor κ π ν} {ts : List (Task π ν)} (h : ∀ t ∈ ts, t.isInformed = false) :
      Brings first r (r', .go ts)
  | serves {r' : Reactor κ π ν} (events : List Event) (watched : List Watched) (now : Nat)
      (hfirst : first = .serveAll events watched) :
      Brings first r (r', .go (serves events now watched 0))
  | breaks {r' : Reactor κ π ν} {ts : List (Task π ν)} (h : ∀ t ∈ ts, t.isInformed = false) :
      Brings first r (r', .only ts)
  | waits : Brings first r ((remark .waits r).2, .wait r.prepare)

theorem advance_brings (first : Task π ν) (r : Reactor κ π ν) :
    Brings first r (advance P first r) := by
  have hadv := advance_advanced (P := P) first r
  generalize advance P first r = out at hadv ⊢
  cases hadv with
  | done => exact .other (List.forall_mem_nil _)
  | vacant | raised => exact .breaks (List.forall_mem_nil _)
  | welcomed | met | heard | dropped => exact .other (List.forall_mem_singleton.2 rfl)
  | shared events watched now => exact .serves events watched now rfl
  | attended x event now =>
    refine .other fun t ht ↦ ?_
    cases attend_sequel ht <;> rfl
  | cleared => exact .breaks (List.forall_mem_map.2 fun _ _ ↦ rfl)
  | waits => exact .waits

end Reactor

end PollReactor
