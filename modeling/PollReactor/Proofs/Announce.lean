import PollReactor.Proofs.Appends
import PollReactor.Readiness

namespace PollReactor

def BatchOp.closes (immediate : Bool) : BatchOp → Bool
  | close immediate' => immediate' = immediate
  | _ => false

def ConnOp.closes (immediate : Bool) : ConnOp → Bool
  | close immediate' => immediate' = immediate
  | batch ops _ => ops.any (·.closes immediate)
  | _ => false

namespace Conn

/-- Whatever a reactor has to see of the change from `c` to `c'` comes with a wakeup. -/
structure Announced (c c' : Conn) (effects : List Effect) : Prop where
  connected : c'.isConnected → c.isConnected
  shut : c'.isConnected = false → c.isConnected = false ∨ .wake ∈ effects
  closing : c.closePending → c'.closePending
  read : c'.interest.read → c.interest.read ∨ .wake ∈ effects
  urgent : c'.interest.urgent → c.interest.urgent ∨ .wake ∈ effects

namespace Announced

variable {c c' c'' : Conn} {es es' : List Effect}

theorem quiet (es : List Effect) (hs : c'.isConnected = c.isConnected)
    (hc : c.closePending → c'.closePending) (hr : c'.interest.read = c.interest.read)
    (hu : c'.interest.urgent = c.interest.urgent) : Announced c c' es :=
  ⟨fun h ↦ hs ▸ h, fun h ↦ .inl (hs ▸ h), hc, fun h ↦ .inl (hr ▸ h), fun h ↦ .inl (hu ▸ h)⟩

theorem refl (c : Conn) (es : List Effect) : Announced c c es := quiet es rfl (fun h ↦ h) rfl rfl

theorem trans (h : Announced c c' es) (h' : Announced c' c'' es') :
    Announced c c'' (es ++ es') where
  connected hc := h.connected (h'.connected hc)
  shut hs := by
    rcases h'.shut hs with hs | hw
    · exact (h.shut hs).imp_right (List.mem_append_left _)
    · exact .inr (List.mem_append_right _ hw)
  closing hc := h'.closing (h.closing hc)
  read hr := by
    rcases h'.read hr with hr | hw
    · exact (h.read hr).imp_right (List.mem_append_left _)
    · exact .inr (List.mem_append_right _ hw)
  urgent hu := by
    rcases h'.urgent hu with hu | hw
    · exact (h.urgent hu).imp_right (List.mem_append_left _)
    · exact .inr (List.mem_append_right _ hw)

end Announced

variable (c : Conn)

theorem shutdown_isConnected : c.shutdown.1.isConnected = false := by
  unfold shutdown
  split
  next h => simp [isConnected, h]
  next t ht =>
    split
    next hfd => simp [isConnected, ht, Stream.isConnected, hfd]
    next fd hfd =>
      split
      next hb => simp [isConnected, ht, Stream.isConnected, hb]
      · simp [isConnected, Stream.isConnected]

theorem shutdown_channel : c.shutdown.1.toChannel = c.toChannel := by
  unfold shutdown
  split
  · rfl
  · split
    · rfl
    · split <;> rfl

theorem interest_congr {c c' : Conn} (h : c'.toChannel = c.toChannel) :
    c'.interest = c.interest := by
  unfold interest
  rw [h]

theorem close_announced (immediate : Bool) :
    Announced c (c.close immediate).1 (c.close immediate).2 := by
  cases immediate with
  | false => exact .quiet _ rfl (fun _ ↦ rfl) rfl rfl
  | true =>
    have hw : Effect.wake ∈ (c.close true).2 := List.mem_append_right _ List.mem_cons_self
    have hch : (c.close true).1.toChannel = c.toChannel := c.shutdown_channel
    have hi := interest_congr hch
    refine ⟨?_, fun _ ↦ .inr hw, ?_, fun h ↦ .inl (hi ▸ h), fun h ↦ .inl (hi ▸ h)⟩
    · intro h
      cases c.shutdown_isConnected.symm.trans h
    · intro h
      rw [hch]
      exact h

theorem close_closes (immediate : Bool) : .wake ∈ (c.close immediate).2 ∧
    if immediate then (c.close immediate).1.isConnected = false
    else (c.close immediate).1.closePending := by
  cases immediate
  · exact ⟨List.mem_cons_self, rfl⟩
  · exact ⟨List.mem_append_right _ List.mem_cons_self, c.shutdown_isConnected⟩

theorem append_input (ch : Channel) (parts : List Bytes) :
    ∃ output outputHigh, (ch.append parts).2 = { ch with output, outputHigh } := by
  unfold Channel.append
  split
  · exact ⟨ch.output, ch.outputHigh, rfl⟩
  · exact ⟨_, _, rfl⟩

theorem append_announced (parts : List Bytes) (es : List Effect) :
    Announced c (c.withChannel (c.toChannel.append parts).2) es := by
  obtain ⟨output, outputHigh, he⟩ := append_input c.toChannel parts
  rw [he]
  exact .quiet es rfl (fun h ↦ h) rfl rfl

theorem batchOp_announced (op : BatchOp) :
    Announced c (c.batchOp op).2.1 (c.batchOp op).2.2 := by
  cases op with
  | write bs => exact c.append_announced [bs] []
  | writeLine s => exact c.append_announced [Text.Utf8.encode s, Channel.lineEnd] []
  | close immediate => exact c.close_announced immediate
  | _ => exact .refl c []

theorem batchOps_announced (c : Conn) (ops : List BatchOp) :
    Announced c (c.batchOps ops).2.1 (c.batchOps ops).2.2 := by
  induction ops generalizing c with
  | nil => exact .refl c []
  | cons op ops ih => exact (c.batchOp_announced op).trans (ih _)

theorem consumed_announced (ch : Channel)
    (h : ∃ input, ch = { c.toChannel with input }) :
    Announced c (c.consumed ch).1 (c.consumed ch).2 := by
  obtain ⟨input, rfl⟩ := h
  refine ⟨fun h ↦ h, .inl, fun h ↦ h, ?_, .inl⟩
  intro h
  have hafter : Channel.isReadHigh { c.toChannel with input } = false := by
    simpa [interest, consumed, withChannel] using h
  cases hb : c.toChannel.isReadHigh with
  | false => exact .inl (by rw [interest, hb]; rfl)
  | true =>
    refine .inr ?_
    simp only [consumed, wakeIf, Channel.resumedSince, hafter, hb]
    exact List.mem_cons_self

theorem read_input (ch : Channel) (n : Nat) (fully : Bool) :
    ∃ input, (ch.read n fully).2 = { ch with input } := by
  unfold Channel.read
  split
  · exact ⟨ch.input, rfl⟩
  · exact ⟨_, rfl⟩

theorem takeLine_input (ch : Channel) (most : Nat) :
    ∃ input, (ch.takeLine most).2 = { ch with input } := by
  unfold Channel.takeLine
  split
  · exact ⟨ch.input, rfl⟩
  · split
    · exact ⟨_, rfl⟩
    · split
      · exact ⟨_, rfl⟩
      · exact ⟨ch.input, rfl⟩

theorem perform_announced (op : ConnOp) : Announced c (c.perform op).2.1 (c.perform op).2.2 := by
  cases op with
  | read n fully => exact c.consumed_announced _ (read_input _ n fully)
  | readLine most => exact c.consumed_announced _ (takeLine_input _ most)
  | readUInt w => exact c.consumed_announced _ (read_input _ w.bytes true)
  | readUrgent =>
    refine ⟨fun h ↦ h, .inl, fun h ↦ h, .inl, ?_⟩
    intro h
    cases hu : c.urgent with
    | none => exact .inl (by rw [interest, hu] ; exact h)
    | some b =>
      refine .inr ?_
      simp only [perform, Channel.takeUrgent, hu, wakeIf]
      exact List.mem_cons_self
  | write bs => exact c.append_announced [bs] _
  | writeLine s => exact c.append_announced [Text.Utf8.encode s, Channel.lineEnd] _
  | writeUInt w n => exact c.append_announced [Bytes.bigEndian w.bytes n] _
  | batch ops release =>
    have h := (c.batchOps_announced ops).trans (.refl _ (wakeIf release.wakes))
    exact h
  | close immediate => exact c.close_announced immediate
  | peek n => exact .refl c []
  | status => exact .refl c []

theorem batchOps_closes (c : Conn) (ops : List BatchOp) (immediate : Bool)
    (h : ops.any (·.closes immediate)) : .wake ∈ (c.batchOps ops).2.2 ∧
      if immediate then (c.batchOps ops).2.1.isConnected = false
      else (c.batchOps ops).2.1.closePending := by
  induction ops generalizing c with
  | nil => cases h
  | cons op ops ih =>
    rw [List.any_cons, Bool.or_eq_true] at h
    have hrest := batchOps_announced (c.batchOp op).2.1 ops
    rcases h with h | h
    · cases op with
      | close immediate' =>
        obtain rfl : immediate' = immediate := of_decide_eq_true h
        obtain ⟨hw, hc⟩ := c.close_closes immediate'
        refine ⟨List.mem_append_left _ hw, ?_⟩
        cases immediate' with
        | false => exact hrest.closing hc
        | true =>
          show (batchOps (c.close true).1 ops).2.1.isConnected = false
          rw [← Bool.not_eq_true]
          intro hcon
          cases hc.symm.trans (hrest.connected hcon)
      | _ => cases h
    · obtain ⟨hw, hc⟩ := ih (c.batchOp op).2.1 h
      exact ⟨List.mem_append_right _ hw, hc⟩

theorem perform_closes {op : ConnOp} {immediate : Bool} (h : op.closes immediate) :
    .wake ∈ (c.perform op).2.2 ∧
      if immediate then (c.perform op).2.1.isConnected = false
      else (c.perform op).2.1.closePending := by
  cases op with
  | close immediate' =>
    obtain rfl : immediate' = immediate := of_decide_eq_true h
    exact c.close_closes immediate'
  | batch ops release =>
    obtain ⟨hw, hc⟩ := c.batchOps_closes ops immediate h
    exact ⟨List.mem_append_left _ hw, hc⟩
  | _ => cases h

theorem perform_appended {op : ConnOp} (h : op.appended (c.perform op).1 ≠ []) :
    .wake ∈ (c.perform op).2.2 ∨ ∃ ops, op = .batch ops .cancel := by
  cases op with
  | write bs =>
    refine .inl ?_
    cases hb : (c.toChannel.write bs).1 with
    | false => simp [perform, ConnOp.appended, hb] at h
    | true => simp [perform, queued, wakeIf, hb]
  | writeLine s =>
    refine .inl ?_
    cases hb : (c.toChannel.writeLine s).1 with
    | false => simp [perform, ConnOp.appended, hb] at h
    | true => simp [perform, queued, wakeIf, hb]
  | writeUInt w n =>
    refine .inl ?_
    cases hb : (c.toChannel.writeUInt w.bytes n).1 with
    | false => simp [perform, ConnOp.appended, hb] at h
    | true => simp [perform, queued, wakeIf, hb]
  | batch ops release =>
    cases release with
    | cancel => exact .inr ⟨ops, rfl⟩
    | _ => exact .inl (List.mem_append_right _ List.mem_cons_self)
  | _ => exact absurd rfl h

end Conn

end PollReactor
