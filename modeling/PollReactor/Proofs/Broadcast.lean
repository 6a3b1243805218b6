import PollReactor.Proofs.Attention
import PollReactor.Proofs.Batch
import PollReactor.Proofs.Waking

namespace PollReactor

open Journal (Adds)

variable {κ π ν : Type}

namespace Conn

def hasRoom (c : Conn) (bs : Bytes) : Bool := bs.length ≤ c.output.free

theorem perform_write (c : Conn) (bs : Bytes) : c.perform (.write bs) =
    (c.hasRoom bs, (c.perform (.write bs)).2.1, wakeIf (c.hasRoom bs)) := by
  have hanswer : (c.toChannel.write bs).1 = c.hasRoom bs := by
    unfold Channel.write Channel.append hasRoom
    rw [List.flatten_singleton]
    split_ifs with h
    · exact (decide_eq_false (Nat.not_le.2 h)).symm
    · exact (decide_eq_true (Nat.not_lt.1 h)).symm
  unfold perform queued
  simp only [hanswer]

theorem write_queues (c : Conn) (bs : Bytes) :
    c.Queues bs (.flag (c.hasRoom bs)) (c.perform (.write bs)).2.1 := by
  have h := c.append_queues [bs]
  have hanswer : (c.toChannel.append [bs]).1 = c.hasRoom bs :=
    congrArg Prod.fst (c.perform_write bs)
  rw [List.flatten_singleton, hanswer] at h
  exact h

end Conn

namespace Reactor

def hasRoom (r : Reactor κ π ν) (bs : Bytes) (id : Nat) : Bool :=
  (r.conn? id).any (·.hasRoom bs)

/-- Of the connections `ids`, the `n` with room for the whole of `bs` have queued it, and all else
is as it was but for what was written down. A wakeup is pending if there are any. -/
structure Spreads (bs : Bytes) (ids : List Nat) (n : Nat) (r r' : Reactor κ π ν) : Prop where
  count : n = ids.countP (r.hasRoom bs)
  queued : ∀ id ∈ ids, ∃ c c', r.conn? id = some c ∧ r'.conn? id = some c' ∧
    c.Queues bs (.flag (c.hasRoom bs)) c'
  others : ∀ id, id ∉ ids → r'.conn? id = r.conn? id
  size : r'.conns.size = r.conns.size
  rest : ∃ os conns signaled, r' = { r with os, conns, waker.signaled := signaled }
  wakes : Wakes (0 < n) r r'

namespace Spreads

variable {bs : Bytes} {ids ids' : List Nat} {n n' : Nat} {r r' r'' : Reactor κ π ν}

theorem refl (bs : Bytes) (r : Reactor κ π ν) : Spreads bs [] 0 r r where
  count := rfl
  queued _ h := by cases h
  others _ _ := rfl
  size := rfl
  rest := ⟨_, _, _, rfl⟩
  wakes := .refl r

theorem append (h : Spreads bs ids n r r') (h' : Spreads bs ids' n' r' r'')
    (hapart : ∀ id ∈ ids, id ∉ ids') : Spreads bs (ids ++ ids') (n + n') r r'' where
  count := by
    have hsame : ids'.countP (r'.hasRoom bs) = ids'.countP (r.hasRoom bs) := by
      refine List.countP_congr fun id hid ↦ ?_
      rw [hasRoom, hasRoom, h.others id fun hid' ↦ hapart id hid' hid]
    rw [List.countP_append, h.count, h'.count, hsame]
  queued id hid := by
    rcases List.mem_append.1 hid with hid | hid
    · obtain ⟨c, c', hc, hc', hq⟩ := h.queued id hid
      exact ⟨c, c', hc, (h'.others id (hapart id hid)).trans hc', hq⟩
    · obtain ⟨c, c', hc, hc', hq⟩ := h'.queued id hid
      exact ⟨c, c', (h.others id fun hid' ↦ hapart id hid' hid).symm.trans hc, hc', hq⟩
  others id hid := by
    rw [List.mem_append, not_or] at hid
    rw [h'.others id hid.2, h.others id hid.1]
  size := h'.size.trans h.size
  rest := by
    obtain ⟨_, _, _, hr⟩ := h.rest
    obtain ⟨_, _, _, hr'⟩ := h'.rest
    rw [hr', hr]
    exact ⟨_, _, _, rfl⟩
  wakes := by
    have hany : 0 < n + n' ↔ 0 < n ∨ 0 < n' := by omega
    rw [decide_eq_decide.2 hany, Bool.decide_or]
    exact h.wakes.trans h'.wakes

theorem signaled (h : Spreads bs ids n r r') (hn : 0 < n) : r'.waker.signaled := by
  rw [h.wakes.signaled, decide_eq_true hn, Bool.or_true]

theorem remark (h : Spreads bs ids n r r') (m : Mark ν) :
    Spreads bs ids n r (Reactor.remark m r').2 where
  count := h.count
  queued := h.queued
  others := h.others
  size := h.size
  rest := by
    obtain ⟨_, _, _, hr⟩ := h.rest
    rw [hr]
    exact ⟨_, _, _, rfl⟩
  wakes := by
    rw [← Bool.or_false (Decidable.decide (0 < n))]
    exact h.wakes.trans (remark_wakes m r')

end Spreads

variable [Kernel κ] {r r' : Reactor κ π ν}

theorem actAll_rest (es : List Effect) (r : Reactor κ π ν) :
    ∃ os signaled, (actAll es r).2 = { r with os, waker.signaled := signaled } := by
  induction es generalizing r with
  | nil => exact ⟨_, _, rfl⟩
  | cons e es ih =>
    have hact : ∃ os signaled, (act e r).2 = { r with os, waker.signaled := signaled } := by
      cases e with
      | shutdown fd => exact ⟨_, _, rfl⟩
      | wake =>
        unfold act
        rw [wake_run]
        split_ifs <;> exact ⟨_, _, rfl⟩
    obtain ⟨os, signaled, hact⟩ := hact
    obtain ⟨os', signaled', hrest⟩ := ih (act e r).2
    refine ⟨os', signaled', hrest.trans ?_⟩
    rw [hact]

theorem callConn_spreads {id : Nat} {c : Conn} (hc : r.conn? id = some c) (bs : Bytes) :
    Spreads bs [id] (if c.hasRoom bs then 1 else 0) r (callConn id (.write bs) r).2 where
  count := by
    rw [List.countP_singleton, hasRoom, hc]
    rfl
  queued id' hid := by
    rw [List.mem_singleton.1 hid]
    exact ⟨c, _, hc, (callConn_conn? hc _ id).trans (if_pos rfl), c.write_queues bs⟩
  others id' hid := by
    rw [List.mem_singleton] at hid
    exact (callConn_conn? hc _ id').trans (if_neg hid)
  size := (Stir.called id c _ hc).still.size
  rest := by
    rw [callConn_run hc]
    obtain ⟨os, signaled, hrest⟩ := actAll_rest (c.perform (.write bs)).2.2
      (Reactor.remark (.called id c (.write bs)) (r.setConn id (c.perform (.write bs)).2.1)).2
    exact ⟨os, _, signaled, hrest⟩
  wakes := by
    have h := callConn_wakes hc (.write bs)
    rw [c.perform_write bs] at h
    cases hroom : c.hasRoom bs <;> rw [hroom] at h <;> exact h

theorem writeAll_spreads (bs : Bytes) {ids : List Nat} (hnodup : ids.Nodup)
    (hids : ∀ id ∈ ids, ∃ c, r.conn? id = some c) :
    Spreads bs ids (writeAll bs ids r).1 r (writeAll bs ids r).2 := by
  induction ids generalizing r with
  | nil => exact .refl bs r
  | cons id ids ih =>
    obtain ⟨c, hc⟩ := hids id List.mem_cons_self
    obtain ⟨hid, hnodup⟩ := List.nodup_cons.1 hnodup
    have hfirst := callConn_spreads hc bs
    have hmore := ih (r := (callConn id (.write bs) r).2) hnodup fun id' hid' ↦ by
      obtain ⟨c', hc'⟩ := hids id' (List.mem_cons_of_mem id hid')
      have hne : id' ∉ [id] := fun h ↦ hid (List.mem_singleton.1 h ▸ hid')
      exact ⟨c', (hfirst.others id' hne).trans hc'⟩
    have hall := hfirst.append hmore fun id' hid' ↦ by rwa [List.mem_singleton.1 hid']
    have hanswer : (callConn id (.write bs) r).1 = some (c.hasRoom bs) := by
      rw [callConn_answer hc, c.perform_write bs]
    simp only [writeAll, bind_run, pure_run, hanswer, Option.some.injEq]
    exact hall

def allowance (r : Reactor κ π ν) : Nat := r.unread + if r.waker.signaled then 0 else 1

omit [Kernel κ] in
theorem allowance_dry (hw : r'.waker = r.waker)
    (hj : Adds (·.isDry) r.os.journal r'.os.journal) : r'.allowance = r.allowance := by
  unfold allowance unread
  rw [hw, Journal.unread_dry hj]

theorem wake_allowance (hp : (wake r).2.Piped) : (wake r).2.allowance ≤ r.allowance := by
  rw [wake_run] at hp ⊢
  split_ifs at hp ⊢ with hs
  · exact Nat.le_refl _
  · have hfree : r.allowance = r.unread + 1 := by rw [allowance, if_neg hs]
    rw [hfree]
    rcases notify_unread (r := { r with waker.signaled := true }) hp with h | ⟨-, h⟩
    · exact Nat.le_of_eq h
    · exact Nat.le_succ_of_le (Nat.le_of_eq h)

theorem actAll_allowance (es : List Effect) (hp : (actAll es r).2.Piped) :
    (actAll es r).2.allowance ≤ r.allowance := by
  induction es generalizing r with
  | nil => exact Nat.le_refl _
  | cons e es ih =>
    have hp₁ : (act e r).2.Piped := (actAll_still es (act e r).2).grows.piped hp
    refine Nat.le_trans (ih hp) ?_
    cases e with
    | wake => exact wake_allowance hp₁
    | shutdown fd => exact Nat.le_of_eq (allowance_dry rfl (.single rfl))

theorem Stir.allowance_le (h : Stir r r') (hp : r'.Piped) : r'.allowance ≤ r.allowance := by
  cases h with
  | called id c op hc =>
    rw [callConn_run hc] at hp ⊢
    exact Nat.le_trans (actAll_allowance _ hp) (Nat.le_of_eq (allowance_dry rfl (.single rfl)))
  | wake => exact wake_allowance hp
  | cancel => exact wake_allowance (r := { r with cancelled := true }) hp
  | clock => exact Nat.le_of_eq (allowance_dry rfl (.single rfl))
  | answered q a _ => exact Nat.le_of_eq (allowance_dry rfl (.single rfl))

theorem request_allowance (q : Request) (hp : (request q r).2.Piped) :
    (request q r).2.allowance ≤ r.allowance := by
  have hs := request_stirs q r
  generalize (request q r).2 = r' at hs hp ⊢
  induction hs with
  | refl => exact Nat.le_refl _
  | tail _ hs ih =>
    exact Nat.le_trans (hs.allowance_le hp) (ih (hs.still.grows.piped hp))

theorem request_unread_le (q : Request) (hp : (request q r).2.Piped) :
    (request q r).2.unread ≤ r.unread + 1 := by
  have h := request_allowance q hp
  unfold allowance at h
  split_ifs at h <;> omega

end Reactor

/-- Where the next thing that happens can be the request `q`: in a callback that asks for it, or in
another thread. The answer decides how things go on. -/
inductive Phase.Asks (outside : Phase π ν → Prop) (q : Request) :
    Phase π ν → (q.Answer → Phase π ν) → Prop where
  | heard (next : q.Answer → Script ν (Outcome π Unit)) (rest : List (Task π ν)) :
      Asks outside q (.busy (.hear (.ask q next)) rest) fun a ↦ .busy (.hear (next a)) rest
  | met (t : Token Stream) (peer : Net.SocketAddr)
      (next : q.Answer → Script ν (Outcome π (Option Draft))) (rest : List (Task π ν)) :
      Asks outside q (.busy (.meet t peer (.ask q next)) rest)
        fun a ↦ .busy (.meet t peer (next a)) rest
  | elsewhere (phase : Phase π ν) (h : outside phase) : Asks outside q phase fun _ ↦ phase

namespace Moment

open Reactor

variable [Kernel κ] {P : Policy π ν} {outside : Phase π ν → Prop} {b : Builder}
  {m : Moment κ π ν}

theorem Step.of_asks {q : Request} {after : q.Answer → Phase π ν}
    (h : Phase.Asks outside q m.phase after) : Step P outside m
      ⟨(Reactor.request q m.reactor).2, after (Reactor.request q m.reactor).1⟩ := by
  rcases m with ⟨r, phase⟩
  cases h with
  | heard next rest => exact .task r (.hear (.ask q next)) rest
  | met t peer next rest => exact .task r (.meet t peer (.ask q next)) rest
  | elsewhere _ h => exact .request r phase q h

/-- Output for all is, at any moment and wherever the request for it comes from, queued on those
live connections that have room for the whole of it. These are counted, and nothing else is touched.
If there are any, a wakeup is pending afterwards; if writes to the pipe of the waker fail only when
it is full, there is a byte in the pipe then, and at most one was added. -/
theorem Occurs.broadcast_exact (h : Occurs P outside b m) (bs : Bytes) :
    ∃ n r', Reactor.request (.broadcast bs) m.reactor = (n, r') ∧
      (∀ after, Phase.Asks outside (.broadcast bs) m.phase after →
        Step P outside m ⟨r', after n⟩) ∧
      Spreads bs m.reactor.live n m.reactor r' ∧ (0 < n → r'.waker.signaled) ∧
      (r'.Piped → (0 < n → 0 < r'.unread) ∧ r'.unread ≤ m.reactor.unread + 1) := by
  have hholding := h.agrees.sound.holding
  have hspreads := (writeAll_spreads bs hholding.nodup fun id hid ↦ by
    obtain ⟨c, -, -, hc, -⟩ := hholding.live hid
    exact ⟨c, hc⟩).remark (.request (.broadcast bs) (respond (.broadcast bs) m.reactor).1)
  refine ⟨_, _, rfl, fun _ ↦ Step.of_asks, hspreads, hspreads.signaled, fun hp ↦ ⟨fun hn ↦ ?_, ?_⟩⟩
  · have hp₀ : m.reactor.Piped := (request_still (.broadcast bs) m.reactor).grows.piped hp
    exact (request_unmoved (.broadcast bs) (h.alert hp₀) hp).1.signaled (hspreads.signaled hn)
  · exact request_unread_le _ hp

end Moment

theorem Visit.kept_broadcast : Moment.Occurs policy (fun _ ↦ True) builder kept ∧
    ∃ r', Reactor.request (.broadcast [7, 8]) kept.reactor = (1, r') ∧
      (∃ c, r'.conn? 1 = some c ∧ c.output.toList = [7, 8]) ∧ r'.waker.signaled ∧ r'.Piped ∧
      r'.unread = 1 := by
  have ho := kept_occurs fun _ ↦ True
  obtain ⟨n, r', hr, -, hspreads, hsignaled, hpipe⟩ := ho.broadcast_exact [7, 8]
  have hp : (Reactor.request (.broadcast [7, 8]) kept.reactor).2.Piped := by decide +kernel
  have hcount : kept.reactor.live.countP (kept.reactor.hasRoom [7, 8]) = 1 := by decide +kernel
  have hempty : (kept.reactor.conn? 1).all
      (fun c ↦ [7, 8].length ≤ c.output.free && c.output.toList == []) = true := by
    decide +kernel
  have hlive : kept.reactor.live = [1] := by decide +kernel
  have hunread : kept.reactor.unread = 0 := by decide +kernel
  rw [hr] at hp
  obtain rfl : n = 1 := hspreads.count.trans hcount
  obtain ⟨c, c', hc, hc', hq⟩ := hspreads.queued 1 (by rw [hlive]; exact List.mem_cons_self)
  rw [hc, Option.all_some, Bool.and_eq_true, decide_eq_true_iff, beq_iff_eq] at hempty
  have hout := (hq.whole hempty.1).2.1
  rw [hempty.2, List.nil_append] at hout
  obtain ⟨hpos, hle⟩ := hpipe hp
  have hpos := hpos Nat.one_pos
  exact ⟨ho, r', hr, ⟨c', hc', hout⟩, hsignaled Nat.one_pos, hp, by omega⟩

end PollReactor
