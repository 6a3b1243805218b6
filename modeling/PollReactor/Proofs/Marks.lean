import PollReactor.Proofs.Input

namespace PollReactor

open Journal (Fresh)

variable {κ π ν : Type}

/-- What a channel is made with once and for all. -/
structure Sizes where
  read : Watermarks
  write : Watermarks
  input : Nat
  output : Nat

structure Sizes.Fit (s : Sizes) : Prop where
  read : s.read.Valid s.input
  write : s.write.Valid s.output

theorem Watermarks.valid_of_check {m : Watermarks} {capacity : Nat}
    (h : m.check capacity = .ok ()) : m.Valid capacity := by
  unfold check at h
  split_ifs at h with hv
  exact hv

theorem ConnConfig.fit_of_check {config : ConnConfig} (h : config.check = .ok ()) :
    (⟨config.read, config.write, config.capacity, config.capacity⟩ : Sizes).Fit := by
  have hc := capacity_pos_of_check h
  rw [check, if_neg (by omega)] at h
  have h : (config.read.check config.capacity >>= fun _ ↦ config.write.check config.capacity) =
      .ok () := h
  cases hread : config.read.check config.capacity with
  | error e =>
    rw [hread] at h
    cases h
  | ok =>
    rw [hread] at h
    exact ⟨Watermarks.valid_of_check hread, Watermarks.valid_of_check h⟩

namespace Ring

theorem capacity_fillFrom {σ : Type} (src : Source σ) (r : Ring) (moved : Nat) (s : σ) :
    (fillFrom src r moved s).2.1.capacity = r.capacity := by
  fun_induction fillFrom src r moved s with
  | case3 r moved s h bs hf s' hp hb _ ih => rw [ih, capacity_write]
  | case4 r moved s h e s' hp he _ ih => exact ih
  | _ => rfl

theorem capacity_flushFrom {σ : Type} (snk : Sink σ) (r : Ring) (moved : Nat) (s : σ) :
    (flushFrom snk r moved s).2.1.capacity = r.capacity := by
  fun_induction flushFrom snk r moved s with
  | case3 r moved s h n hn s' hp h0 _ ih => rw [ih, capacity_consume]
  | case4 r moved s h e s' hp he _ ih => exact ih
  | _ => rfl

theorem capacity_writes (parts : List Bytes) (r : Ring) :
    (parts.foldl (fun r bs ↦ (r.write bs).2) r).capacity = r.capacity := by
  induction parts generalizing r with
  | nil => rfl
  | cons bs parts ih => rw [List.foldl_cons, ih, capacity_write]

end Ring

namespace Channel

variable (ch : Channel)

def sizes : Sizes := ⟨ch.readMarks, ch.writeMarks, ch.input.capacity, ch.output.capacity⟩

theorem sizes_append (parts : List Bytes) : (ch.append parts).2.sizes = ch.sizes := by
  unfold append
  split_ifs
  · rfl
  · simp only [sizes, Ring.capacity_writes]

theorem sizes_read (n : Nat) (fully : Bool) : (ch.read n fully).2.sizes = ch.sizes := by
  unfold read
  split_ifs <;> rfl

theorem sizes_takeLine (most : Nat) : (ch.takeLine most).2.sizes = ch.sizes := by
  unfold takeLine
  split_ifs
  · rfl
  · split <;> rfl
  · split <;> rfl

end Channel

namespace Conn

variable (c : Conn)

theorem sizes_close (immediate : Bool) : (c.close immediate).1.sizes = c.sizes := by
  cases immediate
  · rfl
  · exact congrArg Channel.sizes c.shutdown_channel

theorem sizes_batchOps (c : Conn) (ops : List BatchOp) : (c.batchOps ops).2.1.sizes = c.sizes := by
  induction ops generalizing c with
  | nil => rfl
  | cons op ops ih =>
    refine (ih (c.batchOp op).2.1).trans ?_
    cases op with
    | write bs => exact c.toChannel.sizes_append [bs]
    | writeLine s => exact c.toChannel.sizes_append [Text.Utf8.encode s, Channel.lineEnd]
    | close immediate => exact c.sizes_close immediate
    | _ => rfl

theorem sizes_perform (op : ConnOp) : (c.perform op).2.1.sizes = c.sizes := by
  cases op with
  | read n fully => exact c.toChannel.sizes_read n fully
  | readLine most => exact c.toChannel.sizes_takeLine most
  | readUInt w => exact c.toChannel.sizes_read w.bytes true
  | write bs => exact c.toChannel.sizes_append [bs]
  | writeLine s => exact c.toChannel.sizes_append [Text.Utf8.encode s, Channel.lineEnd]
  | writeUInt w n => exact c.toChannel.sizes_append [Bytes.bigEndian w.bytes n]
  | batch ops release => exact sizes_batchOps c ops
  | close immediate => exact c.sizes_close immediate
  | _ => rfl

variable [Kernel κ] (o : Os κ (Mark ν))

theorem sizes_receive : (c.receive o).1.2.sizes = c.sizes := by
  have hr := c.receive_receives o
  have hs (fd : Fd) (now : Nat) : Channel.sizes { c with
      input := (c.input.fillFrom (.socket fd) 0 o).2.1
      lastActivity := now } = c.sizes := by
    simp [Channel.sizes, Ring.capacity_fillFrom (.socket fd) c.input 0 o]
  generalize c.receive o = out at hr ⊢
  cases hr with
  | unconnected | full => rfl
  | @ended fd _ _ _ _ h
  | @blocked fd _ _ _ _ _ h
  | @failed fd _ _ _ _ _ h
  | @moved fd _ _ _ _ _ h =>
    have hs := hs fd
    rw [h] at hs
    exact hs _

theorem sizes_transmit : (c.transmit o).1.2.sizes = c.sizes := by
  have ht := c.transmit_transmits o
  have hs (fd : Fd) (outputHigh : Bool) (now : Nat) : Channel.sizes { c with
      output := (c.output.flushFrom (.socket fd) 0 o).2.1
      outputHigh
      lastActivity := now } = c.sizes := by
    simp [Channel.sizes, Ring.capacity_flushFrom (.socket fd) c.output 0 o]
  generalize c.transmit o = out at ht ⊢
  cases ht with
  | unconnected | empty => rfl
  | @still fd _ _ _ _ h
  | @blocked fd _ _ _ _ _ h
  | @failed fd _ _ _ _ _ h
  | @moved fd _ _ _ _ _ h =>
    have hs := hs fd
    rw [h] at hs
    exact hs _ _

theorem sizes_receiveUrgent : (c.receiveUrgent o).1.2.sizes = c.sizes := by
  obtain ⟨⟨urgent, now, h⟩, -⟩ := c.receiveUrgent_spec o
  rw [h]
  rfl

end Conn

/-- What a change can make of a connection. -/
inductive Conn.Alters (κ : Type) {ν : Type} [Kernel κ] (c : Conn) : Conn → Prop where
  | kept : Alters κ c c
  | called (op : ConnOp) : Alters κ c (c.perform op).2.1
  | received (o : Os κ (Mark ν)) : Alters κ c (c.receive o).1.2
  | transmitted (o : Os κ (Mark ν)) : Alters κ c (c.transmit o).1.2
  | alerted (o : Os κ (Mark ν)) : Alters κ c (c.receiveUrgent o).1.2
  | hungUp : Alters κ c { c with hungUp := true }
  | parted : Alters κ c { c with socket := none }

theorem Conn.Alters.sizes [Kernel κ] {c c' : Conn} (h : c.Alters κ (ν := ν) c') :
    c'.sizes = c.sizes := by
  cases h with
  | called op => exact c.sizes_perform op
  | received o => exact c.sizes_receive o
  | transmitted o => exact c.sizes_transmit o
  | alerted o => exact c.sizes_receiveUrgent o
  | _ => rfl

namespace Reactor

variable [Kernel κ] {r r' : Reactor κ π ν} {id : Nat} {c c' : Conn}

theorem Service.alters {id : Nat} {sends : Bool} (h : Service r id c sends r')
    (hc : r.conn? id = some c) : ∃ c', c.Alters κ (ν := ν) c' ∧
      ∀ id', r'.conn? id' = if id' = id then some c' else r.conn? id' := by
  have hset (os : Os κ (Mark ν)) (c' : Conn) := conn?_setConn (r := { r with os }) hc c'
  cases h with
  | nothing =>
    refine ⟨c, .kept, fun id' ↦ ?_⟩
    split_ifs with he
    · rw [he, hc]
    · rfl
  | input => exact ⟨_, .received r.os, hset _ _⟩
  | output => exact ⟨_, .transmitted r.os, hset _ _⟩
  | urgent => exact ⟨_, .alerted r.os, hset _ _⟩
  | hangup => exact ⟨_, .hungUp, hset r.os _⟩

theorem Change.origin (h : Change r r') (hc' : r'.conn? id = some c') :
    (∃ c, r.conn? id = some c ∧ c.Alters κ (ν := ν) c') ∨
      r.conn? id = none ∧ ∃ d : Draft, c'.sizes = d.channel.sizes := by
  have hset {id' : Nat} {c d : Conn} (hc : r.conn? id' = some c) (ha : c.Alters κ (ν := ν) d)
      (hconn : r'.conn? id = if id = id' then some d else r.conn? id) :
      ∃ c, r.conn? id = some c ∧ c.Alters κ (ν := ν) c' := by
    rw [hconn] at hc'
    split_ifs at hc' with he
    · cases hc'
      exact ⟨c, he ▸ hc, ha⟩
    · exact ⟨c', hc', .kept⟩
  cases h with
  | apart hconns => exact .inl ⟨c', (conn?_congr hconns id).symm.trans hc', .kept⟩
  | called id' c op hc => exact .inl (hset hc (.called op) (conn?_setConn hc _ id))
  | enrolled t peer d now =>
    rw [conn?_enrolled] at hc'
    split_ifs at hc' with he
    · cases hc'
      exact .inr ⟨conn?_of_size_lt (by omega), d, rfl⟩
    · exact .inl ⟨c', hc', .kept⟩
  | served hc _ _ hs =>
    obtain ⟨d, ha, hconn⟩ := hs.alters hc
    exact .inl (hset hc ha (hconn id))
  | parted id' =>
    obtain ⟨os, pool, conns, -, -, hconn, -⟩ := part_spec id' r
    cases hc : r.conn? id' with
    | none =>
      rw [hconn, hc] at hc'
      split_ifs at hc'
      · cases hc'
      · exact .inl ⟨c', hc', .kept⟩
    | some c =>
      refine .inl (hset hc .parted ?_)
      rw [hconn, hc]
      rfl
  | told cb => exact .inl ⟨c', hc', .kept⟩

theorem Change.alters (h : Change r r') (hc : r.conn? id = some c) :
    ∃ c', r'.conn? id = some c' ∧ c.Alters κ (ν := ν) c' := by
  obtain ⟨c', hc'⟩ : ∃ c', r'.conn? id = some c' := by
    have hset {id' : Nat} {d : Conn}
        (hconn : r'.conn? id = if id = id' then some d else r.conn? id) :
        ∃ c', r'.conn? id = some c' := by
      rw [hconn]
      split_ifs
      · exact ⟨d, rfl⟩
      · exact ⟨c, hc⟩
    cases h with
    | apart hconns => exact ⟨c, (conn?_congr hconns id).trans hc⟩
    | called id' c op hc => exact hset (conn?_setConn hc _ id)
    | enrolled t peer d now => exact hset (conn?_enrolled t peer d now r id)
    | served hc _ _ hs =>
      obtain ⟨d, -, hconn⟩ := hs.alters hc
      exact hset (hconn id)
    | parted id' =>
      obtain ⟨os, pool, conns, -, -, hconn, -⟩ := part_spec id' r
      rw [hconn]
      split_ifs with he
      · rw [← he, hc]
        exact ⟨_, rfl⟩
      · exact ⟨c, hc⟩
    | told cb => exact ⟨c, hc⟩
  rcases h.origin hc' with ⟨d, hd, ha⟩ | ⟨hnone, -⟩
  · obtain rfl := Option.some.inj (hc.symm.trans hd)
    exact ⟨c', hc', ha⟩
  · cases hc.symm.trans hnone

theorem Changes.sizes (h : Changes r r') (hc : r.conn? id = some c) :
    ∃ c', r'.conn? id = some c' ∧ c'.sizes = c.sizes := by
  induction h with
  | refl => exact ⟨c, hc, rfl⟩
  | tail _ h ih =>
    obtain ⟨c₁, hc₁, h₁⟩ := ih
    obtain ⟨c₂, hc₂, ha⟩ := h.alters hc₁
    exact ⟨c₂, hc₂, ha.sizes.trans h₁⟩

end Reactor

theorem Channel.Drafted.fit {ch : Channel} (h : Drafted ch) : ch.sizes.Fit := by
  induction h with
  | @made config now ch h =>
    unfold make at h
    split at h
    · cases h
    · rename_i hc
      cases h
      have hcap : (Ring.ofCapacity config.capacity (ConnConfig.capacity_pos_of_check hc)).capacity =
          config.capacity := Array.size_replicate
      have hfit := ConnConfig.fit_of_check hc
      rw [sizes, hcap]
      exact hfit
  | @called ch op _ ih =>
    have h : Channel.sizes _ = ch.sizes := (Conn.detached ch).sizes_perform op
    rw [h]
    exact ih

namespace Reactor

def Fits (r : Reactor κ π ν) : Prop := ∀ id c, r.conn? id = some c → c.sizes.Fit

variable [Kernel κ] {r r' : Reactor κ π ν}

theorem Change.fits (h : Change r r') (hf : Fits r) : Fits r' := by
  intro id c' hc'
  rcases h.origin hc' with ⟨c, hc, ha⟩ | ⟨-, d, hd⟩
  · rw [ha.sizes]
    exact hf id c hc
  · rw [hd]
    exact d.drafted.fit

end Reactor

theorem Moment.Occurs.fits [Kernel κ] {P : Policy π ν} {outside : Phase π ν → Prop} {b : Builder}
    {m : Moment κ π ν} (h : Occurs P outside b m) (hf : Fresh m.journal) : m.reactor.Fits :=
  h.changing hf (fun _ hconns _ id _ hc ↦ nomatch (Reactor.conn?_of_empty hconns id).symm.trans hc)
    fun _ _ ↦ Reactor.Change.fits

end PollReactor
