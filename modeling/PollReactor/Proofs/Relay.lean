import Mathlib.Logic.Relation
import PollReactor.Proofs.Appends
import PollReactor.Proofs.Digits
import PollReactor.Proofs.Framing
import PollReactor.Proofs.Input
import PollReactor.Proofs.Marks

namespace PollReactor

open Relation (ReflTransGen)

structure Numeral where
  width : Width
  value : Nat
  value_lt : value < 256 ^ width.bytes

namespace Numeral

variable (x : Numeral)

def bytes : Bytes := Bytes.bigEndian x.width.bytes x.value

theorem length_bytes : x.bytes.length = x.width.bytes := Bytes.length_bigEndian _ _

theorem ofBigEndian_bytes : Bytes.ofBigEndian x.bytes = x.value :=
  Bytes.ofBigEndian_bigEndian_of_lt x.value_lt

end Numeral

theorem Width.bytes_pos (w : Width) : 0 < w.bytes := by cases w <;> decide

theorem Width.bytes_le (w : Width) : w.bytes ≤ 8 := by cases w <;> decide

namespace Conn

variable (c : Conn)

def uint? (w : Width) : Option Nat := (c.perform (.readUInt w)).1

def pastUInt (w : Width) : Conn := (c.perform (.readUInt w)).2.1

variable {c} {w : Width}

theorem uint?_eq_some {n : Nat} (h : c.uint? w = some n) : ∃ bs, bs.length = w.bytes ∧
    n = Bytes.ofBigEndian bs ∧ bs ++ (c.pastUInt w).input.toList = c.input.toList := by
  have hreads : ConnOp.ReadsOff (.readUInt w) (c.uint? w) (ConnOp.consumed c (.readUInt w)) :=
    c.perform_readsOff (.readUInt w)
  rw [h] at hreads
  exact ⟨_, hreads.1, hreads.2, c.perform_takes (.readUInt w)⟩

theorem uint?_of_le (h : w.bytes ≤ c.input.len) :
    c.uint? w = some (Bytes.ofBigEndian (c.input.peek w.bytes)) := by
  have hlen : (c.input.peek w.bytes).length = w.bytes := by
    rw [Ring.length_peek, Nat.min_eq_left h]
  simp [uint?, perform, Channel.readUInt, Channel.read, Ring.read, Nat.not_lt.2 h, hlen]

theorem perform_readUInt_of_lt (h : c.input.len < w.bytes) :
    c.perform (.readUInt w) = (none, c, []) := by
  have hw : w.bytes ≠ 0 := w.bytes_pos.ne'
  have hread : c.toChannel.readUInt w.bytes = (none, c.toChannel) := by
    simp [Channel.readUInt, Channel.read, h, hw.symm]
  rw [perform, hread]
  simp [consumed, withChannel, Channel.resumedSince, wakeIf]

theorem uint?_eq_none_iff : c.uint? w = none ↔ c.input.len < w.bytes := by
  refine ⟨fun h ↦ Nat.not_le.1 fun hle ↦ ?_, fun h ↦ ?_⟩
  · rw [uint?_of_le hle] at h
    cases h
  · rw [uint?, perform_readUInt_of_lt h]

end Conn

structure Relay where
  sender : Conn
  flying : Bytes
  receiver : Conn

namespace Relay

def stream (s : Relay) : Bytes :=
  s.receiver.input.toList ++ (s.flying ++ s.sender.output.toList)

/-- What happens besides writing and reading: any part of what the sender has to send is sent, any
part of what is on its way comes in if there is room for it, and the connections change in other
respects. -/
inductive Moves : Relay → Relay → Prop where
  | send (sender : Conn) (flying : Bytes) (receiver : Conn) {n : Nat}
      (hn : n ≤ sender.output.front.length) :
      Moves ⟨sender, flying, receiver⟩ ⟨{ sender with output := sender.output.consume n },
        flying ++ sender.output.front.take n, receiver⟩
  | arrive {sender receiver : Conn} {flying : Bytes} (bs rest : Bytes)
      (hparts : bs ++ rest = flying) (hfits : bs.length ≤ receiver.input.free) :
      Moves ⟨sender, flying, receiver⟩ ⟨sender, rest, receiver.gains bs⟩
  | other {sender receiver sender' receiver' : Conn} {flying : Bytes}
      (hout : sender'.output = sender.output) (hin : receiver'.input = receiver.input) :
      Moves ⟨sender, flying, receiver⟩ ⟨sender', flying, receiver'⟩

variable {s s' : Relay}

theorem Moves.stream (h : Moves s s') : s'.stream = s.stream := by
  cases h with
  | send sender flying receiver hn =>
    simp only [Relay.stream, Ring.toList_consume, sender.output.front_eq_take hn,
      List.append_assoc, List.take_append_drop]
  | @arrive sender receiver flying bs rest hparts hfits =>
    subst hparts
    have hall : (receiver.input.write bs).1 = bs.length := by
      rw [Ring.write_fst, Nat.min_eq_left hfits]
    simp only [Relay.stream, Conn.gains, Ring.toList_write, hall, List.take_length,
      List.append_assoc]
  | other hout hin => simp only [Relay.stream, hout, hin]

theorem Moves.capacity (h : Moves s s') :
    s'.receiver.input.capacity = s.receiver.input.capacity := by
  cases h with
  | send => rfl
  | arrive => exact Ring.capacity_write ..
  | other hout hin => exact congrArg Ring.capacity hin

theorem stream_of_moves (h : ReflTransGen Moves s s') : s'.stream = s.stream := by
  induction h with
  | refl => rfl
  | tail _ h ih => exact h.stream.trans ih

theorem capacity_of_moves (h : ReflTransGen Moves s s') :
    s'.receiver.input.capacity = s.receiver.input.capacity := by
  induction h with
  | refl => rfl
  | tail _ h ih => exact h.capacity.trans ih

def writes (s : Relay) (x : Numeral) : Relay :=
  { s with sender := (s.sender.perform (.writeUInt x.width x.value)).2.1 }

def reads (s : Relay) (w : Width) : Relay := { s with receiver := s.receiver.pastUInt w }

theorem capacity_reads (s : Relay) (w : Width) :
    (s.reads w).receiver.input.capacity = s.receiver.input.capacity :=
  congrArg Sizes.input (s.receiver.sizes_perform (.readUInt w))

theorem stream_writes {x : Numeral}
    (h : (s.sender.perform (.writeUInt x.width x.value)).1 = true) :
    (s.writes x).stream = s.stream ++ x.bytes := by
  have hout := s.sender.perform_output (.writeUInt x.width x.value)
  rw [h] at hout
  simp only [stream, writes, hout, ConnOp.appended, Numeral.bytes, List.append_assoc]

theorem stream_reads {x : Numeral} {rest : Bytes} {n : Nat} (hs : s.stream = x.bytes ++ rest)
    (h : s.receiver.uint? x.width = some n) : n = x.value ∧ (s.reads x.width).stream = rest := by
  obtain ⟨bs, hlen, hn, htakes⟩ := Conn.uint?_eq_some h
  have hparts : bs ++ (s.reads x.width).stream = x.bytes ++ rest := by
    rw [← hs, stream, stream, ← htakes, List.append_assoc]
    rfl
  obtain ⟨rfl, hrest⟩ := List.append_inj hparts (hlen.trans x.length_bytes.symm)
  exact ⟨hn.trans x.ofBigEndian_bytes, hrest⟩

/-- Numbers are written at one end, `written` with success. At the other end, numbers of the widths
`due` are asked for one after the other, each again until it is there; `read` are the answers, and
`due'` the widths that are left. Anything may happen in between. -/
inductive Carries : (s : Relay) → (due : List Width) → (written : List Numeral) →
    (read : List Nat) → (s' : Relay) → (due' : List Width) → Prop where
  | done (s : Relay) (due : List Width) : Carries s due [] [] s due
  | move {s s' s'' : Relay} {due due' : List Width} {written : List Numeral} {read : List Nat}
      (hmove : Moves s s') (h : Carries s' due written read s'' due') :
      Carries s due written read s'' due'
  | write {s s' : Relay} {due due' : List Width} {x : Numeral} {written : List Numeral}
      {read : List Nat} (haccepted : (s.sender.perform (.writeUInt x.width x.value)).1 = true)
      (h : Carries (s.writes x) due written read s' due') :
      Carries s due (x :: written) read s' due'
  | read {s s' : Relay} {w : Width} {due due' : List Width} {written : List Numeral} {n : Nat}
      {read : List Nat} (hread : s.receiver.uint? w = some n)
      (h : Carries (s.reads w) due written read s' due') :
      Carries s (w :: due) written (n :: read) s' due'
  | missing {s s' : Relay} {w : Width} {due due' : List Width} {written : List Numeral}
      {read : List Nat} (hread : s.receiver.uint? w = none)
      (h : Carries (s.reads w) (w :: due) written read s' due') :
      Carries s (w :: due) written read s' due'

theorem reads_of_missing {w : Width} (h : s.receiver.uint? w = none) : s.reads w = s := by
  rw [reads, Conn.pastUInt, Conn.perform_readUInt_of_lt (Conn.uint?_eq_none_iff.1 h)]

theorem Carries.of_moves {s'' : Relay} {due due' : List Width} {written : List Numeral}
    {read : List Nat} (hmoves : ReflTransGen Moves s s')
    (h : Carries s' due written read s'' due') : Carries s due written read s'' due' := by
  induction hmoves using ReflTransGen.head_induction_on with
  | refl => exact h
  | head hmove _ ih => exact .move hmove ih

theorem Carries.accounted {due due' : List Width} {written : List Numeral} {read : List Nat}
    (h : Carries s due written read s' due') {pending : List Numeral}
    (hs : s.stream = pending.flatMap Numeral.bytes)
    (hdue : due = (pending ++ written).map Numeral.width) : ∃ later : List Numeral,
      (pending ++ written).map Numeral.value = read ++ later.map Numeral.value ∧
        due' = later.map Numeral.width ∧ s'.stream = later.flatMap Numeral.bytes := by
  induction h generalizing pending with
  | done s due =>
    rw [List.append_nil] at hdue
    exact ⟨pending, by rw [List.append_nil, List.nil_append], hdue, hs⟩
  | move hmove _ ih => exact ih (hmove.stream.trans hs) hdue
  | @write s s' due due' x written read haccepted _ ih =>
    have hsplit : pending ++ x :: written = (pending ++ [x]) ++ written := by
      rw [List.append_assoc, List.singleton_append]
    rw [hsplit] at hdue ⊢
    refine ih ?_ hdue
    rw [stream_writes haccepted, hs, List.flatMap_append, List.flatMap_singleton]
  | @read s s' w due due' written n read hread _ ih =>
    cases pending with
    | nil =>
      -- Nothing was written yet, so that there is nothing to read.
      obtain ⟨bs, hlen, -, htakes⟩ := Conn.uint?_eq_some hread
      have hin : s.receiver.input.toList = [] := (List.append_eq_nil_iff.1 hs).1
      rw [hin, List.append_eq_nil_iff] at htakes
      rw [htakes.1] at hlen
      exact absurd hlen w.bytes_pos.ne
    | cons x pending =>
      rw [List.cons_append, List.map_cons, List.cons.injEq] at hdue
      obtain ⟨rfl, hdue⟩ := hdue
      rw [List.flatMap_cons] at hs
      obtain ⟨rfl, hrest⟩ := stream_reads hs hread
      obtain ⟨later, hvalues, hlater⟩ := ih hrest hdue
      exact ⟨later, congrArg (x.value :: ·) hvalues, hlater⟩
  | missing hread _ ih =>
    rw [reads_of_missing hread] at ih
    exact ih hs hdue

theorem uint?_of_arrived {w : Width} (hflying : s.flying = [])
    (hout : s.sender.output.toList = []) (h : w.bytes ≤ s.stream.length) :
    ∃ n, s.receiver.uint? w = some n := by
  rw [stream, hflying, hout, List.append_nil, List.append_nil, Ring.length_toList] at h
  exact ⟨_, Conn.uint?_of_le h⟩

theorem fetch_one (hroom : s.receiver.input.len < s.receiver.input.capacity)
    (h : s.receiver.input.len < s.stream.length) :
    ∃ s', ReflTransGen Moves s s' ∧ s'.receiver.input.len = s.receiver.input.len + 1 := by
  obtain ⟨sender, flying, receiver⟩ := s
  have harrive (sender : Conn) (b : UInt8) (rest : Bytes) :
      ∃ s', Moves ⟨sender, b :: rest, receiver⟩ s' ∧
        s'.receiver.input.len = receiver.input.len + 1 := by
    have hfits : [b].length ≤ receiver.input.free := Nat.sub_pos_of_lt hroom
    refine ⟨_, .arrive [b] rest rfl hfits, ?_⟩
    rw [Conn.gains, Ring.len_write, Ring.write_fst, Nat.min_eq_left hfits, List.length_singleton]
  cases flying with
  | cons b rest =>
    obtain ⟨s', hmove, hlen⟩ := harrive sender b rest
    exact ⟨s', .single hmove, hlen⟩
  | nil =>
    -- The next byte has to be sent first.
    have hfront : 1 ≤ sender.output.front.length := by
      have hhead := sender.output.head_lt
      simp only [stream, List.length_append, List.length_nil, Ring.length_toList] at h
      rw [Ring.length_front]
      unfold Ring.capacity
      omega
    obtain ⟨b, rest, hb⟩ := List.exists_cons_of_length_pos hfront
    have hsend := Moves.send sender [] receiver hfront
    rw [hb, List.nil_append, List.take_succ_cons, List.take_zero] at hsend
    obtain ⟨s', hmove, hlen⟩ := harrive { sender with output := sender.output.consume 1 } b []
    exact ⟨s', .head hsend (.single hmove), hlen⟩

theorem fetch {k : Nat} (hroom : k ≤ s.receiver.input.capacity) (h : k ≤ s.stream.length) :
    ∃ s', ReflTransGen Moves s s' ∧ k ≤ s'.receiver.input.len := by
  induction hd : k - s.receiver.input.len generalizing s with
  | zero => exact ⟨s, .refl, by omega⟩
  | succ d ih =>
    obtain ⟨s₁, hone, hlen⟩ : ∃ s₁, ReflTransGen Moves s s₁ ∧
        s₁.receiver.input.len = s.receiver.input.len + 1 := fetch_one (by omega) (by omega)
    obtain ⟨s', hmore, hk⟩ := ih (by rwa [capacity_of_moves hone])
      (by rwa [stream_of_moves hone]) (by omega)
    exact ⟨s', hone.trans hmore, hk⟩

theorem Carries.finish {later : List Numeral} (hroom : 8 ≤ s.receiver.input.capacity)
    (hs : s.stream = later.flatMap Numeral.bytes) :
    ∃ s', Carries s (later.map Numeral.width) [] (later.map Numeral.value) s' [] := by
  induction later generalizing s with
  | nil => exact ⟨s, .done s []⟩
  | cons x later ih =>
    rw [List.flatMap_cons] at hs
    have hstream : x.width.bytes ≤ s.stream.length := by
      rw [hs, List.length_append, x.length_bytes]
      exact Nat.le_add_right _ _
    obtain ⟨s₁, hmoves, hlen⟩ := fetch (x.width.bytes_le.trans hroom) hstream
    have hread := Conn.uint?_of_le hlen
    obtain ⟨hvalue, hrest⟩ := stream_reads ((stream_of_moves hmoves).trans hs) hread
    have hroom' : 8 ≤ (s₁.reads x.width).receiver.input.capacity := by
      rwa [capacity_reads, capacity_of_moves hmoves]
    obtain ⟨s', h⟩ := ih hroom' hrest
    rw [hvalue] at hread
    exact ⟨s', .of_moves hmoves (.read hread h)⟩

theorem Carries.capacity {due due' : List Width} {written : List Numeral} {read : List Nat}
    (h : Carries s due written read s' due') :
    s'.receiver.input.capacity = s.receiver.input.capacity := by
  induction h with
  | done => rfl
  | move hmove _ ih => exact ih.trans hmove.capacity
  | write _ _ ih => exact ih
  | read _ _ ih => exact ih.trans (capacity_reads _ _)
  | missing _ _ ih => exact ih.trans (capacity_reads _ _)

/-- Numbers come back as they were written, in order. A number that is due is there once everything
has come in, and with room for eight bytes at the receiving end, everything can be read. A call that
finds too little changes nothing. -/
theorem Carries.round_trip {due due' : List Width} {written pending : List Numeral}
    {read : List Nat} (h : Carries s due written read s' due')
    (hs : s.stream = pending.flatMap Numeral.bytes)
    (hdue : due = (pending ++ written).map Numeral.width) :
    (∃ later : List Numeral, (pending ++ written).map Numeral.value =
      read ++ later.map Numeral.value ∧ due' = later.map Numeral.width) ∧
    (due' = [] → read = (pending ++ written).map Numeral.value) ∧
    (∀ w rest, due' = w :: rest → s'.flying = [] → s'.sender.output.toList = [] →
      ∃ n, s'.receiver.uint? w = some n) ∧
    (8 ≤ s.receiver.input.capacity → ∃ more s'', Carries s' due' [] more s'' [] ∧
      read ++ more = (pending ++ written).map Numeral.value) ∧
    ∀ (c : Conn) (w : Width), c.uint? w = none → (c.perform (.readUInt w)).2 = (c, []) := by
  obtain ⟨later, hvalues, hwidths, hstream⟩ := h.accounted hs hdue
  refine ⟨⟨later, hvalues, hwidths⟩, fun hdone ↦ ?_, fun w rest hw hflying hout ↦ ?_,
    fun hroom ↦ ?_, fun c w hmissing ↦ ?_⟩
  · rw [hwidths, List.map_eq_nil_iff] at hdone
    rw [hvalues, hdone, List.map_nil, List.append_nil]
  · cases later with
    | nil => cases hwidths.symm.trans hw
    | cons x later =>
      obtain ⟨rfl, -⟩ := List.cons.inj (hwidths.symm.trans hw)
      refine uint?_of_arrived hflying hout ?_
      rw [hstream, List.flatMap_cons, List.length_append, x.length_bytes]
      exact Nat.le_add_right _ _
  · rw [← h.capacity] at hroom
    obtain ⟨s'', hfinish⟩ := Carries.finish hroom hstream
    rw [← hwidths] at hfinish
    exact ⟨_, s'', hfinish, hvalues.symm⟩
  · rw [Conn.perform_readUInt_of_lt (Conn.uint?_eq_none_iff.1 hmissing)]

/-- Three numbers for a receiver with room for eight bytes. Both ends cut the second and the third
one, which is asked for too early and lies around the end of the buffer. -/
theorem Carries.round_trip_cut : ∃ s s' : Relay, ∃ due : List Width, ∃ xs : List Numeral,
    Carries s due xs [0x0102, 0x03040506, 0xDEADBEEF] s' [] ∧
      s.stream = [] ∧ due = xs.map Numeral.width ∧
      xs.map Numeral.value = [0x0102, 0x03040506, 0xDEADBEEF] := by
  let xs : List Numeral := [⟨.two, 0x0102, by decide⟩, ⟨.four, 0x03040506, by decide⟩,
    ⟨.four, 0xDEADBEEF, by decide⟩]
  let s : Relay := ⟨.untouched 16 (by decide), [], .untouched 8 (by decide)⟩
  have h : Carries s [.two, .four, .four] xs [0x0102, 0x03040506, 0xDEADBEEF] _ [] :=
    .write (by decide +kernel) (.write (by decide +kernel) (.write (by decide +kernel)
      (.move (.send _ _ _ (n := 3) (by decide +kernel))
      (.move (.send _ _ _ (n := 7) (by decide +kernel))
      (.move (.arrive [1, 2, 3, 4, 5, 6, 0xDE, 0xAD] [0xBE, 0xEF] (by decide +kernel)
        (by decide +kernel))
      (.read (by decide +kernel) (.read (by decide +kernel) (.missing (by decide +kernel)
      (.move (.arrive [0xBE, 0xEF] [] rfl (by decide +kernel))
      (.read (by decide +kernel) (.done _ _)))))))))))
  have hs : s.stream = ([] : List Numeral).flatMap Numeral.bytes := by decide +kernel
  exact ⟨s, _, _, xs, h, hs, rfl, ((h.round_trip hs rfl).2.1 rfl).symm⟩

section Transfers

variable {κ ν : Type} [Kernel κ]

open Journal (story story_append)

/-- What leaves the queue `r` is on its way, as the journal says. -/
def Departs (sender receiver : Conn) (fd : Fd) (r : Ring) (j : Journal ν) (r' : Ring)
    (j' : Journal ν) : Prop :=
  ∃ new, j' = new ++ j ∧ ∀ flying, ReflTransGen Moves
    ⟨{ sender with output := r }, flying, receiver⟩
    ⟨{ sender with output := r' }, flying ++ Journal.sent fd new, receiver⟩

/-- What comes into the queue `r` was on its way next, if the journal says so. -/
def Arrives (sender receiver : Conn) (fd : Fd) (r : Ring) (j : Journal ν) (r' : Ring)
    (j' : Journal ν) : Prop :=
  ∃ new, j' = new ++ j ∧ ∀ flying, ReflTransGen Moves
    ⟨sender, story (Entry.received fd) new ++ flying, { receiver with input := r }⟩
    ⟨sender, flying, { receiver with input := r' }⟩

variable {sender receiver : Conn} {fd : Fd} {r r' r'' : Ring} {j j' j'' : Journal ν}

omit [Kernel κ] in
theorem Departs.still {e : Entry (Mark ν)} (h : e.sent fd = []) :
    Departs sender receiver fd r j r (e :: j) := by
  refine ⟨[e], rfl, fun flying ↦ ?_⟩
  rw [Journal.sent, h, Journal.sent, List.append_nil, List.append_nil]

theorem Departs.trans (h : Departs sender receiver fd r j r' j')
    (h' : Departs sender receiver fd r' j' r'' j'') : Departs sender receiver fd r j r'' j'' := by
  obtain ⟨new, rfl, hmoves⟩ := h
  obtain ⟨newer, rfl, hmore⟩ := h'
  refine ⟨newer ++ new, by rw [List.append_assoc], fun flying ↦ ?_⟩
  rw [Journal.sent_append, ← List.append_assoc]
  exact (hmoves flying).trans (hmore _)

theorem push_departs {o o' : Os κ (Mark ν)} {n : { n : Nat // n ≤ r.front.length }}
    (h : (Sink.socket fd).push r.front o = (.ok n, o')) :
    Departs sender receiver fd r o.journal (r.consume n) o'.journal := by
  obtain ⟨a | a, ha, hj⟩ := Ring.push_socket h
  · cases ha
  cases ha
  refine ⟨[_], hj, fun flying ↦ ?_⟩
  have hsent : Journal.sent fd ([.sys (.send fd r.front) (.ok n)] : Journal ν) =
      r.front.take n := by
    simp [Journal.sent, Entry.sent]
  rw [hsent]
  exact .single (.send { sender with output := r } flying receiver n.2)

theorem push_still {o o' : Os κ (Mark ν)}
    {answer : Except IoError { n : Nat // n ≤ r.front.length }}
    (h : (Sink.socket fd).push r.front o = (answer, o')) (hnone : ∀ n, answer = .ok n → n.1 = 0) :
    Departs sender receiver fd r o.journal r o'.journal := by
  obtain ⟨a, rfl, hj⟩ := Ring.push_socket h
  rw [hj]
  cases a with
  | ok n =>
    refine .still ?_
    simp [Entry.sent, hnone n rfl]
  | error e => exact .still rfl

theorem flushFrom_departs (sender receiver : Conn) (fd : Fd) (r : Ring) (moved : Nat)
    (o : Os κ (Mark ν)) :
    Departs sender receiver fd r o.journal (r.flushFrom (.socket fd) moved o).2.1
      (r.flushFrom (.socket fd) moved o).2.2.journal := by
  fun_induction Ring.flushFrom (.socket fd) r moved o with
  | case1 r moved o h => exact ⟨[], rfl, fun flying ↦ by rw [Journal.sent, List.append_nil]⟩
  | case2 r moved o h o' hn hp => exact push_still hp fun n hn ↦ by cases hn; rfl
  | case3 r moved o h n hn o' hp _ _ ih => exact (push_departs hp).trans ih
  | case4 r moved o h e o' hp _ _ ih => exact (push_still hp fun n hn ↦ by cases hn).trans ih
  | case5 r moved o h e o' hp => exact push_still hp fun n hn ↦ by cases hn
  | case6 r moved o h e o' hp => exact push_still hp fun n hn ↦ by cases hn

theorem transmit_departs (receiver c : Conn) (hfd : c.fd? = some fd) (o : Os κ (Mark ν)) :
    Departs c receiver fd c.output o.journal (c.transmit o).1.2.output
      (c.transmit o).2.journal := by
  have hflush := flushFrom_departs c receiver fd c.output 0 o
  have ht := c.transmit_transmits o
  generalize c.transmit o = out at ht ⊢
  cases ht with
  | unconnected hc => cases hfd.symm.trans hc
  | empty => exact ⟨[], rfl, fun flying ↦ by rw [Journal.sent, List.append_nil]⟩
  | still hc _ h | blocked hc _ h | failed hc _ h =>
    cases hfd.symm.trans hc
    rw [h] at hflush
    exact hflush
  | moved hc _ h =>
    cases hfd.symm.trans hc
    rw [h] at hflush
    exact hflush.trans (.still rfl)

/-- What is transmitted, on whatever kernel, is sent in such steps. -/
theorem transmit_moves (receiver c : Conn) (hfd : c.fd? = some fd) (o : Os κ (Mark ν)) :
    ∃ new, (c.transmit o).2.journal = new ++ o.journal ∧ ∀ flying,
      ReflTransGen Moves ⟨c, flying, receiver⟩
        ⟨(c.transmit o).1.2, flying ++ Journal.sent fd new, receiver⟩ := by
  obtain ⟨new, hj, hmoves⟩ := transmit_departs receiver c hfd o
  exact ⟨new, hj, fun flying ↦ (hmoves flying).tail (.other rfl rfl)⟩

omit [Kernel κ] in
theorem Arrives.still {e : Entry (Mark ν)} (h : e.received fd = []) :
    Arrives sender receiver fd r j r (e :: j) := by
  refine ⟨[e], rfl, fun flying ↦ ?_⟩
  rw [Journal.story_cons, h, Journal.story_nil]
  exact .refl

theorem Arrives.trans (h : Arrives sender receiver fd r j r' j')
    (h' : Arrives sender receiver fd r' j' r'' j'') : Arrives sender receiver fd r j r'' j'' := by
  obtain ⟨new, rfl, hmoves⟩ := h
  obtain ⟨newer, rfl, hmore⟩ := h'
  refine ⟨newer ++ new, by rw [List.append_assoc], fun flying ↦ ?_⟩
  rw [story_append, List.append_assoc]
  exact (hmoves _).trans (hmore flying)

theorem pull_arrives {o o' : Os κ (Mark ν)} {bs : { bs : Bytes // bs.length ≤ r.vacant }}
    (h : (Source.socket fd).pull r.vacant o = (.ok bs, o')) :
    Arrives sender receiver fd r o.journal (r.write bs.1).2 o'.journal := by
  obtain ⟨a | a, ha, hj⟩ := Ring.pull_entry h
  · cases ha
  cases ha
  refine ⟨[_], hj, fun flying ↦ ?_⟩
  have hreceived :
      story (Entry.received fd) ([.sys (.recv fd r.vacant) (.ok bs)] : Journal ν) = bs.1 := by
    simp [Entry.received]
  rw [hreceived]
  exact .single (.arrive bs.1 flying rfl (bs.2.trans r.vacant_le_free))

theorem pull_still {o o' : Os κ (Mark ν)}
    {answer : Except IoError { bs : Bytes // bs.length ≤ r.vacant }}
    (h : (Source.socket fd).pull r.vacant o = (answer, o'))
    (hnone : ∀ bs, answer = .ok bs → bs.1 = []) :
    Arrives sender receiver fd r o.journal r o'.journal := by
  obtain ⟨a, rfl, hj⟩ := Ring.pull_entry h
  rw [hj]
  cases a with
  | ok bs =>
    refine .still ?_
    simp [Entry.received, hnone bs rfl]
  | error e => exact .still rfl

theorem fillFrom_arrives (sender receiver : Conn) (fd : Fd) (r : Ring) (moved : Nat)
    (o : Os κ (Mark ν)) :
    Arrives sender receiver fd r o.journal (r.fillFrom (.socket fd) moved o).2.1
      (r.fillFrom (.socket fd) moved o).2.2.journal := by
  fun_induction Ring.fillFrom (.socket fd) r moved o with
  | case1 r moved o h => exact ⟨[], rfl, fun flying ↦ .refl⟩
  | case2 r moved o h hb o' hp => exact pull_still hp fun bs hbs ↦ by cases hbs; rfl
  | case3 r moved o h bs hb o' hp _ _ ih => exact (pull_arrives hp).trans ih
  | case4 r moved o h e o' hp _ _ ih => exact (pull_still hp fun bs hbs ↦ by cases hbs).trans ih
  | case5 r moved o h e o' hp => exact pull_still hp fun bs hbs ↦ by cases hbs
  | case6 r moved o h e o' hp => exact pull_still hp fun bs hbs ↦ by cases hbs

theorem receive_arrives (sender c : Conn) (hfd : c.fd? = some fd) (o : Os κ (Mark ν)) :
    Arrives sender c fd c.input o.journal (c.receive o).1.2.input (c.receive o).2.journal := by
  have hfill := fillFrom_arrives sender c fd c.input 0 o
  have hr := c.receive_receives o
  generalize c.receive o = out at hr ⊢
  cases hr with
  | unconnected hc => cases hfd.symm.trans hc
  | full => exact ⟨[], rfl, fun flying ↦ .refl⟩
  | ended hc _ h | blocked hc _ h | failed hc _ h =>
    cases hfd.symm.trans hc
    rw [h] at hfill
    exact hfill
  | moved hc _ h =>
    cases hfd.symm.trans hc
    rw [h] at hfill
    exact hfill.trans (.still rfl)

theorem receive_moves (sender c : Conn) (hfd : c.fd? = some fd) (o : Os κ (Mark ν)) :
    ∃ new, (c.receive o).2.journal = new ++ o.journal ∧ ∀ flying,
      ReflTransGen Moves ⟨sender, story (Entry.received fd) new ++ flying, c⟩
        ⟨sender, flying, (c.receive o).1.2⟩ := by
  obtain ⟨new, hj, hmoves⟩ := receive_arrives sender c hfd o
  exact ⟨new, hj, fun flying ↦ (hmoves flying).tail (.other rfl rfl)⟩

end Transfers

end Relay

end PollReactor
