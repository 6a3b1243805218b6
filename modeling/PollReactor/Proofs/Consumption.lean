import PollReactor.Proofs.Announce
import PollReactor.Proofs.Ring.Queue

namespace PollReactor

namespace Channel

variable (ch : Channel)

theorem read_takes (n : Nat) (fully : Bool) :
    (ch.read n fully).1 ++ (ch.read n fully).2.input.toList = ch.input.toList := by
  unfold read
  split_ifs
  · rfl
  · show ch.input.peek n ++ (ch.input.read n).2.toList = _
    rw [Ring.peek_eq_take, Ring.toList_read, List.take_append_drop]

theorem length_read_fully (n : Nat) :
    (ch.read n true).1.length = n ∨ (ch.read n true).1 = [] := by
  unfold read
  split_ifs with h
  · exact .inr rfl
  · refine .inl ?_
    simp only [Bool.true_and, decide_eq_true_eq, Nat.not_lt] at h
    show (ch.input.peek n).length = n
    rw [Ring.length_peek, Nat.min_eq_left h]

theorem cut_at_feed {l : Bytes} {most i : Nat}
    (h : (l.take most).findIdx? (· == lineFeed) = some i) :
    i < most ∧ lineFeed ∉ l.take i ∧ (l.take i ++ [lineFeed]) ++ l.drop (i + 1) = l := by
  obtain ⟨hi, hat, hbefore⟩ := List.findIdx?_eq_some_iff_getElem.1 h
  simp only [List.getElem_take, beq_iff_eq] at hat hbefore
  rw [List.length_take] at hi
  refine ⟨by omega, ?_, ?_⟩
  · rw [List.mem_iff_getElem]
    rintro ⟨k, hk, hfeed⟩
    rw [List.length_take] at hk
    rw [List.getElem_take] at hfeed
    exact hbefore k (by omega) hfeed
  · rw [← hat, List.append_assoc, List.singleton_append, List.getElem_cons_drop,
      List.take_append_drop]

/-- What comes of taking a line. A line that a line feed ends is shorter than `most` and takes it
along; any other is `most` bytes long. -/
inductive Lined (most : Nat) : Option Bytes × Channel → Prop where
  | ended {line : Bytes} {input : Ring} (hlen : line.length < most) (hline : lineFeed ∉ line)
      (h : (line ++ [lineFeed]) ++ input.toList = ch.input.toList) :
      Lined most (some line, { ch with input })
  | long {line : Bytes} {input : Ring} (hlen : line.length = most) (hline : lineFeed ∉ line)
      (h : line ++ input.toList = ch.input.toList) : Lined most (some line, { ch with input })
  | missing : Lined most (none, ch)

theorem takeLine_lined (most : Nat) : ch.Lined most (ch.takeLine most) := by
  have hpeek : ch.input.peekUntil lineFeed most =
      (ch.input.toList.take most).findIdx? (· == lineFeed) := by
    rw [Ring.peekUntil, Ring.peek_eq_take]
  unfold takeLine
  by_cases h0 : most = 0
  · rw [if_pos h0]
    exact .missing
  · rw [if_neg h0]
    cases hi : ch.input.peekUntil lineFeed most with
    | some i =>
      obtain ⟨hlt, hline, h⟩ := cut_at_feed (hpeek.symm.trans hi)
      refine .ended ?_ ?_ ?_
      · show (ch.input.peek i).length < most
        rw [Ring.length_peek]
        omega
      · show lineFeed ∉ ch.input.peek i
        rw [Ring.peek_eq_take]
        exact hline
      · show (ch.input.peek i ++ [lineFeed]) ++ ((ch.input.read i).2.consume 1).toList = _
        rw [Ring.toList_consume, Ring.toList_read, Ring.peek_eq_take, List.drop_drop]
        exact h
    | none =>
      rw [hpeek, List.findIdx?_eq_none_iff] at hi
      by_cases hlen : most ≤ ch.input.len
      · dsimp only
        rw [if_pos hlen]
        refine .long ?_ ?_ ?_
        · show (ch.input.peek most).length = most
          rw [Ring.length_peek, Nat.min_eq_left hlen]
        · show lineFeed ∉ ch.input.peek most
          rw [Ring.peek_eq_take]
          intro hfeed
          cases hi lineFeed hfeed
        · show ch.input.peek most ++ (ch.input.read most).2.toList = _
          rw [Ring.toList_read, Ring.peek_eq_take, List.take_append_drop]
      · dsimp only
        rw [if_neg hlen]
        exact .missing

def takenLine (most : Nat) : Bytes :=
  match (ch.takeLine most).1 with
  | some line => if line.length < most then line ++ [lineFeed] else line
  | none => []

theorem takeLine_takes (most : Nat) :
    ch.takenLine most ++ (ch.takeLine most).2.input.toList = ch.input.toList := by
  have h := ch.takeLine_lined most
  unfold takenLine
  generalize ch.takeLine most = out at h ⊢
  cases h with
  | ended hlen _ h =>
    dsimp only
    rw [if_pos hlen]
    exact h
  | long hlen _ h =>
    dsimp only
    rw [if_neg (by omega)]
    exact h
  | missing => rfl

end Channel

/-- The bytes that a call takes from the input of a connection. -/
def ConnOp.consumed (c : Conn) : ConnOp → Bytes
  | read n fully => (c.toChannel.read n fully).1
  | readLine most => c.toChannel.takenLine most
  | readUInt w => (c.toChannel.read w.bytes true).1
  | _ => []

/-- The answer `a` of a call is read off from the bytes `bs`. A call that finds too little, and one
that does not consume, is read off from none. -/
def ConnOp.ReadsOff : (op : ConnOp) → (a : op.Answer) → (bs : Bytes) → Prop
  | read .., a, bs => a = bs
  | readLine _, none, bs => bs = []
  | readLine most, some s, bs => ∃ line, s = Text.Utf8.decode (Channel.dropCarriageReturn line) ∧
      Channel.lineFeed ∉ line ∧
        (line.length < most ∧ bs = line ++ [Channel.lineFeed] ∨ line.length = most ∧ bs = line)
  | readUInt _, none, bs => bs = []
  | readUInt w, some n, bs => bs.length = w.bytes ∧ n = Bytes.ofBigEndian bs
  | _, _, bs => bs = []

namespace Conn

variable (c : Conn)

theorem perform_readsOff (op : ConnOp) : op.ReadsOff (c.perform op).1 (op.consumed c) := by
  cases op with
  | readLine most =>
    have h := c.toChannel.takeLine_lined most
    simp only [perform, Channel.readLine, ConnOp.consumed, Channel.takenLine]
    generalize c.toChannel.takeLine most = out at h ⊢
    cases h with
    | ended hlen hline _ =>
      exact ⟨_, rfl, hline, .inl ⟨hlen, if_pos hlen⟩⟩
    | long hlen hline _ =>
      exact ⟨_, rfl, hline, .inr ⟨hlen, if_neg (by omega)⟩⟩
    | missing => exact rfl
  | readUInt w =>
    have hw : w.bytes ≠ 0 := by cases w <;> decide
    simp only [perform, Channel.readUInt, ConnOp.consumed]
    rcases c.toChannel.length_read_fully w.bytes with h | h
    · rw [if_pos h]
      exact ⟨h, rfl⟩
    · rw [if_neg (by rw [h]; exact hw.symm)]
      exact h
  | _ => exact rfl

theorem append_keeps_input (parts : List Bytes) :
    (c.toChannel.append parts).2.input = c.input := by
  obtain ⟨output, outputHigh, h⟩ := append_input c.toChannel parts
  rw [h]

theorem close_input (immediate : Bool) : (c.close immediate).1.input = c.input := by
  cases immediate
  · rfl
  · exact congrArg Channel.input c.shutdown_channel

theorem batchOps_input (c : Conn) (ops : List BatchOp) : (c.batchOps ops).2.1.input = c.input := by
  induction ops generalizing c with
  | nil => rfl
  | cons op ops ih =>
    refine (ih (c.batchOp op).2.1).trans ?_
    cases op with
    | write bs => exact c.append_keeps_input [bs]
    | writeLine s => exact c.append_keeps_input [Text.Utf8.encode s, Channel.lineEnd]
    | close immediate => exact c.close_input immediate
    | _ => rfl

theorem perform_takes (op : ConnOp) :
    op.consumed c ++ (c.perform op).2.1.input.toList = c.input.toList := by
  have happend (parts : List Bytes) :
      [] ++ (c.toChannel.append parts).2.input.toList = c.input.toList :=
    congrArg Ring.toList (c.append_keeps_input parts)
  cases op with
  | read n fully => exact c.toChannel.read_takes n fully
  | readLine most => exact c.toChannel.takeLine_takes most
  | readUInt w => exact c.toChannel.read_takes w.bytes true
  | write bs => exact happend [bs]
  | writeLine s => exact happend [Text.Utf8.encode s, Channel.lineEnd]
  | writeUInt w n => exact happend [Bytes.bigEndian w.bytes n]
  | batch ops release => exact congrArg Ring.toList (batchOps_input c ops)
  | close immediate => exact congrArg Ring.toList (c.close_input immediate)
  | peek n => rfl
  | readUrgent => rfl
  | status => rfl

def Differs (c' : Conn) : Prop :=
  ∃ input output outputHigh closePending socket,
    c' = { c with input, output, outputHigh, closePending, socket }

theorem Differs.refl : c.Differs c := ⟨_, _, _, _, _, rfl⟩

theorem Differs.trans {c c' c'' : Conn} (h : c.Differs c') (h' : c'.Differs c'') :
    c.Differs c'' := by
  obtain ⟨_, _, _, _, _, rfl⟩ := h
  obtain ⟨_, _, _, _, _, rfl⟩ := h'
  exact ⟨_, _, _, _, _, rfl⟩

theorem differs_append (parts : List Bytes) :
    c.Differs (c.withChannel (c.toChannel.append parts).2) := by
  obtain ⟨output, outputHigh, h⟩ := append_input c.toChannel parts
  rw [h]
  exact ⟨_, _, _, _, _, rfl⟩

theorem differs_input {ch : Channel} (h : ∃ input, ch = { c.toChannel with input }) :
    c.Differs (c.withChannel ch) := by
  obtain ⟨input, rfl⟩ := h
  exact ⟨_, _, _, _, _, rfl⟩

theorem differs_close (immediate : Bool) : c.Differs (c.close immediate).1 := by
  cases immediate with
  | false => exact ⟨_, _, _, _, _, rfl⟩
  | true =>
    show c.Differs c.shutdown.1
    unfold shutdown
    split
    · exact .refl c
    · split
      · exact .refl c
      · split
        · exact .refl c
        · exact ⟨_, _, _, _, _, rfl⟩

theorem differs_batchOps (c : Conn) (ops : List BatchOp) : c.Differs (c.batchOps ops).2.1 := by
  induction ops generalizing c with
  | nil => exact .refl c
  | cons op ops ih =>
    refine Differs.trans ?_ (ih (c.batchOp op).2.1)
    cases op with
    | write bs => exact c.differs_append [bs]
    | writeLine s => exact c.differs_append [Text.Utf8.encode s, Channel.lineEnd]
    | close immediate => exact c.differs_close immediate
    | _ => exact .refl c

theorem differs_perform {op : ConnOp} (h : op ≠ .readUrgent) : c.Differs (c.perform op).2.1 := by
  cases op with
  | readUrgent => exact absurd rfl h
  | read n fully => exact c.differs_input (read_input _ n fully)
  | readLine most => exact c.differs_input (takeLine_input _ most)
  | readUInt w => exact c.differs_input (read_input _ w.bytes true)
  | write bs => exact c.differs_append [bs]
  | writeLine s => exact c.differs_append [Text.Utf8.encode s, Channel.lineEnd]
  | writeUInt w n => exact c.differs_append [Bytes.bigEndian w.bytes n]
  | batch ops release => exact differs_batchOps c ops
  | close immediate => exact c.differs_close immediate
  | peek | status => exact .refl c

end Conn

theorem Channel.Drafted.input {ch : Channel} (h : Drafted ch) : ch.input.toList = [] := by
  induction h with
  | @made config now ch h =>
    unfold make at h
    split at h
    · cases h
    · rename_i hc
      cases h
      exact Ring.toList_ofCapacity _ (ConnConfig.capacity_pos_of_check hc)
  | @called ch op _ ih =>
    have h := (Conn.detached ch).perform_takes op
    exact (List.append_eq_nil_iff.1 (h.trans ih)).2

end PollReactor
