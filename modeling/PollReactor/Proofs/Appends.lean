import Mathlib.Tactic.SplitIfs
import PollReactor.Connection.Draft
import PollReactor.Proofs.Ring

namespace PollReactor

namespace Ring

theorem toList_writes (parts : List Bytes) (r : Ring) (h : parts.flatten.length ≤ r.free) :
    (parts.foldl (fun r bs ↦ (r.write bs).2) r).toList = r.toList ++ parts.flatten := by
  induction parts generalizing r with
  | nil => simp
  | cons bs parts ih =>
    simp only [List.flatten_cons, List.length_append] at h
    have hn : (r.write bs).1 = bs.length := by
      rw [write_fst]
      omega
    have hf : parts.flatten.length ≤ (r.write bs).2.free := by
      rw [free_write, hn]
      omega
    rw [List.foldl_cons, ih _ hf, toList_write, hn, List.take_length, List.flatten_cons,
      List.append_assoc]

end Ring

def BatchOp.appended : BatchOp → BatchAnswer → Bytes
  | write bs, .flag true => bs
  | writeLine s, .flag true => Text.Utf8.encode s ++ Channel.lineEnd
  | _, _ => []

/-- The bytes that a call queued, as its answer tells. -/
def ConnOp.appended : (op : ConnOp) → op.Answer → Bytes
  | write bs, true => bs
  | writeLine s, true => Text.Utf8.encode s ++ Channel.lineEnd
  | writeUInt w n, true => Bytes.bigEndian w.bytes n
  | batch ops _, answers => (List.zipWith BatchOp.appended ops answers).flatten
  | _, _ => []

namespace Channel

variable (ch : Channel)

theorem append_output (parts : List Bytes) : (ch.append parts).2.output.toList =
    ch.output.toList ++ if (ch.append parts).1 then parts.flatten else [] := by
  unfold append
  by_cases h : ch.output.free < parts.flatten.length
  · rw [if_pos h]
    exact (List.append_nil _).symm
  · rw [if_neg h]
    exact ch.output.toList_writes parts (Nat.not_lt.1 h)

theorem write_output (bs : Bytes) : (ch.write bs).2.output.toList =
    ch.output.toList ++ if (ch.write bs).1 then bs else [] := by
  refine (ch.append_output [bs]).trans ?_
  rw [List.flatten_singleton]
  rfl

theorem writeLine_output (s : String) : (ch.writeLine s).2.output.toList =
    ch.output.toList ++
      if (ch.writeLine s).1 then Text.Utf8.encode s ++ lineEnd else [] := by
  refine (ch.append_output [Text.Utf8.encode s, lineEnd]).trans ?_
  rw [List.flatten_cons, List.flatten_singleton]
  rfl

theorem read_output (n : Nat) (fully : Bool) : (ch.read n fully).2.output = ch.output := by
  unfold read
  split_ifs <;> rfl

theorem takeLine_output (most : Nat) : (ch.takeLine most).2.output = ch.output := by
  unfold takeLine
  split_ifs
  · rfl
  · split
    · rfl
    · rfl
  · split <;> rfl

end Channel

namespace Conn

variable (c : Conn)

theorem shutdown_output : c.shutdown.1.output = c.output := by
  unfold shutdown
  split
  · rfl
  · split
    · rfl
    · split <;> rfl

theorem close_output (immediate : Bool) : (c.close immediate).1.output = c.output := by
  cases immediate
  · rfl
  · exact c.shutdown_output

theorem batchOp_output (op : BatchOp) : (c.batchOp op).2.1.output.toList =
    c.output.toList ++ op.appended (c.batchOp op).1 := by
  have hsame {l : Bytes} : l = l ++ [] := (List.append_nil l).symm
  cases op with
  | write bs =>
    refine (c.toChannel.write_output bs).trans ?_
    simp only [batchOp]
    cases (c.toChannel.write bs).1 <;> rfl
  | writeLine s =>
    refine (c.toChannel.writeLine_output s).trans ?_
    simp only [batchOp]
    cases (c.toChannel.writeLine s).1 <;> rfl
  | close immediate =>
    show (c.close immediate).1.output.toList = _
    rw [c.close_output]
    exact hsame
  | free => exact hsame
  | len => exact hsame
  | isEmpty => exact hsame
  | isConnected => exact hsame

theorem batchOps_output (c : Conn) (ops : List BatchOp) : (c.batchOps ops).2.1.output.toList =
    c.output.toList ++ (List.zipWith BatchOp.appended ops (c.batchOps ops).1).flatten := by
  induction ops generalizing c with
  | nil => exact (List.append_nil _).symm
  | cons op ops ih =>
    refine (ih (c.batchOp op).2.1).trans ?_
    rw [batchOp_output, List.append_assoc]
    rfl

theorem perform_output (op : ConnOp) : (c.perform op).2.1.output.toList =
    c.output.toList ++ op.appended (c.perform op).1 := by
  have hsame {l : Bytes} : l = l ++ [] := (List.append_nil l).symm
  cases op with
  | read n fully =>
    show (c.toChannel.read n fully).2.output.toList = _
    rw [Channel.read_output]
    exact hsame
  | readLine most =>
    show (c.toChannel.takeLine most).2.output.toList = _
    rw [Channel.takeLine_output]
    exact hsame
  | readUInt w =>
    show (c.toChannel.read w.bytes true).2.output.toList = _
    rw [Channel.read_output]
    exact hsame
  | write bs =>
    refine (c.toChannel.write_output bs).trans ?_
    simp only [perform]
    cases (c.toChannel.write bs).1 <;> rfl
  | writeLine s =>
    refine (c.toChannel.writeLine_output s).trans ?_
    simp only [perform]
    cases (c.toChannel.writeLine s).1 <;> rfl
  | writeUInt w n =>
    refine (c.toChannel.write_output (Bytes.bigEndian w.bytes n)).trans ?_
    simp only [perform, Channel.writeUInt]
    cases (c.toChannel.write (Bytes.bigEndian w.bytes n)).1 <;> rfl
  | batch ops release => exact batchOps_output c ops
  | close immediate =>
    show (c.close immediate).1.output.toList = _
    rw [c.close_output]
    exact hsame
  | peek n => exact hsame
  | readUrgent => exact hsame
  | status => exact hsame

end Conn

namespace Channel

def afterCalls (ch : Channel) : List ConnOp → Channel
  | [] => ch
  | op :: ops => afterCalls ((Conn.detached ch).perform op).2.1.toChannel ops

def appends (ch : Channel) : List ConnOp → Bytes
  | [] => []
  | op :: ops => op.appended ((Conn.detached ch).perform op).1 ++
      appends ((Conn.detached ch).perform op).2.1.toChannel ops

theorem afterCalls_concat (ch : Channel) (ops : List ConnOp) (op : ConnOp) :
    ch.afterCalls (ops ++ [op]) =
      ((Conn.detached (ch.afterCalls ops)).perform op).2.1.toChannel := by
  induction ops generalizing ch with
  | nil => rfl
  | cons op' ops ih => exact ih _

theorem afterCalls_output (ch : Channel) (ops : List ConnOp) :
    (ch.afterCalls ops).output.toList = ch.output.toList ++ ch.appends ops := by
  induction ops generalizing ch with
  | nil => exact (List.append_nil _).symm
  | cons op ops ih =>
    refine (ih _).trans ?_
    rw [appends, ← List.append_assoc]
    exact congrArg (· ++ _) ((Conn.detached ch).perform_output op)

theorem make_output {config : ConnConfig} {now : Nat} {ch : Channel}
    (h : make config now = .ok ch) : ch.output.toList = [] := by
  unfold make at h
  split at h
  · cases h
  · rename_i hc
    cases h
    exact Ring.toList_ofCapacity _ (ConnConfig.capacity_pos_of_check hc)

theorem Drafted.calls {ch : Channel} (h : Drafted ch) : ∃ config now new ops,
    make config now = .ok new ∧ ch = new.afterCalls ops := by
  induction h with
  | @made config now ch hm => exact ⟨config, now, ch, [], hm, rfl⟩
  | called op _ ih =>
    obtain ⟨config, now, new, ops, hm, rfl⟩ := ih
    exact ⟨config, now, new, ops ++ [op], hm, (new.afterCalls_concat ops op).symm⟩

theorem Drafted.output {ch : Channel} (h : Drafted ch) : ∃ config now new ops,
    make config now = .ok new ∧ ch = new.afterCalls ops ∧ ch.output.toList = new.appends ops := by
  obtain ⟨config, now, new, ops, hm, rfl⟩ := h.calls
  refine ⟨config, now, new, ops, hm, rfl, ?_⟩
  rw [afterCalls_output, make_output hm, List.nil_append]

end Channel

end PollReactor
