import PollReactor.Proofs.Marks
import PollReactor.Proofs.Routing

namespace PollReactor

open Journal (Adds Fresh fdOf)

variable {κ π ν : Type}

inductive FlushEnd where
  /-- All was sent, or the system takes no more for now. -/
  | paused
  | failed
  deriving DecidableEq

/-- How a flush ends with a send behind which so many bytes are left. It goes on if some are left,
and a send that was interrupted is made again. -/
def FlushEnd.of? (left : Nat) : Except ErrorKind Nat → Option FlushEnd
  | .ok n => if n = 0 then some failed else if left = 0 then some paused else none
  | .error .interrupted => none
  | .error .wouldBlock => some paused
  | .error _ => some failed

theorem FlushEnd.of?_error {kind : ErrorKind} (h : kind ≠ .interrupted) (left : Nat) :
    of? left (.error kind) = some (if kind = .wouldBlock then paused else failed) := by
  cases kind <;> first | rfl | exact absurd rfl h

namespace Entry

def flushEnd? (fd : Fd) (left : Nat) : Entry (Mark ν) → Option FlushEnd
  | .sys (.send fd' _) (.ok n) => if fd' = fd then FlushEnd.of? left (.ok n.1) else none
  | .sys (.send fd' _) (.error e) => if fd' = fd then FlushEnd.of? left (.error e.kind) else none
  | _ => none

/-- Nothing is appended to the output of the connection, and nothing sent on the descriptor. -/
structure Skips (id : Nat) (fd? : Option Fd) (e : Entry (Mark ν)) : Prop where
  appended : e.appended id = []
  moves : ∀ fd, fd? = some fd → e.moves? ≠ some (.output, fd)

variable {e : Entry (Mark ν)} {id : Nat} {fd? : Option Fd} {fd : Fd}

theorem sent_of_moves (h : e.moves? ≠ some (.output, fd)) : e.sent fd = [] := by
  cases e with
  | remark => rfl
  | sys c a =>
    cases c with
    | send fd' bs =>
      have hne : fd' ≠ fd := fun he ↦ h (by rw [he]; rfl)
      cases a <;> simp [sent, hne]
    | _ => rfl

theorem flushEnd?_of_moves (h : e.moves? ≠ some (.output, fd)) (left : Nat) :
    e.flushEnd? fd left = none := by
  cases e with
  | remark => rfl
  | sys c a =>
    cases c with
    | send fd' bs =>
      have hne : fd' ≠ fd := fun he ↦ h (by rw [he]; rfl)
      cases a <;> exact if_neg hne
    | _ => rfl

theorem skips_of_isMute (h : e.isMute) (id : Nat) (fd? : Option Fd) : e.Skips id fd? := by
  refine ⟨appended_of_isMute h id, fun fd _ ↦ ?_⟩
  cases e with
  | sys c a => cases c <;> first | (cases h; done) | (intro he; cases he)
  | remark => nofun

theorem skips_of_isImpersonal (h : e.isImpersonal) (id : Nat) (fd? : Option Fd) :
    e.isQuiet ∧ e.Skips id fd? := by
  cases e with
  | sys c a => cases c <;> first | exact ⟨rfl, skips_of_isMute rfl id fd?⟩ | cases h
  | remark m => cases m <;> first | exact ⟨rfl, skips_of_isMute rfl id fd?⟩ | cases h

end Entry

namespace Journal

/-- How many bytes of output the connection has queued, as the entries tell. -/
def backlog (id : Nat) : Journal ν → Nat
  | [] => 0
  | e :: j => backlog id j + (e.appended id).length - ((fdOf id j).elim [] (e.sent ·)).length

def flushEnd? (id : Nat) : Journal ν → Option FlushEnd
  | [] => none
  | e :: j => (fdOf id j).bind (e.flushEnd? · (backlog id (e :: j)))

/-- The backlog once reached the high mark, and was not below the low mark whenever a flush that
counts ended since. -/
def Latched (counts : FlushEnd → Prop) (marks : Watermarks) (id : Nat) (j : Journal ν) : Prop :=
  ∃ past, past <:+ j ∧ marks.high ≤ backlog id past ∧ ∀ later, past <:+ later → later <:+ j →
    ∀ k ∈ flushEnd? id later, counts k → marks.low ≤ backlog id later

/-- A flush of the connection failed. -/
def FlushFailed (id : Nat) (j : Journal ν) : Prop :=
  ∃ past, past <:+ j ∧ flushEnd? id past = some .failed

variable {counts : FlushEnd → Prop} {marks : Watermarks} {id : Nat} {e : Entry (Mark ν)}
  {j j' : Journal ν}

theorem latched_cons : Latched counts marks id (e :: j) ↔
    (marks.high ≤ backlog id (e :: j) ∨ Latched counts marks id j) ∧
      ∀ k ∈ flushEnd? id (e :: j), counts k → marks.low ≤ backlog id (e :: j) := by
  constructor
  · rintro ⟨past, hpast, hhigh, hlater⟩
    refine ⟨?_, hlater _ hpast (List.suffix_refl _)⟩
    rcases List.suffix_cons_iff.1 hpast with rfl | hsuffix
    · exact .inl hhigh
    · exact .inr ⟨past, hsuffix, hhigh,
        fun later h h' ↦ hlater later h (h'.trans (List.suffix_cons e j))⟩
  · rintro ⟨hhigh | ⟨past, hpast, hhigh, hlater⟩, hlast⟩
    · refine ⟨e :: j, List.suffix_refl _, hhigh, fun later h h' ↦ ?_⟩
      obtain rfl := h'.eq_of_length (Nat.le_antisymm h'.length_le h.length_le)
      exact hlast
    · refine ⟨past, hpast.trans (List.suffix_cons e j), hhigh, fun later h h' ↦ ?_⟩
      rcases List.suffix_cons_iff.1 h' with rfl | hsuffix
      · exact hlast
      · exact hlater later h hsuffix

instance decidableLatched [DecidablePred counts] (marks : Watermarks) (id : Nat) :
    (j : Journal ν) → Decidable (Latched counts marks id j)
  | [] => decidable_of_iff (marks.high ≤ 0) (by simp [Latched, backlog, flushEnd?])
  | _ :: j =>
    have := decidableLatched marks id j
    decidable_of_iff' _ latched_cons

theorem FlushFailed.append (h : FlushFailed id j) (new : Journal ν) :
    FlushFailed id (new ++ j) := by
  obtain ⟨past, hpast, hend⟩ := h
  exact ⟨past, hpast.trans (List.suffix_append new j), hend⟩

theorem backlog_skips (h : e.Skips id (fdOf id j)) : backlog id (e :: j) = backlog id j := by
  rw [backlog, h.appended]
  cases hfd : fdOf id j with
  | none => simp
  | some fd => simp [Entry.sent_of_moves (h.moves fd hfd)]

theorem flushEnd?_skips (h : e.Skips id (fdOf id j)) : flushEnd? id (e :: j) = none := by
  rw [flushEnd?]
  cases hfd : fdOf id j with
  | none => rfl
  | some fd => exact Entry.flushEnd?_of_moves (h.moves fd hfd) _

end Journal

open Journal (backlog Latched FlushFailed)

/-- Output was at most appended. The high mark is set if it was before, or is reached. -/
structure Channel.Swells (ch ch' : Channel) : Prop where
  marks : ch'.writeMarks = ch.writeMarks
  len : ch.output.len ≤ ch'.output.len
  high : ch'.outputHigh = (ch.outputHigh || decide (ch.writeMarks.high ≤ ch'.output.len))

namespace Channel

variable {ch ch' ch'' : Channel}

/-- The high mark is set when it is reached. -/
def Tops (ch : Channel) : Prop := ch.writeMarks.high ≤ ch.output.len → ch.outputHigh

theorem Swells.tops (h : ch.Swells ch') : ch'.Tops := by
  intro hlen
  rw [h.marks] at hlen
  rw [h.high, Bool.or_eq_true, decide_eq_true_eq]
  exact .inr hlen

theorem Swells.trans (h : ch.Swells ch') (h' : ch'.Swells ch'') : ch.Swells ch'' := by
  refine ⟨h'.marks.trans h.marks, Nat.le_trans h.len h'.len, ?_⟩
  have hle := h'.len
  rw [h'.high, h.high, h.marks, Bool.or_assoc]
  congr 1
  simp only [← Bool.decide_or, decide_eq_decide]
  omega

theorem Tops.swells (h : ch.Tops) (hm : ch'.writeMarks = ch.writeMarks)
    (ho : ch'.output = ch.output) (hh : ch'.outputHigh = ch.outputHigh) : ch.Swells ch' := by
  refine ⟨hm, Nat.le_of_eq (by rw [ho]), ?_⟩
  rw [ho, hh, Bool.eq_iff_iff, Bool.or_eq_true, decide_eq_true_eq]
  exact ⟨.inl, fun h' ↦ h'.elim id h⟩

theorem Tops.input (h : ch.Tops) (hc : ∃ input, ch' = { ch with input }) : ch.Swells ch' := by
  obtain ⟨input, rfl⟩ := hc
  exact h.swells rfl rfl rfl

theorem Tops.append (h : ch.Tops) (parts : List Bytes) : ch.Swells (ch.append parts).2 := by
  have hout := ch.append_output parts
  have hlen := congrArg List.length hout
  simp only [List.length_append, Ring.length_toList] at hlen
  refine ⟨congrArg Sizes.write (ch.sizes_append parts), by omega, ?_⟩
  unfold Channel.append
  split_ifs
  · exact (h.swells rfl rfl rfl).high
  · rfl

end Channel

namespace Conn

variable {c : Conn}

theorem close_swells (h : c.Tops) (immediate : Bool) :
    c.Swells (c.close immediate).1.toChannel := by
  cases immediate with
  | false => exact h.swells rfl rfl rfl
  | true =>
    have hch : (c.close true).1.toChannel = c.toChannel := c.shutdown_channel
    rw [hch]
    exact h.swells rfl rfl rfl

theorem batchOps_swells (h : c.Tops) (ops : List BatchOp) :
    c.Swells (c.batchOps ops).2.1.toChannel := by
  induction ops generalizing c with
  | nil => exact h.swells rfl rfl rfl
  | cons op ops ih =>
    have hop : c.Swells (c.batchOp op).2.1.toChannel := by
      cases op with
      | write bs => exact h.append [bs]
      | writeLine s => exact h.append [Text.Utf8.encode s, Channel.lineEnd]
      | close immediate => exact close_swells h immediate
      | _ => exact h.swells rfl rfl rfl
    exact hop.trans (ih hop.tops)

theorem perform_swells (h : c.Tops) (op : ConnOp) : c.Swells (c.perform op).2.1.toChannel := by
  cases op with
  | read n fully => exact h.input (read_input _ n fully)
  | readLine most => exact h.input (takeLine_input _ most)
  | readUInt w => exact h.input (read_input _ w.bytes true)
  | write bs => exact h.append [bs]
  | writeLine s => exact h.append [Text.Utf8.encode s, Channel.lineEnd]
  | writeUInt w n => exact h.append [Bytes.bigEndian w.bytes n]
  | batch ops release => exact batchOps_swells h ops
  | close immediate => exact close_swells h immediate
  | _ => exact h.swells rfl rfl rfl

end Conn

theorem Channel.Drafted.high {ch : Channel} (h : Drafted ch) :
    ch.outputHigh = decide (ch.writeMarks.high ≤ ch.output.len) := by
  induction h with
  | @made config now ch h =>
    have hfit := (Drafted.made h).fit.write
    have hlen := congrArg List.length (make_output h)
    rw [Ring.length_toList] at hlen
    have hhigh : ch.outputHigh = false := by
      unfold make at h
      split at h <;> cases h
      rfl
    rw [hhigh, hlen]
    have hpos : ch.writeMarks.high ≠ 0 := Nat.ne_zero_of_lt hfit.2.1
    simpa using hpos
  | @called ch op hd ih =>
    have htops : ch.Tops := fun hlen ↦ by rw [ih]; exact decide_eq_true hlen
    have hs := Conn.perform_swells (c := Conn.detached ch) htops op
    rw [hs.high, hs.marks]
    show (ch.outputHigh || _) = _
    have hle := hs.len
    rw [ih, ← Bool.decide_or, decide_eq_decide]
    exact ⟨fun h ↦ h.elim (Nat.le_trans · hle) id, .inr⟩

/-- The high mark of the connection is as the journal tells. -/
structure Conn.Latches (c : Conn) (id : Nat) (j : Journal ν) : Prop where
  level : backlog id j = c.output.len
  latch : c.outputHigh ↔ Latched (· = .paused) c.writeMarks id j
  tops : c.Tops

structure Conn.Settles (c : Conn) (id : Nat) (j : Journal ν) : Prop extends Latches c id j where
  low : c.outputHigh → c.output.len < c.writeMarks.low → FlushFailed id j

namespace Conn

variable {c c' : Conn} {id : Nat} {e : Entry (Mark ν)} {j j' new : Journal ν}

theorem Latches.skips (h : c.Latches id j) (he : e.Skips id (fdOf id j)) :
    c.Latches id (e :: j) := by
  have hlevel := (Journal.backlog_skips he).trans h.level
  refine ⟨hlevel, h.latch.trans ?_, h.tops⟩
  rw [Journal.latched_cons, Journal.flushEnd?_skips he, hlevel]
  constructor
  · exact fun hl ↦ ⟨.inr hl, nofun⟩
  · rintro ⟨hlen | hl, -⟩
    · exact h.latch.1 (h.tops hlen)
    · exact hl

theorem Settles.skips (h : c.Settles id j) (he : e.Skips id (fdOf id j)) : c.Settles id (e :: j) :=
  ⟨h.toLatches.skips he, fun hh hlen ↦ (h.low hh hlen).append [e]⟩

theorem Settles.adds (h : c.Settles id j)
    (hj : Adds (fun e ↦ e.isQuiet ∧ e.Skips id (fdOf id j)) j j') : c.Settles id j' := by
  obtain ⟨new, rfl, hn⟩ := hj
  induction new with
  | nil => exact h
  | cons e new ih =>
    have hnew := fun e he ↦ hn e (List.mem_cons_of_mem _ he)
    have hfd : fdOf id (new ++ j) = fdOf id j :=
      Journal.fdOf_quiet ⟨new, rfl, fun e he ↦ (hnew e he).1⟩ id
    have he := (hn e List.mem_cons_self).2
    rw [← hfd] at he
    exact (ih hnew).skips he

theorem Settles.congr (h : c.Settles id j) (ho : c'.output.len = c.output.len)
    (hh : c'.outputHigh = c.outputHigh) (hm : c'.writeMarks = c.writeMarks) : c'.Settles id j := by
  obtain ⟨⟨hlevel, hlatch, htops⟩, hlow⟩ := h
  unfold Channel.Tops at htops
  rw [← ho] at hlevel htops hlow
  rw [← hh] at hlatch htops hlow
  rw [← hm] at hlatch htops hlow
  exact ⟨⟨hlevel, hlatch, htops⟩, hlow⟩

theorem Settles.called (h : c.Settles id j) (hfit : c.sizes.Fit) (op : ConnOp) :
    (c.perform op).2.1.Settles id (.remark (.called id c op) :: j) := by
  have hs := perform_swells h.tops op
  have hlen := congrArg List.length (c.perform_output op)
  rw [List.length_append, Ring.length_toList, Ring.length_toList] at hlen
  have hlevel : backlog id (.remark (.called id c op) :: j) = (c.perform op).2.1.output.len := by
    rw [backlog, h.level, hlen]
    cases fdOf id j <;> simp [Entry.appended, Entry.sent]
  have hend : Journal.flushEnd? id (.remark (.called id c op) :: j) = none := by
    rw [Journal.flushEnd?]
    cases fdOf id j <;> rfl
  refine ⟨⟨hlevel, ?_, hs.tops⟩, fun hh hlow ↦ ?_⟩
  · rw [hs.high, hs.marks, Journal.latched_cons, hend, hlevel, Bool.or_eq_true, decide_eq_true_eq,
      h.latch]
    simp [or_comm]
  · rw [hs.high, Bool.or_eq_true, decide_eq_true_eq] at hh
    rw [hs.marks] at hlow
    have hle := hs.len
    have hmarks : c.writeMarks.low < c.writeMarks.high := hfit.write.2.1
    rcases hh with hh | hh
    · exact (h.low hh (by omega)).append [_]
    · omega

def flushed (c : Conn) (output : Ring) : Except IoError Nat → Conn
  | .ok _ => c.eased output
  | .error e => if e.kind = .wouldBlock then c.eased output else { c with output }

structure Sends (c : Conn) (id : Nat) (j : Journal ν) (e : Entry (Mark ν)) (output : Ring) :
    Prop where
  appended : e.appended id = []
  sent : ((fdOf id j).elim [] (e.sent ·)).length + output.len = c.output.len

variable {output : Ring}

theorem Sends.level (hs : c.Sends id j e output) (h : c.Latches id j) :
    backlog id (e :: j) = output.len := by
  have hsent := hs.sent
  rw [backlog, h.level, hs.appended, List.length_nil]
  omega

theorem Sends.latched (hs : c.Sends id j e output) (h : c.Latches id j) :
    Latched (· = .paused) c.writeMarks id (e :: j) ↔ c.outputHigh ∧
      (Journal.flushEnd? id (e :: j) = some .paused → c.writeMarks.low ≤ output.len) := by
  have hsent := hs.sent
  rw [Journal.latched_cons, hs.level h, ← h.latch]
  have hhigh : c.writeMarks.high ≤ output.len → c.outputHigh := fun hlen ↦ h.tops (by omega)
  constructor
  · rintro ⟨hh, hend⟩
    exact ⟨hh.elim hhigh fun hh ↦ hh, fun hp ↦ hend _ hp rfl⟩
  · rintro ⟨hh, hend⟩
    refine ⟨.inr hh, ?_⟩
    rintro k hk rfl
    exact hend hk

theorem Sends.latches (hs : c.Sends id j e output) (h : c.Latches id j)
    (hend : Journal.flushEnd? id (e :: j) ≠ some .paused) :
    Latches { c with output } id (e :: j) := by
  have hsent := hs.sent
  refine ⟨hs.level h, ?_, fun hlen ↦ h.tops ?_⟩
  · rw [hs.latched h]
    exact ⟨fun hh ↦ ⟨hh, fun hp ↦ absurd hp hend⟩, And.left⟩
  · have hlen : c.writeMarks.high ≤ output.len := hlen
    omega

theorem Sends.fails (hs : c.Sends id j e output) (h : c.Latches id j)
    (hend : Journal.flushEnd? id (e :: j) = some .failed) :
    Settles { c with output } id (e :: j) :=
  ⟨hs.latches h (by simp [hend]), fun _ _ ↦ ⟨e :: j, List.suffix_refl _, hend⟩⟩

theorem Sends.pauses (hs : c.Sends id j e output) (h : c.Latches id j)
    (hend : Journal.flushEnd? id (e :: j) = some .paused)
    (hm : c.writeMarks.low < c.writeMarks.high) : (c.eased output).Settles id (e :: j) := by
  have hsent := hs.sent
  have hhigh : (c.eased output).outputHigh = true ↔
      c.outputHigh ∧ c.writeMarks.low ≤ output.len := by
    simp [eased]
  refine ⟨⟨hs.level h, ?_, fun hlen ↦ ?_⟩, fun hh hlow ↦ ?_⟩
  · rw [hhigh]
    refine Iff.trans ?_ (hs.latched h).symm
    exact ⟨fun hh ↦ ⟨hh.1, fun _ ↦ hh.2⟩, fun hh ↦ ⟨hh.1, hh.2 hend⟩⟩
  · have hlen : c.writeMarks.high ≤ output.len := hlen
    exact hhigh.2 ⟨h.tops (by omega), by omega⟩
  · have hlow : output.len < c.writeMarks.low := hlow
    have := (hhigh.1 hh).2
    omega

variable [Kernel κ]

omit [Kernel κ] in
theorem sends_entry {fd : Fd} {r : Ring} (hfd : fdOf id j = some fd)
    (a : (SysCall.send fd r.front).Answer) :
    Sends { c with output := r } id j (.sys (.send fd r.front) a) (r.unsent (liftErrno a)) := by
  refine ⟨rfl, ?_⟩
  rw [hfd]
  cases a with
  | error e => simp [Entry.sent, Ring.unsent, liftErrno]
  | ok n =>
    have hn := n.2
    have hle := r.length_front_le
    simp only [Option.elim_some, Entry.sent, if_pos, Ring.unsent, liftErrno, List.length_take,
      Ring.len_consume]
    omega

theorem sends_push {fd : Fd} {r : Ring} {o o' : Os κ (Mark ν)}
    {answer : Except IoError { n : Nat // n ≤ r.front.length }}
    (hp : (Sink.socket fd).push r.front o = (answer, o')) (hfd : fdOf id o.journal = some fd)
    (h : Latches { c with output := r } id o.journal) : ∃ e, o'.journal = e :: o.journal ∧
      fdOf id (e :: o.journal) = some fd ∧
      Sends { c with output := r } id o.journal e (r.unsent answer) ∧
        Journal.flushEnd? id (e :: o.journal) =
          FlushEnd.of? (r.unsent answer).len ((answer.map (·.1)).mapError (·.kind)) := by
  obtain ⟨a, rfl, hj⟩ := Ring.push_socket hp
  have hs := sends_entry (c := c) hfd a
  refine ⟨_, hj, (Journal.fdOf_quiet (.single rfl) id).trans hfd, hs, ?_⟩
  rw [Journal.flushEnd?, hfd, Option.bind_some, hs.level h]
  cases a with
  | ok n => exact if_pos rfl
  | error e => exact if_pos rfl

theorem flushFrom_settles {fd : Fd} {r : Ring} (moved : Nat) {o : Os κ (Mark ν)}
    (hr : r.isEmpty = false) (hfd : fdOf id o.journal = some fd)
    (h : Latches { c with output := r } id o.journal) (hm : c.writeMarks.low < c.writeMarks.high) :
    (c.flushed (Ring.flushFrom (.socket fd) r moved o).2.1
      (Ring.flushFrom (.socket fd) r moved o).1).Settles id
        (Ring.flushFrom (.socket fd) r moved o).2.2.journal := by
  -- By the sends: each but the last one leaves the high mark to the next.
  fun_induction Ring.flushFrom (Sink.socket fd) r moved o with
  | case1 r moved o hempty => cases hr.symm.trans hempty
  | case2 r moved o _ o' hn hp =>
    obtain ⟨e, hj, -, hs, hend⟩ := sends_push hp hfd h
    rw [hj]
    have hlen : r.len = (r.consume 0).len := by simp [Ring.len_consume]
    exact (hs.fails h hend).congr hlen rfl rfl
  | case3 r moved o _ n hn o' hp h0 _ ih =>
    obtain ⟨e, hj, hfd', hs, hend⟩ := sends_push hp hfd h
    have hend : Journal.flushEnd? id (e :: o.journal) =
        if (r.consume n).len = 0 then some .paused else none := hend.trans (if_neg h0)
    rw [← hj] at hfd'
    by_cases hempty : (r.consume n).isEmpty
    · rw [Ring.flushFrom, if_pos hempty, hj]
      rw [if_pos (of_decide_eq_true hempty)] at hend
      exact hs.pauses h hend hm
    · rw [if_neg (fun hlen ↦ hempty (decide_eq_true hlen))] at hend
      have hl := hs.latches h (by simp [hend])
      rw [← hj] at hl
      exact ih (Bool.eq_false_iff.2 hempty) hfd' hl
  | case4 r moved o _ e o' hp hi _ ih =>
    obtain ⟨e', hj, hfd', hs, hend⟩ := sends_push hp hfd h
    have hend : Journal.flushEnd? id (e' :: o.journal) = none := by
      rw [hend]
      show FlushEnd.of? _ (.error e.kind) = none
      rw [hi]
      rfl
    have hl := hs.latches h (by simp [hend])
    rw [← hj] at hfd' hl
    exact ih hr hfd' hl
  | case5 r moved o _ e o' hp hi hb =>
    obtain ⟨e', hj, -, hs, hend⟩ := sends_push hp hfd h
    rw [hj]
    refine hs.pauses h (hend.trans ?_) hm
    exact (FlushEnd.of?_error hi _).trans (by rw [if_pos hb.1])
  | case6 r moved o _ e o' hp hi hb =>
    obtain ⟨e', hj, -, hs, hend⟩ := sends_push hp hfd h
    have hend := hend.trans (FlushEnd.of?_error hi _)
    rw [hj]
    unfold flushed
    dsimp only
    split_ifs at hend ⊢ with hw
    · exact hs.pauses h hend hm
    · exact hs.fails h hend

theorem Settles.transmit {o : Os κ (Mark ν)} (h : c.Settles id o.journal) {fd : Fd}
    (hfd : c.fd? = some fd) (hof : fdOf id o.journal = some fd) (hfit : c.sizes.Fit) :
    (c.transmit o).1.2.Settles id (c.transmit o).2.journal := by
  have hm : c.writeMarks.low < c.writeMarks.high := hfit.write.2.1
  have hclock {c : Conn} {o : Os κ (Mark ν)} (h : c.Settles id o.journal) :
      (c.touch o).1.Settles id (c.touch o).2.journal := by
    have hs (now : Nat) : c.Settles id (.sys .clock now :: o.journal) :=
      h.skips (Entry.skips_of_isMute rfl _ _)
    exact (hs _).congr rfl rfl rfl
  have hflush (hmore : ¬ c.output.isEmpty) :=
    flushFrom_settles 0 (Bool.eq_false_iff.2 hmore) hof h.toLatches hm
  have ht := c.transmit_transmits o
  generalize c.transmit o = out at ht ⊢
  cases ht with
  | unconnected | empty => exact h
  | still hc hmore hs =>
    cases hfd.symm.trans hc
    have hflush := hflush hmore
    rw [hs] at hflush
    exact hflush
  | blocked hc hmore hs he | failed hc hmore hs he =>
    cases hfd.symm.trans hc
    have hflush := hflush hmore
    rw [hs] at hflush
    simpa [flushed, he] using hflush
  | moved hc hmore hs =>
    cases hfd.symm.trans hc
    have hflush := hflush hmore
    rw [hs] at hflush
    exact hclock hflush

end Conn

end PollReactor
