import PollReactor.Proofs.Ring
import PollReactor.Ring.Transfer

namespace PollReactor

/-- A call to a source or a sink: how many bytes it was offered to move, and those that it moved. -/
structure Exchange where
  room : Nat
  answer : Except IoError Bytes

namespace Exchange

def isInterrupted (x : Exchange) : Bool :=
  match x.answer with
  | .ok _ => false
  | .error e => e.kind = .interrupted

/-- A call that moves nothing ends the transfer, unless it was interrupted. -/
def ends (x : Exchange) : Bool :=
  match x.answer with
  | .ok bs => bs.isEmpty
  | .error e => e.kind ≠ .interrupted

def bytes (x : Exchange) : Bytes :=
  match x.answer with
  | .ok bs => bs
  | .error _ => []

def Stalled (xs : List Exchange) : Prop :=
  ∃ before room e, xs = before ++ [⟨room, .error e⟩] ∧ e.kind = .wouldBlock

def RanDry (xs : List Exchange) : Prop := ∃ before room, xs = before ++ [⟨room, .ok []⟩]

def heeded (xs : List Exchange) : List Exchange := xs.filter (!·.isInterrupted)

def moved (xs : List Exchange) : Bytes := xs.flatMap bytes

@[simp]
theorem moved_cons (x : Exchange) (xs : List Exchange) : moved (x :: xs) = x.bytes ++ moved xs :=
  rfl

theorem moved_concat {xs : List Exchange} {x : Exchange} (h : x.bytes = []) :
    moved (xs ++ [x]) = moved xs := by
  simp [moved, h]

theorem heeded_cons_ok (room : Nat) (bs : Bytes) (xs : List Exchange) :
    heeded (⟨room, .ok bs⟩ :: xs) = ⟨room, .ok bs⟩ :: heeded xs := rfl

theorem heeded_cons_interrupted {room : Nat} {e : IoError} (h : e.kind = .interrupted)
    (xs : List Exchange) : heeded (⟨room, .error e⟩ :: xs) = heeded xs := by
  simp [heeded, isInterrupted, h]

theorem bytes_of_ends {x : Exchange} (h : x.ends) : x.bytes = [] := by
  rcases x with ⟨room, e | bs⟩
  · rfl
  · exact List.isEmpty_iff.1 h

end Exchange

open Exchange (Stalled RanDry moved heeded)

variable {σ : Type}

/-- A source of which every call is written down, the latest last. -/
def Source.recorded (src : Source σ) : Source (σ × List Exchange) where
  pull room s :=
    let (answer, s') := src.pull room s.1
    (answer, s', s.2 ++ [⟨room, answer.map (·.1)⟩])
  patience s := src.patience s.1
  patience_lt {room s e s'} h he := by
    simp only [Prod.mk.injEq] at h
    obtain ⟨ha, rfl⟩ := h
    exact src.patience_lt (Prod.ext ha rfl) he

def Sink.recorded (snk : Sink σ) : Sink (σ × List Exchange) where
  push bs s :=
    let (answer, s') := snk.push bs s.1
    (answer, s', s.2 ++ [⟨bs.length, answer.map (bs.take ·.1)⟩])
  patience s := snk.patience s.1
  patience_lt {bs s e s'} h he := by
    simp only [Prod.mk.injEq] at h
    obtain ⟨ha, rfl⟩ := h
    exact snk.patience_lt (Prod.ext ha rfl) he

theorem Source.pull_recorded {src : Source σ} {room : Nat} {s s' : σ}
    {answer : Except IoError { bs : Bytes // bs.length ≤ room }}
    (h : src.pull room s = (answer, s')) (past : List Exchange) :
    src.recorded.pull room (s, past) = (answer, s', past ++ [⟨room, answer.map (·.1)⟩]) := by
  simp only [recorded, h]

theorem Sink.push_recorded {snk : Sink σ} {bs : Bytes} {s s' : σ}
    {answer : Except IoError { n : Nat // n ≤ bs.length }} (h : snk.push bs s = (answer, s'))
    (past : List Exchange) : snk.recorded.push bs (s, past) =
      (answer, s', past ++ [⟨bs.length, answer.map (bs.take ·.1)⟩]) := by
  simp only [recorded, h]

namespace Ring

inductive Flow where
  | inward
  | outward
  deriving DecidableEq, Repr

namespace Flow

def isDone : Flow → Ring → Bool
  | inward, r => r.isFull
  | outward, r => r.isEmpty

def left : Flow → Ring → Nat
  | inward, r => r.free
  | outward, r => r.len

def reach : Flow → Ring → Nat
  | inward, r => r.vacant
  | outward, r => r.front.length

def Allows : Flow → Ring → Bytes → Prop
  | inward, r, bs => bs.length ≤ r.vacant
  | outward, r, bs => bs <+: r.front

def advance : Flow → Ring → Bytes → Ring
  | inward, r, bs => (r.write bs).2
  | outward, r, bs => r.consume bs.length

/-- The queue held `before`, then the bytes `bs` moved, and now it holds `after`. -/
def Joins : Flow → (before bs after : Bytes) → Prop
  | inward, before, bs, after => after = before ++ bs
  | outward, before, bs, after => before = bs ++ after

/-- The result of a transfer of `n` bytes that ended by a call with this answer. That no byte comes
in is the end of a stream; that none goes out is a failure. -/
def verdict (f : Flow) (n : Nat) : (answer : Except IoError Bytes) → Except IoError Nat
  | .ok _ =>
    match f with
    | inward => .ok n
    | outward => .error .writeZero
  | .error e => if e.kind = .wouldBlock ∧ 0 < n then .ok n else .error e

variable {f : Flow} {r : Ring} {bs : Bytes}

theorem reach_pos (h : f.isDone r = false) : 0 < f.reach r := by
  cases f with
  | inward => exact r.vacant_pos h
  | outward =>
    have hlen : r.len ≠ 0 := of_decide_eq_false h
    have := r.head_lt
    rw [reach, length_front, capacity]
    omega

theorem left_pos (h : f.isDone r = false) : 0 < f.left r := by
  refine Nat.lt_of_lt_of_le (reach_pos h) ?_
  cases f with
  | inward => exact r.vacant_le_free
  | outward => exact r.length_front_le

theorem left_advance (h : f.Allows r bs) : f.left (f.advance r bs) + bs.length = f.left r := by
  cases f with
  | inward =>
    have := Nat.le_trans h r.vacant_le_free
    rw [left, advance, free_write, write_fst, left]
    omega
  | outward =>
    have := Nat.le_trans h.length_le r.length_front_le
    rw [left, advance, len_consume, left]
    omega

theorem Joins.nil (f : Flow) (l : Bytes) : f.Joins l [] l := by
  cases f
  · exact (List.append_nil l).symm
  · rfl

theorem Joins.trans {l l' l'' bs' : Bytes} (h : f.Joins l bs l') (h' : f.Joins l' bs' l'') :
    f.Joins l (bs ++ bs') l'' := by
  cases f with
  | inward =>
    obtain rfl : l' = l ++ bs := h
    obtain rfl : l'' = l ++ bs ++ bs' := h'
    exact List.append_assoc ..
  | outward =>
    obtain rfl : l' = bs' ++ l'' := h'
    obtain rfl : l = bs ++ (bs' ++ l'') := h
    exact (List.append_assoc ..).symm

theorem joins_advance (h : f.Allows r bs) : f.Joins r.toList bs (f.advance r bs).toList := by
  cases f with
  | inward =>
    have hn : (r.write bs).1 = bs.length := by
      rw [write_fst]
      exact Nat.min_eq_left (Nat.le_trans h r.vacant_le_free)
    show (r.write bs).2.toList = r.toList ++ bs
    rw [toList_write, hn, List.take_length]
  | outward =>
    obtain ⟨rest, hrest⟩ := h
    show r.toList = bs ++ (r.consume bs.length).toList
    rw [toList_consume, toList, ← hrest, List.append_assoc, List.drop_left]

theorem verdict_eq_ok {n k : Nat} {answer : Except IoError Bytes} (h : f.verdict n answer = .ok k) :
    k = n := by
  cases answer with
  | ok bs => cases f <;> cases h; rfl
  | error e =>
    dsimp only [verdict] at h
    split_ifs at h
    cases h
    rfl

theorem verdict_eq_error {n : Nat} {answer : Except IoError Bytes} {e : IoError}
    (h : f.verdict n answer = .error e) :
    (f = .outward ∧ e = .writeZero ∧ ∃ bs, answer = .ok bs) ∨
      answer = .error e ∧ ¬ (e.kind = .wouldBlock ∧ 0 < n) := by
  cases answer with
  | ok bs =>
    refine .inl ?_
    cases f <;> cases h
    exact ⟨rfl, rfl, bs, rfl⟩
  | error e' =>
    dsimp only [verdict] at h
    split_ifs at h with hb
    cases h
    exact .inr ⟨rfl, hb⟩

end Flow

/-- A transfer from the queue `r`, behind `n` bytes that moved before, makes `calls`. It has the
result `outcome` and leaves the queue `r'`. -/
inductive Transfers (f : Flow) : (r : Ring) → (n : Nat) → (calls : List Exchange) →
    (outcome : Except IoError Nat) → (r' : Ring) → Prop where
  | done {r : Ring} {n : Nat} (h : f.isDone r) : Transfers f r n [] (.ok n) r
  | moves {r r' : Ring} {n : Nat} {bs : Bytes} {calls : List Exchange}
      {outcome : Except IoError Nat} (h : f.isDone r = false) (ha : f.Allows r bs) (hb : bs ≠ [])
      (hrest : Transfers f (f.advance r bs) (n + bs.length) calls outcome r') :
      Transfers f r n (⟨f.reach r, .ok bs⟩ :: calls) outcome r'
  | again {r r' : Ring} {n : Nat} {e : IoError} {calls : List Exchange}
      {outcome : Except IoError Nat} (h : f.isDone r = false) (he : e.kind = .interrupted)
      (hrest : Transfers f r n calls outcome r') :
      Transfers f r n (⟨f.reach r, .error e⟩ :: calls) outcome r'
  | ends {r : Ring} {n : Nat} (answer : Except IoError Bytes) (h : f.isDone r = false)
      (hx : Exchange.ends ⟨f.reach r, answer⟩) :
      Transfers f r n [⟨f.reach r, answer⟩] (f.verdict n answer) r

theorem Transfers.stalls {f : Flow} {r : Ring} {n : Nat} {e : IoError} (h : f.isDone r = false)
    (he : e.kind ≠ .interrupted) (hb : e.kind = .wouldBlock ∧ 0 < n) :
    Transfers f r n [⟨f.reach r, .error e⟩] (.ok n) r := by
  have ht := Transfers.ends (f := f) (r := r) (n := n) (.error e) h (decide_eq_true he)
  rw [Flow.verdict, if_pos hb] at ht
  exact ht

theorem Transfers.fails {f : Flow} {r : Ring} {n : Nat} {e : IoError} (h : f.isDone r = false)
    (he : e.kind ≠ .interrupted) (hb : ¬ (e.kind = .wouldBlock ∧ 0 < n)) :
    Transfers f r n [⟨f.reach r, .error e⟩] (.error e) r := by
  have ht := Transfers.ends (f := f) (r := r) (n := n) (.error e) h (decide_eq_true he)
  rw [Flow.verdict, if_neg hb] at ht
  exact ht

theorem fillFrom_transfers (src : Source σ) (r : Ring) (n : Nat) (s : σ) (past : List Exchange) :
    ∃ outcome r' s' calls, fillFrom src r n s = (outcome, r', s') ∧
      fillFrom src.recorded r n (s, past) = (outcome, r', s', past ++ calls) ∧
      Transfers .inward r n calls outcome r' := by
  fun_induction fillFrom src r n s generalizing past with
  | case1 r n s h =>
    refine ⟨.ok n, r, s, [], rfl, ?_, .done h⟩
    rw [fillFrom_eq, if_pos h, List.append_nil]
  | case2 r n s h s' _ hp =>
    refine ⟨_, r, s', _, rfl, ?_, .ends (.ok []) (Bool.not_eq_true _ ▸ h) rfl⟩
    rw [fillFrom_eq, if_neg h, Source.pull_recorded hp]
    rfl
  | case3 r n s h bs hf s' hp hb _ ih =>
    obtain ⟨outcome, r', last, calls, hout, hrec, ht⟩ := ih (past ++ [⟨r.vacant, .ok bs⟩])
    refine ⟨outcome, r', last, _, hout, ?_, .moves (Bool.not_eq_true _ ▸ h) hf hb ht⟩
    rw [fillFrom_eq, if_neg h, Source.pull_recorded hp]
    simp only [if_neg hb]
    rw [List.append_assoc] at hrec
    exact hrec
  | case4 r n s h e s' hp he _ ih =>
    obtain ⟨outcome, r', last, calls, hout, hrec, ht⟩ := ih (past ++ [⟨r.vacant, .error e⟩])
    refine ⟨outcome, r', last, _, hout, ?_, .again (Bool.not_eq_true _ ▸ h) he ht⟩
    rw [fillFrom_eq, if_neg h, Source.pull_recorded hp]
    simp only [if_pos he]
    rw [List.append_assoc] at hrec
    exact hrec
  | case5 r n s h e s' hp he hb =>
    refine ⟨_, r, s', _, rfl, ?_, .stalls (Bool.not_eq_true _ ▸ h) he hb⟩
    rw [fillFrom_eq, if_neg h, Source.pull_recorded hp]
    simp only [if_neg he, if_pos hb]
    rfl
  | case6 r n s h e s' hp he hb =>
    refine ⟨_, r, s', _, rfl, ?_, .fails (Bool.not_eq_true _ ▸ h) he hb⟩
    rw [fillFrom_eq, if_neg h, Source.pull_recorded hp]
    simp only [if_neg he, if_neg hb]
    rfl

theorem flushFrom_transfers (snk : Sink σ) (r : Ring) (n : Nat) (s : σ) (past : List Exchange) :
    ∃ outcome r' s' calls, flushFrom snk r n s = (outcome, r', s') ∧
      flushFrom snk.recorded r n (s, past) = (outcome, r', s', past ++ calls) ∧
      Transfers .outward r n calls outcome r' := by
  fun_induction flushFrom snk r n s generalizing past with
  | case1 r n s h =>
    refine ⟨.ok n, r, s, [], rfl, ?_, .done h⟩
    rw [flushFrom_eq, if_pos h, List.append_nil]
  | case2 r n s h s' _ hp =>
    refine ⟨_, r, s', _, rfl, ?_, .ends (.ok []) (Bool.not_eq_true _ ▸ h) rfl⟩
    rw [flushFrom_eq, if_neg h, Sink.push_recorded hp]
    rfl
  | case3 r n s h k hk s' hp h0 _ ih =>
    have hlen : (r.front.take k).length = k := List.length_take_of_le hk
    have hne : r.front.take k ≠ [] := by
      rw [← List.length_pos_iff, hlen]
      exact Nat.pos_of_ne_zero h0
    obtain ⟨outcome, r', last, calls, hout, hrec, ht⟩ :=
      ih (past ++ [⟨r.front.length, .ok (r.front.take k)⟩])
    have ht : Transfers .outward r n (⟨r.front.length, .ok (r.front.take k)⟩ :: calls) outcome
        r' := by
      refine .moves (Bool.not_eq_true _ ▸ h) (List.take_prefix k r.front) hne ?_
      rw [Flow.advance, hlen]
      exact ht
    refine ⟨outcome, r', last, _, hout, ?_, ht⟩
    rw [flushFrom_eq, if_neg h, Sink.push_recorded hp]
    simp only [if_neg h0]
    rw [List.append_assoc] at hrec
    exact hrec
  | case4 r n s h e s' hp he _ ih =>
    obtain ⟨outcome, r', last, calls, hout, hrec, ht⟩ := ih (past ++ [⟨r.front.length, .error e⟩])
    refine ⟨outcome, r', last, _, hout, ?_, .again (Bool.not_eq_true _ ▸ h) he ht⟩
    rw [flushFrom_eq, if_neg h, Sink.push_recorded hp]
    simp only [if_pos he]
    rw [List.append_assoc] at hrec
    exact hrec
  | case5 r n s h e s' hp he hb =>
    refine ⟨_, r, s', _, rfl, ?_, .stalls (Bool.not_eq_true _ ▸ h) he hb⟩
    rw [flushFrom_eq, if_neg h, Sink.push_recorded hp]
    simp only [if_neg he, if_pos hb]
    rfl
  | case6 r n s h e s' hp he hb =>
    refine ⟨_, r, s', _, rfl, ?_, .fails (Bool.not_eq_true _ ▸ h) he hb⟩
    rw [flushFrom_eq, if_neg h, Sink.push_recorded hp]
    simp only [if_neg he, if_neg hb]
    rfl

namespace Transfers

variable {f : Flow} {r r' : Ring} {n k : Nat} {calls : List Exchange}
  {outcome : Except IoError Nat} {e : IoError}

theorem joins (h : Transfers f r n calls outcome r') :
    f.Joins r.toList (moved calls) r'.toList := by
  induction h with
  | done h => exact .nil f _
  | moves h ha hb _ ih => exact (Flow.joins_advance ha).trans ih
  | again h he _ ih => exact ih
  | ends answer h hx =>
    rw [Exchange.moved_cons, Exchange.bytes_of_ends hx]
    exact .nil f _

theorem room_pos (h : Transfers f r n calls outcome r') : ∀ x ∈ calls, 0 < x.room := by
  induction h with
  | done h => nofun
  | moves h ha hb _ ih => exact List.forall_mem_cons.2 ⟨Flow.reach_pos h, ih⟩
  | again h he _ ih => exact List.forall_mem_cons.2 ⟨Flow.reach_pos h, ih⟩
  | ends answer h hx => exact List.forall_mem_singleton.2 (Flow.reach_pos h)

theorem length_heeded_le (h : Transfers f r n calls outcome r') :
    (heeded calls).length ≤ f.left r := by
  -- Every call that moves bytes makes what is left shorter, and an end needs something left.
  induction h with
  | done h => exact Nat.zero_le _
  | moves h ha hb _ ih =>
    have := Flow.left_advance ha
    have := List.length_pos_iff.2 hb
    rw [Exchange.heeded_cons_ok, List.length_cons]
    omega
  | again h he _ ih =>
    rw [Exchange.heeded_cons_interrupted he]
    exact ih
  | ends answer h hx => exact Nat.le_trans (List.length_filter_le ..) (Flow.left_pos h)

theorem count (h : Transfers f r n calls outcome r') (ho : outcome = .ok k) :
    k = n + (moved calls).length := by
  induction h with
  | done h =>
    cases ho
    rfl
  | moves h ha hb _ ih =>
    rw [ih ho, Exchange.moved_cons, List.length_append, Nat.add_assoc]
    rfl
  | again h he _ ih => exact ih ho
  | ends answer h hx =>
    rw [Flow.verdict_eq_ok ho, Exchange.moved_cons, Exchange.bytes_of_ends hx]
    rfl

theorem verdict (h : Transfers f r n calls outcome r') {before after : List Exchange} {x : Exchange}
    (hcalls : calls = before ++ x :: after) (hx : x.ends) :
    after = [] ∧ outcome = f.verdict (n + (moved before).length) x.answer := by
  induction h generalizing before with
  | done h => simp at hcalls
  | @moves r r' n bs calls outcome h ha hb _ ih =>
    cases before with
    | nil =>
      obtain ⟨rfl, -⟩ := List.cons.inj hcalls
      exact absurd (List.isEmpty_iff.1 hx) hb
    | cons x' before =>
      obtain ⟨rfl, hrest⟩ := List.cons.inj hcalls
      rw [Exchange.moved_cons, List.length_append, ← Nat.add_assoc]
      exact ih hrest
  | again h he _ ih =>
    cases before with
    | nil =>
      obtain ⟨rfl, -⟩ := List.cons.inj hcalls
      exact absurd he (of_decide_eq_true hx)
    | cons x' before =>
      obtain ⟨rfl, hrest⟩ := List.cons.inj hcalls
      obtain ⟨hafter, ho⟩ := ih hrest
      exact ⟨hafter, ho⟩
  | ends answer h hx' =>
    cases before with
    | nil =>
      obtain ⟨rfl, rfl⟩ := List.cons.inj hcalls
      exact ⟨rfl, rfl⟩
    | cons x' before => simp at hcalls

theorem settled (h : Transfers f r n calls outcome r') : f.isDone r' ∧ (∃ k, outcome = .ok k) ∨
    ∃ before x, calls = before ++ [x] ∧ x.ends ∧
      outcome = f.verdict (n + (moved before).length) x.answer := by
  have key : f.isDone r' ∧ (∃ k, outcome = .ok k) ∨ ∃ x ∈ calls, x.ends := by
    induction h with
    | done h => exact .inl ⟨h, _, rfl⟩
    | moves h ha hb _ ih => exact ih.imp_right fun ⟨x, hx, he⟩ ↦ ⟨x, .tail _ hx, he⟩
    | again h he _ ih => exact ih.imp_right fun ⟨x, hx, he⟩ ↦ ⟨x, .tail _ hx, he⟩
    | ends answer h hx => exact .inr ⟨_, .head _, hx⟩
  refine key.imp_right ?_
  rintro ⟨x, hx, he⟩
  obtain ⟨before, after, hcalls⟩ := List.append_of_mem hx
  obtain ⟨rfl, ho⟩ := h.verdict hcalls he
  exact ⟨before, x, hcalls, he, ho⟩

theorem failed (h : Transfers f r n calls (.error e) r') :
    (f = .outward ∧ e = .writeZero ∧ RanDry calls) ∨
      ∃ before room, calls = before ++ [⟨room, .error e⟩] ∧ e.kind ≠ .interrupted ∧
        ¬ (e.kind = .wouldBlock ∧ 0 < n + (moved before).length) := by
  rcases h.settled with ⟨-, k, hk⟩ | ⟨before, ⟨room, answer⟩, hcalls, hx, ho⟩
  · cases hk
  · rcases Flow.verdict_eq_error ho.symm with ⟨hf, he, bs, rfl⟩ | ⟨rfl, hb⟩
    · obtain rfl := List.isEmpty_iff.1 hx
      exact .inl ⟨hf, he, before, room, hcalls⟩
    · exact .inr ⟨before, room, hcalls, of_decide_eq_true hx, hb⟩

theorem completed (h : Transfers f r n calls (.ok k) r') : f.isDone r' ∨
    f.verdict k (.ok []) = .ok k ∧ RanDry calls ∨ 0 < k ∧ Stalled calls := by
  rcases h.settled with ⟨hdone, -⟩ | ⟨before, ⟨room, answer⟩, hcalls, hx, ho⟩
  · exact .inl hdone
  · refine .inr ?_
    obtain rfl := Flow.verdict_eq_ok ho.symm
    cases answer with
    | ok bs =>
      obtain rfl := List.isEmpty_iff.1 hx
      exact .inl ⟨ho.symm, before, room, hcalls⟩
    | error e =>
      dsimp only [Flow.verdict] at ho
      split_ifs at ho with hb
      exact .inr ⟨hb.2, before, room, e, hcalls, hb.1⟩

theorem nothing (h : Transfers f r n calls outcome r') (ho : outcome = .ok 0) :
    f.isDone r ∨ ∃ room, (heeded calls).head? = some ⟨room, .ok []⟩ := by
  induction h with
  | done h => exact .inl h
  | moves h ha hb hrest _ =>
    have := hrest.count ho
    have := List.length_pos_iff.2 hb
    omega
  | again h he _ ih =>
    rw [Exchange.heeded_cons_interrupted he]
    exact ih ho
  | ends answer h hx =>
    cases answer with
    | ok bs =>
      rw [List.isEmpty_iff.1 hx]
      exact .inr ⟨_, rfl⟩
    | error e =>
      dsimp only [Flow.verdict] at ho
      split_ifs at ho with hb
      cases ho
      exact absurd hb.2 (Nat.lt_irrefl 0)

end Transfers

/-- What the calls of a transfer in either way, and its result, tell of each other. -/
structure Accounted (f : Flow) (r : Ring) (calls : List Exchange) (outcome : Except IoError Nat) :
    Prop where
  offers : ∀ x ∈ calls, 0 < x.room
  count : ∀ n, outcome = .ok n → n = (moved calls).length
  blocked : ∀ e, outcome = .error e → e.kind = .wouldBlock → moved calls = []
  resumed : ∀ e, outcome = .error e → e.kind ≠ .interrupted
  failed : ∀ before room e after, calls = before ++ ⟨room, .error e⟩ :: after →
    e.kind ≠ .interrupted → e.kind ≠ .wouldBlock → after = [] ∧ outcome = .error e
  /-- An error is the answer of the last call, unless a sink took nothing. -/
  told : ∀ e, outcome = .error e → (∃ before room, calls = before ++ [⟨room, .error e⟩]) ∨
    f = .outward ∧ e = .writeZero ∧ RanDry calls
  calls_le : (heeded calls).length ≤ f.left r

theorem Transfers.accounted {f : Flow} {r r' : Ring} {calls : List Exchange}
    {outcome : Except IoError Nat} (h : Transfers f r 0 calls outcome r') :
    Accounted f r calls outcome where
  offers := h.room_pos
  count n ho := by
    rw [h.count ho, Nat.zero_add]
  blocked e ho hb := by
    subst ho
    rcases h.failed with ⟨-, rfl, -⟩ | ⟨before, room, rfl, -, hnot⟩
    · cases hb
    · have hlen : ¬ 0 < 0 + (moved before).length := fun hpos ↦ hnot ⟨hb, hpos⟩
      rw [Exchange.moved_concat rfl, ← List.length_eq_zero_iff]
      omega
  resumed e ho := by
    subst ho
    rcases h.failed with ⟨-, rfl, -⟩ | ⟨before, room, rfl, hi, -⟩
    · decide
    · exact hi
  failed before room e after hcalls hi hb := by
    obtain ⟨rfl, ho⟩ := h.verdict hcalls (decide_eq_true hi)
    refine ⟨rfl, ho.trans ?_⟩
    exact if_neg fun hw ↦ hb hw.1
  told e ho := by
    subst ho
    rcases h.failed with hzero | ⟨before, room, hcalls, -⟩
    · exact .inr hzero
    · exact .inl ⟨before, room, hcalls⟩
  calls_le := h.length_heeded_le

/-- A fill from a source of which the calls are written down: what it delivered is behind what was
there. -/
theorem fill_accounted (src : Source σ) (r : Ring) (s : σ) : ∃ outcome r' s' calls,
    r.fill src s = (outcome, r', s') ∧ r.fill src.recorded (s, []) = (outcome, r', s', calls) ∧
    r'.toList = r.toList ++ moved calls ∧ Accounted .inward r calls outcome ∧
    (outcome = .ok 0 → r.isFull ∨ ∃ room, (heeded calls).head? = some ⟨room, .ok []⟩) ∧
    ∀ n, outcome = .ok n → r'.isFull ∨ RanDry calls ∨ 0 < n ∧ Stalled calls := by
  obtain ⟨outcome, r', s', calls, hout, hrec, ht⟩ := fillFrom_transfers src r 0 s []
  refine ⟨outcome, r', s', calls, hout, hrec, ht.joins, ht.accounted, ht.nothing, ?_⟩
  rintro n rfl
  exact ht.completed.imp_right (.imp_left And.right)

/-- A flush into a sink of which the calls are written down: what it took, and what is left, are
what was there. -/
theorem flush_accounted (snk : Sink σ) (r : Ring) (s : σ) : ∃ outcome r' s' calls,
    r.flush snk s = (outcome, r', s') ∧ r.flush snk.recorded (s, []) = (outcome, r', s', calls) ∧
    moved calls ++ r'.toList = r.toList ∧ Accounted .outward r calls outcome ∧
    (∀ n, outcome = .ok n → r'.isEmpty ∨ 0 < n ∧ Stalled calls) ∧
    ∀ before room after, calls = before ++ ⟨room, .ok []⟩ :: after →
      after = [] ∧ outcome = .error .writeZero := by
  obtain ⟨outcome, r', s', calls, hout, hrec, ht⟩ := flushFrom_transfers snk r 0 s []
  refine ⟨outcome, r', s', calls, hout, hrec, ht.joins.symm, ht.accounted, ?_, ?_⟩
  · rintro n rfl
    rcases ht.completed with hdone | ⟨hsink, -⟩ | hblocked
    · exact .inl hdone
    · cases hsink
    · exact .inr hblocked
  · intro before room after hcalls
    obtain ⟨rfl, ho⟩ := ht.verdict hcalls rfl
    exact ⟨rfl, ho⟩

end Ring

end PollReactor
