import PollReactor.Ring

namespace PollReactor

structure Source (σ : Type) where
  /-- At most `room` bytes; none at all is the end of the stream. -/
  pull : (room : Nat) → σ → Except IoError { bs : Bytes // bs.length ≤ room } × σ
  patience : σ → Nat
  patience_lt : ∀ {room s e s'}, pull room s = (.error e, s') → e.kind = .interrupted →
    patience s' < patience s

structure Sink (σ : Type) where
  /-- How many of the bytes offered were taken, from the front. -/
  push : (bs : Bytes) → σ → Except IoError { n : Nat // n ≤ bs.length } × σ
  patience : σ → Nat
  patience_lt : ∀ {bs s e s'}, push bs s = (.error e, s') → e.kind = .interrupted →
    patience s' < patience s

namespace Ring

theorem free_write_lt {r : Ring} {bs : Bytes} (hf : bs.length ≤ r.vacant) (hb : bs ≠ []) :
    (r.write bs).2.free < r.free := by
  have hv := r.vacant_le_free
  have : 0 < bs.length := List.length_pos_iff.2 hb
  rw [free_write, write_fst]
  omega

/-- Offers the source the first stretch of free space again and again, until the queue is full, the
source ends or has nothing for now, or it fails. `moved` bytes were received before; nothing for now
is a failure only if that is zero. -/
def fillFrom {σ : Type} (src : Source σ) (r : Ring) (moved : Nat) (s : σ) :
    Except IoError Nat × Ring × σ :=
  if r.isFull then (.ok moved, r, s)
  else
    match h : src.pull r.vacant s with
    | (.ok ⟨bs, hf⟩, s') =>
      if hb : bs = [] then (.ok moved, r, s')
      else
        have := free_write_lt hf hb
        fillFrom src (r.write bs).2 (moved + bs.length) s'
    | (.error e, s') =>
      if he : e.kind = .interrupted then
        have := src.patience_lt h he
        fillFrom src r moved s'
      else if e.kind = .wouldBlock ∧ 0 < moved then (.ok moved, r, s')
      else (.error e, r, s')
termination_by (r.free, src.patience s)

theorem fillFrom_eq {σ : Type} (src : Source σ) (r : Ring) (moved : Nat) (s : σ) :
    fillFrom src r moved s =
      if r.isFull then (.ok moved, r, s)
      else
        match src.pull r.vacant s with
        | (.ok bs, s') =>
          if bs.1 = [] then (.ok moved, r, s')
          else fillFrom src (r.write bs.1).2 (moved + bs.1.length) s'
        | (.error e, s') =>
          if e.kind = .interrupted then fillFrom src r moved s'
          else if e.kind = .wouldBlock ∧ 0 < moved then (.ok moved, r, s')
          else (.error e, r, s') := by
  rw [fillFrom]
  split
  · rfl
  · split <;> rename_i h <;> simp only [h, dite_eq_ite]

def fill {σ : Type} (src : Source σ) (r : Ring) (s : σ) : Except IoError Nat × Ring × σ :=
  fillFrom src r 0 s

theorem len_consume_lt {r : Ring} {n : Nat} (hn : n ≤ r.front.length) (h0 : n ≠ 0) :
    (r.consume n).len < r.len := by
  have := r.length_front_le
  rw [len_consume]
  omega

/-- Offers the sink the first stretch of buffered bytes again and again, until the queue is empty,
the sink takes nothing for now, or it fails. A sink that takes no byte of what it was offered
fails. -/
def flushFrom {σ : Type} (snk : Sink σ) (r : Ring) (moved : Nat) (s : σ) :
    Except IoError Nat × Ring × σ :=
  if r.isEmpty then (.ok moved, r, s)
  else
    match h : snk.push r.front s with
    | (.ok ⟨n, hn⟩, s') =>
      if h0 : n = 0 then (.error .writeZero, r, s')
      else
        have := len_consume_lt hn h0
        flushFrom snk (r.consume n) (moved + n) s'
    | (.error e, s') =>
      if he : e.kind = .interrupted then
        have := snk.patience_lt h he
        flushFrom snk r moved s'
      else if e.kind = .wouldBlock ∧ 0 < moved then (.ok moved, r, s')
      else (.error e, r, s')
termination_by (r.len, snk.patience s)

theorem flushFrom_eq {σ : Type} (snk : Sink σ) (r : Ring) (moved : Nat) (s : σ) :
    flushFrom snk r moved s =
      if r.isEmpty then (.ok moved, r, s)
      else
        match snk.push r.front s with
        | (.ok n, s') =>
          if n.1 = 0 then (.error .writeZero, r, s')
          else flushFrom snk (r.consume n.1) (moved + n.1) s'
        | (.error e, s') =>
          if e.kind = .interrupted then flushFrom snk r moved s'
          else if e.kind = .wouldBlock ∧ 0 < moved then (.ok moved, r, s')
          else (.error e, r, s') := by
  rw [flushFrom]
  split
  · rfl
  · split <;> rename_i h <;> simp only [h, dite_eq_ite]

def flush {σ : Type} (snk : Sink σ) (r : Ring) (s : σ) : Except IoError Nat × Ring × σ :=
  flushFrom snk r 0 s

end Ring

end PollReactor
