import PollReactor.Proofs.Framing
import PollReactor.Proofs.Waking

namespace PollReactor

open Channel (lineFeed)

theorem Channel.takeLine_short {ch : Channel} {most : Nat} (hmost : 0 < most)
    (h : (ch.takeLine most).1 = none) : ch.input.len < most ∧ lineFeed ∉ ch.input.toList := by
  unfold takeLine at h
  rw [if_neg (by omega)] at h
  cases hi : ch.input.peekUntil lineFeed most with
  | some i =>
    rw [hi] at h
    cases h
  | none =>
    rw [hi] at h
    dsimp only at h
    split_ifs at h with hlen
    have hlt : ch.input.len < most := Nat.not_le.1 hlen
    rw [Ring.peekUntil, Ring.peek_eq_take, List.findIdx?_eq_none_iff,
      List.take_of_length_le (by rw [Ring.length_toList]; exact hlt.le)] at hi
    exact ⟨hlt, fun hfeed ↦ by cases hi lineFeed hfeed⟩

namespace Conn

variable {most : Nat} {c c' : Conn} {text : String}

theorem pastLine_readMarks (c : Conn) (most : Nat) : (c.pastLine most).readMarks = c.readMarks := by
  obtain ⟨input, h⟩ := takeLine_input c.toChannel most
  show (c.toChannel.takeLine most).2.readMarks = c.readMarks
  rw [h]

theorem pastLine_of_none (hmost : 0 < most) (h : c.line? most = none) : c.pastLine most = c := by
  simp only [line?, perform, Channel.readLine, Option.map_eq_none_iff] at h
  exact congrArg c.withChannel (Channel.takeLine_none hmost h).1

theorem short_of_none (hmost : 0 < most) (h : c.line? most = none) :
    c.input.len < most ∧ lineFeed ∉ c.input.toList := by
  simp only [line?, perform, Channel.readLine, Option.map_eq_none_iff] at h
  exact Channel.takeLine_short hmost h

theorem pastLine_lt (hmost : 0 < most) (h : c.line? most = some text) :
    (c.pastLine most).input.len < c.input.len := by
  obtain ⟨line, taken, -, hcut⟩ := cutsOff_of_line h
  have hpos := List.length_pos_iff.2 (hcut.taken_ne_nil hmost)
  have hlen := congrArg List.length hcut.parts
  rw [List.length_append, Ring.length_toList, Ring.length_toList] at hlen
  omega

theorem readLine_wakes (c : Conn) (most : Nat) : (c.perform (.readLine most)).2.2 =
    wakeIf (c.isReadHigh && !(c.pastLine most).isReadHigh) := rfl

theorem isReadHigh_pastLine (h : (c.pastLine most).isReadHigh) : c.isReadHigh := by
  have hlen := congrArg List.length (c.perform_takes (.readLine most))
  rw [List.length_append, Ring.length_toList, Ring.length_toList] at hlen
  rw [Channel.isReadHigh, pastLine_readMarks, decide_eq_true_iff] at h
  rw [Channel.isReadHigh, decide_eq_true_iff]
  refine Nat.le_trans h (Nat.le_trans (Nat.le_add_left _ _) hlen.le)

/-- A connection is asked for lines of up to `most` bytes until it has none: the lines, what the
calls asked of the reactor on the way, and the connection then. -/
inductive Empties (most : Nat) : (c : Conn) → List String → List Effect → (c' : Conn) → Prop where
  | done {c : Conn} (h : c.line? most = none) :
      Empties most c [] (c.perform (.readLine most)).2.2 (c.pastLine most)
  | line {c c' : Conn} {text : String} {ls : List String} {es : List Effect}
      (h : c.line? most = some text) (hrest : Empties most (c.pastLine most) ls es c') :
      Empties most c (text :: ls) ((c.perform (.readLine most)).2.2 ++ es) c'

theorem exists_empties (hmost : 0 < most) (c : Conn) : ∃ ls es c', Empties most c ls es c' := by
  induction hn : c.input.len using Nat.strongRecOn generalizing c with
  | ind n ih =>
    cases hr : c.line? most with
    | none => exact ⟨_, _, _, .done hr⟩
    | some text =>
      have hlt := pastLine_lt hmost hr
      obtain ⟨ls, es, c', h⟩ := ih _ (by omega) (c.pastLine most) rfl
      exact ⟨_, _, _, .line hr h⟩

namespace Empties

variable {ls ls₁ : List String} {es es₁ : List Effect} {c₁ : Conn}

theorem unique (h : Empties most c ls es c') (h₁ : Empties most c ls₁ es₁ c₁) :
    ls₁ = ls ∧ es₁ = es ∧ c₁ = c' := by
  induction h generalizing ls₁ es₁ with
  | done h =>
    cases h₁ with
    | done => exact ⟨rfl, rfl, rfl⟩
    | line h₁ _ => cases h.symm.trans h₁
  | line h _ ih =>
    cases h₁ with
    | done h₁ => cases h.symm.trans h₁
    | line h₁ hrest =>
      cases h.symm.trans h₁
      obtain ⟨rfl, rfl, rfl⟩ := ih hrest
      exact ⟨rfl, rfl, rfl⟩

theorem readMarks (h : Empties most c ls es c') : c'.readMarks = c.readMarks := by
  induction h with
  | @done c h => exact c.pastLine_readMarks most
  | @line c _ _ _ _ h _ ih => exact ih.trans (c.pastLine_readMarks most)

theorem short (hmost : 0 < most) (h : Empties most c ls es c') :
    c'.input.len < most ∧ lineFeed ∉ c'.input.toList := by
  induction h with
  | done h =>
    rw [pastLine_of_none hmost h]
    exact short_of_none hmost h
  | line h _ ih => exact ih

theorem isReadHigh (h : Empties most c ls es c') (hc : c'.isReadHigh) : c.isReadHigh := by
  induction h with
  | done h => exact isReadHigh_pastLine hc
  | line h _ ih => exact isReadHigh_pastLine (ih hc)

theorem wakes (h : Empties most c ls es c') : es = wakeIf (c.isReadHigh && !c'.isReadHigh) := by
  induction h with
  | @done c h => exact c.readLine_wakes most
  | @line c c' text ls es h hrest ih =>
    have hfirst : (c.pastLine most).isReadHigh → c.isReadHigh := isReadHigh_pastLine
    have hlater := hrest.isReadHigh
    rw [ih, readLine_wakes]
    -- Input that has fallen below its high mark stays there, so that one call at most crosses it.
    revert hfirst hlater
    cases c.isReadHigh <;> cases (c.pastLine most).isReadHigh <;> cases c'.isReadHigh <;>
      simp [wakeIf]

end Empties

end Conn

namespace Reactor

variable {κ π ν : Type} [Kernel κ] {id most : Nat}

/-- An application asks for lines of connection `id` until there is none. -/
inductive Empties (id most : Nat) :
    (r : Reactor κ π ν) → List String → (r' : Reactor κ π ν) → Prop where
  | done {r : Reactor κ π ν} (h : (request (.conn id (.readLine most)) r).1 = some none) :
      Empties id most r [] (request (.conn id (.readLine most)) r).2
  | line {r r' : Reactor κ π ν} {text : String} {ls : List String}
      (h : (request (.conn id (.readLine most)) r).1 = some (some text))
      (hrest : Empties id most (request (.conn id (.readLine most)) r).2 ls r') :
      Empties id most r (text :: ls) r'

theorem Empties.unique {r r' r₁ : Reactor κ π ν} {ls ls₁ : List String}
    (h : Empties id most r ls r') (h₁ : Empties id most r ls₁ r₁) : ls₁ = ls ∧ r₁ = r' := by
  induction h generalizing ls₁ with
  | done h =>
    cases h₁ with
    | done => exact ⟨rfl, rfl⟩
    | line h₁ _ => cases h.symm.trans h₁
  | line h _ ih =>
    cases h₁ with
    | done h₁ => cases h.symm.trans h₁
    | line h₁ hrest =>
      cases h.symm.trans h₁
      obtain ⟨rfl, rfl⟩ := ih hrest
      exact ⟨rfl, rfl⟩

end Reactor

theorem Conn.Empties.carried {κ π ν : Type} [Kernel κ] {id most : Nat} {c c' : Conn}
    {ls : List String} {es : List Effect} (h : Empties most c ls es c') {r : Reactor κ π ν}
    (hc : r.conn? id = some c) : ∃ r', r.Empties id most ls r' ∧ r'.conn? id = some c' ∧
      Reactor.Wakes (es.contains .wake) r r' := by
  induction h generalizing r with
  | @done c h =>
    have ha := Reactor.request_answer hc (.readLine most)
    exact ⟨_, .done (ha.trans (congrArg some h)), Reactor.request_conn? hc _,
      Reactor.request_wakes hc _⟩
  | @line c c' text ls es h _ ih =>
    have ha := Reactor.request_answer hc (.readLine most)
    obtain ⟨r', hr, hc', hw⟩ := ih (Reactor.request_conn? hc (.readLine most))
    refine ⟨r', .line (ha.trans (congrArg some h)) hr, hc', ?_⟩
    rw [List.contains_append]
    exact (Reactor.request_wakes hc _).trans hw

/-- All that reading lines of up to `most` bytes from `c` comes to. -/
structure Conn.Emptied (most : Nat) (c : Conn) (ls : List String) (es : List Effect) (c' : Conn) :
    Prop where
  ends : ∀ ls₁ es₁ c₁, c.Empties most ls₁ es₁ c₁ ↔ ls₁ = ls ∧ es₁ = es ∧ c₁ = c'
  short : c'.input.len < most
  clean : lineFeed ∉ c'.input.toList
  low : c'.isReadHigh = false
  watched : c'.interest.read
  woken : es = wakeIf c.isReadHigh

/-- If lines are read from a connection until there is none, that comes to an end, for each takes
something. The connection is watched for input then; if it was not before, the reactor was woken
once. -/
theorem Conn.lines_run_out {c : Conn} {most : Nat} (hpos : 1 ≤ most)
    (hmost : most ≤ c.readMarks.high) : ∃ ls es c', c.Emptied most ls es c' ∧
    (∀ (c₁ : Conn) text, c₁.line? most = some text →
      (c₁.pastLine most).input.len < c₁.input.len) ∧
    ∀ {κ π ν : Type} [Kernel κ] (r : Reactor κ π ν) (id : Nat), r.conn? id = some c → ∃ r',
      (∀ ls₁ r₁, r.Empties id most ls₁ r₁ ↔ ls₁ = ls ∧ r₁ = r') ∧ r'.conn? id = some c' ∧
      Reactor.Wakes c.isReadHigh r r' := by
  obtain ⟨ls, es, c', h⟩ := exists_empties hpos c
  obtain ⟨hshort, hclean⟩ := h.short hpos
  have hlow : c'.isReadHigh = false := by
    rw [Channel.isReadHigh, h.readMarks, decide_eq_false_iff_not]
    omega
  have hwoken : es = wakeIf c.isReadHigh := by
    rw [h.wakes, hlow, Bool.not_false, Bool.and_true]
  refine ⟨ls, es, c', ⟨?_, hshort, hclean, hlow, ?_, hwoken⟩, fun _ _ ↦ pastLine_lt hpos, ?_⟩
  · intro ls₁ es₁ c₁
    refine ⟨h.unique, ?_⟩
    rintro ⟨rfl, rfl, rfl⟩
    exact h
  · rw [interest, hlow]
    rfl
  · intro κ π ν _ r id hc
    obtain ⟨r', hr, hc', hw⟩ := h.carried hc
    refine ⟨r', fun ls₁ r₁ ↦ ⟨hr.unique, ?_⟩, hc', ?_⟩
    · rintro ⟨rfl, rfl⟩
      exact hr
    · have hcontains : es.contains .wake = c.isReadHigh := by
        rw [hwoken]
        cases c.isReadHigh <;> rfl
      rw [← hcontains]
      exact hw

def Conn.crowded : Conn := (Conn.untouched 4 (by decide)).gains [97, 10, 98, 10]

/-- Two lines are read from a connection that was not watched for input, by themselves and in a
reactor. -/
theorem Conn.crowded_runs_out : 1 ≤ 2 ∧ 2 ≤ crowded.readMarks.high ∧ crowded.isReadHigh ∧
    ∃ c', crowded.Emptied 2 ["a", "b"] [.wake] c' ∧ ∃ r',
      Reactor.Empties 1 2 { Visit.built with conns := #[crowded] } ["a", "b"] r' ∧
      r'.conn? 1 = some c' ∧
      Reactor.Wakes true { Visit.built with conns := #[crowded] } r' := by
  have hrun : crowded.Empties 2 ["a", "b"] _ _ :=
    .line (by decide +kernel) (.line (by decide +kernel) (.done (by decide +kernel)))
  obtain ⟨ls, es, c', h, -, hr⟩ := lines_run_out (c := crowded) (by decide : 1 ≤ 2) (by decide)
  obtain ⟨rfl, -, -⟩ := (h.ends _ _ _).1 hrun
  have hhigh : crowded.isReadHigh = true := by decide +kernel
  obtain ⟨r', hloop, hc', hw⟩ := hr { Visit.built with conns := #[crowded] } 1 rfl
  have hwoken := h.woken
  rw [hhigh] at hw hwoken
  obtain rfl : es = [.wake] := hwoken
  exact ⟨by decide, by decide, hhigh, c', h, r', (hloop _ _).2 ⟨rfl, rfl⟩, hc', hw⟩

end PollReactor
