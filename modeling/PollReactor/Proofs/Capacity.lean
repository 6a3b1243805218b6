import PollReactor.Connection.Draft
import PollReactor.Proofs.Marks
import PollReactor.Reactor.Builder
import PollReactor.Simulation.Kernel

namespace PollReactor

variable {κ π ν : Type} [Kernel κ] {n : Nat}

namespace Watermarks

variable {m : Watermarks}

theorem forCapacity_eq_ok :
    forCapacity n = .ok m ↔ n * 3 < Word.size ∧ m = ⟨1, max (n * 3 / 4) 2⟩ := by
  unfold forCapacity
  split_ifs with h
  · simp [Nat.not_lt.2 h]
  · simp [Nat.not_le.1 h, eq_comm]

theorem forCapacity_eq_error {p : Panic} :
    forCapacity n = .error p ↔ Word.size ≤ n * 3 ∧ p = .multiplyOverflow := by
  unfold forCapacity
  split_ifs with h
  · simp [h, eq_comm]
  · simp [h]

theorem valid_of_forCapacity (h : forCapacity n = .ok m) : m.Valid n ↔ 2 ≤ n := by
  obtain ⟨-, rfl⟩ := forCapacity_eq_ok.1 h
  simp only [Valid]
  omega

end Watermarks

namespace ConnConfig

variable {c : ConnConfig}

/-- What buffers of `n` bytes are refused for if that is less than two. -/
def refusal (n : Nat) : Failure :=
  if n = 0 then .invalidCapacity .connectionBuffer else .invalidWatermarks 1 2 n

theorem withCapacity_eq_ok :
    withCapacity n = .ok c ↔ ∃ m, Watermarks.forCapacity n = .ok m ∧ c = ⟨n, m, m, none⟩ := by
  unfold withCapacity
  cases Watermarks.forCapacity n with
  | error p => exact ⟨nofun, nofun⟩
  | ok m =>
    constructor
    · rintro ⟨⟩
      exact ⟨m, rfl, rfl⟩
    · rintro ⟨_, ⟨⟩, rfl⟩
      rfl

theorem withCapacity_of_forCapacity {p : Panic} (h : Watermarks.forCapacity n = .error p) :
    withCapacity n = .error p := by
  unfold withCapacity
  rw [h]
  rfl

theorem check_of_pos (h : 0 < c.capacity) :
    c.check = c.read.check c.capacity >>= fun _ ↦ c.write.check c.capacity :=
  if_neg (Nat.ne_of_gt h)

theorem check_of_withCapacity (h : withCapacity n = .ok c) :
    c.check = if 2 ≤ n then .ok () else .error (refusal n) := by
  obtain ⟨m, hm, rfl⟩ := withCapacity_eq_ok.1 h
  have hvalid := Watermarks.valid_of_forCapacity hm
  by_cases h0 : n = 0
  · subst h0
    rfl
  · rw [check_of_pos (Nat.pos_of_ne_zero h0)]
    split_ifs with h2
    · have hcheck : m.check n = .ok () := if_pos (hvalid.2 h2)
      show (m.check n >>= fun _ ↦ m.check n) = .ok ()
      rw [hcheck]
      rfl
    -- the capacity is one, and the high mark that follows is two
    · obtain rfl : n = 1 := by omega
      obtain ⟨-, rfl⟩ := Watermarks.forCapacity_eq_ok.1 hm
      rfl

end ConnConfig

theorem Channel.make_map (c : ConnConfig) (now : Nat) :
    (Channel.make c now).map (fun _ ↦ ()) = c.check := by
  unfold Channel.make
  split
  · next h => exact h.symm
  · next h => exact h.symm

theorem Draft.make_map (c : ConnConfig) (now : Nat) :
    (Draft.make c now).map Draft.channel = Channel.make c now := by
  unfold Draft.make
  split
  · next h => exact h.symm
  · next h => exact h.symm

theorem Draft.make_of_check {c : ConnConfig} (h : c.check = .ok ()) (now : Nat) :
    ∃ d, Draft.make c now = .ok d := by
  rw [← Channel.make_map c now, ← Draft.make_map] at h
  cases hd : Draft.make c now with
  | error f =>
    rw [hd] at h
    cases h
  | ok d => exact ⟨d, rfl⟩

theorem Draft.make_of_refusal {c : ConnConfig} {f : Failure} (h : c.check = .error f) (now : Nat) :
    Draft.make c now = .error f := by
  rw [← Channel.make_map c now, ← Draft.make_map] at h
  cases hd : Draft.make c now with
  | error f' =>
    rw [hd] at h
    cases h
    rfl
  | ok d =>
    rw [hd] at h
    cases h

theorem Builder.build_of_refusal {b : Builder} {f : Failure} (h : b.defaults.check = .error f)
    (app : π) (os : Os κ (Mark ν)) :
    (b.build app os : Except Halt (Reactor κ π ν) × _) = (.error (.failure f), os) := by
  unfold Builder.build
  rw [h]

theorem Builder.withBufferCapacity_of_ok {c : ConnConfig} (h : ConnConfig.withCapacity n = .ok c)
    (b : Builder) : b.withBufferCapacity n = .ok { b with defaults := c } := by
  unfold Builder.withBufferCapacity
  rw [h]
  rfl

theorem Builder.withBufferCapacity_of_error {p : Panic}
    (h : ConnConfig.withCapacity n = .error p) (b : Builder) :
    b.withBufferCapacity n = .error p := by
  unfold Builder.withBufferCapacity
  rw [h]
  rfl

/-- `c` is for buffers of `n` bytes. Connections are made of it if these are two or more. -/
structure ConnConfig.Serves (n : Nat) (c : ConnConfig) : Prop where
  capacity : c.capacity = n
  read : c.read.Valid n ↔ 2 ≤ n
  write : c.write.Valid n ↔ 2 ≤ n
  accepted : 2 ≤ n → ∀ now, ∃ d, Draft.make c now = .ok d
  refused : n < 2 → ∀ now, Draft.make c now = .error (refusal n)

theorem ConnConfig.serves_of_withCapacity {c : ConnConfig} (h : withCapacity n = .ok c) :
    c.Serves n := by
  have hcheck := check_of_withCapacity h
  obtain ⟨m, hm, rfl⟩ := withCapacity_eq_ok.1 h
  have hvalid := Watermarks.valid_of_forCapacity hm
  refine ⟨rfl, hvalid, hvalid, fun h2 now ↦ ?_, fun h2 now ↦ ?_⟩
  · rw [if_pos h2] at hcheck
    exact Draft.make_of_check hcheck now
  · rw [if_neg (Nat.not_le.2 h2)] at hcheck
    exact Draft.make_of_refusal hcheck now

/-- As long as three times the capacity fits a word, a configuration follows from it wherever it is
given, and is refused exactly for less than two bytes. Any other capacity ends in a panic. -/
theorem marks_follow_capacity (n : Nat) :
    (n * 3 < Word.size → ∃ c, ConnConfig.withCapacity n = .ok c ∧ c.Serves n ∧
      (∀ b : Builder, b.withBufferCapacity n = .ok { b with defaults := c }) ∧
      (∀ s : Settings, s.bufferCapacity = n →
        Builder.ofSettings s = .ok ⟨s.maxConnections, s.idleLimit, c⟩) ∧
      ∀ b : Builder, b.defaults = c → n < 2 → ∀ (app : π) (os : Os κ (Mark ν)),
        (b.build app os : Except Halt (Reactor κ π ν) × _) =
          (.error (.failure (ConnConfig.refusal n)), os)) ∧
    (Word.size ≤ n * 3 → ConnConfig.withCapacity n = .error .multiplyOverflow ∧
      (∀ b : Builder, b.withBufferCapacity n = .error .multiplyOverflow) ∧
      ∀ s : Settings, s.bufferCapacity = n → Builder.ofSettings s = .error .multiplyOverflow) := by
  constructor
  · intro h
    obtain ⟨c, hc⟩ : ∃ c, ConnConfig.withCapacity n = .ok c :=
      ⟨_, ConnConfig.withCapacity_eq_ok.2 ⟨_, Watermarks.forCapacity_eq_ok.2 ⟨h, rfl⟩, rfl⟩⟩
    have hbuilder := Builder.withBufferCapacity_of_ok hc
    refine ⟨c, hc, ConnConfig.serves_of_withCapacity hc, hbuilder, ?_, ?_⟩
    · rintro s rfl
      exact hbuilder _
    · rintro b rfl h2 app os
      have hcheck := ConnConfig.check_of_withCapacity hc
      rw [if_neg (Nat.not_le.2 h2)] at hcheck
      exact Builder.build_of_refusal hcheck app os
  · intro h
    have hc := ConnConfig.withCapacity_of_forCapacity (Watermarks.forCapacity_eq_error.2 ⟨h, rfl⟩)
    have hbuilder := Builder.withBufferCapacity_of_error hc
    refine ⟨hc, hbuilder, ?_⟩
    rintro s rfl
    exact hbuilder _

open Simulation (World) in
theorem marks_follow_capacity_small :
    (∃ c, ConnConfig.withCapacity 2 = .ok c ∧ c.read.Valid 2 ∧ ∃ d, Draft.make c 0 = .ok d) ∧
    (∃ c, ConnConfig.withCapacity 1 = .ok c ∧
      Draft.make c 0 = .error (.invalidWatermarks 1 2 1) ∧
      ((Builder.build ⟨1, none, c⟩ () ⟨{}, []⟩ : Except Halt (Reactor World Unit Unit) × _)).1 =
        .error (.failure (.invalidWatermarks 1 2 1))) ∧
    ConnConfig.withCapacity Word.half = .error .multiplyOverflow := by
  have hfollow (n : Nat) := marks_follow_capacity (κ := World) (π := Unit) (ν := Unit) n
  obtain ⟨c, hc, hserves, -⟩ := (hfollow 2).1 (by decide)
  obtain ⟨c', hc', hserves', -, -, hbuild⟩ := (hfollow 1).1 (by decide)
  refine ⟨⟨c, hc, hserves.read.2 (Nat.le_refl 2), hserves.accepted (Nat.le_refl 2) 0⟩,
    ⟨c', hc', hserves'.refused Nat.one_lt_two 0, ?_⟩, ((hfollow Word.half).2 (by decide)).1⟩
  exact congrArg Prod.fst (hbuild ⟨1, none, c'⟩ rfl Nat.one_lt_two () ⟨{}, []⟩)

/-- A third of the numbers of a word, rounded up. -/
def bold : Nat := 6148914691236517206

/-- The number fits a word, and so would three quarters of it, but no marks come of it. -/
theorem bold_overflows :
    bold < Word.size ∧ ConnConfig.withCapacity bold = .error .multiplyOverflow ∧
      Builder.withBufferCapacity {} bold = .error .multiplyOverflow ∧
      Builder.ofSettings { bufferCapacity := bold } = .error .multiplyOverflow ∧
      ¬∃ c, ConnConfig.withCapacity bold = .ok c ∧ c.check = .ok () := by
  have hover : ConnConfig.withCapacity bold = .error .multiplyOverflow :=
    ConnConfig.withCapacity_of_forCapacity (Watermarks.forCapacity_eq_error.2 ⟨by decide, rfl⟩)
  refine ⟨by decide, hover, Builder.withBufferCapacity_of_error hover _,
    Builder.withBufferCapacity_of_error hover _, ?_⟩
  rintro ⟨c, hc, -⟩
  cases hover.symm.trans hc

end PollReactor
