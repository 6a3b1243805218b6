import PollReactor.Proofs.Transfer.Failure

namespace PollReactor

open Journal (Adds Faulty)

variable {κ π ν : Type}

namespace Entry

def reports (id : Nat) (e : Entry (Mark ν)) : Bool :=
  e.callback?.any fun cb ↦ !cb.isTerminal && cb.id = id

/-- Neither a call that moves bytes on the descriptor nor a report to the connection. -/
structure IsAside (id : Nat) (fd : Fd) (e : Entry (Mark ν)) : Prop where
  moves : ∀ way, e.moves? ≠ some (way, fd)
  reports : e.reports id = false

variable {e : Entry (Mark ν)} {id : Nat} {fd : Fd} {way : Way}

theorem reports_callback (id : Nat) (way : Way) :
    (.remark (.callback (way.callback id)) : Entry (Mark ν)).reports id := by
  cases way <;> exact decide_eq_true rfl

theorem moves_of_urgent {b : UInt8} (h : e.urgent? fd = some b) :
    e.moves? = some (.urgent, fd) ∧ e.stirs fd := by
  cases e with
  | remark => cases h
  | sys c a =>
    cases c with
    | recvUrgent fd' =>
      rcases a with _ | _ | b'
      · cases h
      · cases h
      · by_cases hfd : fd' = fd
        · simp [moves?, stirs, hfd]
        · simp [urgent?, hfd] at h
    | _ => cases h

theorem IsAside.not_fails (h : e.IsAside id fd) : ¬ e.fails fd :=
  Bool.eq_false_iff.1 (fails_of_moves h.moves)

theorem IsAside.ne_callback (h : e.IsAside id fd) (way : Way) :
    e ≠ .remark (.callback (way.callback id)) := by
  rintro rfl
  cases h.reports.symm.trans (reports_callback id way)

theorem IsAside.urgent? (h : e.IsAside id fd) : e.urgent? fd = none := by
  rw [Option.eq_none_iff_forall_ne_some]
  exact fun b hb ↦ h.moves .urgent (moves_of_urgent hb).1

end Entry

/-- The entries `new` are what they have to be for the connection `id` on the descriptor `fd`, which
has come to the channel `ch`. -/
structure Journal.Exactly (id : Nat) (fd : Fd) (ch : Channel) (new : Journal ν) : Prop where
  once : new.countP (·.reports id) ≤ 1
  told : ∀ way : Way, .remark (.callback (way.callback id)) ∈ new ↔
    (∃ e ∈ new, e.moves? = some (way, fd) ∧ e.stirs fd) ∧ (∀ e ∈ new, e.fails fd = false) ∧
      way.Tells ch
  /-- An urgent byte is there then, and is always told of. -/
  stored : ∀ e ∈ new, ∀ b, e.urgent? fd = some b →
    ch.urgent = some b ∧ .remark (.callback (.urgentReceived id)) ∈ new

theorem Journal.exists_framed {id : Nat} {fd : Fd} {before after : Journal ν} (new : Journal ν)
    (p : Entry (Mark ν) → Prop) (hp : ∀ e, e.IsAside id fd → ¬ p e)
    (hb : ∀ e ∈ before, e.IsAside id fd) (ha : ∀ e ∈ after, e.IsAside id fd) :
    (∃ e ∈ after ++ (new ++ before), p e) ↔ ∃ e ∈ new, p e := by
  constructor
  · rintro ⟨e, he, h⟩
    rcases List.mem_append.1 he with he | he
    · exact absurd h (hp e (ha e he))
    · rcases List.mem_append.1 he with he | he
      · exact ⟨e, he, h⟩
      · exact absurd h (hp e (hb e he))
  · rintro ⟨e, he, h⟩
    exact ⟨e, List.mem_append_right _ (List.mem_append_left _ he), h⟩

namespace Journal.Exactly

variable {id : Nat} {fd : Fd} {ch : Channel} {new before after : Journal ν}

theorem nil (id : Nat) (fd : Fd) (ch : Channel) : Exactly id fd ch ([] : Journal ν) where
  once := Nat.zero_le 1
  told way := by simp
  stored := List.forall_mem_nil _

theorem frame (h : Exactly id fd ch new) (hb : ∀ e ∈ before, e.IsAside id fd)
    (ha : ∀ e ∈ after, e.IsAside id fd) : Exactly id fd ch (after ++ (new ++ before)) := by
  have hnone {l : Journal ν} (hl : ∀ e ∈ l, e.IsAside id fd) : l.countP (·.reports id) = 0 :=
    List.countP_eq_zero.2 fun e he ↦ Bool.eq_false_iff.1 (hl e he).reports
  refine ⟨?_, fun way ↦ ?_, fun e he b hurgent ↦ ?_⟩
  · rw [List.countP_append, List.countP_append, hnone ha, hnone hb]
    simpa using h.once
  · have hcallback := exists_framed new (· = .remark (.callback (way.callback id)))
      (fun e he ↦ he.ne_callback way) hb ha
    have hmoved := exists_framed new (fun e ↦ e.moves? = some (way, fd) ∧ e.stirs fd)
      (fun e he hm ↦ he.moves way hm.1) hb ha
    have hfailed := exists_framed new (·.fails fd) (fun e he ↦ he.not_fails) hb ha
    have hfails (l : Journal ν) : (∀ e ∈ l, e.fails fd = false) ↔ ¬ ∃ e ∈ l, e.fails fd := by simp
    simp only [exists_eq_right] at hcallback
    rw [hcallback, hmoved, h.told way, hfails, hfails, hfailed]
  · obtain ⟨e', he', hb'⟩ := (exists_framed new (·.urgent? fd = some b)
      (fun e he hb ↦ nomatch he.urgent?.symm.trans hb) hb ha).1 ⟨e, he, hurgent⟩
    obtain ⟨hch, htold⟩ := h.stored e' he' b hb'
    exact ⟨hch, List.mem_append_right _ (List.mem_append_left _ htold)⟩

end Journal.Exactly

namespace Conn

/-- What the calls `new` of a transfer to the connection `c'` tell of it. -/
structure Calls (fd : Fd) (way : Way) (upshot : Upshot) (c' : Conn) (new : Journal ν) : Prop where
  quiet : ∀ e ∈ new, e.callback? = none
  along : ∀ e ∈ new, ∀ way', e.moves? = some (way', fd) → way' = way
  moved : upshot = .moved → ∃ e ∈ new, e.moves? = some (way, fd) ∧ e.stirs fd
  still : upshot = .still → ∀ e ∈ new, e.stirs fd = false
  stored : ∀ e ∈ new, ∀ b, e.urgent? fd = some b →
    way = .urgent ∧ upshot = .moved ∧ c'.urgent = some b

variable {fd : Fd} {way : Way} {c c' : Conn} {j j' new : Journal ν} {upshot : Upshot} {id : Nat}

theorem Moved.stored (h : Moved fd way c new c') {e : Entry (Mark ν)} (he : e ∈ new) {b : UInt8}
    (hb : e.urgent? fd = some b) : way = .urgent ∧ c'.urgent = some b := by
  obtain rfl : way = .urgent :=
    congrArg Prod.fst (Option.some.inj ((h.entries e he).symm.trans (Entry.moves_of_urgent hb).1))
  obtain ⟨e', rfl⟩ := List.length_eq_one_iff.1 (h.once rfl)
  obtain rfl := List.mem_singleton.1 he
  rw [h.urgent, List.findSome?_singleton, hb]
  exact ⟨rfl, rfl⟩

theorem Moved.quiet (h : Moved fd way c new c') : ∀ e ∈ new, e.callback? = none := by
  intro e he
  have hm := h.entries e he
  cases e with
  | sys => rfl
  | remark => cases hm

theorem Moved.along (h : Moved fd way c new c') :
    ∀ e ∈ new, ∀ way', e.moves? = some (way', fd) → way' = way :=
  fun e he _ hm ↦ congrArg Prod.fst (Option.some.inj (hm.symm.trans (h.entries e he)))

theorem Outcome.calls (h : c.Outcome fd way j upshot c' j') :
    ∃ new, j' = new ++ j ∧ Calls fd way upshot c' new := by
  cases h with
  | @moved new c₁ h hs now =>
    refine ⟨.sys .clock now :: new, rfl, ?_, ?_, fun _ ↦ ?_, nofun, ?_⟩
    · exact List.forall_mem_cons.2 ⟨rfl, h.quiet⟩
    · exact List.forall_mem_cons.2 ⟨nofun, h.along⟩
    · obtain ⟨e, he, hs⟩ := hs
      exact ⟨e, List.mem_cons_of_mem _ he, h.entries e he, hs⟩
    · refine List.forall_mem_cons.2 ⟨nofun, fun e he b hb ↦ ?_⟩
      exact ⟨(h.stored he hb).1, rfl, (h.stored he hb).2⟩
  | still h hs =>
    refine ⟨_, rfl, h.quiet, h.along, nofun, fun _ ↦ hs, fun e he b hb ↦ ?_⟩
    cases (hs e he).symm.trans (Entry.moves_of_urgent hb).2
  | failed h hs =>
    refine ⟨_, rfl, h.quiet, h.along, nofun, nofun, fun e he b hb ↦ ?_⟩
    cases (hs (h.stored he hb).1 e he).symm.trans (Entry.moves_of_urgent hb).2

namespace Calls

theorem reports (h : Calls fd way upshot c' new) (id : Nat) :
    ∀ e ∈ new, e.reports id = false := by
  intro e he
  rw [Entry.reports, h.quiet e he]
  rfl

theorem not_told (h : Calls fd way upshot c' new) (cb : Callback) :
    .remark (.callback cb) ∉ new := by
  intro hmem
  cases h.quiet _ hmem

theorem silent (h : Calls fd way upshot c' new) (id : Nat)
    (hn : upshot = .moved → ¬ way.Tells c'.toChannel)
    (hf : ∀ e, upshot = .failed e → ∃ e ∈ new, e.fails fd) :
    Journal.Exactly id fd c'.toChannel new where
  once := by
    rw [List.countP_eq_zero.2 fun e he ↦ Bool.eq_false_iff.1 (h.reports id e he)]
    exact Nat.zero_le 1
  told way' := by
    refine ⟨fun hmem ↦ absurd hmem (h.not_told _), ?_⟩
    rintro ⟨⟨e, he, hm, hs⟩, hnone, ht⟩
    obtain rfl := h.along e he way' hm
    cases hu : upshot with
    | moved => exact absurd ht (hn hu)
    | still => cases (h.still hu e he).symm.trans hs
    | failed err =>
      obtain ⟨e', he', hfails⟩ := hf err hu
      cases (hnone e' he').symm.trans hfails
  stored e he b hb := by
    obtain ⟨rfl, hu, -⟩ := h.stored e he b hb
    exact absurd trivial (hn hu)

theorem told (h : Calls fd way .moved c' new) (id : Nat) (hf : ∀ e ∈ new, e.fails fd = false)
    (ht : way.Tells c'.toChannel) :
    Journal.Exactly id fd c'.toChannel (.remark (.callback (way.callback id)) :: new) where
  once := by
    refine Nat.le_of_eq ?_
    rw [List.countP_cons_of_pos (Entry.reports_callback id way),
      List.countP_eq_zero.2 fun e he ↦ Bool.eq_false_iff.1 (h.reports id e he)]
  told way' := by
    constructor
    · intro hmem
      obtain rfl : way' = way := by
        rcases List.mem_cons.1 hmem with he | hmem
        · cases way <;> cases way' <;> first | rfl | cases he
        · exact absurd hmem (h.not_told _)
      obtain ⟨e, he, hs⟩ := h.moved rfl
      exact ⟨⟨e, List.mem_cons_of_mem _ he, hs⟩, List.forall_mem_cons.2 ⟨rfl, hf⟩, ht⟩
    · rintro ⟨⟨e, he, hm, -⟩, -, -⟩
      rcases List.mem_cons.1 he with rfl | he
      · cases hm
      · obtain rfl := h.along e he way' hm
        exact List.mem_cons_self
  stored := by
    refine List.forall_mem_cons.2 ⟨nofun, fun e he b hb ↦ ?_⟩
    obtain ⟨rfl, -, hurgent⟩ := h.stored e he b hb
    exact ⟨hurgent, List.mem_cons_self⟩

end Calls

end Conn

namespace Reactor

variable [Kernel κ] {P : Policy π ν} {r : Reactor κ π ν} {x : Watched} {c : Conn} {fd : Fd}
  {way : Way} {id : Nat} {out : Reactor κ π ν × List (Task π ν)}

omit [Kernel κ] in
theorem Conveyed.exact (h : Conveyed P r id c fd way out) (hc : r.conn? id = some c) :
    ∃ new c', out.1.os.journal = new ++ r.os.journal ∧ out.1.conn? id = some c' ∧
      Journal.Exactly id fd c'.toChannel new ∧
        ((∃ e, out.2 = [.finalize id (.failed e)]) ↔ ∃ e ∈ new, e.fails fd) := by
  have hset (os : Os κ (Mark ν)) (c' : Conn) :
      (setConn { r with os } id c').conn? id = some c' := by
    rw [conn?_setConn (r := { r with os }) hc, if_pos rfl]
  cases h with
  | @failed e c' os h hf =>
    obtain ⟨new, hj, hcalls⟩ := h.calls
    rw [hj, Journal.faulty_append] at hf
    exact ⟨new, c', hj, hset os c', hcalls.silent id nofun fun _ _ ↦ hf, fun _ ↦ hf,
      fun _ ↦ ⟨e, rfl⟩⟩
  | @still c' os ts h hf hts =>
    obtain ⟨new, hj, hcalls⟩ := h.calls
    rw [hj, Journal.faulty_append] at hf
    exact ⟨new, c', hj, hset os c', hcalls.silent id nofun nofun,
      fun ⟨e, he⟩ ↦ absurd he (hts e), fun h ↦ absurd h hf⟩
  | @silent c' os h hf ht =>
    obtain ⟨new, hj, hcalls⟩ := h.calls
    rw [hj, Journal.faulty_append] at hf
    refine ⟨new, c', hj, hset os c', hcalls.silent id (fun _ ↦ ht) nofun, ?_, fun h ↦ absurd h hf⟩
    rintro ⟨e, he⟩
    cases way <;> cases he
  | @told c' os h hf ht =>
    obtain ⟨new, hj, hcalls⟩ := h.calls
    rw [hj, Journal.faulty_append] at hf
    refine ⟨.remark (.callback (way.callback id)) :: new, c', ?_, hset os c',
      hcalls.told id (by simpa using hf) ht, ?_, ?_⟩
    · exact congrArg (_ :: ·) hj
    · rintro ⟨e, ⟨⟩⟩
    · rintro ⟨e, he, hfails⟩
      rcases List.mem_cons.1 he with rfl | he
      · cases hfails
      · exact absurd ⟨e, he, hfails⟩ hf

theorem attend_exact (hc : r.conn? x.id = some c) (hfd : c.fd? = some fd) (event : Event)
    (now : Nat) : ∃ new c', (attend P x event now r).1.os.journal = new ++ r.os.journal ∧
      (attend P x event now r).1.conn? x.id = some c' ∧
        Journal.Exactly x.id fd c'.toChannel new ∧
          ((∃ e, (attend P x event now r).2 = [.finalize x.id (.failed e)]) ↔
            ∃ e ∈ new, e.fails fd) := by
  have h := attend_conveyed (P := P) hc hfd event now
  generalize attend P x event now r = out at h ⊢
  rcases h with ⟨way, -, h⟩ | ⟨hj, hconn, hts⟩
  · exact h.exact hc
  · obtain ⟨c', hc'⟩ := Option.isSome_iff_exists.1 hconn
    refine ⟨[], c', hj, hc', .nil x.id fd c'.toChannel, fun ⟨e, he⟩ ↦ absurd he (hts e), ?_⟩
    rintro ⟨e, he, -⟩
    cases he

end Reactor

theorem Entry.reports_of_isQuiet {e : Entry (Mark ν)} (h : e.isQuiet) (id : Nat) :
    e.reports id = false := by
  cases e with
  | sys => rfl
  | remark m => cases m <;> first | rfl | cases h

theorem Entry.IsAside.of_isIdle {e : Entry (Mark ν)} {id : Nat} {fd : Fd} (hi : e.isIdle)
    (hq : e.isQuiet) : e.IsAside id fd := by
  refine ⟨fun way hm ↦ ?_, reports_of_isQuiet hq id⟩
  rw [isIdle, hm] at hi
  cases hi

namespace Reactor

variable [Kernel κ] {P : Policy π ν} {r : Reactor κ π ν} {id : Nat}

theorem advance_reports {first : Task π ν}
    (h : ∀ x event now, first = .serve x event now → x.id ≠ id) :
    Adds (·.reports id = false) r.os.journal (advance P first r).1.os.journal := by
  have hquiet {j j' : Journal ν} (hj : Adds (·.isQuiet) j j') : Adds (·.reports id = false) j j' :=
    hj.mono fun _ he ↦ Entry.reports_of_isQuiet he id
  have hother (hid : id ∉ first.subjects) :
      Adds (·.reports id = false) r.os.journal (advance P first r).1.os.journal := by
    cases advance_turnover (P := P) first r with
    | quiet _ _ journal => exact hquiet journal
    | told cb ht hcb _ _ j hj journal =>
      rw [journal]
      refine (hquiet hj).cons ?_
      have hne : cb.id ≠ id := fun he ↦ hid (he ▸ hcb)
      simp [Entry.reports, Entry.callback?, hne]
    | admitted fd d _ _ j hj journal =>
      rw [journal]
      exact (hquiet hj).cons rfl
    | ended id' why _ _ _ j hj journal =>
      rw [journal]
      refine (hquiet hj).cons ?_
      cases why <;> rfl
  cases first with
  | serveAll events watched => exact .single rfl
  | serve x event now =>
    exact hother fun hid ↦ h x event now rfl (List.mem_singleton.1 hid).symm
  | check id' =>
    simp only [advance]
    split
    · exact .refl _
    · exact .refl _
  | finalize id' why =>
    obtain ⟨os, pool, conns, he, -, -, hj⟩ := part_spec id' r
    have hp : Adds (·.isQuiet) r.os.journal (part id' r).os.journal := by
      rw [he]
      exact hj.mono fun _ he ↦ (Entry.chore_of_isSetup he).quiet
    refine (hquiet hp).cons ?_
    cases why <;> rfl
  | _ => exact hother List.not_mem_nil

end Reactor

end PollReactor
