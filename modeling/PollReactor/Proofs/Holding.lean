import PollReactor.Proofs.Moment
import PollReactor.Proofs.Pool
import PollReactor.Proofs.Service
import PollReactor.Proofs.Sockets

namespace PollReactor

inductive Owner where
  | receiver
  | sender
  | listener
  | hand
  | conn (id : Nat)
  deriving DecidableEq

namespace Reactor

variable {κ π ν : Type} {r r' : Reactor κ π ν} {hand hand' : Option (Token Stream)}

def holds (r : Reactor κ π ν) (hand : Option (Token Stream)) : Owner → Option Place
  | .hand => hand.map Token.place
  | .conn id => r.place? id
  | _ => none

/-- The descriptor that an owner holds. -/
def owned (r : Reactor κ π ν) (hand : Option (Token Stream)) : Owner → Option Fd
  | .receiver => some r.waker.receiver
  | .sender => some r.waker.sender
  | .listener => r.listener
  | .hand => (r.holds hand .hand).bind (·.fd)
  | .conn id => (r.holds hand (.conn id)).bind (·.fd)

/-- The pool and the list of live connections agree with who holds a socket. -/
structure Holding (r : Reactor κ π ν) (hand : Option (Token Stream)) : Prop where
  kept : r.pool.Kept
  parked : ∀ (slot : Nat) (s : Stream), r.pool.slots[slot]? = some (some s) → s = .empty
  nodup : r.live.Nodup
  live_iff : ∀ id, id ∈ r.live ↔ (r.place? id).isSome
  out : ∀ o p, r.holds hand o = some p →
    p.pool = r.pool.id ∧ r.pool.slots[p.slot]? = some none ∧ p.fd.isSome
  apart : ∀ o o' p p', r.holds hand o = some p → r.holds hand o' = some p' → p.slot = p'.slot →
    o = o'

/-- The descriptors of a reactor are open, and each has one owner. -/
structure Ledger (r : Reactor κ π ν) (hand : Option (Token Stream)) : Prop where
  opened : ∀ o fd, r.owned hand o = some fd → Journal.IsOpen fd r.os.journal
  apart : ∀ o o' fd, r.owned hand o = some fd → r.owned hand o' = some fd → o = o'

theorem owned_conn (r : Reactor κ π ν) (hand : Option (Token Stream)) (id : Nat) :
    r.owned hand (.conn id) = (r.place? id).bind (·.fd) := rfl

theorem owns_iff {fd : Fd} : r.Owns fd ↔ ∃ o, r.owned none o = some fd := by
  constructor
  · rintro (h | h | h | ⟨id, c, hc, hfd⟩)
    · exact ⟨.receiver, congrArg some h⟩
    · exact ⟨.sender, congrArg some h⟩
    · exact ⟨.listener, h⟩
    · refine ⟨.conn id, ?_⟩
      rw [owned_conn, place?, hc, Option.bind_some, ← Conn.fd?_eq, hfd]
  · rintro ⟨_ | _ | _ | _ | id, h⟩
    · exact .inl (Option.some.inj h)
    · exact .inr (.inl (Option.some.inj h))
    · exact .inr (.inr (.inl h))
    · cases h
    · rw [owned_conn, place?] at h
      cases hc : r.conn? id with
      | none => rw [hc] at h; cases h
      | some c =>
        rw [hc, Option.bind_some, ← Conn.fd?_eq] at h
        exact .inr (.inr (.inr ⟨id, c, hc, h⟩))

theorem Ledger.pass (h : Ledger r hand) (f : Owner → Owner)
    (hf : ∀ o fd, r'.owned hand' o = some fd → r.owned hand (f o) = some fd)
    (hinj : ∀ o o', (r'.owned hand' o).isSome → (r'.owned hand' o').isSome → f o = f o' → o = o')
    (hopen : ∀ o fd, r'.owned hand' o = some fd → Journal.IsOpen fd r.os.journal →
      Journal.IsOpen fd r'.os.journal) : Ledger r' hand' where
  opened o fd ho := hopen o fd ho (h.opened (f o) fd (hf o fd ho))
  apart o o' fd ho ho' :=
    hinj o o' (by rw [ho]; rfl) (by rw [ho']; rfl) (h.apart _ _ fd (hf o fd ho) (hf o' fd ho'))

theorem Ledger.gain (h : Ledger r hand) (o₀ : Owner) (fd₀ : Fd)
    (hf : ∀ o fd, r'.owned hand' o = some fd → o = o₀ ∧ fd = fd₀ ∨ r.owned hand o = some fd)
    (hnew : ∀ o, r.owned hand o = some fd₀ → o = o₀) (h₀ : Journal.IsOpen fd₀ r'.os.journal)
    (hopen : ∀ o fd, r.owned hand o = some fd → Journal.IsOpen fd r.os.journal →
      Journal.IsOpen fd r'.os.journal) : Ledger r' hand' where
  opened o fd ho := by
    rcases hf o fd ho with ⟨-, rfl⟩ | ho
    · exact h₀
    · exact hopen o fd ho (h.opened o fd ho)
  apart o o' fd ho ho' := by
    rcases hf o fd ho with ⟨he, hfd⟩ | h1
    · rcases hf o' fd ho' with ⟨he', -⟩ | h2
      · exact he.trans he'.symm
      · exact he.trans (hnew o' (hfd ▸ h2)).symm
    · rcases hf o' fd ho' with ⟨he', hfd⟩ | h2
      · exact (hnew o (hfd ▸ h1)).trans he'.symm
      · exact h.apart o o' fd h1 h2

theorem Still.holds {C : Entry (Mark ν) → Prop} (h : Still C r r') (o : Owner) :
    r'.holds hand o = r.holds hand o := by
  cases o with
  | conn id => exact h.place id
  | _ => rfl

theorem Still.owned {C : Entry (Mark ν) → Prop} (h : Still C r r') (o : Owner) :
    r'.owned hand o = r.owned hand o := by
  cases o with
  | receiver => exact congrArg some h.receiver
  | sender => exact congrArg some h.sender
  | listener => exact h.listener
  | hand => rfl
  | conn id =>
    rw [owned_conn, owned_conn, h.place id]

theorem Holding.still {C : Entry (Mark ν) → Prop} (h : Holding r hand) (hs : Still C r r') :
    Holding r' hand where
  kept := by rw [hs.pool]; exact h.kept
  parked := by rw [hs.pool]; exact h.parked
  nodup := by rw [hs.live]; exact h.nodup
  live_iff id := by rw [hs.live, hs.place id]; exact h.live_iff id
  out o p ho := by
    rw [hs.holds] at ho
    rw [hs.pool]
    exact h.out o p ho
  apart o o' p p' ho ho' := by
    rw [hs.holds] at ho ho'
    exact h.apart o o' p p' ho ho'

theorem Ledger.still {C : Entry (Mark ν) → Prop} (h : Ledger r hand) (hs : Still C r r')
    (hC : ∀ e, C e → e.closes? = none) : Ledger r' hand := by
  refine h.pass id ?_ (fun o o' _ _ ho ↦ ho) ?_
  · intro o fd ho
    rw [hs.owned] at ho
    exact ho
  · intro o fd _ hopen
    obtain ⟨new, hj, hn⟩ := hs.journal
    rw [hj]
    exact Journal.isOpen_append_of_not_closed hopen fun e he ↦ by rw [hC e (hn e he)]; nofun

theorem Holding.take (h : Holding r none) {slot : Nat} {free : List Nat} {s : Stream}
    (hf : r.pool.free = slot :: free) (hs : r.pool.slots[slot]? = some (some s)) {t : Token Stream}
    (hp : t.pool = r.pool.id) (ht : t.slot = slot) (hfd : t.value.fd.isSome)
    (hpool : r'.pool = r.pool.without slot free) (hlive : r'.live = r.live)
    (hplace : ∀ id, r'.place? id = r.place? id) : Holding r' (some t) := by
  have hholds (o : Owner) (p : Place) (ho : r'.holds (some t) o = some p) :
      o = .hand ∧ p = t.place ∨ r.holds none o = some p := by
    cases o with
    | hand => exact .inl ⟨rfl, (Option.some.inj ho).symm⟩
    | conn id => exact .inr ((hplace id).symm.trans ho)
    | _ => cases ho
  -- What others hold was handed out before, and this slot was still parked.
  have hne (o : Owner) (p : Place) (ho : r.holds none o = some p) : p.slot ≠ slot := by
    intro he
    obtain ⟨-, hn, -⟩ := h.out o p ho
    rw [he, hs] at hn
    cases hn
  refine ⟨?_, ?_, ?_, ?_, ?_, ?_⟩
  · rw [hpool]
    exact h.kept.without hf
  · intro slot' s' hs'
    rw [hpool, Pool.getElem?_without] at hs'
    split_ifs at hs'
    · cases hs'.2
    · exact h.parked slot' s' hs'
  · rw [hlive]
    exact h.nodup
  · intro id
    rw [hlive, hplace]
    exact h.live_iff id
  · intro o p ho
    rw [hpool, Pool.getElem?_without]
    rcases hholds o p ho with ⟨-, rfl⟩ | ho
    · refine ⟨hp, ?_, hfd⟩
      rw [if_pos (show t.place.slot = slot from ht)]
      exact ⟨(Array.getElem?_eq_some_iff.1 hs).1, rfl⟩
    · obtain ⟨h1, h2, h3⟩ := h.out o p ho
      refine ⟨h1, ?_, h3⟩
      rw [if_neg (hne o p ho)]
      exact h2
  · intro o o' p p' ho ho' he
    rcases hholds o p ho with ⟨rfl, rfl⟩ | ho <;> rcases hholds o' p' ho' with ⟨rfl, rfl⟩ | ho'
    · rfl
    · exact absurd (he.symm.trans ht) (hne o' p' ho')
    · exact absurd (he.trans ht) (hne o p ho)
    · exact h.apart o o' p p' ho ho' he

theorem Holding.giveBack (h : Holding r hand) {o₀ : Owner} {p₀ : Place}
    (h₀ : r.holds hand o₀ = some p₀) (hpool : r'.pool = r.pool.parked p₀.slot .empty)
    (hholds : ∀ o, r'.holds hand' o = if o = o₀ then none else r.holds hand o)
    (hlive : ∀ id, id ∈ r'.live ↔ id ∈ r.live ∧ o₀ ≠ .conn id) (hnodup : r'.live.Nodup) :
    Holding r' hand' := by
  obtain ⟨-, hs₀, -⟩ := h.out o₀ p₀ h₀
  have hold (o : Owner) (p : Place) (ho : r'.holds hand' o = some p) :
      o ≠ o₀ ∧ r.holds hand o = some p := by
    rw [hholds] at ho
    split_ifs at ho with ho'
    exact ⟨ho', ho⟩
  refine ⟨?_, ?_, hnodup, ?_, ?_, ?_⟩
  · rw [hpool]
    exact h.kept.parked hs₀ .empty
  · intro slot s hs
    rw [hpool, Pool.getElem?_parked] at hs
    split_ifs at hs
    · exact Option.some.inj hs.2
    · exact h.parked slot s hs
  · intro id
    rw [hlive, h.live_iff]
    have hp : r'.place? id = if .conn id = o₀ then none else r.place? id := hholds (.conn id)
    rw [hp]
    split_ifs with hi
    · simp [hi]
    · simp [Ne.symm hi]
  · intro o p ho
    obtain ⟨hne, ho⟩ := hold o p ho
    obtain ⟨h1, h2, h3⟩ := h.out o p ho
    rw [hpool, Pool.getElem?_parked, if_neg (fun he ↦ hne (h.apart o o₀ p p₀ ho h₀ he))]
    exact ⟨h1, h2, h3⟩
  · intro o o' p p' ho ho' he
    exact h.apart o o' p p' (hold o p ho).2 (hold o' p' ho').2 he

theorem Holding.settle {t : Token Stream} (h : Holding r (some t)) {id : Nat}
    (hpool : r'.pool = r.pool) (hlive : r'.live = r.live ++ [id]) (hid : r.place? id = none)
    (hplace : ∀ id', r'.place? id' = if id' = id then some t.place else r.place? id') :
    Holding r' none := by
  have hnew : id ∉ r.live := by
    rw [h.live_iff, hid]
    nofun
  have hold (o : Owner) (p : Place) (ho : r'.holds none o = some p) :
      o = .conn id ∧ p = t.place ∨ o ≠ .hand ∧ r.holds (some t) o = some p := by
    cases o with
    | conn id' =>
      have ho := (hplace id').symm.trans ho
      split_ifs at ho with he
      · exact .inl ⟨by rw [he], (Option.some.inj ho).symm⟩
      · exact .inr ⟨nofun, ho⟩
    | _ => cases ho
  have hhand : r.holds (some t) .hand = some t.place := rfl
  refine ⟨?_, ?_, ?_, ?_, ?_, ?_⟩
  · rw [hpool]
    exact h.kept
  · rw [hpool]
    exact h.parked
  · rw [hlive, List.nodup_append]
    exact ⟨h.nodup, List.pairwise_singleton _ id, fun a ha b hb he ↦
      hnew (List.mem_singleton.1 hb ▸ he ▸ ha)⟩
  · intro id'
    rw [hlive, List.mem_append, List.mem_singleton, hplace, h.live_iff]
    split_ifs with he
    · simp [he]
    · simp [he]
  · intro o p ho
    rw [hpool]
    rcases hold o p ho with ⟨-, rfl⟩ | ⟨-, ho⟩
    · exact h.out .hand t.place hhand
    · exact h.out o p ho
  · intro o o' p p' ho ho' he
    rcases hold o p ho with ⟨rfl, rfl⟩ | ⟨hne, ho⟩ <;>
      rcases hold o' p' ho' with ⟨rfl, rfl⟩ | ⟨hne', ho'⟩
    · rfl
    · exact absurd (h.apart .hand o' t.place p' hhand ho' he).symm hne'
    · exact absurd (h.apart o .hand p t.place ho hhand he) hne
    · exact h.apart o o' p p' ho ho' he

theorem Holding.drop (h : Holding r hand) : Holding r none := by
  have hold (o : Owner) (p : Place) (ho : r.holds none o = some p) : r.holds hand o = some p := by
    cases o with
    | conn id => exact ho
    | _ => cases ho
  exact ⟨h.kept, h.parked, h.nodup, h.live_iff, fun o p ho ↦ h.out o p (hold o p ho),
    fun o o' p p' ho ho' ↦ h.apart o o' p p' (hold o p ho) (hold o' p' ho')⟩

end Reactor

end PollReactor
