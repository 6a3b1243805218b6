import PollReactor.Proofs.Pool
import Mathlib.Data.List.Induction
import Mathlib.Data.List.Nodup
import Mathlib.Data.List.Perm.Basic
import Mathlib.Data.List.Perm.Subperm
import Mathlib.Logic.Function.Basic

namespace PollReactor

namespace Pool.Kept

variable {α : Type} {p : Pool α} (h : p.Kept)

include h

theorem count_free (slot : Nat) :
    p.free.count slot = if (p.slots[slot]?).join.isSome then 1 else 0 := by
  have hm : slot ∈ p.free ↔ (p.slots[slot]?).join.isSome := by
    simp only [h.free_iff, Option.isSome_iff_exists, Option.join_eq_some_iff]
  rw [h.nodup.count]
  simp only [hm]

theorem lt_capacity {slot : Nat} (hm : slot ∈ p.free) : slot < p.capacity := by
  obtain ⟨_, hv⟩ := (h.free_iff slot).1 hm
  exact (Array.getElem?_eq_some_iff.1 hv).1

theorem available_add_inUse : p.available + p.inUse = p.capacity := by
  have hsub := List.Nodup.subperm h.nodup
    (fun slot hm ↦ List.mem_range.2 (h.lt_capacity hm))
  have hle : p.free.length ≤ p.capacity := by simpa using hsub.length_le
  exact Nat.add_sub_cancel' hle

theorem reserve_eq_exhausted : p.reserve = .exhausted ↔ p.free = [] := by
  obtain ⟨hf, hr⟩ | ⟨slot, free, value, hf, hv, hr⟩ := h.reserve
  · simp only [hf, hr]
  · simp only [hf, hr, reduceCtorEq]

end Pool.Kept

def Token.isFor {α : Type} (id slot : Nat) (t : Token α) : Bool := t.pool = id ∧ t.slot = slot

structure Depot (α : Type) where
  pools : Nat → Option (Pool α)
  /-- The tokens that were handed out and neither came back nor were lost. -/
  tokens : List (Token α)
  /-- The tokens that were lost with their object, also those given back to the wrong pool. -/
  lost : List (Token α)
  /-- The objects each pool was made of, as the bearers of their tokens have left them. -/
  objects : Nat → List α
  /-- Each object that was put into a slot, the latest first. -/
  parkings : List (Token α)

/-- A call names a pool by its identity, and a token by its position in `Depot.tokens`. It does
nothing if there is none of that name. -/
inductive PoolCall (α : Type) where
  | make (id : Nat) (objects : List α)
  | reserve (id : Nat)
  | release (id n : Nat)
  | mutate (n : Nat) (f : α → α)
  | lose (n : Nat)

namespace Depot

variable {α : Type}

def empty : Depot α where
  pools _ := none
  tokens := []
  lost := []
  objects _ := []
  parkings := []

variable (d : Depot α)

def make (id : Nat) (objects : List α) : Depot α :=
  match d.pools id, Pool.make id objects with
  | none, .ok p =>
    { d with
      pools := Function.update d.pools id (some p)
      objects := Function.update d.objects id objects
      parkings := objects.mapIdx (⟨id, ·, ·⟩) ++ d.parkings }
  | _, _ => d

def reserve (id : Nat) : Depot α :=
  match (d.pools id).map Pool.reserve with
  | some (.token t p) =>
    { d with pools := Function.update d.pools id (some p), tokens := t :: d.tokens }
  | _ => d

def release (id n : Nat) : Depot α :=
  match d.tokens[n]?, d.pools id with
  | some t, some p =>
    let parked := (p.release t).1 = .parked
    { d with
      pools := Function.update d.pools id (some (p.release t).2)
      tokens := d.tokens.eraseIdx n
      lost := if parked then d.lost else t :: d.lost
      parkings := if parked then t :: d.parkings else d.parkings }
  | _, _ => d

def mutate (n : Nat) (f : α → α) : Depot α :=
  match d.tokens[n]? with
  | none => d
  | some t =>
    { d with
      tokens := d.tokens.set n { t with value := f t.value }
      objects := Function.update d.objects t.pool ((d.objects t.pool).modify t.slot f) }

def lose (n : Nat) : Depot α :=
  match d.tokens[n]? with
  | none => d
  | some t => { d with tokens := d.tokens.eraseIdx n, lost := t :: d.lost }

def perform : PoolCall α → Depot α
  | .make id objects => d.make id objects
  | .reserve id => d.reserve id
  | .release id n => d.release id n
  | .mutate n f => d.mutate n f
  | .lose n => d.lose n

def after (calls : List (PoolCall α)) : Depot α := calls.foldl perform empty

def parkedAt (id slot : Nat) : List α := ((d.pools id).bind fun p ↦ (p.slots[slot]?).join).toList

def heldAt (ts : List (Token α)) (id slot : Nat) : List α :=
  (ts.filter (·.isFor id slot)).map (·.value)

def holders (id slot : Nat) : List α :=
  d.parkedAt id slot ++ heldAt d.tokens id slot ++ heldAt d.lost id slot

section Held

variable {ts us : List (Token α)} {t : Token α} {id slot n : Nat}

theorem isFor_iff : t.isFor id slot ↔ t.pool = id ∧ t.slot = slot := decide_eq_true_iff

theorem heldAt_append : heldAt (ts ++ us) id slot = heldAt ts id slot ++ heldAt us id slot := by
  simp only [heldAt, List.filter_append, List.map_append]

theorem heldAt_cons : heldAt (t :: ts) id slot =
    if t.pool = id ∧ t.slot = slot then t.value :: heldAt ts id slot else heldAt ts id slot := by
  simp only [heldAt, List.filter_cons, isFor_iff]
  split_ifs <;> rfl

theorem heldAt_perm (h : ts.Perm us) : (heldAt ts id slot).Perm (heldAt us id slot) :=
  (h.filter _).map _

theorem tokens_perm (h : ts[n]? = some t) : ts.Perm (t :: ts.eraseIdx n) := by
  obtain ⟨hn, rfl⟩ := List.getElem?_eq_some_iff.1 h
  exact (List.getElem_cons_eraseIdx_perm hn).symm

theorem heldAt_eraseIdx (h : ts[n]? = some t) :
    (heldAt ts id slot).Perm (heldAt (t :: ts.eraseIdx n) id slot) := heldAt_perm (tokens_perm h)

end Held

/-- The pool of this identity is in order, and each of its objects is in one place: in its slot, or
in a token for it. -/
structure SoundAt (id : Nat) : Prop where
  pool : ∀ p, d.pools id = some p → p.id = id ∧ p.Kept ∧ p.slots.size = (d.objects id).length
  unmade : d.pools id = none → d.objects id = []
  one_place : ∀ slot, (d.holders id slot).Perm ((d.objects id)[slot]?).toList
  latest : ∀ slot, ∀ v ∈ d.parkedAt id slot, (heldAt d.parkings id slot).head? = some v

def Sound : Prop := ∀ id, d.SoundAt id

theorem empty_sound : (empty : Depot α).Sound := fun _ ↦
  ⟨fun _ h ↦ (nomatch h), fun _ ↦ rfl, fun _ ↦ .refl _, fun _ _ h ↦ (nomatch h)⟩

variable {d} {id : Nat}

theorem parkedAt_eq {p : Pool α} (h : d.pools id = some p) (slot : Nat) :
    d.parkedAt id slot = (p.slots[slot]?).join.toList := by
  rw [parkedAt, h, Option.bind_some]

theorem SoundAt.congr {d' : Depot α} (h : d.SoundAt id) (hp : d'.pools id = d.pools id)
    (ho : d'.objects id = d.objects id)
    (ht : ∀ slot,
      (heldAt (d'.tokens ++ d'.lost) id slot).Perm (heldAt (d.tokens ++ d.lost) id slot))
    (hk : ∀ slot, heldAt d'.parkings id slot = heldAt d.parkings id slot) : d'.SoundAt id := by
  refine ⟨?_, ?_, ?_, ?_⟩
  · rw [hp, ho]
    exact h.pool
  · rw [hp, ho]
    exact h.unmade
  · intro slot
    have hw := h.one_place slot
    rw [holders, List.append_assoc, ← heldAt_append] at hw ⊢
    rw [ho, parkedAt, hp]
    exact (List.Perm.append_left _ (ht slot)).trans hw
  · intro slot
    rw [hk, parkedAt, hp]
    exact h.latest slot

theorem sole {a : α} {xs ys zs : List α} {o : Option α}
    (h : (xs ++ a :: ys ++ zs).Perm o.toList) : xs = [] ∧ ys = [] ∧ zs = [] ∧ o = some a := by
  cases o with
  | none => exact absurd h.length_eq (by simp)
  | some b =>
    have hl := h.length_eq
    simp only [List.length_append, List.length_cons, Option.toList_some, List.length_nil] at hl
    obtain ⟨rfl, rfl, rfl⟩ : xs = [] ∧ ys = [] ∧ zs = [] := by
      simp only [← List.length_eq_zero_iff]
      omega
    exact ⟨rfl, rfl, rfl, congrArg some (List.singleton_perm_singleton.1 h).symm⟩

theorem Sound.token (h : d.Sound) {n : Nat} {t : Token α} (ht : d.tokens[n]? = some t) :
    d.parkedAt t.pool t.slot = [] ∧ heldAt (d.tokens.eraseIdx n) t.pool t.slot = [] ∧
      heldAt d.lost t.pool t.slot = [] ∧ (d.objects t.pool)[t.slot]? = some t.value := by
  apply sole
  refine List.Perm.trans ?_ ((h t.pool).one_place t.slot)
  refine List.Perm.append_right _ (List.Perm.append_left _ ?_)
  have hp : (heldAt d.tokens t.pool t.slot).Perm _ := heldAt_eraseIdx ht
  rw [heldAt_cons, if_pos ⟨rfl, rfl⟩] at hp
  exact hp.symm

theorem Sound.vacant (h : d.Sound) {n : Nat} {t : Token α} (ht : d.tokens[n]? = some t) :
    ∃ p, d.pools t.pool = some p ∧ p.slots[t.slot]? = some none := by
  obtain ⟨hv, -, -, ho⟩ := h.token ht
  cases hp : d.pools t.pool with
  | none =>
    rw [(h t.pool).unmade hp] at ho
    cases ho
  | some p =>
    obtain ⟨-, -, hs⟩ := (h t.pool).pool p hp
    obtain ⟨hlt, -⟩ := List.getElem?_eq_some_iff.1 ho
    rw [← hs] at hlt
    rw [parkedAt_eq hp, Array.getElem?_eq_getElem hlt, Option.join_some,
      Option.toList_eq_nil_iff] at hv
    exact ⟨p, rfl, (Array.getElem?_eq_getElem hlt).trans (congrArg some hv)⟩

theorem heldAt_mapIdx (id id' slot : Nat) (objects : List α) :
    heldAt (objects.mapIdx (⟨id, ·, ·⟩)) id' slot =
      if id' = id then objects[slot]?.toList else [] := by
  induction objects using List.reverseRecOn with
  | nil => simp [heldAt]
  | append_singleton objects x ih =>
    rw [List.mapIdx_concat, heldAt_append, ih, heldAt_cons]
    split_ifs <;> grind [heldAt]

theorem join_ofList (id slot : Nat) (objects : List α) :
    ((Pool.ofList id objects).slots[slot]?).join = objects[slot]? := by
  cases hx : objects[slot]? <;> simp [Pool.ofList, hx]

theorem join_without {p : Pool α} {slot slot' : Nat} {free : List Nat} :
    ((p.without slot free).slots[slot']?).join =
      if slot' = slot then none else (p.slots[slot']?).join := by
  simp only [Pool.without, Array.getElem?_setIfInBounds]
  grind

theorem join_parked {p : Pool α} {slot slot' : Nat} {value : α} (h : p.slots[slot]? = some none) :
    ((p.parked slot value).slots[slot']?).join =
      if slot' = slot then some value else (p.slots[slot']?).join := by
  obtain ⟨hlt, -⟩ := Array.getElem?_eq_some_iff.1 h
  simp only [Pool.parked, Array.getElem?_setIfInBounds]
  grind

theorem SoundAt.unmade_holders (h : d.SoundAt id) (hn : d.pools id = none) (slot : Nat) :
    heldAt d.tokens id slot = [] ∧ heldAt d.lost id slot = [] := by
  have hw := h.one_place slot
  rw [h.unmade hn] at hw
  have he := hw.eq_nil
  simp only [holders, List.append_eq_nil_iff] at he
  exact ⟨he.1.2, he.2⟩

theorem Sound.make (h : d.Sound) (id : Nat) (objects : List α) : (d.make id objects).Sound := by
  unfold Depot.make Pool.make
  cases hp : d.pools id with
  | some p => exact h
  | none =>
    split_ifs with ho
    · exact h
    · intro id'
      by_cases hi : id' = id
      · subst hi
        obtain ⟨ht, hl⟩ := forall_and.1 ((h id').unmade_holders hp)
        refine ⟨?_, ?_, ?_, ?_⟩
        · simp only [Function.update_self, Option.some.injEq, forall_eq']
          exact ⟨rfl, Pool.ofList_kept id' objects, by simp [Pool.ofList]⟩
        · intro hn
          simp at hn
        · intro slot
          simp only [holders, parkedAt, Function.update_self, Option.bind_some, join_ofList, ht, hl,
            List.append_nil, List.Perm.refl]
        · intro slot v hv
          simp only [parkedAt, Function.update_self, Option.bind_some, join_ofList,
            Option.mem_toList] at hv
          simp only [heldAt_append, heldAt_mapIdx, if_true, hv, Option.toList_some,
            List.singleton_append, List.head?_cons]
      · apply (h id').congr
        · exact Function.update_of_ne hi _ _
        · exact Function.update_of_ne hi _ _
        · exact fun slot ↦ .refl _
        · intro slot
          rw [heldAt_append, heldAt_mapIdx, if_neg hi, List.nil_append]

theorem Sound.reserved (h : d.Sound) {p : Pool α} {slot : Nat} {free : List Nat} {value : α}
    (hp : d.pools p.id = some p) (hf : p.free = slot :: free)
    (hv : p.slots[slot]? = some (some value)) :
    Sound { d with
      pools := Function.update d.pools p.id (some (p.without slot free))
      tokens := ⟨p.id, slot, value⟩ :: d.tokens } := by
  obtain ⟨-, hk, hs⟩ := (h p.id).pool p hp
  intro id
  by_cases hi : id = p.id
  · subst hi
    refine ⟨?_, ?_, ?_, ?_⟩
    · simp only [Function.update_self, Option.some.injEq, forall_eq']
      exact ⟨rfl, hk.without hf, by simpa [Pool.without] using hs⟩
    · intro hn
      simp at hn
    · intro slot'
      have hw := (h p.id).one_place slot'
      rw [holders, parkedAt_eq hp] at hw
      simp only [holders, parkedAt, Function.update_self, Option.bind_some, join_without,
        heldAt_cons, true_and]
      by_cases hs' : slot' = slot
      · subst hs'
        simpa [hv] using hw
      · simpa [hs', Ne.symm hs'] using hw
    · intro slot' v hm
      simp only [parkedAt, Function.update_self, Option.bind_some, join_without] at hm
      split_ifs at hm
      · cases hm
      · exact (h p.id).latest slot' v (by rwa [parkedAt_eq hp])
  · apply (h id).congr
    · exact Function.update_of_ne hi _ _
    · rfl
    · intro slot'
      rw [List.cons_append, heldAt_cons, if_neg (fun hc ↦ hi hc.1.symm)]
    · exact fun slot' ↦ rfl

theorem Sound.reserve (h : d.Sound) (id : Nat) : (d.reserve id).Sound := by
  unfold Depot.reserve
  cases hp : d.pools id with
  | none => exact h
  | some p =>
    obtain ⟨rfl, hk, -⟩ := (h id).pool p hp
    rw [Option.map_some]
    obtain ⟨-, hr⟩ | ⟨slot, free, value, hf, hv, hr⟩ := hk.reserve
    · rw [hr]
      exact h
    · rw [hr]
      exact h.reserved hp hf hv

theorem Sound.forget (h : d.Sound) {n : Nat} {t : Token α} (ht : d.tokens[n]? = some t) :
    Sound { d with tokens := d.tokens.eraseIdx n, lost := t :: d.lost } := by
  intro id
  refine (h id).congr rfl rfl ?_ (fun _ ↦ rfl)
  intro slot
  exact heldAt_perm (List.perm_middle.trans ((tokens_perm ht).symm.append_right _))

theorem heldAt_eraseIdx_of_ne {ts : List (Token α)} {n slot : Nat} {t : Token α}
    (ht : ts[n]? = some t) (hc : ¬ (t.pool = id ∧ t.slot = slot)) :
    (heldAt (ts.eraseIdx n) id slot).Perm (heldAt ts id slot) := by
  have he : (heldAt ts id slot).Perm _ := heldAt_eraseIdx ht
  rw [heldAt_cons, if_neg hc] at he
  exact he.symm

theorem Sound.parked (h : d.Sound) {n : Nat} {t : Token α} {p : Pool α}
    (ht : d.tokens[n]? = some t) (hp : d.pools t.pool = some p)
    (hv : p.slots[t.slot]? = some none) :
    Sound { d with
      pools := Function.update d.pools t.pool (some (p.parked t.slot t.value))
      tokens := d.tokens.eraseIdx n
      parkings := t :: d.parkings } := by
  obtain ⟨-, hrest, hlost, ho⟩ := h.token ht
  obtain ⟨hid, hk, hs⟩ := (h t.pool).pool p hp
  intro id
  by_cases hi : id = t.pool
  · subst hi
    refine ⟨?_, ?_, ?_, ?_⟩
    · simp only [Function.update_self, Option.some.injEq, forall_eq']
      exact ⟨hid, hk.parked hv _, by simpa [Pool.parked] using hs⟩
    · intro hn
      simp at hn
    · intro slot
      have hw := (h t.pool).one_place slot
      rw [holders, parkedAt_eq hp] at hw
      simp only [holders, parkedAt, Function.update_self, Option.bind_some, join_parked hv]
      by_cases hs' : slot = t.slot
      · subst hs'
        simp [hrest, hlost, ho]
      · rw [if_neg hs']
        refine List.Perm.trans ?_ hw
        refine List.Perm.append_right _ (List.Perm.append_left _ ?_)
        exact heldAt_eraseIdx_of_ne ht (fun hc ↦ hs' hc.2.symm)
    · intro slot v hm
      simp only [parkedAt, Function.update_self, Option.bind_some, join_parked hv] at hm
      rw [heldAt_cons]
      by_cases hs' : slot = t.slot
      · subst hs'
        simpa [eq_comm] using hm
      · rw [if_neg hs'] at hm
        rw [if_neg (fun hc ↦ hs' hc.2.symm)]
        exact (h t.pool).latest slot v (by rwa [parkedAt_eq hp])
  · apply (h id).congr
    · exact Function.update_of_ne hi _ _
    · rfl
    · intro slot
      rw [heldAt_append, heldAt_append]
      exact (heldAt_eraseIdx_of_ne ht (fun hc ↦ hi hc.1.symm)).append_right _
    · intro slot
      rw [heldAt_cons, if_neg (fun hc ↦ hi hc.1.symm)]

theorem Sound.release (h : d.Sound) (id n : Nat) : (d.release id n).Sound := by
  unfold Depot.release
  cases ht : d.tokens[n]? with
  | none => exact h
  | some t =>
    cases hp : d.pools id with
    | none => exact h
    | some p =>
      obtain ⟨hid, -, -⟩ := (h id).pool p hp
      by_cases hi : t.pool = id
      · obtain ⟨p', hp', hv⟩ := h.vacant ht
        subst hi
        rw [hp, Option.some.injEq] at hp'
        subst hp'
        simp only [Pool.release_eq hid.symm hv, if_true]
        exact h.parked ht hp hv
      · have hr : p.release t = (.foreign, p) := if_pos (by rwa [hid])
        simp only [hr, reduceCtorEq, if_false]
        rw [← hp, Function.update_eq_self]
        exact h.forget ht

theorem heldAt_set {ts : List (Token α)} {n : Nat} {t : Token α} (ht : ts[n]? = some t) (v : α)
    (id slot : Nat) :
    (heldAt (ts.set n { t with value := v }) id slot).Perm
      (if t.pool = id ∧ t.slot = slot then v :: heldAt (ts.eraseIdx n) id slot
        else heldAt ts id slot) := by
  obtain ⟨hn, -⟩ := List.getElem?_eq_some_iff.1 ht
  have hs : (heldAt (ts.set n { t with value := v }) id slot).Perm _ :=
    heldAt_perm (List.set_perm_cons_eraseIdx hn _)
  rw [heldAt_cons] at hs
  split_ifs at hs ⊢ with hc
  · exact hs
  · exact hs.trans (heldAt_eraseIdx_of_ne ht hc)

theorem Sound.mutate (h : d.Sound) (n : Nat) (f : α → α) : (d.mutate n f).Sound := by
  unfold Depot.mutate
  cases ht : d.tokens[n]? with
  | none => exact h
  | some t =>
    obtain ⟨hv, hrest, hlost, ho⟩ := h.token ht
    have hset := heldAt_set ht (f t.value)
    intro id
    by_cases hi : id = t.pool
    · subst hi
      refine ⟨?_, ?_, ?_, (h t.pool).latest⟩
      · simp only [Function.update_self, List.length_modify]
        exact (h t.pool).pool
      · intro hn
        simp only [Function.update_self]
        rw [(h t.pool).unmade hn, List.modify_nil]
      · intro slot
        have hw := (h t.pool).one_place slot
        have hs := hset t.pool slot
        rw [holders] at hw ⊢
        simp only [Function.update_self]
        by_cases hc : t.slot = slot
        · subst hc
          rw [if_pos ⟨rfl, rfl⟩, hrest] at hs
          rw [List.getElem?_modify_eq, ho]
          simp only [hlost, List.append_nil]
          refine List.Perm.trans (List.Perm.append_left _ hs) ?_
          exact .of_eq (congrArg (· ++ [f t.value]) hv)
        · rw [if_neg (fun h ↦ hc h.2)] at hs
          rw [List.getElem?_modify_ne _ _ hc]
          exact (List.Perm.append_right _ (List.Perm.append_left _ hs)).trans hw
    · apply (h id).congr
      · rfl
      · exact Function.update_of_ne hi _ _
      · intro slot
        have hs := hset id slot
        rw [if_neg (fun hc ↦ hi hc.1.symm)] at hs
        rw [heldAt_append, heldAt_append]
        exact hs.append_right _
      · exact fun slot ↦ rfl

theorem Sound.lose (h : d.Sound) (n : Nat) : (d.lose n).Sound := by
  unfold Depot.lose
  cases ht : d.tokens[n]? with
  | none => exact h
  | some t => exact h.forget ht

theorem Sound.perform (h : d.Sound) (c : PoolCall α) : (d.perform c).Sound := by
  cases c with
  | make id objects => exact h.make id objects
  | reserve id => exact h.reserve id
  | release id n => exact h.release id n
  | mutate n f => exact h.mutate n f
  | lose n => exact h.lose n

theorem after_sound (calls : List (PoolCall α)) : (after calls).Sound := by
  unfold after
  induction calls using List.reverseRecOn with
  | nil => exact empty_sound
  | append_singleton calls c ih =>
    rw [List.foldl_append]
    exact ih.perform c

/-- What holds of the pool `p` of this identity: its free slots, its tokens, its objects, and what
it answers. -/
structure Keeps (d : Depot α) (id : Nat) (p : Pool α) : Prop where
  free_count : ∀ slot, p.free.count slot = if (p.slots[slot]?).join.isSome then 1 else 0
  apart : ((d.tokens.filter (·.pool = id)).map (·.slot)).Nodup
  sum : p.available + p.inUse = p.capacity
  exhausted_iff : p.reserve = .exhausted ↔
    ∀ slot < p.capacity, ∃ t ∈ d.tokens ++ d.lost, t.pool = id ∧ t.slot = slot
  reserved : p.reserve ≠ .exhausted → ∃ t p', p.reserve = .token t p' ∧ t.pool = id ∧
    (heldAt d.parkings id t.slot).head? = some t.value
  never_vacant : ∀ slot, p.reserve ≠ .vacantSlot slot
  taken_back : ∀ t ∈ d.tokens, t.pool = id → (p.release t).1 = .parked
  unmoved : ∀ n t, d.tokens[n]? = some t → t.pool ≠ id →
    p.release t = (.foreign, p) ∧ (d.release id n).pools = d.pools
  made : (d.objects id).length = p.capacity
  one_place : ∀ slot, d.holders id slot = ((d.objects id)[slot]?).toList

theorem SoundAt.holders_eq (h : d.SoundAt id) (slot : Nat) :
    d.holders id slot = ((d.objects id)[slot]?).toList := by
  have hp := h.one_place slot
  cases ho : (d.objects id)[slot]? with
  | none =>
    rw [ho] at hp
    exact hp.eq_nil
  | some v =>
    rw [ho] at hp
    exact List.perm_singleton.1 hp

theorem heldAt_ne_nil {ts : List (Token α)} {slot : Nat} :
    heldAt ts id slot ≠ [] ↔ ∃ t ∈ ts, t.pool = id ∧ t.slot = slot := by
  simp [heldAt, List.filter_eq_nil_iff, isFor_iff]

theorem length_heldAt (ts : List (Token α)) (slot : Nat) :
    (heldAt ts id slot).length = ((ts.filter (·.pool = id)).map (·.slot)).count slot := by
  rw [List.count_eq_countP, List.countP_map, List.countP_filter, List.countP_eq_length_filter,
    heldAt, List.length_map]
  congr 2
  funext t
  simp only [Token.isFor, Function.comp_apply, Bool.decide_and, Bool.and_comm, beq_eq_decide]

theorem SoundAt.length_holders (h : d.SoundAt id) (slot : Nat) :
    (d.holders id slot).length ≤ 1 := by
  rw [h.holders_eq]
  cases (d.objects id)[slot]? <;> simp

theorem SoundAt.parked_or_held (h : d.SoundAt id) {p : Pool α} (hp : d.pools id = some p)
    {slot : Nat} (hlt : slot < p.capacity) :
    d.parkedAt id slot = [] ↔ ∃ t ∈ d.tokens ++ d.lost, t.pool = id ∧ t.slot = slot := by
  have hh := h.holders_eq slot
  obtain ⟨-, -, hs⟩ := h.pool p hp
  unfold Pool.capacity at hlt
  rw [List.getElem?_eq_getElem (hs ▸ hlt), holders, List.append_assoc, ← heldAt_append] at hh
  rw [← heldAt_ne_nil]
  have hl := congrArg List.length hh
  simp only [List.length_append, Option.toList_some, List.length_singleton] at hl
  rw [← List.length_eq_zero_iff, ← List.length_pos_iff]
  omega

theorem Sound.keeps (h : d.Sound) {p : Pool α} (hp : d.pools id = some p) : d.Keeps id p := by
  obtain ⟨rfl, hk, hs⟩ := (h id).pool p hp
  have hfree (slot : Nat) : slot ∉ p.free ↔ d.parkedAt p.id slot = [] := by
    rw [hk.free_iff, parkedAt_eq hp, Option.toList_eq_nil_iff, ← Option.not_isSome_iff_eq_none,
      Option.isSome_iff_exists]
    simp only [Option.join_eq_some_iff]
  constructor
  case free_count => exact hk.count_free
  case apart =>
    rw [List.nodup_iff_count_le_one]
    intro slot
    rw [← length_heldAt]
    have hl := (h p.id).length_holders slot
    simp only [holders, List.length_append] at hl
    omega
  case sum => exact hk.available_add_inUse
  case exhausted_iff =>
    rw [hk.reserve_eq_exhausted, List.eq_nil_iff_forall_not_mem]
    constructor
    · intro hf slot hlt
      exact ((h p.id).parked_or_held hp hlt).1 ((hfree slot).1 (hf slot))
    · intro hf slot hm
      have hlt := hk.lt_capacity hm
      exact (hfree slot).2 (((h p.id).parked_or_held hp hlt).2 (hf slot hlt)) hm
  case reserved =>
    intro hne
    obtain ⟨-, hr⟩ | ⟨slot, free, value, hf, hv, hr⟩ := hk.reserve
    · exact absurd hr hne
    · exact ⟨_, _, hr, rfl, (h p.id).latest slot value (by simp [parkedAt_eq hp, hv])⟩
  case never_vacant =>
    intro slot
    obtain ⟨-, hr⟩ | ⟨_, _, _, -, -, hr⟩ := hk.reserve <;> rw [hr] <;> nofun
  case taken_back =>
    intro t hm hi
    obtain ⟨n, ht⟩ := List.mem_iff_getElem?.1 hm
    obtain ⟨p', hp', hv⟩ := h.vacant ht
    rw [hi, hp, Option.some.injEq] at hp'
    subst hp'
    rw [Pool.release_eq hi hv]
  case unmoved =>
    intro n t ht hi
    have hr : p.release t = (.foreign, p) := if_pos hi
    refine ⟨hr, ?_⟩
    unfold Depot.release
    rw [ht, hp]
    simp only [hr]
    rw [← hp, Function.update_eq_self]
  case made => exact hs.symm
  case one_place => exact (h p.id).holders_eq

/-- Whatever is done to the pools and their tokens, each pool keeps its objects. -/
theorem after_keeps (calls : List (PoolCall α)) {id : Nat} {p : Pool α}
    (hp : (after calls).pools id = some p) : (after calls).Keeps id p :=
  (after_sound calls).keeps hp

/-- A token of one pool is given to another: its object is lost, and both pools are as before. -/
theorem after_keeps_foreign : ∃ p q : Pool Nat,
    let d := after [.make 0 [10, 11], .make 7 [20], .reserve 0, .mutate 0 (· + 5), .reserve 7,
      .release 7 1]
    d.pools 0 = some p ∧ d.Keeps 0 p ∧ p.reserve = .token ⟨0, 1, 11⟩ q ∧
      d.holders 0 0 = [15] ∧ p.inUse = 1 := by
  refine ⟨_, _, rfl, after_keeps _ rfl, rfl, ?_, ?_⟩ <;> rfl

end Depot

end PollReactor
