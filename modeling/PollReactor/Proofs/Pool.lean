import PollReactor.Pool

namespace PollReactor.Pool

variable {α : Type} {p : Pool α}

structure Kept (p : Pool α) : Prop where
  nodup : p.free.Nodup
  free_iff : ∀ slot, slot ∈ p.free ↔ ∃ value, p.slots[slot]? = some (some value)

theorem ofList_kept (id : Nat) (objects : List α) : (ofList id objects).Kept where
  nodup := List.nodup_range
  free_iff slot := by
    show slot ∈ List.range objects.length ↔ _
    simp only [ofList, List.mem_range, List.getElem?_toArray, List.getElem?_map,
      Option.map_eq_some_iff, Option.some.injEq, exists_eq_right]
    exact ⟨fun h ↦ ⟨_, List.getElem?_eq_getElem h⟩, fun ⟨_, h⟩ ↦ (List.getElem?_eq_some_iff.1 h).1⟩

def without (p : Pool α) (slot : Nat) (free : List Nat) : Pool α :=
  { p with slots := p.slots.setIfInBounds slot none, free }

theorem Kept.reserve (h : p.Kept) : p.free = [] ∧ p.reserve = .exhausted ∨
    ∃ slot free value, p.free = slot :: free ∧ p.slots[slot]? = some (some value) ∧
      p.reserve = .token ⟨p.id, slot, value⟩ (p.without slot free) := by
  unfold Pool.reserve
  cases hf : p.free with
  | nil => exact .inl ⟨rfl, rfl⟩
  | cons slot free =>
    obtain ⟨value, hv⟩ := (h.free_iff slot).1 (by rw [hf]; exact List.mem_cons_self)
    refine .inr ⟨slot, free, value, rfl, hv, ?_⟩
    simp only [hv, Option.join_some]
    rfl

theorem getElem?_without {slot slot' : Nat} {free : List Nat} {x : Option α} :
    (p.without slot free).slots[slot']? = some x ↔
      if slot' = slot then slot < p.slots.size ∧ x = none else p.slots[slot']? = some x := by
  simp only [without, Array.getElem?_setIfInBounds]
  grind

theorem Kept.without (h : p.Kept) {slot : Nat} {free : List Nat} (hf : p.free = slot :: free) :
    (p.without slot free).Kept := by
  have hn := h.nodup
  rw [hf, List.nodup_cons] at hn
  refine ⟨hn.2, ?_⟩
  intro slot'
  have hi := h.free_iff slot'
  simp only [getElem?_without]
  show slot' ∈ free ↔ _
  rw [hf, List.mem_cons] at hi
  by_cases hs : slot' = slot
  · subst hs
    simp [hn.1]
  · simpa [hs] using hi

def parked (p : Pool α) (slot : Nat) (value : α) : Pool α :=
  { p with slots := p.slots.setIfInBounds slot (some value), free := slot :: p.free }

theorem release_eq {t : Token α} (hp : t.pool = p.id) (hs : p.slots[t.slot]? = some none) :
    p.release t = (.parked, p.parked t.slot t.value) := by
  unfold release
  rw [if_neg (fun h ↦ h hp), hs]
  rfl

theorem getElem?_parked {slot slot' : Nat} {value : α} {x : Option α} :
    (p.parked slot value).slots[slot']? = some x ↔
      if slot' = slot then slot < p.slots.size ∧ x = some value
      else p.slots[slot']? = some x := by
  simp only [parked, Array.getElem?_setIfInBounds]
  grind

theorem Kept.parked (h : p.Kept) {slot : Nat} (hs : p.slots[slot]? = some none) (value : α) :
    (p.parked slot value).Kept := by
  have hf : slot ∉ p.free := by
    rw [h.free_iff, hs]
    simp
  obtain ⟨hlt, -⟩ := Array.getElem?_eq_some_iff.1 hs
  refine ⟨List.nodup_cons.2 ⟨hf, h.nodup⟩, ?_⟩
  intro slot'
  simp only [getElem?_parked]
  show slot' ∈ slot :: p.free ↔ _
  rw [List.mem_cons, h.free_iff slot']
  by_cases hs' : slot' = slot
  · simp [hs', hlt]
  · simp [hs']

theorem parked_without {slot : Nat} {free : List Nat} {value : α} (hf : p.free = slot :: free)
    (hv : p.slots[slot]? = some (some value)) : (p.without slot free).parked slot value = p := by
  obtain ⟨hlt, hv⟩ := Array.getElem?_eq_some_iff.1 hv
  unfold parked without
  simp only [Array.setIfInBounds_setIfInBounds, ← hf]
  rw [Array.setIfInBounds, dif_pos hlt, ← hv, Array.set_getElem_self]

end PollReactor.Pool
