import PollReactor.Policy

namespace PollReactor

abbrev Journal (ν : Type) := List (Entry (Mark ν))

def SysCall.names : SysCall → List Fd
  | socket _ => []
  | pipe => []
  | statusFlags fd => [fd]
  | setStatusFlags fd _ => [fd]
  | descriptorFlags fd => [fd]
  | setDescriptorFlags fd _ => [fd]
  | setNonblocking fd => [fd]
  | setOption fd .. => [fd]
  | bind fd _ => [fd]
  | listen fd _ => [fd]
  | localName fd => [fd]
  | accept fd => [fd]
  | read fd _ => [fd]
  | write fd _ => [fd]
  | recv fd _ => [fd]
  | recvUrgent fd => [fd]
  | send fd _ => [fd]
  | shutdown fd => [fd]
  | close fd => [fd]
  | clock => []

namespace Entry

variable {ν : Type}

def names : Entry (Mark ν) → List Fd
  | .sys c _ => c.names
  | .remark _ => []

def opens : Entry (Mark ν) → List Fd
  | .sys (.socket _) (.ok fd) => [fd]
  | .sys .pipe (.ok (receiver, sender)) => [receiver, sender]
  | .sys (.accept _) (.ok (fd, _)) => [fd]
  | _ => []

/-- A descriptor is closed by the attempt to close it, whatever the answer. -/
def closes? : Entry (Mark ν) → Option Fd
  | .sys (.close fd) _ => some fd
  | _ => none

def adopts? : Entry (Mark ν) → Option Fd
  | .remark (.adopted fd) => some fd
  | _ => none

def raises : Entry (Mark ν) → Bool
  | .remark (.raised _) => true
  | _ => false

/-- No descriptor comes or goes by the entry, and if it is a call, then on descriptors of the class
`S`. -/
structure Minds (S : Fd → Prop) (e : Entry (Mark ν)) : Prop where
  opens : e.opens = []
  closes : e.closes? = none
  adopts : e.adopts? = none
  names : ∀ fd ∈ e.names, S fd

theorem Minds.mono {S S' : Fd → Prop} {e : Entry (Mark ν)} (h : e.Minds S)
    (hS : ∀ fd, S fd → S' fd) : e.Minds S' :=
  { h with names := fun fd hfd ↦ hS fd (h.names fd hfd) }

end Entry

namespace Journal

variable {ν : Type}

/-- The descriptor was opened or handed over, and not closed since. -/
def IsOpen (fd : Fd) : Journal ν → Prop
  | [] => False
  | e :: j => fd ∈ e.opens ∨ e.adopts? = some fd ∨ e.closes? ≠ some fd ∧ IsOpen fd j

instance decidableIsOpen (fd : Fd) : (j : Journal ν) → Decidable (IsOpen fd j)
  | [] => inferInstanceAs (Decidable False)
  | _ :: j =>
    have := decidableIsOpen fd j
    inferInstanceAs (Decidable (_ ∨ _ ∨ _))

/-- The system never opened a descriptor under a number that was in use. -/
def Fresh : Journal ν → Prop
  | [] => True
  | e :: j => (e.opens.Nodup ∧ ∀ fd ∈ e.opens, ¬ IsOpen fd j) ∧ Fresh j

instance decidableFresh : (j : Journal ν) → Decidable (Fresh j)
  | [] => inferInstanceAs (Decidable True)
  | _ :: j =>
    have := decidableFresh j
    inferInstanceAs (Decidable ((_ ∧ _) ∧ _))

/-- Every callback that ended has returned. -/
def Returned (j : Journal ν) : Prop := ∀ e ∈ j, e.raises = false

instance (j : Journal ν) : Decidable (Returned j) :=
  inferInstanceAs (Decidable (∀ e ∈ j, _))

theorem Fresh.of_append (new : Journal ν) {j : Journal ν} (h : Fresh (new ++ j)) : Fresh j := by
  induction new with
  | nil => exact h
  | cons e new ih => exact ih h.2

theorem Returned.of_append (new : Journal ν) {j : Journal ν} (h : Returned (new ++ j)) :
    Returned j :=
  fun e he ↦ h e (List.mem_append_right new he)

theorem IsOpen.cons {fd : Fd} {e : Entry (Mark ν)} {j : Journal ν} (h : IsOpen fd j)
    (he : e.closes? = none) : IsOpen fd (e :: j) := by
  refine .inr (.inr ⟨?_, h⟩)
  simp [he]

theorem isOpen_append_of_not_closed {fd : Fd} {new j : Journal ν} (h : IsOpen fd j)
    (hn : ∀ e ∈ new, e.closes? ≠ some fd) : IsOpen fd (new ++ j) := by
  induction new with
  | nil => exact h
  | cons e new ih =>
    have hj := ih fun e he ↦ hn e (List.mem_cons_of_mem _ he)
    exact .inr (.inr ⟨hn e List.mem_cons_self, hj⟩)

theorem isOpen_close {fd fd' : Fd} {a : Except Errno Unit} {j : Journal ν} :
    IsOpen fd' (.sys (.close fd) a :: j) ↔ fd' ≠ fd ∧ IsOpen fd' j := by
  simp only [IsOpen, Entry.opens, Entry.closes?, Entry.adopts?]
  grind

/-- Only entries of the class `C` were written down between the two. -/
def Adds {μ : Type} (C : Entry μ → Prop) (j j' : List (Entry μ)) : Prop :=
  ∃ new, j' = new ++ j ∧ ∀ e ∈ new, C e

namespace Adds

variable {μ : Type} {C D : Entry μ → Prop} {j j' j'' : List (Entry μ)}

theorem refl (j : List (Entry μ)) : Adds C j j := ⟨[], rfl, fun _ h ↦ by cases h⟩

theorem single {e : Entry μ} (h : C e) : Adds C j (e :: j) :=
  ⟨[e], rfl, fun e' he ↦ by rw [List.mem_singleton.1 he]; exact h⟩

theorem trans (h : Adds C j j') (h' : Adds C j' j'') : Adds C j j'' := by
  obtain ⟨new, rfl, hn⟩ := h
  obtain ⟨newer, rfl, hn'⟩ := h'
  refine ⟨newer ++ new, by rw [List.append_assoc], ?_⟩
  intro e he
  rcases List.mem_append.1 he with he | he
  · exact hn' e he
  · exact hn e he

theorem cons {e : Entry μ} (h : Adds C j j') (he : C e) : Adds C j (e :: j') :=
  h.trans (single he)

theorem mono (h : Adds C j j') (hCD : ∀ e, C e → D e) : Adds D j j' := by
  obtain ⟨new, rfl, hn⟩ := h
  exact ⟨new, rfl, fun e he ↦ hCD e (hn e he)⟩

theorem of_append {new : List (Entry μ)} (h : Adds C j j') (hj : j' = new ++ j) :
    ∀ e ∈ new, C e := by
  obtain ⟨new', rfl, hn⟩ := h
  exact List.append_cancel_right hj ▸ hn

theorem fresh {C : Entry (Mark ν) → Prop} {j j' : Journal ν} (h : Adds C j j') (hf : Fresh j') :
    Fresh j := by
  obtain ⟨new, rfl, -⟩ := h
  exact hf.of_append new

theorem returned {C : Entry (Mark ν) → Prop} {j j' : Journal ν} (h : Adds C j j')
    (hr : Returned j') : Returned j := by
  obtain ⟨new, rfl, -⟩ := h
  exact hr.of_append new

end Adds

theorem isOpen_minds {S : Fd → Prop} {fd : Fd} {j j' : Journal ν}
    (h : Adds (Entry.Minds S) j j') : IsOpen fd j' ↔ IsOpen fd j := by
  obtain ⟨new, rfl, hn⟩ := h
  induction new with
  | nil => exact Iff.rfl
  | cons e new ih =>
    obtain ⟨ho, hc, ha, -⟩ := hn e List.mem_cons_self
    have ih := ih fun e he ↦ hn e (List.mem_cons_of_mem _ he)
    simp [IsOpen, ho, hc, ha, ih]

end Journal

end PollReactor
