import Mathlib.Order.Defs.Unbundled
import PollReactor.Proofs.Journal
import PollReactor.Proofs.Running

namespace PollReactor

section

variable {σ α β : Type} {I : σ → Prop} {R : σ → σ → Prop}

def Within (R : σ → σ → Prop) (act : StateM σ α) : Prop := ∀ s, R s (act s).2

theorem Within.pure [Std.Refl R] (a : α) : Within R (Pure.pure a) := fun s ↦ refl_of R s

theorem Within.bind [IsTrans σ R] {x : StateM σ α} {f : α → StateM σ β} (hx : Within R x)
    (hf : ∀ s, Within R (f (x s).1)) : Within R (x >>= f) :=
  fun s ↦ trans_of R (hx s) (hf s _)

/-- As far as both go, the readings are the same. -/
def Synchronous (l l' : List Nat) : Prop := l <+: l' ∨ l' <+: l

instance (l l' : List Nat) : Decidable (Synchronous l l') := inferInstanceAs (Decidable (_ ∨ _))

theorem Synchronous.left {l l' m m' : List Nat} (h : Synchronous (l ++ m) (l' ++ m')) :
    Synchronous l l' := by
  have hl := List.prefix_append l m
  have hl' := List.prefix_append l' m'
  cases h with
  | inl h => exact List.prefix_or_prefix_of_prefix (hl.trans h) hl'
  | inr h => exact List.prefix_or_prefix_of_prefix hl (hl'.trans h)

theorem Synchronous.right {l m m' : List Nat} (h : Synchronous (l ++ m) (l ++ m')) :
    Synchronous m m' :=
  h.imp (List.prefix_append_right_inj l).1 (List.prefix_append_right_inj l).1

theorem Synchronous.head {a a' : Nat} {l l' : List Nat} (h : Synchronous (a :: l) (a' :: l')) :
    a = a' := by
  cases h with
  | inl h => exact (List.cons_prefix_cons.1 h).1
  | inr h => exact (List.cons_prefix_cons.1 h).1.symm

class HasClock (σ : Type) where
  /-- What the clock was read to, in order. -/
  readings : σ → List Nat

open HasClock (readings)

variable [HasClock σ]

def readingsSince (s s' : σ) : List Nat := (readings s').drop (readings s).length

theorem readingsSince_append {s s' s'' : σ} (h : readings s <+: readings s')
    (h' : readings s' <+: readings s'') :
    readingsSince s s'' = readingsSince s s' ++ readingsSince s' s'' := by
  obtain ⟨l, hl⟩ := h
  obtain ⟨l', hl'⟩ := h'
  unfold readingsSince
  rw [← hl', ← hl]
  simp

def Untimed (s s' : σ) : Prop := readings s' = readings s

instance : IsPreorder σ Untimed where
  refl _ := rfl
  trans _ _ _ h h' := Eq.trans h' h

theorem Untimed.readings_le {s s' : σ} (h : Untimed s s') : readings s <+: readings s' := by
  have he : readings s' = readings s := h
  exact he ▸ List.prefix_rfl

theorem Untimed.readingsSince {s s' : σ} (h : Untimed s s') : readingsSince s s' = [] := by
  rw [PollReactor.readingsSince, h, List.drop_length]

theorem Synchronous.split {s t u s' t' u' : σ} (hp : readings s <+: readings t)
    (hq : readings t <+: readings u) (hp' : readings s' <+: readings t')
    (hq' : readings t' <+: readings u')
    (h : Synchronous (readingsSince s u) (readingsSince s' u')) :
    Synchronous (readingsSince s t) (readingsSince s' t') ∧
      (readingsSince s t = readingsSince s' t' →
        Synchronous (readingsSince t u) (readingsSince t' u')) := by
  rw [readingsSince_append hp hq, readingsSince_append hp' hq'] at h
  refine ⟨h.left, fun he ↦ ?_⟩
  rw [he] at h
  exact h.right

/-- What holds to `I` goes on doing so, and no reading is lost. -/
def Onward (I : σ → Prop) (s s' : σ) : Prop := I s → I s' ∧ readings s <+: readings s'

instance : IsPreorder σ (Onward I) where
  refl _ h := ⟨h, List.prefix_refl _⟩
  trans _ _ _ h h' hi := by
    obtain ⟨hi', hp⟩ := h hi
    obtain ⟨hi'', hp'⟩ := h' hi'
    exact ⟨hi'', hp.trans hp'⟩

structure Abreast (E : α → α → Prop) (R : σ → σ → Prop) (s s' : σ) (out out' : α × σ) : Prop where
  answer : E out.1 out'.1
  state : R out.2 out'.2
  since : readingsSince s out.2 = readingsSince s' out'.2

/-- From related states, the act comes to the same, if its readings are the same as far as both
go. -/
structure Tandem (I : σ → Prop) (R : σ → σ → Prop) (act : StateM σ α) : Prop where
  onward : Within (Onward I) act
  abreast : ∀ s s', I s → I s' → R s s' →
    Synchronous (readingsSince s (act s).2) (readingsSince s' (act s').2) →
    Abreast Eq R s s' (act s) (act s')

theorem Tandem.of_untimed {act : StateM σ α} (hI : ∀ s, I s → I (act s).2)
    (hu : Within Untimed act) (h : ∀ s s', I s → I s' → R s s' →
      (act s).1 = (act s').1 ∧ R (act s).2 (act s').2) : Tandem I R act := by
  refine ⟨fun s hs ↦ ⟨hI s hs, (hu s).readings_le⟩, fun s s' hi hi' hr _ ↦ ?_⟩
  obtain ⟨ha, hr⟩ := h s s' hi hi' hr
  exact ⟨ha, hr, (hu s).readingsSince.trans (hu s').readingsSince.symm⟩

theorem Tandem.pure (a : α) : Tandem I R (Pure.pure a) :=
  .of_untimed (fun _ hs ↦ hs) (fun _ ↦ rfl) fun _ _ _ _ h ↦ ⟨rfl, h⟩

theorem Tandem.bind_abreast {x : StateM σ α} {f g : α → StateM σ β} {E : β → β → Prop} {s s' : σ}
    (hx : Tandem I R x) (hf : ∀ s, Within (Onward I) (f (x s).1))
    (hg : ∀ s, Within (Onward I) (g (x s).1)) (hi : I s) (hi' : I s') (h : R s s')
    (hfg : ∀ t t', I t → I t' → R t t' →
      Synchronous (readingsSince t (f (x s).1 t).2) (readingsSince t' (g (x s).1 t').2) →
      Abreast E R t t' (f (x s).1 t) (g (x s).1 t'))
    (hsync : Synchronous (readingsSince s ((x >>= f) s).2) (readingsSince s' ((x >>= g) s').2)) :
    Abreast E R s s' ((x >>= f) s) ((x >>= g) s') := by
  obtain ⟨hk, hp⟩ := hx.onward s hi
  obtain ⟨hk', hp'⟩ := hx.onward s' hi'
  obtain ⟨-, hq⟩ := hf s (x s).2 hk
  obtain ⟨-, hq'⟩ := hg s' (x s').2 hk'
  obtain ⟨hfirst, hrest⟩ := Synchronous.split hp hq hp' hq' hsync
  obtain ⟨ha, hr, he⟩ := hx.abreast s s' hi hi' h hfirst
  -- Only now is it known that the two go on with the same answer.
  have hrest := hrest he
  rw [← ha] at hq' hrest
  obtain ⟨hb, hr', he'⟩ := hfg _ _ hk hk' hr hrest
  rw [bind_run, bind_run, ← ha]
  refine ⟨hb, hr', ?_⟩
  rw [readingsSince_append hp hq, readingsSince_append hp' hq', he, he']

theorem Tandem.bind {x : StateM σ α} {f : α → StateM σ β} (hx : Tandem I R x)
    (hf : ∀ s, Tandem I R (f (x s).1)) : Tandem I R (x >>= f) where
  onward := hx.onward.bind fun s ↦ (hf s).onward
  abreast s _ hi hi' h hsync := by
    have honward (s : σ) : Within (Onward I) (f (x s).1) := (hf s).onward
    exact hx.bind_abreast honward honward hi hi' h (hf s).abreast hsync

end

namespace Kernel

variable {κ : Type} [Kernel κ]

/-- In states that `S` relates, systems answer alike on the descriptor, and no other call makes a
difference to that. -/
structure Accord (fd : Fd) (S : κ → κ → Prop) : Prop where
  same : ∀ {c k k'}, S k k' → fd ∈ c.names →
    (answer c k).1 = (answer c k').1 ∧ S (answer c k).2 (answer c k').2
  left : ∀ {c k k'}, S k k' → fd ∉ c.names → S (answer c k).2 k'
  right : ∀ {c k k'}, S k k' → fd ∉ c.names → S k (answer c k').2

/-- Two systems agree on a descriptor, for all time. What else they are asked and answer, what the
clock says and whether it moves meanwhile is all one. -/
def Agree (fd : Fd) (k k' : κ) : Prop := ∃ S, Accord fd S ∧ S k k'

namespace Agree

variable {fd : Fd} {c : SysCall} {k k' : κ}

theorem symm (h : Agree fd k k') : Agree fd k' k := by
  obtain ⟨S, hS, hk⟩ := h
  refine ⟨fun k k' ↦ S k' k, ⟨fun h hc ↦ ?_, hS.right, hS.left⟩, hk⟩
  obtain ⟨ha, hs⟩ := hS.same h hc
  exact ⟨ha.symm, hs⟩

theorem same (h : Agree fd k k') (hc : fd ∈ c.names) :
    (answer c k).1 = (answer c k').1 ∧ Agree fd (answer c k).2 (answer c k').2 := by
  obtain ⟨S, hS, hk⟩ := h
  obtain ⟨ha, hs⟩ := hS.same hk hc
  exact ⟨ha, S, hS, hs⟩

theorem left (h : Agree fd k k') (hc : fd ∉ c.names) : Agree fd (answer c k).2 k' := by
  obtain ⟨S, hS, hk⟩ := h
  exact ⟨S, hS, hS.left hk hc⟩

end Agree

end Kernel

open HasClock (readings)
open Kernel (Agree)

variable {ν : Type}

/-- The remark tells of a callback with the connection, or of a call of the application. -/
def Mark.concerns (id : Nat) : Mark ν → Bool
  | .callback cb => cb.id = id
  | .called id' .. => id' = id
  | _ => false

def Entry.concerns (id : Nat) (fd : Fd) : Entry (Mark ν) → Bool
  | .sys c _ => fd ∈ c.names
  | .remark m => m.concerns id

def Entry.reading? : Entry (Mark ν) → Option Nat
  | .sys .clock now => some now
  | _ => none

/-- The callbacks with the connection `id`, the calls of the application on it and the system calls
on the descriptor `fd`, in their order. -/
def Journal.course (id : Nat) (fd : Fd) (j : Journal ν) : Journal ν := j.filter (·.concerns id fd)

theorem Journal.course_cons {id : Nat} {fd : Fd} {j j' : Journal ν}
    (h : course id fd j = course id fd j') (e : Entry (Mark ν)) :
    course id fd (e :: j) = course id fd (e :: j') := by
  unfold course at h ⊢
  rw [List.filter_cons, List.filter_cons, h]

theorem Journal.course_cons_of_not {id : Nat} {fd : Fd} {e : Entry (Mark ν)}
    (he : e.concerns id fd = false) (j : Journal ν) : course id fd (e :: j) = course id fd j :=
  List.filter_cons_of_neg (by simp [he])

namespace Os

open Journal (course)

variable {κ : Type} {id : Nat} {fd : Fd}

instance : HasClock (Os κ (Mark ν)) where
  readings o := (o.journal.filterMap Entry.reading?).reverse

theorem readings_cons {o o' : Os κ (Mark ν)} {e : Entry (Mark ν)}
    (h : o'.journal = e :: o.journal) : readings o' = readings o ++ e.reading?.toList := by
  show (o'.journal.filterMap Entry.reading?).reverse = _
  rw [h, List.filterMap_cons]
  cases e.reading? with
  | none => exact (List.append_nil _).symm
  | some now => exact List.reverse_cons

theorem untimed_adds {C : Entry (Mark ν) → Prop} {o o' : Os κ (Mark ν)}
    (h : Journal.Adds C o.journal o'.journal) (hC : ∀ e, C e → e.reading? = none) :
    Untimed o o' := by
  obtain ⟨new, hj, hn⟩ := h
  have hnew : new.filterMap Entry.reading? = [] :=
    List.filterMap_eq_nil_iff.2 fun e he ↦ hC e (hn e he)
  show (o'.journal.filterMap Entry.reading?).reverse = _
  rw [hj, List.filterMap_append, hnew]
  rfl

variable [Kernel κ]

theorem readings_call (c : SysCall) (o : Os κ (Mark ν)) :
    readings (o.call c).2 = readings o ++ (Entry.reading? (ν := ν) (.sys c (o.call c).1)).toList :=
  readings_cons (o := o) rfl

theorem sys_untimed {c : SysCall} (hc : c.names ≠ []) :
    Within (Untimed (σ := Os κ (Mark ν))) (sys c) := by
  intro o
  have he : Entry.reading? (ν := ν) (.sys c (o.call c).1) = none := by
    cases c with
    | clock => exact absurd rfl hc
    | _ => rfl
  show readings (o.call c).2 = readings o
  rw [readings_call, he]
  exact List.append_nil _

/-- What was done makes no difference to those who only know of the connection `id` and the
descriptor `fd`. -/
structure Shuns (id : Nat) (fd : Fd) (o o' : Os κ (Mark ν)) : Prop where
  kernel : ∀ k, Agree fd o.kernel k → Agree fd o'.kernel k
  course : course id fd o'.journal = course id fd o.journal

/-- For those, two states are the same. -/
structure Alike (id : Nat) (fd : Fd) (o o' : Os κ (Mark ν)) : Prop where
  kernel : Agree fd o.kernel o'.kernel
  course : course id fd o.journal = course id fd o'.journal

instance : IsPreorder (Os κ (Mark ν)) (Shuns id fd) where
  refl _ := ⟨fun _ h ↦ h, rfl⟩
  trans _ _ _ h h' := ⟨fun k hk ↦ h'.kernel k (h.kernel k hk), h'.course.trans h.course⟩

namespace Shuns

theorem call {c : SysCall} (hc : fd ∉ c.names) (o : Os κ (Mark ν)) :
    Shuns id fd o (o.call c).2 where
  kernel _ hk := hk.left hc
  course := Journal.course_cons_of_not (by simpa [Entry.concerns] using hc) _

theorem note {m : Mark ν} (hm : m.concerns id = false) (o : Os κ (Mark ν)) :
    Shuns id fd o (o.note m) where
  kernel _ hk := hk
  course := Journal.course_cons_of_not (by simpa [Entry.concerns] using hm) _

end Shuns

namespace Alike

variable {o₁ o₂ o' : Os κ (Mark ν)}

theorem left (h : Alike id fd o₁ o₂) (hs : Shuns id fd o₁ o') : Alike id fd o' o₂ :=
  ⟨hs.kernel _ h.kernel, hs.course.trans h.course⟩

theorem right (h : Alike id fd o₁ o₂) (hs : Shuns id fd o₂ o') : Alike id fd o₁ o' :=
  ⟨(hs.kernel _ h.kernel.symm).symm, h.course.trans hs.course.symm⟩

theorem note (h : Alike id fd o₁ o₂) (m : Mark ν) : Alike id fd (o₁.note m) (o₂.note m) :=
  ⟨h.kernel, Journal.course_cons h.course _⟩

theorem called {c : SysCall} (h : Alike id fd o₁ o₂) (hc : fd ∈ c.names) :
    (o₁.call c).1 = (o₂.call c).1 ∧ Alike id fd (o₁.call c).2 (o₂.call c).2 := by
  obtain ⟨ha, hk⟩ := h.kernel.same hc
  refine ⟨ha, hk, ?_⟩
  show Journal.course id fd (.sys c (Kernel.answer c o₁.kernel).1 :: o₁.journal) =
    Journal.course id fd (.sys c (Kernel.answer c o₂.kernel).1 :: o₂.journal)
  rw [ha]
  exact Journal.course_cons h.course _

end Alike

abbrev Tandem {α : Type} (id : Nat) (fd : Fd) (act : OsM κ (Mark ν) α) : Prop :=
  PollReactor.Tandem (fun _ ↦ True) (Alike id fd) act

theorem sys_onward (c : SysCall) : Within (Onward fun _ : Os κ (Mark ν) ↦ True) (sys c) := by
  refine fun o _ ↦ ⟨trivial, ?_⟩
  show readings o <+: readings (o.call c).2
  rw [readings_call]
  exact List.prefix_append _ _

theorem sys_tandem {c : SysCall} (hc : fd ∈ c.names) :
    Tandem (κ := κ) (ν := ν) id fd (sys c) :=
  .of_untimed (fun _ _ ↦ trivial) (sys_untimed (List.ne_nil_of_mem hc)) fun _ _ _ _ h ↦ h.called hc

theorem readingsSince_clock (o : Os κ (Mark ν)) :
    readingsSince o (sys .clock o).2 = [(sys .clock o).1] := by
  have h : readings (sys .clock o).2 = readings o ++ [(sys .clock o).1] :=
    readings_call .clock o
  rw [readingsSince, h, List.drop_left]

theorem clock_tandem : Tandem (κ := κ) (ν := ν) id fd (sys .clock) := by
  refine ⟨sys_onward .clock, fun o₁ o₂ _ _ h hsync ↦ ?_⟩
  have hnone : fd ∉ SysCall.clock.names := List.not_mem_nil
  rw [readingsSince_clock, readingsSince_clock] at hsync
  refine ⟨hsync.head, (h.left (.call hnone o₁)).right (.call hnone o₂), ?_⟩
  rw [readingsSince_clock, readingsSince_clock, hsync.head]

theorem sys_within {c : SysCall} (hc : fd ∉ c.names) :
    Within (Shuns (κ := κ) (ν := ν) id fd) (sys c) := Shuns.call hc

end Os

end PollReactor
