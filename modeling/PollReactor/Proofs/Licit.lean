import Mathlib.Data.List.Induction
import Mathlib.Data.List.Nodup
import PollReactor.Proofs.Sockets

namespace PollReactor

open Journal

variable {κ ν : Type} {α β : Type}

namespace Entry

theorem closes?_eq_some {e : Entry (Mark ν)} {fd : Fd} (h : e.closes? = some fd) :
    ∃ a, e = .sys (.close fd) a := by
  cases e with
  | sys c a =>
    cases c with
    | close fd' =>
      obtain rfl : fd' = fd := Option.some.inj h
      exact ⟨a, rfl⟩
    | _ => cases h
  | remark m => cases h

theorem opens_of_adopts {e : Entry (Mark ν)} {fd : Fd} (h : e.adopts? = some fd) :
    e.opens = [] := by
  cases e with
  | sys c a => cases h
  | remark m => rfl

end Entry

namespace Journal

variable {j j' : Journal ν} {fd : Fd}

/-- Every call is made on descriptors that are open. -/
def Licit : Journal ν → Prop
  | [] => True
  | e :: j => (∀ fd ∈ e.names, IsOpen fd j) ∧ Licit j

instance decidableLicit : (j : Journal ν) → Decidable (Licit j)
  | [] => inferInstanceAs (Decidable True)
  | _ :: j =>
    have := decidableLicit j
    inferInstanceAs (Decidable (_ ∧ _))

/-- How often the descriptor was opened, or handed over while it was not open. -/
def gains (fd : Fd) : Journal ν → Nat
  | [] => 0
  | e :: j => gains fd j + e.opens.count fd +
    if e.adopts? = some fd ∧ ¬ IsOpen fd j then 1 else 0

def closings (fd : Fd) : Journal ν → Nat
  | [] => 0
  | e :: j => closings fd j + if e.closes? = some fd then 1 else 0

theorem Licit.of_append {new : Journal ν} (h : Licit (new ++ j)) : Licit j := by
  induction new with
  | nil => exact h
  | cons e new ih => exact ih h.2

theorem Licit.minds {S : Fd → Prop} (hl : Licit j) (h : Adds (Entry.Minds S) j j')
    (hS : ∀ fd, S fd → IsOpen fd j) : Licit j' := by
  obtain ⟨new, rfl, hn⟩ := h
  induction new with
  | nil => exact hl
  | cons e new ih =>
    have hn' : ∀ e ∈ new, e.Minds S := fun e he ↦ hn e (List.mem_cons_of_mem _ he)
    refine ⟨fun fd hfd ↦ ?_, ih hn'⟩
    exact (isOpen_minds ⟨new, rfl, hn'⟩).2 (hS fd ((hn e List.mem_cons_self).names fd hfd))

theorem Licit.close (h : Licit j) (hfd : IsOpen fd j) (a : Except Errno Unit) :
    Licit (.sys (.close fd) a :: j) :=
  ⟨List.forall_mem_singleton.2 hfd, h⟩

theorem gains_eq (hf : Fresh j) (hl : Licit j) (fd : Fd) :
    gains fd j = closings fd j + if IsOpen fd j then 1 else 0 := by
  induction j with
  | nil => rfl
  | cons e j ih =>
    obtain ⟨⟨hnodup, hnew⟩, hf⟩ := hf
    obtain ⟨hnames, hl⟩ := hl
    have ih := ih hf hl
    rw [gains, closings, ih]
    by_cases hc : e.closes? = some fd
    · obtain ⟨a, rfl⟩ := Entry.closes?_eq_some hc
      have hopen : IsOpen fd j := hnames fd List.mem_cons_self
      have hclosed : ¬ IsOpen fd (.sys (.close fd) a :: j) := fun h ↦ (isOpen_close.1 h).1 rfl
      rw [if_neg hclosed, if_pos hopen, if_pos hc]
      simp [Entry.opens, Entry.adopts?]
    · rw [if_neg hc]
      by_cases ho : fd ∈ e.opens
      · have ha : e.adopts? ≠ some fd := by
          intro ha
          rw [Entry.opens_of_adopts ha] at ho
          cases ho
        have hopen : IsOpen fd (e :: j) := .inl ho
        rw [if_neg (hnew fd ho), if_pos hopen, if_neg fun h ↦ ha h.1, hnodup.count, if_pos ho]
      · rw [List.count_eq_zero.2 ho]
        by_cases ha : e.adopts? = some fd
        · have hopen : IsOpen fd (e :: j) := .inr (.inl ha)
          rw [if_pos hopen]
          by_cases hj : IsOpen fd j
          · rw [if_pos hj, if_neg fun h ↦ h.2 hj]
          · rw [if_neg hj, if_pos ⟨ha, hj⟩]
        · have hiff : IsOpen fd (e :: j) ↔ IsOpen fd j := by
            simp [IsOpen, ho, ha, hc]
          simp only [hiff, ha, false_and, if_false, Nat.add_zero]

/-- In what was written down since the descriptor was opened, it was closed once, and was not
called on again unless it was opened again. -/
def ClosedOnce (fd : Fd) (later : Journal ν) : Prop :=
  ∃ last a first, later = last ++ .sys (.close fd) a :: first ∧
    (∀ e ∈ first, e.closes? ≠ some fd) ∧
    ∀ l e l', last = l ++ e :: l' → fd ∈ e.names → ∃ e' ∈ l', fd ∈ e'.opens ∨ e'.adopts? = some fd

theorem exists_opening {new : Journal ν} (h : IsOpen fd (new ++ j)) (hn : ¬ IsOpen fd j) :
    ∃ e ∈ new, fd ∈ e.opens ∨ e.adopts? = some fd := by
  induction new with
  | nil => exact absurd h hn
  | cons e new ih =>
    rcases h with h | h | ⟨-, h⟩
    · exact ⟨e, List.mem_cons_self, .inl h⟩
    · exact ⟨e, List.mem_cons_self, .inr h⟩
    · obtain ⟨e', he', h⟩ := ih h
      exact ⟨e', List.mem_cons_of_mem _ he', h⟩

theorem closedOnce_of_licit {later : Journal ν} (hl : Licit (later ++ j)) (hopen : IsOpen fd j)
    (hend : ¬ IsOpen fd (later ++ j)) : ClosedOnce fd later := by
  -- By what was written down next, from the earliest on.
  induction later using List.reverseRecOn generalizing j with
  | nil => exact absurd hopen hend
  | append_singleton later e ih =>
    rw [List.append_assoc] at hl hend
    by_cases hc : e.closes? = some fd
    · obtain ⟨a, rfl⟩ := Entry.closes?_eq_some hc
      refine ⟨later, a, [], rfl, List.forall_mem_nil _, ?_⟩
      rintro l e l' rfl hfd
      have hclosed : ¬ IsOpen fd (.sys (.close fd) a :: j) := fun h ↦ (isOpen_close.1 h).1 rfl
      have hlicit : Licit (l ++ (e :: (l' ++ .sys (.close fd) a :: j))) := by
        simpa using hl
      exact exists_opening (hlicit.of_append.1 fd hfd) hclosed
    · obtain ⟨last, a, first, rfl, hfirst, hlast⟩ := ih hl (.inr (.inr ⟨hc, hopen⟩)) hend
      refine ⟨last, a, first ++ [e], by simp, ?_, hlast⟩
      intro e' he'
      rcases List.mem_append.1 he' with he' | he'
      · exact hfirst e' he'
      · rw [List.mem_singleton.1 he']
        exact hc

/-- The descriptors `fds` were opened between the two, and are the only change. -/
structure Brings (fds : List Fd) (j j' : Journal ν) : Prop where
  nodup : fds.Nodup
  unused : ∀ fd ∈ fds, ¬ IsOpen fd j
  open_iff : ∀ fd, IsOpen fd j' ↔ fd ∈ fds ∨ IsOpen fd j

theorem Yields.brings {fds : List Fd} (h : Yields fds j j')
    (hf : Fresh j') : Brings fds j j' :=
  ⟨(h.2 hf).1.1, (h.2 hf).1.2, (h.2 hf).2⟩

theorem isOpen_adopted {fd' : Fd} :
    IsOpen fd' (.remark (.adopted fd) :: j) ↔ fd' = fd ∨ IsOpen fd' j := by
  simp [IsOpen, Entry.opens, Entry.closes?, Entry.adopts?, eq_comm]

theorem brings_adopted (h : ¬ IsOpen fd j) :
    Brings [fd] j (.remark (.adopted fd) :: j) where
  nodup := List.nodup_singleton fd
  unused := List.forall_mem_singleton.2 h
  open_iff fd' := by rw [isOpen_adopted, List.mem_singleton]

end Journal

structure Journal.Secured (fds : List Fd) (j : Journal ν) : Prop where
  licit : Licit j
  nodup : fds.Nodup
  opened : ∀ fd ∈ fds, IsOpen fd j

/-- With the descriptors `fds` open, the act calls on open descriptors only. If it succeeds, those
that it hands out are open. -/
def Lawful (fds : List Fd) (act : OsExcept κ (Mark ν) α) (gives : α → List Fd) : Prop :=
  ∀ o, Adds (fun _ ↦ True) o.journal (act o).2.journal ∧
    (Fresh (act o).2.journal → Secured fds o.journal → match act o with
      | (.ok a, o') => Secured (gives a) o'.journal
      | (.error _, o') => Licit o'.journal)

namespace Lawful

variable {fds : List Fd} {gives : α → List Fd}

theorem pure {a : α} (h : gives a = fds) :
    Lawful fds (Pure.pure a : OsExcept κ (Mark ν) α) gives := by
  refine fun o ↦ ⟨.refl _, fun _ hs ↦ ?_⟩
  show Secured (gives a) o.journal
  rw [h]
  exact hs

theorem fail (e : IoError) : Lawful [] (throw e : OsExcept κ (Mark ν) α) gives :=
  fun _ ↦ ⟨.refl _, fun _ hs ↦ hs.licit⟩

theorem bind {x : OsExcept κ (Mark ν) β} {held : β → List Fd} {f : β → OsExcept κ (Mark ν) α}
    (hx : Lawful fds x held) (hf : ∀ b, Lawful (held b) (f b) gives) :
    Lawful fds (x >>= f) gives := by
  intro o
  obtain ⟨ha, hx⟩ := hx o
  rw [except_bind]
  generalize x o = out at ha hx ⊢
  rcases out with ⟨e | b, o'⟩
  · exact ⟨ha, hx⟩
  · obtain ⟨ha', hb⟩ := hf b o'
    exact ⟨ha.trans ha', fun hfr hs ↦ hb hfr (hx (ha'.fresh hfr) hs)⟩

theorem plain {act : OsExcept κ (Mark ν) α} (h : IsPlainOn fds act) :
    Lawful fds act fun _ ↦ fds := by
  intro o
  have hm := h.minds o
  refine ⟨hm.mono fun _ _ ↦ trivial, fun _ hs ↦ ?_⟩
  have hl : Licit (act o).2.journal := hs.licit.minds hm hs.opened
  generalize act o = out at hm hl ⊢
  rcases out with ⟨e | a, o'⟩
  · exact hl
  · exact ⟨hl, hs.nodup, fun fd hfd ↦ (isOpen_minds hm).2 (hs.opened fd hfd)⟩

variable [Kernel κ]

theorem closeAll_licit {o : Os κ (Mark ν)} (h : Secured fds o.journal) :
    Licit (closeAll fds o).2.journal := by
  induction fds generalizing o with
  | nil => exact h.licit
  | cons fd fds ih =>
    obtain ⟨hfd, hn⟩ := List.nodup_cons.1 h.nodup
    refine ih (o := (attempt (.close fd) o).2) ⟨?_, hn, fun fd' hfd' ↦ ?_⟩
    · exact h.licit.close (h.opened fd List.mem_cons_self) _
    · refine isOpen_close.2 ⟨?_, h.opened fd' (List.mem_cons_of_mem _ hfd')⟩
      rintro rfl
      exact hfd hfd'

theorem closing {act : OsExcept κ (Mark ν) α} (h : IsPlainOn fds act) :
    Lawful fds (closingOnError fds act) fun _ ↦ fds := by
  intro o
  obtain ⟨ha, hp⟩ := Lawful.plain h o
  have hm := h.minds o
  unfold closingOnError
  generalize act o = out at ha hp hm ⊢
  rcases out with ⟨e | a, o'⟩
  · obtain ⟨hadds, -⟩ := closeAll_journal fds o'
    refine ⟨ha.trans (hadds.mono fun _ _ ↦ trivial), fun hf hs ↦ ?_⟩
    refine closeAll_licit ⟨hp (hadds.fresh hf) hs, hs.nodup, fun fd hfd ↦ ?_⟩
    exact (isOpen_minds hm).2 (hs.opened fd hfd)
  · exact ⟨ha, hp⟩

omit [Kernel κ] in
theorem demand {answer : OsM κ (Mark ν) (Except Errno α)} (entry : Except Errno α → Entry (Mark ν))
    (hj : ∀ o, (answer o).2.journal = entry (answer o).1 :: o.journal)
    (hn : ∀ a, ∀ fd ∈ (entry a).names, fd ∈ fds)
    (ho : ∀ a, (entry (.ok a)).opens = gives a) : Lawful fds (demand answer) gives := by
  intro o
  have hj := hj o
  have hn := hn (answer o).1
  unfold PollReactor.demand
  generalize answer o = out at hj hn ⊢
  rcases out with ⟨e | a, o'⟩
  · replace hj : o'.journal = entry (.error e) :: o.journal := hj
    refine ⟨?_, fun _ hs ↦ ?_⟩
    · show Adds _ o.journal o'.journal
      rw [hj]
      exact .single trivial
    · show Licit o'.journal
      rw [hj]
      exact ⟨fun fd hfd ↦ hs.opened fd (hn fd hfd), hs.licit⟩
  · replace hj : o'.journal = entry (.ok a) :: o.journal := hj
    refine ⟨?_, fun hf hs ↦ ?_⟩
    · show Adds _ o.journal o'.journal
      rw [hj]
      exact .single trivial
    · replace hf : Fresh o'.journal := hf
      show Secured (gives a) o'.journal
      rw [hj] at hf ⊢
      rw [← ho]
      exact ⟨⟨fun fd hfd ↦ hs.opened fd (hn fd hfd), hs.licit⟩, hf.1.1, fun fd hfd ↦ .inl hfd⟩

end Lawful

namespace Sockets

variable [Kernel κ]

theorem openPipe_lawful :
    Lawful [] (openPipe (κ := κ) (μ := Mark ν)) fun ends ↦ [ends.1, ends.2] :=
  .bind (.demand (.sys .pipe) (fun _ ↦ rfl) (fun _ _ h ↦ h) fun _ ↦ rfl) fun _ ↦
    .bind (.closing (.bind (.configure List.mem_cons_self) fun _ ↦
      .configure (List.mem_cons_of_mem _ List.mem_cons_self))) fun _ ↦ .pure rfl

theorem openSocket_lawful (family : Nat) :
    Lawful [] (openSocket (κ := κ) (μ := Mark ν) family) fun fd ↦ [fd] :=
  .bind (.demand (.sys (.socket family)) (fun _ ↦ rfl) (fun _ _ h ↦ h) fun _ ↦ rfl) fun _ ↦
    .bind (.closing (.configure List.mem_cons_self)) fun _ ↦ .pure rfl

theorem listenOn_lawful (text : String) :
    Lawful [] (listenOn (κ := κ) (μ := Mark ν) text) fun fd ↦ [fd] := by
  unfold listenOn
  split
  · exact .bind (openSocket_lawful _) fun fd ↦
      .bind (.closing (.prepareListener List.mem_cons_self _ _)) fun _ ↦ .pure rfl
  · exact .fail _

theorem accept_lawful (fd : Fd) :
    Lawful [fd] (accept (κ := κ) (μ := Mark ν) fd) fun peer ↦ [peer.1] :=
  .bind (.demand (.sys (.accept fd)) (fun _ ↦ rfl) (fun _ _ h ↦ h) fun _ ↦ rfl) fun peer ↦
    .bind (.closing (.configure List.mem_cons_self)) fun _ ↦
      .bind (.closing (.decodeName peer.2)) fun _ ↦ .pure rfl

end Sockets

end PollReactor
