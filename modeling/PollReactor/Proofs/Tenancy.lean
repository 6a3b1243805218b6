import Mathlib.Logic.Relation
import PollReactor.Proofs.Thrift
import PollReactor.Simulation.WinWorld

namespace PollReactor.WinSock

open Relation (ReflTransGen)
open WinJournal (closings openings Spares)
open Simulation (WinWorld)

variable {ω : Type} [WinSock ω]

def Retains (j j' : WinJournal) : Prop := ∃ new, j' = new ++ j ∧ closings new = []

namespace Retains

variable {j j' j'' : WinJournal}

theorem refl (j : WinJournal) : Retains j j := ⟨[], rfl, rfl⟩

theorem trans (h : Retains j j') (h' : Retains j' j'') : Retains j j'' := by
  obtain ⟨new, rfl, hn⟩ := h
  obtain ⟨newer, rfl, hn'⟩ := h'
  exact ⟨newer ++ new, (List.append_assoc ..).symm, by simp [hn, hn']⟩

theorem call {c : WinCall} (h : ∀ a code, WinEntry.closes? ⟨c, a, code⟩ = none) (w : Win ω) :
    Retains w.journal (w.call c).2.journal :=
  ⟨[entryOf c w], rfl, by simp [closings, entryOf, h]⟩

theorem demand {c : WinCall} (h : ∀ a code, WinEntry.closes? ⟨c, a, code⟩ = none) (w : Win ω) :
    Retains w.journal (demand c w).2.journal := by
  have hc := Retains.call h w
  unfold WinSock.demand
  generalize w.call c = out at hc ⊢
  rcases out with ⟨_ | _, w'⟩ <;> exact hc

end Retains

namespace Multiplexer

variable (m : Multiplexer)

theorem wait_retains (timeout : Nat) (events : List Event) (w : Win ω) :
    Retains w.journal (m.wait timeout events w).2.journal :=
  .demand (fun _ _ ↦ rfl) w

theorem wake_retains (w : Win ω) :
    Retains w.journal (m.wake w).2.journal ∧ (m.wake w).1.sockets = m.sockets := by
  unfold wake
  split
  · exact ⟨.refl _, rfl⟩
  · exact ⟨.call (fun _ _ ↦ rfl) w, rfl⟩

theorem drain_retains (s : Fd) (w : Win ω) : Retains w.journal (drain s w).journal := by
  have hrecv {w w' : Win ω} {a : Option { bs : Bytes // bs.length ≤ 64 }}
      (h : w.call (.recv s 64 false) = (a, w')) : Retains w.journal w'.journal := by
    have hc : Retains w.journal (w.call (.recv s 64 false)).2.journal := .call (fun _ _ ↦ rfl) w
    rwa [h] at hc
  fun_induction drain s w with
  | case1 w bs w' h => exact hrecv h
  | case2 w bs w' h hb hlt ih => exact (hrecv h).trans ih
  | case3 w w' h => exact hrecv h

end Multiplexer

/-- A multiplexer and the wakers that share its pair of sockets. -/
structure Tenancy (ω : Type) where
  multiplexer : Multiplexer
  isIn : Bool
  wakers : Nat
  win : Win ω

namespace Tenancy

def start (m : Multiplexer) (w : Win ω) : Tenancy ω := ⟨m, true, 0, w⟩

variable (t t' : Tenancy ω)

def IsHeld : Prop := t.isIn ∨ 0 < t.wakers

instance : Decidable t.IsHeld := inferInstanceAs (Decidable (_ ∨ _))

def settle : Tenancy ω :=
  if t.IsHeld then t else { t with win := (t.multiplexer.dispose t.win).2 }

theorem settle_of_isHeld (h : t.IsHeld) : t.settle = t := if_pos h

theorem settle_isHeld : t.settle.IsHeld ↔ t.IsHeld := by
  unfold settle
  split <;> rfl

variable {t t'}

/-- What can happen between the making of a multiplexer and the end of the last waker. -/
inductive Step (t : Tenancy ω) : Tenancy ω → Prop where
  | clear (h : t.isIn) : Step t { t with multiplexer := t.multiplexer.clear }
  | register (h : t.isIn) (s : Fd) (token : Nat) (i : Interest) :
    Step t { t with multiplexer := t.multiplexer.register s token i }
  | wait (h : t.isIn) (timeout : Nat) (events : List Event) :
    Step t { t with win := (t.multiplexer.wait timeout events t.win).2 }
  | wake (h : t.IsHeld) : Step t { t with
      multiplexer := (t.multiplexer.wake t.win).1
      win := (t.multiplexer.wake t.win).2 }
  | reset (h : t.IsHeld) : Step t { t with
      multiplexer := (t.multiplexer.reset t.win).1
      win := (t.multiplexer.reset t.win).2 }
  | handOut (h : t.IsHeld) : Step t { t with wakers := t.wakers + 1 }
  | dropWaker (h : 0 < t.wakers) : Step t { t with wakers := t.wakers - 1 }.settle
  | dropMultiplexer (h : t.isIn) : Step t { t with isIn := false }.settle
  | elsewhere (c : WinCall) (h : ∀ s ∈ t.multiplexer.sockets, s ∉ c.names) :
    Step t { t with win := (t.win.call c).2 }

/-- Since `j` each socket of `pair` was closed once if nobody holds it any more, and not at all
before, and it was not used behind its closing. -/
structure Kept (pair : List Fd) (j : WinJournal) (t : Tenancy ω) : Prop where
  sockets : t.multiplexer.sockets = pair
  journal : ∃ new, t.win.journal = new ++ j ∧ ∀ s ∈ pair,
    Spares s new ∧ (closings new).count s = if t.IsHeld then 0 else 1

variable {pair : List Fd} {j : WinJournal}

omit [WinSock ω] in
theorem Kept.start (m : Multiplexer) (w : Win ω) : (start m w).Kept m.sockets w.journal := by
  have hheld : (Tenancy.start m w).IsHeld := .inl rfl
  refine ⟨rfl, [], rfl, fun s _ ↦ ⟨trivial, ?_⟩⟩
  rw [if_pos hheld]
  rfl

omit [WinSock ω] in
theorem Kept.retain (hk : t.Kept pair j) (h : t.IsHeld) (h' : t'.IsHeld)
    (hm : t'.multiplexer.sockets = t.multiplexer.sockets)
    (hw : Retains t.win.journal t'.win.journal) : t'.Kept pair j := by
  obtain ⟨new, hj, hnew⟩ := hk.journal
  obtain ⟨more, hj', hmore⟩ := hw
  refine ⟨hm.trans hk.sockets, more ++ new, ?_, fun s hs ↦ ?_⟩
  · rw [hj', hj, List.append_assoc]
  -- as nothing was closed so far, no order of calls has to be looked at
  · have hcount : (closings (more ++ new)).count s = 0 := by
      rw [WinJournal.closings_append, hmore, List.nil_append, (hnew s hs).2, if_pos h]
    refine ⟨WinJournal.spares_of_not_mem (List.count_eq_zero.1 hcount), ?_⟩
    rw [hcount, if_pos h']

theorem Kept.settle (hk : t.Kept pair j) (h : t.IsHeld) (hd : pair.Nodup)
    (hm : t'.multiplexer = t.multiplexer) (hw : t'.win = t.win) : t'.settle.Kept pair j := by
  by_cases h' : t'.IsHeld
  · rw [t'.settle_of_isHeld h']
    refine hk.retain h h' (by rw [hm]) ?_
    rw [hw]
    exact .refl _
  · rw [Tenancy.settle, if_neg h']
    obtain ⟨new, hj, hnew⟩ := hk.journal
    obtain ⟨cleanup, hj', hcleanup, hcloses⟩ := closeAll_journal t.multiplexer.sockets t.win
    have hperm : (closings cleanup).Perm pair := by
      rw [hcloses, hk.sockets]
      exact List.reverse_perm _
    refine ⟨by rw [hm, hk.sockets], cleanup ++ new, ?_, fun s hs ↦ ?_⟩
    · rw [hm, hw]
      exact hj'.trans (by rw [hj, List.append_assoc])
    · have hopen : s ∉ closings new := by
        rw [← List.count_eq_zero, (hnew s hs).2, if_pos h]
      refine ⟨WinJournal.spares_of_closes hcleanup (hperm.nodup_iff.2 hd) hopen, ?_⟩
      show (closings (cleanup ++ new)).count s = if t'.IsHeld then 0 else 1
      rw [WinJournal.closings_append, List.count_append, hperm.count_eq, hd.count, if_pos hs,
        List.count_eq_zero.2 hopen, if_neg h']

theorem Kept.elsewhere (hk : t.Kept pair j) (c : WinCall)
    (hc : ∀ s ∈ t.multiplexer.sockets, s ∉ c.names) :
    Kept pair j { t with win := (t.win.call c).2 } := by
  obtain ⟨new, hj, hnew⟩ := hk.journal
  refine ⟨hk.sockets, entryOf c t.win :: new, ?_, fun s hs ↦ ?_⟩
  · rw [call_journal, hj, List.cons_append]
  · have hnames : s ∉ c.names := hc s (hk.sockets ▸ hs)
    obtain ⟨hspares, hcount⟩ := hnew s hs
    refine ⟨⟨fun h ↦ absurd h hnames, hspares⟩, ?_⟩
    show (closings (entryOf c t.win :: new)).count s = if t.IsHeld then 0 else 1
    rw [← hcount, closings, List.filterMap_cons]
    split
    · rfl
    · next s' hs' =>
      have hc' : c = .closeSocket s' := WinEntry.call_of_closes hs'
      have hne : s' ≠ s := by
        rintro rfl
        exact hnames (by simp [hc', WinCall.names])
      rw [List.count_cons_of_ne hne, closings]

theorem Kept.step (hk : t.Kept pair j) (hd : pair.Nodup) (h : Step t t') :
    t'.Kept pair j := by
  cases h with
  | clear hin => exact hk.retain (.inl hin) (.inl hin) rfl (.refl _)
  | register hin s token i => exact hk.retain (.inl hin) (.inl hin) rfl (.refl _)
  | wait hin timeout events =>
    exact hk.retain (.inl hin) (.inl hin) rfl (t.multiplexer.wait_retains timeout events t.win)
  | wake hh =>
    obtain ⟨hw, hm⟩ := t.multiplexer.wake_retains t.win
    exact hk.retain hh hh hm hw
  | reset hh =>
    exact hk.retain hh hh rfl (Multiplexer.drain_retains t.multiplexer.waker.receiver t.win)
  | handOut hh => exact hk.retain hh (.inr (Nat.succ_pos _)) rfl (.refl _)
  | dropWaker hw => exact hk.settle (.inr hw) hd rfl rfl
  | dropMultiplexer hin => exact hk.settle (.inl hin) hd rfl rfl
  | elsewhere c hc => exact hk.elsewhere c hc

theorem Kept.run (hk : t.Kept pair j) (hd : pair.Nodup) (h : ReflTransGen Step t t') :
    t'.Kept pair j := by
  induction h with
  | refl => exact hk
  | tail _ hstep ih => exact ih.step hd hstep

theorem outlived (m : Multiplexer) (w : Win ω) :
    ∃ t, ReflTransGen Step (.start m w) t ∧ ¬t.IsHeld := by
  let left : Tenancy ω := ⟨m, false, 1, w⟩
  let woken : Tenancy ω := ⟨(m.wake w).1, false, 1, (m.wake w).2⟩
  have hheld : left.IsHeld := .inr Nat.one_pos
  have hleft : Step ⟨m, true, 1, w⟩ left.settle := .dropMultiplexer rfl
  rw [left.settle_of_isHeld hheld] at hleft
  have hwoken : Step left woken := .wake hheld
  have hend : Step woken { woken with wakers := 0 }.settle := .dropWaker Nat.one_pos
  refine ⟨{ woken with wakers := 0 }.settle, ?_, ?_⟩
  · exact (((ReflTransGen.single (.handOut (.inl rfl))).tail hleft).tail hwoken).tail hend
  · rw [settle_isHeld]
    rintro (h | h) <;> cases h

end Tenancy

/-- Whatever the machine answers, the operations that open sockets are thrifty; the one failure that
is not that of a call is a peer without an address. A multiplexer that was made keeps its two
sockets open while it is there or a waker is, and then each is closed once. -/
theorem leaks_nothing (w : Win ω) :
    Accounted Never Multiplexer.sockets w.journal (Multiplexer.make w) ∧
    (∀ family, Accounted Never (fun s ↦ [s]) w.journal (openSocket family w)) ∧
    (∀ s, Accounted (Unreadable s w) (fun peer ↦ [peer.1]) w.journal (accept s w)) ∧
    ∀ m w', Multiplexer.make w = (.ok m, w') → m.waker.receiver ≠ m.waker.sender →
      ∀ t, ReflTransGen Tenancy.Step (.start m w') t → ∃ new, t.win.journal = new ++ w'.journal ∧
        ∀ s ∈ m.sockets, Spares s new ∧
          (closings new).count s = if t.isIn ∨ 0 < t.wakers then 0 else 1 := by
  refine ⟨(make_settled w).accounted, fun family ↦ (openSocket_settled family w).accounted,
    fun s ↦ (accept_settled s w).accounted, fun m w' _ hne t ht ↦ ?_⟩
  have hd : m.sockets.Nodup := by
    unfold Multiplexer.sockets
    simpa using hne
  exact ((Tenancy.Kept.start m w').run hd ht).journal

/-- The connection of the pair is refused, and closing the first socket fails with another code. -/
def refusing : Win WinWorld :=
  ⟨{ replies := [("connect", .fail ⟨10061⟩), ("closesocket", .fail ⟨10050⟩)] }, []⟩

/-- The code of the refusal is told, though another one came last. The pair of a multiplexer that
was made is closed when its last waker goes. -/
theorem leaks_nothing_refused :
    (Multiplexer.make refusing).1 = .error (.os ⟨10061⟩) ∧
    (Multiplexer.make refusing).2.lastError = ⟨10050⟩ ∧
    openings (Multiplexer.make refusing).2.journal = [5001, 5000] ∧
    Thrifty Never Multiplexer.sockets (Multiplexer.make refusing).2.journal
      (Multiplexer.make refusing).1 ∧
    ∃ m w' t new, Multiplexer.make (⟨{}, []⟩ : Win WinWorld) = (.ok m, w') ∧
      m.sockets = [5000, 5001] ∧ ReflTransGen Tenancy.Step (.start m w') t ∧ ¬t.IsHeld ∧
      t.win.journal = new ++ w'.journal ∧
      ∀ s ∈ m.sockets, Spares s new ∧ (closings new).count s = 1 := by
  have htold : (Multiplexer.make refusing).1 = .error (.os ⟨10061⟩) ∧
      (Multiplexer.make refusing).2.lastError = ⟨10050⟩ ∧
      openings (Multiplexer.make refusing).2.journal = [5001, 5000] := by
    decide +kernel
  obtain ⟨hresult, hlast, hopened⟩ := htold
  obtain ⟨new, hj, hthrifty⟩ := (leaks_nothing refusing).1
  obtain rfl : (Multiplexer.make refusing).2.journal = new := hj.trans (List.append_nil new)
  refine ⟨hresult, hlast, hopened, hthrifty (by rw [hopened]; decide), ?_⟩
  obtain ⟨m, w', hmade, hsockets⟩ : ∃ m w',
      Multiplexer.make (⟨{}, []⟩ : Win WinWorld) = (.ok m, w') ∧ m.sockets = [5000, 5001] := by
    have h : (Multiplexer.make (⟨{}, []⟩ : Win WinWorld)).1.map Multiplexer.sockets =
        .ok [5000, 5001] := by
      decide +kernel
    revert h
    rcases Multiplexer.make (⟨{}, []⟩ : Win WinWorld) with ⟨_ | m, w'⟩
    · nofun
    · intro h
      exact ⟨m, w', rfl, Except.ok.inj h⟩
  have hne : m.waker.receiver ≠ m.waker.sender := by
    have hd : m.sockets.Nodup := by
      rw [hsockets]
      decide
    exact fun h ↦ (List.nodup_cons.1 hd).1 (List.mem_singleton.2 h)
  obtain ⟨t, hrun, hgone⟩ := Tenancy.outlived m w'
  obtain ⟨new, hj, hnew⟩ := (leaks_nothing _).2.2.2 m w' hmade hne _ hrun
  refine ⟨m, w', t, new, hmade, hsockets, hrun, hgone, hj, fun s hs ↦ ?_⟩
  obtain ⟨hspares, hcount⟩ := hnew s hs
  exact ⟨hspares, hcount.trans (if_neg hgone)⟩

end PollReactor.WinSock
