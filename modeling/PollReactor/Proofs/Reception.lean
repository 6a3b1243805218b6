import PollReactor.Proofs.Estate.Order
import PollReactor.Proofs.Turnover

namespace PollReactor

open Journal (Adds IsOpen Returned)
open Relation
open Simulation (World)

variable {κ π ν : Type}

/-- What the journal tells of admissions. -/
inductive Receipt where
  | accepted (listener : Fd) (given : Option Fd)
  | asked (peer : Net.SocketAddr)
  | admitted (id : Nat)

def Receipt.id? : Receipt → Option Nat
  | admitted id => some id
  | _ => none

namespace Entry

def receipt? : Entry (Mark ν) → Option Receipt
  | .sys (.accept listener) (.ok (fd, _)) => some (.accepted listener (some fd))
  | .sys (.accept listener) (.error _) => some (.accepted listener none)
  | .remark (.ready peer) => some (.asked peer)
  | .remark (.admitted id ..) => some (.admitted id)
  | _ => none

def IsAloof (e : Entry (Mark ν)) : Prop := e.receipt? = none

theorem OfRequest.aloof {sender : Fd} {e : Entry (Mark ν)} (h : e.OfRequest sender) :
    e.IsAloof := by
  cases h with
  | effect h => cases h <;> rfl
  | _ => rfl

theorem id?_of_isQuiet {e : Entry (Mark ν)} (h : e.isQuiet) :
    e.receipt?.bind Receipt.id? = none := by
  unfold receipt?
  split
  · rfl
  · rfl
  · rfl
  · cases h
  · rfl

end Entry

namespace Journal

variable {j j' : Journal ν}

def receipts (j : Journal ν) : List Receipt := j.reverse.filterMap Entry.receipt?

/-- The identifiers of the peers that were kept, in the order of admission. -/
def admitted (j : Journal ν) : List Nat := (receipts j).filterMap Receipt.id?

theorem receipts_append (new j : Journal ν) : receipts (new ++ j) = receipts j ++ receipts new := by
  simp [receipts]

theorem receipts_cons (e : Entry (Mark ν)) (j : Journal ν) :
    receipts (e :: j) = receipts j ++ e.receipt?.toList := by
  unfold receipts
  rw [List.reverse_cons, List.filterMap_append]
  cases h : e.receipt? <;> simp [h]

theorem receipts_aloof (h : Adds Entry.IsAloof j j') : receipts j' = receipts j := by
  obtain ⟨new, rfl, hn⟩ := h
  have hnew : receipts new = [] := by
    simpa [receipts, Entry.IsAloof] using hn
  rw [receipts_append, hnew, List.append_nil]

theorem admitted_cons (e : Entry (Mark ν)) (j : Journal ν) :
    admitted (e :: j) = admitted j ++ (e.receipt?.bind Receipt.id?).toList := by
  unfold admitted
  rw [receipts_cons, List.filterMap_append]
  cases e.receipt? with
  | none => rfl
  | some x => cases h : x.id? <;> simp [h]

theorem admitted_quiet (h : Adds (·.isQuiet) j j') : admitted j' = admitted j := by
  obtain ⟨new, rfl, hn⟩ := h
  induction new with
  | nil => rfl
  | cons e new ih =>
    have he := Entry.id?_of_isQuiet (hn e List.mem_cons_self)
    rw [List.cons_append, admitted_cons, he, ih fun e he ↦ hn e (List.mem_cons_of_mem _ he)]
    exact List.append_nil _

end Journal

open Journal (receipts receipts_cons receipts_aloof)

def IsAloofAct {α : Type} (act : OsExcept κ (Mark ν) α) : Prop :=
  ∀ o, Adds Entry.IsAloof o.journal (act o).2.journal

namespace IsAloofAct

variable {α β : Type} {fds : List Fd}

theorem pure (a : α) : IsAloofAct (Pure.pure a : OsExcept κ (Mark ν) α) := fun o ↦ .refl o.journal

theorem bind {x : OsExcept κ (Mark ν) α} {f : α → OsExcept κ (Mark ν) β} (hx : IsAloofAct x)
    (hf : ∀ a, IsAloofAct (f a)) : IsAloofAct (x >>= f) := by
  intro o
  have hx := hx o
  rw [except_bind]
  generalize x o = out at hx ⊢
  rcases out with ⟨e | a, o'⟩
  · exact hx
  · exact hx.trans (hf a o')

theorem demand {answer : OsM κ (Mark ν) (Except Errno α)} (entry : Except Errno α → Entry (Mark ν))
    (hj : ∀ o, (answer o).2.journal = entry (answer o).1 :: o.journal)
    (h : ∀ a, (entry a).IsAloof) : IsAloofAct (demand answer) := by
  intro o
  have hp : Adds Entry.IsAloof o.journal (answer o).2.journal := hj o ▸ .single (h _)
  unfold PollReactor.demand
  rcases he : answer o with ⟨e | a, o'⟩
  all_goals
    rw [he] at hp
    exact hp

variable [Kernel κ]

theorem closeAll (fds : List Fd) (o : Os κ (Mark ν)) :
    Adds Entry.IsAloof o.journal (closeAll fds o).2.journal := by
  induction fds generalizing o with
  | nil => exact .refl _
  | cons fd fds ih =>
    have hone : Adds Entry.IsAloof o.journal (attempt (.close fd) o).2.journal := .single rfl
    exact hone.trans (ih _)

theorem closing {act : OsExcept κ (Mark ν) α} (h : IsAloofAct act) :
    IsAloofAct (closingOnError fds act) := by
  intro o
  have h := h o
  unfold closingOnError
  generalize act o = out at h ⊢
  rcases out with ⟨e | a, o'⟩
  · exact h.trans (closeAll fds o')
  · exact h

theorem configure (fd : Fd) : IsAloofAct (κ := κ) (ν := ν) (Sockets.configure fd) :=
  .bind (.bind (.demand (.sys (.statusFlags fd)) (fun _ ↦ rfl) fun _ ↦ rfl) fun _ ↦
      .demand (.sys (.setStatusFlags fd _)) (fun _ ↦ rfl) fun _ ↦ rfl) fun _ ↦
    .bind (.demand (.sys (.descriptorFlags fd)) (fun _ ↦ rfl) fun _ ↦ rfl) fun _ ↦
      .demand (.sys (.setDescriptorFlags fd _)) (fun _ ↦ rfl) fun _ ↦ rfl

theorem listenOn (text : String) : IsAloofAct (κ := κ) (ν := ν) (Sockets.listenOn text) := by
  unfold Sockets.listenOn
  split
  · rename_i addr _
    have hsocket (family : Nat) : IsAloofAct (κ := κ) (ν := ν) (Sockets.openSocket family) :=
      .bind (.demand (.sys (.socket family)) (fun _ ↦ rfl) fun _ ↦ rfl) fun fd ↦
        .bind (.closing (.configure fd)) fun _ ↦ .pure fd
    have hipv4 (fd : Fd) (family : Nat) :
        IsAloofAct (κ := κ) (ν := ν) (Sockets.allowIpv4 fd family) := by
      unfold Sockets.allowIpv4
      split
      · exact .demand (.sys (.setOption fd _ _ _)) (fun _ ↦ rfl) fun _ ↦ rfl
      · exact .pure ()
    refine .bind (hsocket _) fun fd ↦ .bind (.closing ?_) fun _ ↦ .pure fd
    exact .bind (.demand (.sys (.setOption fd _ _ _)) (fun _ ↦ rfl) fun _ ↦ rfl) fun _ ↦
      .bind (hipv4 fd _) fun _ ↦
        .bind (.demand (.sys (.bind fd _)) (fun _ ↦ rfl) fun _ ↦ rfl) fun _ ↦
          .demand (.sys (.listen fd _)) (fun _ ↦ rfl) fun _ ↦ rfl
  · exact fun o ↦ .refl o.journal

end IsAloofAct

section

variable [Kernel κ] {α : Type}

theorem closing_receipts (fd : Fd) {act : OsExcept κ (Mark ν) α} (h : IsAloofAct act)
    (o : Os κ (Mark ν)) : receipts (closingOnError [fd] act o).2.journal = receipts o.journal ∧
      ∀ e, (closingOnError [fd] act o).1 = .error e →
        ¬ IsOpen fd (closingOnError [fd] act o).2.journal := by
  refine ⟨receipts_aloof (h.closing o), ?_⟩
  unfold closingOnError
  rcases act o with ⟨_ | a, o'⟩
  · intro _ _ hopen
    exact (((closeAll_journal [fd] o').2 fd).1 hopen).1 List.mem_cons_self
  · intro _ he
    cases he

theorem Sockets.accept_receipts (listener : Fd) (o : Os κ (Mark ν)) : match accept listener o with
    | (.ok (client, _), o') =>
      receipts o'.journal = receipts o.journal ++ [.accepted listener (some client)]
    | (.error _, o') => ∃ given : Option Fd,
      receipts o'.journal = receipts o.journal ++ [.accepted listener given] ∧
        ∀ fd ∈ given, ¬ IsOpen fd o'.journal := by
  have hcall : (sys (κ := κ) (μ := Mark ν) (.accept listener) o).2.journal =
      .sys (.accept listener) (sys (.accept listener) o).1 :: o.journal := rfl
  unfold accept
  rw [except_bind]
  unfold demand
  generalize sys (.accept listener) o = out at hcall ⊢
  rcases out with ⟨e | ⟨client, name⟩, o₁⟩
  · refine ⟨none, ?_, nofun⟩
    rw [show o₁.journal = _ from hcall, receipts_cons]
    rfl
  · have h₁ : receipts o₁.journal = receipts o.journal ++ [.accepted listener (some client)] := by
      rw [show o₁.journal = _ from hcall, receipts_cons]
      rfl
    obtain ⟨h₂, hc₂⟩ := closing_receipts client (.configure client) o₁
    dsimp only
    rw [except_bind]
    generalize closingOnError [client] (configure client) o₁ = out at h₂ hc₂ ⊢
    rcases out with ⟨e | ⟨⟩, o₂⟩
    · refine ⟨some client, h₂.trans h₁, ?_⟩
      rintro fd ⟨⟩
      exact hc₂ e rfl
    · have hname : IsAloofAct (κ := κ) (ν := ν) (decodeName name) := fun o ↦ .refl o.journal
      obtain ⟨h₃, hc₃⟩ := closing_receipts client hname o₂
      dsimp only
      rw [except_bind]
      generalize closingOnError [client] (decodeName name) o₂ = out at h₃ hc₃ ⊢
      rcases out with ⟨e | peer, o₃⟩
      · refine ⟨some client, h₃.trans (h₂.trans h₁), ?_⟩
        rintro fd ⟨⟩
        exact hc₃ e rfl
      · exact h₃.trans (h₂.trans h₁)

end

namespace Reactor

/-- But for the receipts `news`, everything is as before, and the descriptor that was given is
closed. -/
structure Undone (news : List Receipt) (given : Option Fd) (r r' : Reactor κ π ν) : Prop where
  live : r'.live = r.live
  pool : r'.pool = r.pool
  size : r'.conns.size = r.conns.size
  receipts : receipts r'.os.journal = receipts r.os.journal ++ news
  closed : ∀ fd ∈ given, ¬ IsOpen fd r'.os.journal

/-- One connection more, at the end of the list and under the next identifier. -/
structure Enlisted (listener client : Fd) (peer : Net.SocketAddr) (r r' : Reactor κ π ν) :
    Prop where
  live : r'.live = r.live ++ [r.conns.size + 1]
  pool : ∃ slot free, r.pool.free = slot :: free ∧ r'.pool = r.pool.without slot free
  size : r'.conns.size = r.conns.size + 1
  conn : ∃ c, r'.conn? (r.conns.size + 1) = some c ∧ c.fd? = some client ∧ c.peer = peer
  receipts : receipts r'.os.journal = receipts r.os.journal ++
    [.accepted listener (some client), .asked peer, .admitted (r.conns.size + 1)]

structure Asking (listener client : Fd) (peer : Net.SocketAddr) (slot : Nat) (free : List Nat)
    (r r' : Reactor κ π ν) : Prop where
  first : r.pool.free = slot :: free
  parked : r.pool.slots[slot]? = some (some .empty)
  live : r'.live = r.live
  pool : r'.pool = r.pool.without slot free
  size : r'.conns.size = r.conns.size
  receipts : receipts r'.os.journal = receipts r.os.journal ++
    [.accepted listener (some client), .asked peer]

variable {r r' r'' : Reactor κ π ν} {listener client : Fd} {peer : Net.SocketAddr} {slot : Nat}
  {free : List Nat}

theorem Asking.still {C : Entry (Mark ν) → Prop} (h : Asking listener client peer slot free r r')
    (hs : Still C r' r'') (hC : ∀ e, C e → e.IsAloof) :
    Asking listener client peer slot free r r'' where
  first := h.first
  parked := h.parked
  live := hs.live.trans h.live
  pool := hs.pool.trans h.pool
  size := hs.size.trans h.size
  receipts := (receipts_aloof (hs.journal.mono hC)).trans h.receipts

variable [Kernel κ] {P : Policy π ν}

theorem Asking.refused (h : Asking listener client peer slot free r r') :
    Undone [.accepted listener (some client), .asked peer] (some client) r
      (closeAndRelease ⟨r.pool.id, slot, ⟨some client, false⟩⟩ r').2 := by
  rw [closeAndRelease_run rfl]
  have hpool : (r'.pool.release ⟨r.pool.id, slot, .empty⟩).2 = r.pool := by
    have hslot : (r.pool.without slot free).slots[slot]? = some none := by
      rw [Pool.getElem?_without, if_pos rfl]
      exact ⟨(Array.getElem?_eq_some_iff.1 h.parked).1, rfl⟩
    rw [h.pool, Pool.release_eq rfl hslot]
    exact Pool.parked_without h.first h.parked
  refine ⟨h.live, hpool, h.size, ?_, ?_⟩
  · refine (receipts_aloof ?_).trans h.receipts
    exact .single rfl
  · rintro fd ⟨⟩ hopen
    exact (Journal.isOpen_close.1 hopen).1 rfl

theorem Asking.enlisted (h : Asking listener client peer slot free r r') (d : Draft) :
    Enlisted listener client peer r
      (enroll ⟨r.pool.id, slot, ⟨some client, false⟩⟩ peer d r').2 := by
  obtain ⟨now, he⟩ := enroll_run ⟨r.pool.id, slot, ⟨some client, false⟩⟩ peer d r'
  have hn := h.size
  rw [he]
  constructor
  case live => exact congrArg₂ (· ++ [· + 1]) h.live hn
  case pool => exact ⟨slot, free, h.first, h.pool⟩
  case size => exact (Array.size_push _).trans (congrArg (· + 1) hn)
  case conn =>
    rw [conn?_enrolled, hn, if_pos rfl]
    exact ⟨_, rfl, rfl, rfl⟩
  case receipts =>
    have hclock := receipts_cons (.sys .clock now) r'.os.journal
    refine (receipts_cons _ _).trans ?_
    rw [hclock, h.receipts, hn]
    simp [Entry.receipt?]

theorem welcome_cases (h : Holding r none) (listener : Fd) :
    (∃ os given, welcome P listener r = ({ r with os }, .go []) ∧
      Undone [.accepted listener given] given r { r with os } ∧ (r.pool.free = [] ∨
        r.pool.free ≠ [] ∧ ∃ e, (Sockets.accept listener r.os).1 = .error e)) ∨
    ∃ slot free client peer, (Sockets.accept listener r.os).1 = .ok (client, peer) ∧
      (welcome P listener r).2 = .go [.meet ⟨r.pool.id, slot, ⟨some client, false⟩⟩ peer
        (P.ready peer r.defaults r.app)] ∧
      Asking listener client peer slot free r (welcome P listener r).1 := by
  have hj := Sockets.accept_receipts listener r.os
  obtain ⟨hf, hw⟩ | ⟨slot, free, hf, hs, hw⟩ := welcome_run (P := P) h listener
  · left
    have he : systemExcept (Sockets.accept listener) r =
      ((Sockets.accept listener r.os).1, { r with os := (Sockets.accept listener r.os).2 }) := rfl
    rw [hw]
    unfold turnAway
    rw [bind_run, he]
    generalize Sockets.accept listener r.os = out at hj ⊢
    rcases out with ⟨_ | ⟨client, peer⟩, os⟩
    · obtain ⟨given, hj, hc⟩ := hj
      exact ⟨os, given, rfl, ⟨rfl, rfl, rfl, hj, hc⟩, .inl hf⟩
    · refine ⟨_, some client, rfl, ⟨rfl, rfl, rfl, ?_, ?_⟩, .inl hf⟩
      · refine (receipts_aloof ?_).trans hj
        exact .single rfl
      · rintro fd ⟨⟩ hopen
        exact (Journal.isOpen_close.1 hopen).1 rfl
  · rw [hw]
    generalize Sockets.accept listener r.os = out at hj ⊢
    rcases out with ⟨e | ⟨client, peer⟩, os⟩
    · obtain ⟨given, hj, hc⟩ := hj
      refine .inl ⟨os, given, rfl, ⟨rfl, rfl, rfl, hj, hc⟩, .inr ⟨?_, e, rfl⟩⟩
      rw [hf]
      exact List.cons_ne_nil _ _
    · refine .inr ⟨slot, free, client, peer, rfl, rfl, ⟨hf, hs, rfl, rfl, rfl, ?_⟩⟩
      refine (receipts_cons _ _).trans ?_
      rw [hj]
      simp [Entry.receipt?]

end Reactor

namespace Moment

open Reactor

variable [Kernel κ] {P : Policy π ν} {outside : Phase π ν → Prop} {m m₁ m₂ m' : Moment κ π ν}
  {listener : Fd} {rest : List (Task π ν)}

def Admits (P : Policy π ν) (outside : Phase π ν → Prop) (rest : List (Task π ν))
    (m m' : Moment κ π ν) : Prop :=
  (∃ first, m.phase = .busy first rest) ∧ Step P outside m m'

/-- The application came to an answer about the peer, and did no more until the end. -/
def Concludes (P : Policy π ν) (outside : Phase π ν → Prop) (rest : List (Task π ν))
    (m : Moment κ π ν) (peer : Net.SocketAddr) (answer : Option Draft) (m' : Moment κ π ν) : Prop :=
  ∃ r t app, ReflTransGen (Admits P outside rest) (tasked P m)
      ⟨r, .busy (.meet t peer (.done (.ok answer, app))) rest⟩ ∧
    m' = tasked P ⟨r, .busy (.meet t peer (.done (.ok answer, app))) rest⟩

/-- What became of the peer that the listening socket was asked for at the moment `m`. -/
inductive Reception (P : Policy π ν) (outside : Phase π ν → Prop) (listener : Fd)
    (rest : List (Task π ν)) (m m' : Moment κ π ν) : Prop where
  | turnedAway (given : Option Fd) (full : m.reactor.pool.free = [])
      (undone : Undone [.accepted listener given] given m.reactor m'.reactor)
  | failed (given : Option Fd) (e : IoError) (room : m.reactor.pool.free ≠ [])
      (answer : (Sockets.accept listener m.reactor.os).1 = .error e)
      (undone : Undone [.accepted listener given] given m.reactor m'.reactor)
  | refused (client : Fd) (peer : Net.SocketAddr) (room : m.reactor.pool.free ≠ [])
      (answer : (Sockets.accept listener m.reactor.os).1 = .ok (client, peer))
      (concludes : Concludes P outside rest m peer none m')
      (undone : Undone [.accepted listener (some client), .asked peer] (some client)
        m.reactor m'.reactor)
  | kept (client : Fd) (peer : Net.SocketAddr) (d : Draft) (room : m.reactor.pool.free ≠ [])
      (answer : (Sockets.accept listener m.reactor.os).1 = .ok (client, peer))
      (concludes : Concludes P outside rest m peer (some d) m')
      (enlisted : Enlisted listener client peer m.reactor m'.reactor)

inductive Receiving (P : Policy π ν) (outside : Phase π ν → Prop) (listener : Fd)
    (rest : List (Task π ν)) (m m' : Moment κ π ν) : Prop where
  | asking (slot : Nat) (free : List Nat) (client : Fd) (peer : Net.SocketAddr)
      (script : Script ν (Outcome π (Option Draft)))
      (phase : m'.phase =
        .busy (.meet ⟨m.reactor.pool.id, slot, ⟨some client, false⟩⟩ peer script) rest)
      (answer : (Sockets.accept listener m.reactor.os).1 = .ok (client, peer))
      (asking : Asking listener client peer slot free m.reactor m'.reactor)
  | ended (phase : m'.phase = .ofTasks rest) (received : Reception P outside listener rest m m')
  | raised (phase : m'.phase = .idle) (raised : ¬ Returned m'.journal)

theorem receiving_tasked (h : Holding m.reactor none)
    (hm : m.phase = .busy (.accept listener) rest) :
    Receiving P outside listener rest m (tasked P m) := by
  have ht : tasked P m = ⟨(welcome P listener m.reactor).1,
      (welcome P listener m.reactor).2.phase rest⟩ := by
    unfold tasked
    rw [hm]
    rfl
  rw [ht]
  obtain ⟨os, given, hw, hu, hfree⟩ | ⟨slot, free, client, peer, ha, hnext, hasking⟩ :=
    welcome_cases (P := P) h listener
  · rw [hw]
    obtain hfull | ⟨hroom, e, he⟩ := hfree
    · exact .ended rfl (.turnedAway given hfull hu)
    · exact .ended rfl (.failed given e hroom he hu)
  · rw [hnext]
    exact .asking slot free client peer _ rfl ha hasking

omit [Kernel κ] in
theorem ofTasks_ne_busy (first : Task π ν) : Phase.ofTasks rest ≠ .busy first rest := by
  cases rest with
  | nil => exact nofun
  | cons t rest => exact fun h ↦ List.cons_ne_self t rest (Phase.busy.inj h).2.symm

theorem Receiving.admits (hp : ReflTransGen (Admits P outside rest) (tasked P m) m₁)
    (h : Receiving P outside listener rest m m₁) (hs : Admits P outside rest m₁ m₂) :
    Receiving P outside listener rest m m₂ := by
  obtain ⟨⟨first, hfirst⟩, hs⟩ := hs
  rcases m₁ with ⟨r₁, phase₁⟩
  obtain rfl : phase₁ = _ := hfirst
  cases h with
  | ended phase => exact absurd phase.symm (ofTasks_ne_busy first)
  | raised phase => cases phase
  | asking slot free client peer script phase answer hasking =>
    obtain ⟨rfl, -⟩ := Phase.busy.inj phase
    have hroom : m.reactor.pool.free ≠ [] := hasking.first ▸ List.cons_ne_nil _ _
    have hstill {C : Entry (Mark ν) → Prop} {r₂ : Reactor κ π ν}
        (script : Script ν (Outcome π (Option Draft))) (hs : Still C r₁ r₂)
        (hC : ∀ e, C e → e.IsAloof) : Receiving P outside listener rest m ⟨r₂, .busy
          (.meet ⟨m.reactor.pool.id, slot, ⟨some client, false⟩⟩ peer script) rest⟩ :=
      .asking slot free client peer script rfl answer (hasking.still hs hC)
    cases hs with
    | kernel r phase k => exact hstill script (C := fun _ ↦ False) (.kernel r₁ k) fun _ h ↦ h.elim
    | listener r phase text =>
      exact hstill script (.system r₁ (IsAloofAct.listenOn text r₁.os)) fun _ h ↦ h
    | request r phase q _ => exact hstill script (request_still q r₁) fun _ h ↦ h.aloof
    | task r first rest =>
      cases script with
      | ask q next => exact hstill _ (request_still q r₁) fun _ h ↦ h.aloof
      | say v next => exact hstill _ (C := Entry.IsAloof) (.remark r₁ rfl) fun _ h ↦ h
      | done out =>
        rcases out with ⟨p | _ | d, app⟩
        · refine .raised rfl fun hr ↦ ?_
          have hr := (adds_close ⟨some client, false⟩
            (remark (.raised p) { r₁ with app }).2).returned hr
          cases hr (.remark (.raised p)) List.mem_cons_self
        · have ha := hasking.still (C := Entry.IsAloof) (.app r₁ app) fun _ h ↦ h
          exact .ended rfl (.refused client peer hroom answer ⟨r₁, _, app, hp, rfl⟩ ha.refused)
        · have ha := hasking.still (C := Entry.IsAloof) (.app r₁ app) fun _ h ↦ h
          exact .ended rfl (.kept client peer d hroom answer ⟨r₁, _, app, hp, rfl⟩ (ha.enlisted d))

theorem receiving_of_admits (h : Holding m.reactor none)
    (hm : m.phase = .busy (.accept listener) rest)
    (hs : ReflTransGen (Admits P outside rest) (tasked P m) m') :
    Receiving P outside listener rest m m' := by
  induction hs with
  | refl => exact receiving_tasked h hm
  | tail hp hs ih => exact ih.admits hp hs

theorem meet_admits {script : Script ν (Outcome π (Option Draft))} {t : Token Stream}
    {peer : Net.SocketAddr} {r : Reactor κ π ν}
    (hr : Returned (decided t peer (concluded (runScript script r))).2.os.journal) :
    (decided t peer (concluded (runScript script r))).1 = .ok () ∧
      ReflTransGen (Admits P outside rest) ⟨r, .busy (.meet t peer script) rest⟩
        ⟨(decided t peer (concluded (runScript script r))).2, .ofTasks rest⟩ := by
  induction script generalizing r with
  | done out =>
    rcases out with ⟨p | _ | d, app⟩
    · have hr := (adds_close t.value (remark (.raised p) { r with app }).2).returned hr
      cases hr (.remark (.raised p)) List.mem_cons_self
    · exact ⟨rfl, .single ⟨⟨_, rfl⟩, .task r _ rest⟩⟩
    · exact ⟨rfl, .single ⟨⟨_, rfl⟩, .task r _ rest⟩⟩
  | ask q next ih =>
    obtain ⟨hok, hs⟩ := ih (request q r).1 hr
    exact ⟨hok, .head ⟨⟨_, rfl⟩, .task r _ rest⟩ hs⟩
  | say v next ih =>
    obtain ⟨hok, hs⟩ := ih (r := (remark (.said v) r).2) hr
    exact ⟨hok, .head ⟨⟨_, rfl⟩, .task r _ rest⟩ hs⟩

theorem acceptPeer_admits (h : Holding m.reactor none)
    (hm : m.phase = .busy (.accept listener) rest)
    (hr : Returned (acceptPeer P listener m.reactor).2.os.journal) :
    (acceptPeer P listener m.reactor).1 = .ok () ∧
      ReflTransGen (Admits P outside rest) (tasked P m)
        ⟨(acceptPeer P listener m.reactor).2, .ofTasks rest⟩ := by
  have ht : tasked P m = ⟨(welcome P listener m.reactor).1,
      (welcome P listener m.reactor).2.phase rest⟩ := by
    unfold tasked
    rw [hm]
    rfl
  rw [ht]
  unfold acceptPeer welcome at *
  rw [pass_bind, pass_get] at hr ⊢
  simp only [andThen] at hr ⊢
  obtain ⟨-, hp⟩ | ⟨slot, free, s, -, -, hp⟩ := h.kept.reserve
  · simp only [hp] at hr ⊢
    exact ⟨rfl, .refl⟩
  · simp only [hp, pass_bind, calmly_run, andThen, modify_run] at hr ⊢
    cases ha : systemExcept (Sockets.accept listener)
        { m.reactor with pool := m.reactor.pool.without slot free } with
    | mk answer r =>
      simp only [ha] at hr ⊢
      rcases answer with e | ⟨client, peer⟩
      · exact ⟨rfl, .refl⟩
      · simp only [pass_bind, calmly_run, andThen, introduce_run, consult_run] at hr ⊢
        exact meet_admits hr

end Moment

namespace Reactor

/-- Peers were numbered from one on as they were kept, and the list is in the order of their
numbers. -/
structure Numbered (r : Reactor κ π ν) : Prop where
  admitted : Journal.admitted r.os.journal = List.range' 1 r.conns.size
  ordered : r.live.Pairwise (· < ·)
  bounded : ∀ id ∈ r.live, id ≤ r.conns.size

variable {r r' : Reactor κ π ν}

theorem Numbered.quiet (h : Numbered r) (hl : r'.live = r.live) (hn : r'.conns.size = r.conns.size)
    (hj : Adds (·.isQuiet) r.os.journal r'.os.journal) : Numbered r' where
  admitted := by rw [Journal.admitted_quiet hj, hn, h.admitted]
  ordered := hl ▸ h.ordered
  bounded := by
    rw [hl, hn]
    exact h.bounded

theorem Numbered.callback {j : Journal ν} (h : Journal.admitted j = List.range' 1 r.conns.size)
    {cb : Callback} (hj : r'.os.journal = .remark (.callback cb) :: j)
    (hn : r'.conns.size = r.conns.size) :
    Journal.admitted r'.os.journal = List.range' 1 r'.conns.size := by
  rw [hj, hn, Journal.admitted_cons, h]
  exact List.append_nil _

theorem Numbered.turnover [Kernel κ] (h : Numbered r) {first : Task π ν}
    (ht : Turnover first r r') : Numbered r' := by
  have hquiet {j : Journal ν} (hj : Adds (·.isQuiet) r.os.journal j) :
      Journal.admitted j = List.range' 1 r.conns.size :=
    (Journal.admitted_quiet hj).trans h.admitted
  cases ht with
  | quiet hl hn hj => exact h.quiet hl hn hj
  | told cb _ _ hl hn j hj journal =>
    refine ⟨Numbered.callback (hquiet hj) journal hn, hl ▸ h.ordered, ?_⟩
    rw [hl, hn]
    exact h.bounded
  | admitted fd d hl hn j hj journal =>
    refine ⟨?_, ?_, ?_⟩
    · rw [journal, hn, Journal.admitted_cons, hquiet hj, List.range'_concat]
      simp [Entry.receipt?, Receipt.id?, Nat.add_comm]
    · rw [hl, List.pairwise_append]
      refine ⟨h.ordered, List.pairwise_singleton _ _, ?_⟩
      intro id hid id' hid'
      rw [List.mem_singleton.1 hid']
      exact Nat.lt_succ_of_le (h.bounded id hid)
    · intro id hid
      rw [hl, List.mem_append, List.mem_singleton] at hid
      rw [hn]
      rcases hid with hid | rfl
      · exact Nat.le_succ_of_le (h.bounded id hid)
      · exact Nat.le_refl _
  | ended id why _ hl hn j hj journal =>
    refine ⟨Numbered.callback (hquiet hj) journal hn, ?_, ?_⟩
    · rw [hl]
      exact h.ordered.filter _
    · intro id' hid
      rw [hl] at hid
      rw [hn]
      exact h.bounded id' (List.mem_filter.1 hid).1

end Reactor

namespace Moment

open Reactor

variable [Kernel κ] {P : Policy π ν} {outside : Phase π ν → Prop} {b : Builder}
  {m m' : Moment κ π ν}

theorem Step.numbered (h : Step P outside m m') (hn : m.reactor.Numbered) :
    m'.reactor.Numbered := by
  have hrelisten {r : Reactor κ π ν} (hs : Relisten m.reactor r) : r.Numbered := by
    have hj := hs.journal.mono fun _ he ↦ he.chore.quiet
    obtain ⟨os, listener, rfl, -⟩ := hs
    exact hn.quiet rfl rfl hj
  cases h with
  | kernel r phase k => exact hn.quiet rfl rfl (.refl _)
  | listener r phase text => exact hrelisten (relisten_opening (Sockets.listenOn_opening text) r)
  | request r phase q _ =>
    have hs := request_still q r
    exact hn.quiet hs.live hs.size (hs.journal.mono fun _ he ↦ he.quiet)
  | setUp hs => exact hrelisten hs.relisten
  | memory r app => exact hn.quiet rfl rfl (.refl _)
  | task r first rest => exact hn.turnover (advance_turnover first r)
  | _ => exact hn

theorem Occurs.numbered (h : Occurs P outside b m) : m.reactor.Numbered := by
  apply h.induction (motive := fun m ↦ m.reactor.Numbered) ?_ fun _ _ hs hn ↦ hs.numbered hn
  intro app os r os' hb hj
  obtain ⟨hconns, hsetup⟩ := built_bare hb hj
  obtain ⟨receiver, sender, -, -, rfl⟩ := build_eq hb
  refine ⟨?_, .nil, nofun⟩
  exact Journal.admitted_quiet (hsetup.mono fun _ he ↦ (Entry.chore_of_isSetup he).quiet)

theorem Step.poised {n : Nat} (h : Step P outside m m') (ha : Agrees n m)
    (hp : m.phase.Prepared n m.reactor) (hm : m.Poised) : m'.Poised := by
  have hinner (h : Inner P outside m m') : m'.Poised := h.poised hm
  refine ⟨⟨n, h.agrees ha, h.prepared ha hp⟩, ?_⟩
  cases h with
  | kernel => exact hm.listener
  | listener r phase text =>
    exact fun fd hfd ↦ (listenOn_still text r).listener.trans (hm.listener fd hfd)
  | setUp => exact nofun
  | request r phase q h => exact (hinner (.request r phase q h)).listener
  | memory r app => exact nofun
  | start r h => exact (hinner (.start r h)).listener
  | wake r w reported => exact (hinner (.wake r w reported)).listener
  | fail r w => exact nofun
  | cleanup r => exact (hinner (.cleanup r)).listener
  | task r first rest => exact (hinner (.works (.task r first rest))).listener

theorem Occurs.poised (h : Occurs P outside b m) : m.Poised :=
  h.step_induction (fun _ _ _ _ hb _ ↦ .idle (built_agrees hb).sound)
    fun _ _ ho hs hm ↦ hs.poised ho.agrees ho.prepared hm

/-- Whatever the system answers, whatever the application says of the peer and whatever requests
are made meanwhile: the listening socket is asked once for each admission, and as long as callbacks
return, either the peer gets the next identifier and the last place on the list, or its descriptor
is closed and list, pool and next identifier are as before. -/
theorem Occurs.reception (h : Occurs P outside b m) : m.reactor.Numbered ∧
    ∀ listener rest, m.phase = .busy (.accept listener) rest →
      m.reactor.listener = some listener ∧
      (∀ m', ReflTransGen (Admits P outside rest) (Moment.tasked P m) m' →
        m'.phase = .ofTasks rest → Returned m'.journal →
          Reception P outside listener rest m m') ∧
      (Returned (acceptPeer P listener m.reactor).2.os.journal →
        (acceptPeer P listener m.reactor).1 = .ok () ∧
          ReflTransGen (Admits P outside rest) (Moment.tasked P m)
            ⟨(acceptPeer P listener m.reactor).2, .ofTasks rest⟩) := by
  refine ⟨h.numbered, fun listener rest hm ↦ ?_⟩
  have hh : Holding m.reactor none := by
    have hs := h.agrees.sound.holding
    rwa [hm] at hs
  have hl : m.reactor.listener = some listener := by
    apply h.poised.listener
    rw [hm]
    exact List.mem_cons_self
  refine ⟨hl, fun m' hs hend hr ↦ ?_, fun hr ↦ acceptPeer_admits hh hm hr⟩
  cases receiving_of_admits hh hm hs with
  | ended _ received => exact received
  | raised _ raised => exact absurd hr raised
  | asking slot free client peer script phase =>
    exact absurd (hend.symm.trans phase) (ofTasks_ne_busy _)

end Moment

namespace Visit

open Moment

def hailed : Moment World Unit Unit := woken id [0, 1] ⟨started, .waiting started.prepare⟩

theorem hailed_occurs : Occurs policy (fun _ ↦ True) builder hailed := by
  have hs := Reactor.SetUp.adopt 1000 (.inl built_not_owns)
  have h : Occurs policy (fun _ ↦ True) builder ⟨started, .waiting started.prepare⟩ :=
    ⟨(), ⟨world, []⟩, built, built.os, rfl, rfl,
      .tail (.tail .refl (.step (.setUp hs))) (.start _)⟩
  exact h.woken id [0, 1]

-- From here on, only the kernel is to compute the turn.
attribute [irreducible] hailed

theorem accept_due (m : Moment World Unit Unit) (listener : Fd)
    (h : (match m.phase with
      | .busy (.accept fd) _ => decide (fd = listener)
      | _ => false) = true) : ∃ rest, m.phase = .busy (.accept listener) rest := by
  split at h
  · rename_i rest hm
    exact ⟨rest, of_decide_eq_true h ▸ hm⟩
  · cases h

theorem hailed_received : Occurs policy (fun _ ↦ True) builder hailed ∧
    ∃ rest, hailed.phase = .busy (.accept 1000) rest ∧
      Returned (Reactor.acceptPeer policy 1000 hailed.reactor).2.os.journal ∧
      Reception policy (fun _ ↦ True) 1000 rest hailed
        ⟨(Reactor.acceptPeer policy 1000 hailed.reactor).2, .ofTasks rest⟩ ∧
      (Reactor.acceptPeer policy 1000 hailed.reactor).2.live = [1] := by
  obtain ⟨rest, hm⟩ := accept_due hailed 1000 (by decide +kernel)
  have hr : Returned (Reactor.acceptPeer policy 1000 hailed.reactor).2.os.journal := by
    decide +kernel
  obtain ⟨-, hreceived, hcall⟩ := hailed_occurs.reception.2 1000 rest hm
  exact ⟨hailed_occurs, rest, hm, hr, hreceived _ (hcall hr).2 rfl hr, by decide +kernel⟩

end Visit
end PollReactor
