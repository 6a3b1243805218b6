import PollReactor.Proofs.Moment.Faithful
import PollReactor.Proofs.Setup

namespace PollReactor

open Journal (IsOpen)
open Reactor
open Relation (ReflTransGen)

variable {κ π ν : Type}

/-- What there is of a reactor. A reactor that was taken down is still known to its handles. -/
inductive Tenure (κ π ν : Type) where
  | absent (os : Os κ (Mark ν))
  | alive (m : Moment κ π ν)
  | retired (r : Reactor κ π ν)

namespace Tenure

def os : Tenure κ π ν → Os κ (Mark ν)
  | absent os => os
  | alive m => m.reactor.os
  | retired r => r.os

def withOs (os : Os κ (Mark ν)) : Tenure κ π ν → Tenure κ π ν
  | absent _ => absent os
  | alive m => alive ⟨{ m.reactor with os }, m.phase⟩
  | retired r => retired { r with os }

def ofBuild : Except Halt (Reactor κ π ν) × Os κ (Mark ν) → Tenure κ π ν
  | (.ok r, _) => alive ⟨r, .idle⟩
  | (.error _, os) => absent os

theorem os_withOs (s : Tenure κ π ν) (os : Os κ (Mark ν)) : (s.withOs os).os = os := by
  cases s <;> rfl

end Tenure

/-- A reactor, and the listening sockets around it that were not handed over. -/
structure Estate (κ π ν : Type) where
  tenure : Tenure κ π ν
  spare : List Fd

def Estate.journal (e : Estate κ π ν) : Journal ν := e.tenure.os.journal

namespace Reactor

variable [Kernel κ]

/-- Takes the reactor down, but not its waker, which its handles keep. -/
def retire : ReactorM κ π ν Unit := do
  let live := (← get).live
  modify fun r ↦ { r with live := [] }
  detachAll live
  closeListener

theorem dispose_run (r : Reactor κ π ν) :
    (dispose r).2.os = ((retire r).2.waker.close (retire r).2.os).2 := rfl

end Reactor

namespace Estate

variable [Kernel κ] (P : Policy π ν) (outside : Phase π ν → Prop)

def given : Except IoError Fd → List Fd
  | .ok fd => [fd]
  | .error _ => []

inductive Step : Estate κ π ν → Estate κ π ν → Prop where
  | kernel (s : Tenure κ π ν) (spare : List Fd) (kernel : κ) :
      Step ⟨s, spare⟩ ⟨s.withOs { s.os with kernel }, spare⟩
  | listen (s : Tenure κ π ν) (spare : List Fd) (text : String) : Step ⟨s, spare⟩
      ⟨s.withOs (Sockets.listenOn text s.os).2, given (Sockets.listenOn text s.os).1 ++ spare⟩
  /-- A descriptor from outside is made a listening socket. It is open from then on. -/
  | adopt (s : Tenure κ π ν) (spare : List Fd) (fd : Fd) (h : ¬ IsOpen fd s.os.journal) :
      Step ⟨s, spare⟩ ⟨s.withOs (Sockets.adopt fd (s.os.note (.adopted fd))).2, fd :: spare⟩
  | adoptOwned (s : Tenure κ π ν) (spare : List Fd) (fd : Fd) (h : ¬ IsOpen fd s.os.journal) :
      Step ⟨s, spare⟩ ⟨s.withOs (Sockets.adoptOwned fd (s.os.note (.adopted fd))).2,
        given (Sockets.adoptOwned fd (s.os.note (.adopted fd))).1 ++ spare⟩
  | address (s : Tenure κ π ν) (spare : List Fd) (fd : Fd) (h : fd ∈ spare) :
      Step ⟨s, spare⟩ ⟨s.withOs (Sockets.localAddr fd s.os).2, spare⟩
  | close (s : Tenure κ π ν) (spare : List Fd) (fd : Fd) (h : fd ∈ spare) :
      Step ⟨s, spare⟩ ⟨s.withOs (Os.call (.close fd) s.os).2, spare.erase fd⟩
  | build (b : Builder) (app : π) (os : Os κ (Mark ν)) (spare : List Fd) :
      Step ⟨.absent os, spare⟩ ⟨.ofBuild (b.build app os), spare⟩
  | inner {m m' : Moment κ π ν} (spare : List Fd) (h : Moment.Inner P outside m m') :
      Step ⟨.alive m, spare⟩ ⟨.alive m', spare⟩
  | init (r : Reactor κ π ν) (spare : List Fd) (fd : Fd) (h : fd ∈ spare) :
      Step ⟨.alive ⟨r, .idle⟩, spare⟩ ⟨.alive ⟨(Reactor.init fd r).2, .idle⟩, spare.erase fd⟩
  | retire (r : Reactor κ π ν) (spare : List Fd) :
      Step ⟨.alive ⟨r, .idle⟩, spare⟩ ⟨.retired (Reactor.retire r).2, spare⟩
  | request (r : Reactor κ π ν) (spare : List Fd) (q : Request) :
      Step ⟨.retired r, spare⟩ ⟨.retired (Reactor.request q r).2, spare⟩
  | forget (r : Reactor κ π ν) (spare : List Fd) :
      Step ⟨.retired r, spare⟩ ⟨.absent (r.waker.close r.os).2, spare⟩

/-- Steps large and small: the operations as they are carried out, and the steps that they consist
of. -/
inductive Act : Estate κ π ν → Estate κ π ν → Prop where
  | step {e e' : Estate κ π ν} (h : Step P outside e e') : Act e e'
  | start (r : Reactor κ π ν) (spare : List Fd) : Act ⟨.alive ⟨r, .idle⟩, spare⟩
      ⟨.alive ⟨(Reactor.start P r).2, .ofProgress (Reactor.start P r).1⟩, spare⟩
  | resume (r : Reactor κ π ν) (w : Wait) (report : Except Errno (List UInt16))
      (spare : List Fd) : Act ⟨.alive ⟨r, .waiting w⟩, spare⟩
        ⟨.alive ⟨(Reactor.resume P w report r).2, .ofProgress (Reactor.resume P w report r).1⟩,
          spare⟩
  | cleanup (r : Reactor κ π ν) (spare : List Fd) :
      Act ⟨.alive ⟨r, .idle⟩, spare⟩ ⟨.alive ⟨(Reactor.cleanup P r).2, .idle⟩, spare⟩
  | bind (r : Reactor κ π ν) (spare : List Fd) (text : String) :
      Act ⟨.alive ⟨r, .idle⟩, spare⟩ ⟨.alive ⟨(Reactor.bind text r).2, .idle⟩, spare⟩
  | listen (r : Reactor κ π ν) (spare : List Fd) (text : String) :
      Act ⟨.alive ⟨r, .idle⟩, spare⟩ ⟨.alive ⟨(Reactor.listen text r).2, .idle⟩, spare⟩
  | adopt (r : Reactor κ π ν) (spare : List Fd) (fd : Fd)
      (h : ¬ IsOpen fd r.os.journal ∨ r.listener = some fd) :
      Act ⟨.alive ⟨r, .idle⟩, spare⟩ ⟨.alive ⟨(Reactor.adopt fd r).2, .idle⟩, spare⟩
  | adoptOwned (r : Reactor κ π ν) (spare : List Fd) (fd : Fd) (h : ¬ IsOpen fd r.os.journal) :
      Act ⟨.alive ⟨r, .idle⟩, spare⟩ ⟨.alive ⟨(Reactor.adoptOwned fd r).2, .idle⟩, spare⟩
  | dispose (r : Reactor κ π ν) (spare : List Fd) :
      Act ⟨.alive ⟨r, .idle⟩, spare⟩ ⟨.absent (Reactor.dispose r).2.os, spare⟩

/-- The program has come so far from its beginning. -/
def Arises (e : Estate κ π ν) : Prop :=
  ∃ os, os.journal = [] ∧ ReflTransGen (Act P outside) ⟨.absent os, []⟩ e

variable {P outside} {e e' : Estate κ π ν}

theorem inner_steps {m m' : Moment κ π ν} (h : ReflTransGen (Moment.Inner P outside) m m')
    (spare : List Fd) : ReflTransGen (Step P outside) ⟨.alive m, spare⟩ ⟨.alive m', spare⟩ :=
  h.lift (fun m ↦ (⟨.alive m, spare⟩ : Estate κ π ν)) fun _ _ ↦ .inner spare

theorem init_latest (r : Reactor κ π ν) (spare : List Fd) (fd : Fd) :
    Step P outside ⟨.alive ⟨r, .idle⟩, fd :: spare⟩
      ⟨.alive ⟨(Reactor.init fd r).2, .idle⟩, spare⟩ := by
  have h : Step P outside _ _ := .init r (fd :: spare) fd List.mem_cons_self
  rw [List.erase_cons_head] at h
  exact h

theorem opened_steps {next : Fd → Reactor κ π ν → Reactor κ π ν} {spare : List Fd}
    (hn : ∀ fd r, ReflTransGen (Step P outside) ⟨.alive ⟨r, .idle⟩, fd :: spare⟩
      ⟨.alive ⟨next fd r, .idle⟩, spare⟩) (out : Except IoError Fd × Reactor κ π ν) :
    ReflTransGen (Step P outside) ⟨.alive ⟨out.2, .idle⟩, given out.1 ++ spare⟩
      ⟨.alive ⟨opened next out, .idle⟩, spare⟩ := by
  rcases out with ⟨_ | fd, r⟩
  · exact .refl
  · exact hn fd r

theorem bound_steps (r : Reactor κ π ν) (spare : List Fd) (fd : Fd) :
    ReflTransGen (Step P outside) ⟨.alive ⟨r, .idle⟩, fd :: spare⟩
      ⟨.alive ⟨bound fd (systemExcept (Sockets.localAddr fd) r), .idle⟩, spare⟩ := by
  have h : Step P outside ⟨.alive ⟨r, .idle⟩, fd :: spare⟩
      ⟨.alive ⟨(systemExcept (Sockets.localAddr fd) r).2, .idle⟩, fd :: spare⟩ :=
    .address (.alive ⟨r, .idle⟩) (fd :: spare) fd List.mem_cons_self
  refine .head h ?_
  rcases systemExcept (Sockets.localAddr fd) r with ⟨_ | _, r'⟩
  · have hc : Step P outside _ _ :=
      .close (.alive ⟨r', .idle⟩) (fd :: spare) fd List.mem_cons_self
    rw [List.erase_cons_head] at hc
    exact .single hc
  · exact .single (init_latest r' spare fd)

theorem Act.steps (h : Act P outside e e') : ReflTransGen (Step P outside) e e' := by
  cases h with
  | step h => exact .single h
  | start r spare => exact inner_steps (start_inner r) spare
  | resume r w report spare => exact inner_steps (resume_inner w report r) spare
  | cleanup r spare => exact inner_steps (cleanup_inner r) spare
  | bind r spare text =>
    rw [bind_eq]
    exact .head (.listen (.alive ⟨r, .idle⟩) spare text)
      (opened_steps (fun fd r ↦ bound_steps r spare fd) (systemExcept (Sockets.listenOn text) r))
  | listen r spare text =>
    rw [listen_eq]
    exact .head (.listen (.alive ⟨r, .idle⟩) spare text)
      (opened_steps (fun fd r ↦ .single (init_latest r spare fd))
        (systemExcept (Sockets.listenOn text) r))
  | adopt r spare fd h =>
    rcases h with h | h
    · exact .head (.adopt (.alive ⟨r, .idle⟩) spare fd h) (.single (init_latest _ spare fd))
    · exact .single (.inner spare (.again r fd h))
  | adoptOwned r spare fd h =>
    rw [adoptOwned_eq]
    exact .head (.adoptOwned (.alive ⟨r, .idle⟩) spare fd h)
      (opened_steps (fun fd r ↦ .single (init_latest r spare fd))
        (systemExcept (Sockets.adoptOwned fd) (remark (.adopted fd) r).2))
  | dispose r spare =>
    rw [dispose_run]
    exact .head (.retire r spare) (.single (.forget _ spare))

end Estate

end PollReactor
