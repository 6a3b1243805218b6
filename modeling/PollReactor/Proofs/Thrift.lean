import Mathlib.Data.List.Perm.Basic
import PollReactor.Proofs.Running
import PollReactor.WinSock.Multiplexer

namespace PollReactor

variable {ω α β : Type}

def WinCall.names : WinCall → List Fd
  | socket _ => []
  | datagramSocket => []
  | setNonblocking s => [s]
  | bind s _ => [s]
  | connect s _ => [s]
  | listen s _ => [s]
  | setOption s .. => [s]
  | localName s _ => [s]
  | accept s _ => [s]
  | shutdown s _ => [s]
  | closeSocket s => [s]
  | recv s .. => [s]
  | send s _ => [s]
  | poll fds _ => fds.map (·.fd)

namespace WinEntry

def opens : WinEntry → List Fd
  | ⟨.socket _, some s, _⟩ => [s]
  | ⟨.datagramSocket, some s, _⟩ => [s]
  | ⟨.accept .., some (client, _), _⟩ => [client]
  | _ => []

/-- The attempt counts, whatever the answer. -/
def closes? (e : WinEntry) : Option Fd :=
  match e.call with
  | .closeSocket s => some s
  | _ => none

theorem call_of_closes {e : WinEntry} {s : Fd} (h : e.closes? = some s) :
    e.call = .closeSocket s := by
  unfold closes? at h
  split at h
  · rename_i hc
    rw [hc, Option.some.inj h]
  · cases h

theorem opens_of_closes {e : WinEntry} (h : e.closes?.isSome) : e.opens = [] := by
  obtain ⟨s, hs⟩ := Option.isSome_iff_exists.1 h
  have hc := call_of_closes hs
  obtain ⟨c, a, code⟩ := e
  cases hc
  rfl

end WinEntry

abbrev WinJournal := List WinEntry

namespace WinJournal

variable {j j' : WinJournal} {s : Fd}

def openings (j : WinJournal) : List Fd := j.flatMap (·.opens)

def closings (j : WinJournal) : List Fd := j.filterMap (·.closes?)

@[simp]
theorem openings_append : openings (j ++ j') = openings j ++ openings j' := List.flatMap_append

@[simp]
theorem closings_append : closings (j ++ j') = closings j ++ closings j' := List.filterMap_append

theorem closings_eq_nil : closings j = [] ↔ ∀ e ∈ j, e.closes? = none := List.filterMap_eq_nil_iff

def Spares (s : Fd) : WinJournal → Prop
  | [] => True
  | e :: j => (s ∈ e.call.names → s ∉ closings j) ∧ Spares s j

def Smooth (j : WinJournal) : Prop := ∀ e ∈ j, e.answer.isSome ∧ e.closes? = none

def Closes (j : WinJournal) : Prop := ∀ e ∈ j, e.closes?.isSome

/-- All goes well up to a call that fails, and its code is told; or no call fails, and the error is
of another kind. -/
inductive Blames (other : IoError → Prop) (j : WinJournal) : IoError → Prop where
  | call {e : WinEntry} {first : WinJournal} (hj : j = e :: first) (hfails : e.answer = none)
      (hcloses : e.closes? = none) (hfirst : Smooth first) : Blames other j (.os e.lastError)
  | other {e : IoError} (h : other e) (hj : Smooth j) : Blames other j e

theorem Smooth.nil : Smooth [] := fun _ h ↦ by cases h

theorem Closes.nil : Closes [] := fun _ h ↦ by cases h

theorem Smooth.closings (h : Smooth j) : closings j = [] :=
  closings_eq_nil.2 fun e he ↦ (h e he).2

theorem Smooth.append (h : Smooth j) (h' : Smooth j') : Smooth (j ++ j') :=
  List.forall_mem_append.2 ⟨h, h'⟩

theorem Closes.append (h : Closes j) (h' : Closes j') : Closes (j ++ j') :=
  List.forall_mem_append.2 ⟨h, h'⟩

theorem Closes.openings (h : Closes j) : openings j = [] :=
  List.flatMap_eq_nil_iff.2 fun e he ↦ WinEntry.opens_of_closes (h e he)

theorem Blames.closings {other : IoError → Prop} {e : IoError} (h : Blames other j e) :
    closings j = [] := by
  cases h with
  | call hj _ hcloses hfirst =>
    subst hj
    rw [closings_eq_nil, List.forall_mem_cons]
    exact ⟨hcloses, closings_eq_nil.1 hfirst.closings⟩
  | other _ hj => exact hj.closings

theorem Blames.append {other : IoError → Prop} {e : IoError} (h : Blames other j e)
    (h' : Smooth j') : Blames other (j ++ j') e := by
  cases h with
  | call hj hfails hcloses hfirst =>
    subst hj
    exact .call rfl hfails hcloses (hfirst.append h')
  | other h hj => exact .other h (hj.append h')

theorem spares_of_not_mem (h : s ∉ closings j) : Spares s j := by
  induction j with
  | nil => trivial
  | cons e j ih =>
    rw [← List.singleton_append, closings_append, List.mem_append, not_or] at h
    exact ⟨fun _ ↦ h.2, ih h.2⟩

theorem spares_of_closes (h : Closes j) (hd : (closings j).Nodup) (hj' : s ∉ closings j') :
    Spares s (j ++ j') := by
  induction j with
  | nil => exact spares_of_not_mem hj'
  | cons e j ih =>
    obtain ⟨he, h⟩ := List.forall_mem_cons.1 h
    obtain ⟨x, hx⟩ := Option.isSome_iff_exists.1 he
    rw [closings, List.filterMap_cons_some hx, List.nodup_cons] at hd
    refine ⟨?_, ih h hd.2⟩
    -- the last call is made on `x` only, and the others do not close `x`
    rw [WinEntry.call_of_closes hx]
    intro hs
    obtain rfl : s = x := List.mem_singleton.1 hs
    show s ∉ closings (j ++ j')
    rw [closings_append, List.mem_append, not_or]
    exact ⟨hd.1, hj'⟩

end WinJournal

open WinJournal (Blames Closes Smooth closings openings Spares)

namespace WinSock

variable {other : IoError → Prop} {held : List Fd} {gives : α → List Fd} {j : WinJournal}

/-- An operation is answerable for the sockets `held` and for those it opens. If it goes well, it
gives them on, and otherwise it closes them after a call that failed. -/
inductive Settled (other : IoError → Prop) (held : List Fd) (gives : α → List Fd)
    (j : WinJournal) : Except IoError α × Win ω → Prop where
  | done {a : α} {w : Win ω} (body : WinJournal) (hj : w.journal = body ++ j)
      (hbody : Smooth body) (hgives : (gives a).Perm (openings body ++ held)) :
      Settled other held gives j (.ok a, w)
  | undone {e : IoError} {w : Win ω} (body cleanup : WinJournal)
      (hj : w.journal = cleanup ++ body ++ j) (hbody : Blames other body e)
      (hcleanup : Closes cleanup) (hcloses : (closings cleanup).Perm (openings body ++ held)) :
      Settled other held gives j (.error e, w)

theorem Settled.pure (a : α) (w : Win ω) (h : (gives a).Perm held) :
    Settled other held gives w.journal ((Pure.pure a : WinExcept ω α) w) :=
  .done [] rfl .nil h

theorem Settled.bind {x : WinExcept ω β} {f : β → WinExcept ω α} {given : β → List Fd} {w : Win ω}
    (hx : Settled other held given w.journal (x w))
    (hf : ∀ b w', x w = (.ok b, w') → Settled other (given b) gives w'.journal (f b w')) :
    Settled other held gives w.journal ((x >>= f) w) := by
  rw [except_bind]
  generalize hout : x w = out at hx hf ⊢
  cases hx with
  | undone body cleanup hj hbody hcleanup hcloses =>
    exact .undone body cleanup hj hbody hcleanup hcloses
  | @done b w' body hj hbody hgiven =>
    have hf := hf b w' rfl
    dsimp only
    generalize f b w' = out' at hf ⊢
    cases hf with
    | @done a w'' body' hj' hbody' hgives =>
      refine .done (body' ++ body) ?_ (hbody'.append hbody) ?_
      · rw [hj', hj, List.append_assoc]
      · rw [WinJournal.openings_append, List.append_assoc]
        exact hgives.trans (hgiven.append_left _)
    | @undone e w'' body' cleanup hj' hbody' hcleanup hcloses =>
      -- the clean-up of the second part is answerable for what the first part gave
      refine .undone (body' ++ body) cleanup ?_ (hbody'.append hbody) hcleanup ?_
      · rw [hj', hj]
        simp only [List.append_assoc]
      · rw [WinJournal.openings_append, List.append_assoc]
        exact hcloses.trans (hgiven.append_left _)

variable [WinSock ω]

def entryOf (c : WinCall) (w : Win ω) : WinEntry := ⟨c, (w.call c).1, (w.call c).2.lastError⟩

theorem call_journal (c : WinCall) (w : Win ω) :
    (w.call c).2.journal = entryOf c w :: w.journal := rfl

theorem demand_settled (c : WinCall) {gives : c.Result → List Fd} (w : Win ω)
    (hopens : ∀ a code, WinEntry.opens ⟨c, a, code⟩ = a.elim [] gives)
    (hcloses : ∀ a code, WinEntry.closes? ⟨c, a, code⟩ = none) :
    Settled other [] gives w.journal (demand c w) := by
  have hj := call_journal c w
  unfold entryOf at hj
  unfold demand
  generalize w.call c = out at hj ⊢
  rcases out with ⟨_ | a, w'⟩
  · refine .undone [⟨c, none, w'.lastError⟩] [] hj ?_ .nil ?_
    · exact .call rfl rfl (hcloses _ _) .nil
    · simp [openings, hopens, closings]
  · refine .done [⟨c, some a, w'.lastError⟩] hj ?_ ?_
    · exact List.forall_mem_singleton.2 ⟨rfl, hcloses _ _⟩
    · simp [openings, hopens]

theorem demand_plain (c : WinCall) (hopens : ∀ a code, WinEntry.opens ⟨c, a, code⟩ = [])
    (hcloses : ∀ a code, WinEntry.closes? ⟨c, a, code⟩ = none) (w : Win ω) :
    Settled other [] (fun _ ↦ []) w.journal (demand c w) :=
  demand_settled c w (fun a code ↦ by rw [hopens]; cases a <;> rfl) hcloses

theorem closeAll_journal (ss : List Fd) (w : Win ω) : ∃ cleanup : WinJournal,
    (closeAll ss w).2.journal = cleanup ++ w.journal ∧ Closes cleanup ∧
      closings cleanup = ss.reverse := by
  induction ss generalizing w with
  | nil => exact ⟨[], rfl, .nil, rfl⟩
  | cons s ss ih =>
    obtain ⟨cleanup, hj, hcleanup, hcloses⟩ := ih (w.call (.closeSocket s)).2
    refine ⟨cleanup ++ [entryOf (.closeSocket s) w], ?_, ?_, ?_⟩
    · exact hj.trans (by rw [call_journal, List.append_assoc]; rfl)
    · exact hcleanup.append (List.forall_mem_singleton.2 rfl)
    · rw [WinJournal.closings_append, hcloses, List.reverse_cons]
      rfl

theorem Settled.closing {act : WinExcept ω α} {w : Win ω}
    (h : Settled other [] gives w.journal (act w)) (held : List Fd) :
    Settled other held (fun a ↦ gives a ++ held) w.journal (closingOnError held act w) := by
  unfold closingOnError
  generalize act w = out at h ⊢
  cases h with
  | done body hj hbody hgives =>
    rw [List.append_nil] at hgives
    exact .done body hj hbody (hgives.append_right held)
  | @undone e w' body cleanup hj hbody hcleanup hcloses =>
    obtain ⟨more, hj', hmore, hcloses'⟩ := closeAll_journal held w'
    rw [List.append_nil] at hcloses
    refine .undone body (more ++ cleanup) ?_ hbody (hmore.append hcleanup) ?_
    · exact hj'.trans (by rw [hj]; simp only [List.append_assoc])
    · rw [WinJournal.closings_append, hcloses']
      exact ((List.reverse_perm held).append hcloses).trans List.perm_append_comm

omit [WinSock ω] in
theorem Settled.reorder {held' : List Fd} {out : Except IoError α × Win ω}
    (h : Settled other held gives j out) (hp : held.Perm held') :
    Settled other held' gives j out := by
  cases h with
  | done body hj hbody hgives => exact .done body hj hbody (hgives.trans (hp.append_left _))
  | undone body cleanup hj hbody hcleanup hcloses =>
    exact .undone body cleanup hj hbody hcleanup (hcloses.trans (hp.append_left _))

def Never (_ : IoError) : Prop := False

theorem setNonblocking_settled (s : Fd) (w : Win ω) :
    Settled other [] (fun _ ↦ []) w.journal (setNonblocking s w) :=
  demand_plain (.setNonblocking s) (fun _ _ ↦ rfl) (fun _ _ ↦ rfl) w

theorem opened_settled {act : WinExcept ω Fd}
    (h : ∀ w : Win ω, Settled other [] (fun s ↦ [s]) w.journal (act w)) (w : Win ω) :
    Settled other [] (fun s ↦ [s]) w.journal ((do
      let s ← act
      closingOnError [s] (setNonblocking s)
      return s : WinExcept ω Fd) w) := by
  refine (h w).bind fun s w _ ↦ ?_
  refine ((setNonblocking_settled s w).closing [s]).bind fun _ w _ ↦ ?_
  exact .pure s w (.refl _)

theorem openSocket_settled (family : Int) (w : Win ω) :
    Settled Never [] (fun s ↦ [s]) w.journal (openSocket family w) :=
  opened_settled
    (fun w ↦ demand_settled (.socket family) w (fun a _ ↦ by cases a <;> rfl) fun _ _ ↦ rfl) w

theorem openDatagram_settled (w : Win ω) :
    Settled Never [] (fun s ↦ [s]) w.journal (openDatagram w) :=
  opened_settled
    (fun w ↦ demand_settled .datagramSocket w (fun a _ ↦ by cases a <;> rfl) fun _ _ ↦ rfl) w

theorem bindLocally_settled (receiver : Fd) (w : Win ω) :
    Settled Never [] (fun _ ↦ []) w.journal (bindLocally receiver w) := by
  refine (demand_plain (.bind receiver _) (fun _ _ ↦ rfl) (fun _ _ ↦ rfl) w).bind fun _ w _ ↦ ?_
  refine (demand_plain (.localName receiver _) (fun _ _ ↦ rfl) (fun _ _ ↦ rfl) w).bind
    fun name w _ ↦ ?_
  exact .pure _ w (.refl _)

theorem openPair_settled (w : Win ω) :
    Settled Never [] (fun ends ↦ [ends.2, ends.1]) w.journal (openPair w) := by
  refine (openDatagram_settled w).bind fun receiver w _ ↦ ?_
  refine ((bindLocally_settled receiver w).closing [receiver]).bind fun name w _ ↦ ?_
  refine ((openDatagram_settled w).closing [receiver]).bind fun sender w _ ↦ ?_
  have hconnect : Settled Never [] (fun _ ↦ []) w.journal (demand (.connect sender name) w) :=
    demand_plain (.connect sender name) (fun _ _ ↦ rfl) (fun _ _ ↦ rfl) w
  have hclosing : Settled Never [sender, receiver] (fun _ ↦ [receiver, sender]) w.journal
      (closingOnError [receiver, sender] (demand (.connect sender name)) w) :=
    (hconnect.closing [receiver, sender]).reorder (.swap ..)
  refine hclosing.bind fun _ w _ ↦ ?_
  exact .pure _ w (.swap ..)

def Multiplexer.sockets (m : Multiplexer) : List Fd := [m.waker.receiver, m.waker.sender]

theorem make_settled (w : Win ω) :
    Settled Never [] Multiplexer.sockets w.journal (Multiplexer.make w) := by
  refine (openPair_settled w).bind fun ends w _ ↦ ?_
  exact .pure _ w (.swap ..)

def Unreadable (s : Fd) (w : Win ω) (e : IoError) : Prop :=
  ∃ client name, (w.call (.accept s storageBytes)).1 = some (client, name) ∧
    Net.SockNameFormat.winsock.decode name = .error e

omit [WinSock ω] in
theorem decodeName_settled (name : Bytes) (w : Win ω)
    (ho : ∀ e, Net.SockNameFormat.winsock.decode name = .error e → other e) :
    Settled other [] (fun _ ↦ []) w.journal (decodeName name w) := by
  show Settled other [] (fun _ ↦ []) w.journal (Net.SockNameFormat.winsock.decode name, w)
  generalize Net.SockNameFormat.winsock.decode name = decoded at ho ⊢
  cases decoded with
  | error e => exact .undone [] [] rfl (.other (ho e rfl) .nil) .nil (.refl _)
  | ok a => exact .done [] rfl .nil (.refl _)

theorem accept_settled (s : Fd) (w : Win ω) :
    Settled (Unreadable s w) [] (fun peer ↦ [peer.1]) w.journal (accept s w) := by
  have hopen : Settled (Unreadable s w) [] (fun a ↦ [a.1]) w.journal
      (demand (.accept s storageBytes) w) :=
    demand_settled (.accept s storageBytes) w (fun a _ ↦ by cases a <;> rfl) fun _ _ ↦ rfl
  refine hopen.bind fun a w' ha ↦ ?_
  obtain ⟨client, name⟩ := a
  have htold : (w.call (.accept s storageBytes)).1 = some (client, name) := by
    unfold demand at ha
    generalize w.call (.accept s storageBytes) = out at ha ⊢
    rcases out with ⟨_ | a, w₁⟩
    · cases ha
    · cases ha
      rfl
  have hrest (w' : Win ω) : Settled (Unreadable s w) [] (fun _ ↦ []) w'.journal
      ((do
        setNonblocking client
        decodeName name : WinExcept ω Net.SocketAddr) w') :=
    (setNonblocking_settled client w').bind fun _ w' _ ↦
      decodeName_settled name w' fun e he ↦ ⟨client, name, htold, he⟩
  refine ((hrest w').closing [client]).bind fun peer w' _ ↦ ?_
  exact .pure _ w' (.refl _)

/-- The account of an operation that made the calls `new`. If it went well, the sockets it gives are
those it opened and did not close. If it failed, every socket it opened was closed, once. It closed
no others, and made no call on a socket behind its closing. -/
structure Thrifty (other : IoError → Prop) (gives : α → List Fd) (new : WinJournal)
    (result : Except IoError α) : Prop where
  given (a : α) : result = .ok a → ∀ s, s ∈ gives a ↔ s ∈ openings new ∧ s ∉ closings new
  blames (e : IoError) : result = .error e →
    ∃ cleanup body, new = cleanup ++ body ∧ Blames other body e ∧ Closes cleanup
  closed (e : IoError) : result = .error e → ∀ s ∈ openings new, (closings new).count s = 1
  own : ∀ s ∈ closings new, s ∈ openings new
  spares (s : Fd) : Spares s new

/-- The operation is thrifty if no socket is opened under a number twice. -/
def Accounted (other : IoError → Prop) (gives : α → List Fd) (j : WinJournal)
    (out : Except IoError α × Win ω) : Prop :=
  ∃ new, out.2.journal = new ++ j ∧ ((openings new).Nodup → Thrifty other gives new out.1)

omit [WinSock ω] in
theorem Settled.accounted {out : Except IoError α × Win ω} (h : Settled other [] gives j out) :
    Accounted other gives j out := by
  cases h with
  | @done a w body hj hbody hgives =>
    rw [List.append_nil] at hgives
    have hnone (s : Fd) : s ∉ closings body := by simp [hbody.closings]
    refine ⟨body, hj, fun _ ↦ ⟨?_, nofun, nofun, ?_, fun s ↦ ?_⟩⟩
    · rintro a ⟨⟩ s
      simp [hgives.mem_iff, hnone]
    · exact fun s hs ↦ absurd hs (hnone s)
    · exact WinJournal.spares_of_not_mem (hnone s)
  | @undone e w body cleanup hj hbody hcleanup hcloses =>
    rw [List.append_nil] at hcloses
    have hopen : openings (cleanup ++ body) = openings body := by
      rw [WinJournal.openings_append, hcleanup.openings, List.nil_append]
    have hclose : closings (cleanup ++ body) = closings cleanup := by
      rw [WinJournal.closings_append, hbody.closings, List.append_nil]
    refine ⟨cleanup ++ body, hj, fun hd ↦ ⟨nofun, ?_, ?_, ?_, ?_⟩⟩
    · rintro e ⟨⟩
      exact ⟨cleanup, body, rfl, hbody, hcleanup⟩
    · intro e _ s hs
      rw [hopen] at hd hs
      rw [hclose, hcloses.count_eq, hd.count, if_pos hs]
    · intro s hs
      rw [hclose, hcloses.mem_iff] at hs
      exact hopen ▸ hs
    · intro s
      rw [hopen] at hd
      apply WinJournal.spares_of_closes hcleanup (hcloses.nodup_iff.2 hd)
      simp [hbody.closings]

end WinSock

end PollReactor
