import PollReactor.Proofs.Rousing

namespace PollReactor

open Journal (asked murmured)

variable {κ π ν : Type}

namespace Wait

/-- The wait watches the connection on this descriptor for `i`. -/
def Shows (w : Wait) (id : Nat) (fd : Fd) (i : Interest) : Prop :=
  ∃ k, w.watched[k]? = some ⟨id, i⟩ ∧ (i.isEmpty = false → WatchList.entry .posix fd k i ∈ w.list)

def Requests (w : Wait) (id : Nat) (fd : Fd) (bit : UInt16) : Prop :=
  ∃ k i e, w.watched[k]? = some ⟨id, i⟩ ∧ e ∈ w.list ∧ e.fd = fd ∧ e.token = k ∧
    e.events &&& bit = bit

variable {w : Wait} {id : Nat} {fd : Fd} {i : Interest}

theorem Shows.requests (h : w.Shows id fd i) {bit : UInt16} (hi : i.isEmpty = false)
    (hb : PollBits.posix.request i &&& bit = bit) : w.Requests id fd bit := by
  obtain ⟨k, hk, he⟩ := h
  exact ⟨k, i, _, hk, he hi, rfl, rfl, hb⟩

theorem Shows.requests_read (h : w.Shows id fd i) (hi : i.read) :
    w.Requests id fd PollBits.posix.read := by
  obtain ⟨_, write, urgent⟩ := i
  obtain rfl := hi
  refine h.requests rfl ?_
  cases write <;> cases urgent <;> decide

theorem Shows.requests_write (h : w.Shows id fd i) (hi : i.write) :
    w.Requests id fd PollBits.posix.write := by
  obtain ⟨read, _, urgent⟩ := i
  obtain rfl := hi
  refine h.requests (by simp [Interest.isEmpty]) ?_
  cases read <;> cases urgent <;> decide

theorem Shows.requests_urgent (h : w.Shows id fd i) (hi : i.urgent) :
    w.Requests id fd PollBits.posix.urgent := by
  obtain ⟨read, write, _⟩ := i
  obtain rfl := hi
  refine h.requests (by simp [Interest.isEmpty]) ?_
  cases read <;> cases write <;> decide

end Wait

namespace Reactor

variable {r r' : Reactor κ π ν}

theorem subset_watchConns (ws : WatchList) (l : List (Conn × Watched)) (place : Nat) :
    ws ⊆ watchConns ws l place := by
  induction l generalizing ws place with
  | nil => exact fun _ h ↦ h
  | cons p l ih =>
    refine fun e he ↦ ih _ (place + 1) ?_
    cases p.1.fd? with
    | none => exact he
    | some fd =>
      show e ∈ WatchList.register .posix ws fd place p.2.interest
      unfold WatchList.register
      split_ifs
      · exact he
      · exact List.mem_append_left _ he

theorem mem_watchConns {l : List (Conn × Watched)} {k : Nat} {c : Conn} {w : Watched} {fd : Fd}
    (h : l[k]? = some (c, w)) (hfd : c.fd? = some fd) (hi : w.interest.isEmpty = false)
    (ws : WatchList) (place : Nat) :
    WatchList.entry .posix fd (place + k) w.interest ∈ watchConns ws l place := by
  induction l generalizing ws place k with
  | nil => cases h
  | cons p l ih =>
    cases k with
    | zero =>
      -- Further connections only add to the list.
      obtain rfl : p = (c, w) := Option.some.inj h
      refine subset_watchConns _ l (place + 1) ?_
      rw [hfd]
      show _ ∈ WatchList.register .posix ws fd place w.interest
      unfold WatchList.register
      rw [if_neg (by rw [hi]; nofun)]
      exact List.mem_append_right _ List.mem_cons_self
    | succ k =>
      rw [show place + (k + 1) = place + 1 + k by omega]
      exact ih h _ (place + 1)

theorem prepare_shows {id : Nat} {c : Conn} {fd : Fd} (hid : id ∈ r.live)
    (hc : r.conn? id = some c) (hfd : c.fd? = some fd) : r.prepare.Shows id fd c.interest := by
  have hmem : (c, ⟨id, c.interest⟩) ∈ r.watchedOf := by
    refine List.mem_filterMap.2 ⟨id, hid, ?_⟩
    rw [hc]
    rfl
  obtain ⟨k, hk⟩ := List.mem_iff_getElem?.1 hmem
  refine ⟨k, ?_, ?_⟩
  · show (r.watchedOf.map (·.2))[k]? = _
    rw [List.getElem?_map, hk]
    rfl
  · intro hi
    rw [← Nat.zero_add k]
    exact mem_watchConns hk hfd hi _ 0

/-- A live connection that was shut down is among `ps`; one that was asked to close once its output
is sent, and has none left, is among `qs`. -/
structure Heeded (r : Reactor κ π ν) (ps qs : List Nat) : Prop where
  shut : ∀ id ∈ r.live, ∀ c, r.conn? id = some c → c.isConnected = false → id ∈ ps
  closing : ∀ id ∈ r.live, ∀ c, r.conn? id = some c → asked id false r.os.journal →
    c.output.len = 0 → id ∈ qs

/-- The wait asks for what the connections call for. Only output that was queued since, by batches
that were cancelled, is left aside. -/
structure Watches (r : Reactor κ π ν) (w : Wait) : Prop where
  cancelled : r.cancelled = false
  heeded : r.Heeded [] []
  shown : ∀ id ∈ r.live, ∀ c, r.conn? id = some c → ∃ fd i, c.fd? = some fd ∧ w.Shows id fd i ∧
    (c.interest.read → i.read) ∧ (c.interest.urgent → i.urgent) ∧
    (i.write ∨ c.output.toList = murmured id r.os.journal)

theorem Heeded.unmoved {ps qs : List Nat} (h : Heeded r ps qs) (hu : Unmoved r r') :
    Heeded r' ps qs := by
  constructor
  · intro id hid c' hc' hs
    obtain ⟨c, bs, hc, -, hcon, -⟩ := hu.conn id c' hc'
    refine h.shut id (hu.live ▸ hid) c hc ?_
    rw [← Bool.not_eq_true]
    intro hcon'
    cases hs.symm.trans (hcon hcon')
  · intro id hid c' hc' ha h0
    obtain ⟨c, bs, hc, -, -, -, -, hout, -⟩ := hu.conn id c' hc'
    refine h.closing id (hu.live ▸ hid) c hc (hu.asked id false ha) ?_
    have hlen := congrArg List.length hout
    rw [List.length_append, Ring.length_toList, Ring.length_toList] at hlen
    omega

theorem Watches.unmoved {w : Wait} (h : Watches r w) (hu : Unmoved r r') : Watches r' w := by
  refine ⟨hu.cancelled.trans h.cancelled, h.heeded.unmoved hu, ?_⟩
  intro id hid c' hc'
  obtain ⟨c, bs, hc, hfd', -, hr, hg, hout, hmur⟩ := hu.conn id c' hc'
  obtain ⟨fd, i, hfd, hs, hr', hg', hw⟩ := h.shown id (hu.live ▸ hid) c hc
  refine ⟨fd, i, hfd'.trans hfd, hs, fun h ↦ hr' (hr h), fun h ↦ hg' (hg h), hw.imp_right ?_⟩
  intro he
  rw [hout, hmur, he]

theorem prepare_watches (h : Holding r none) (hx : r.cancelled = false) (hh : r.Heeded [] []) :
    Watches (remark .waits r).2 r.prepare := by
  refine ⟨hx, ⟨hh.shut, hh.closing⟩, ?_⟩
  intro id hid c hc
  obtain ⟨fd, hfd⟩ := h.fd?_of_live hid hc
  refine ⟨fd, c.interest, hfd, prepare_shows hid hc hfd, fun h ↦ h, fun h ↦ h, ?_⟩
  by_cases hl : 0 < c.output.len
  · exact .inl (by simp [Conn.interest, hl])
  · refine .inr (List.eq_nil_of_length_eq_zero ?_)
    rw [Ring.length_toList]
    omega

end Reactor

end PollReactor
