import PollReactor.Proofs.Setup

namespace PollReactor

open Journal (Adds IsOpen Fresh Returned Yields)

variable {κ π ν : Type} [Kernel κ]

theorem Stream.close_run {s : Stream} {fd : Fd} (h : s.fd = some fd) (o : Os κ (Mark ν)) :
    s.close o = (.empty, (Os.call (.close fd) o).2) := by
  unfold Stream.close
  rw [h]
  rfl

def Conn.ofDraft (d : Draft) (id : Nat) (peer : Net.SocketAddr) (t : Token Stream) (now : Nat) :
    Conn :=
  { toChannel := { d.channel with lastActivity := now }, id, peer, socket := some t }

inductive Entry.OfAdmission {ν : Type} : Entry (Mark ν) → Prop where
  | setup {e : Entry (Mark ν)} (h : e.isSetup) : OfAdmission e
  | ready (peer : Net.SocketAddr) : OfAdmission (.remark (.ready peer))
  | raised (p : Panic) : OfAdmission (.remark (.raised p))

namespace Reactor

variable {r r' : Reactor κ π ν} {P : Policy π ν}

def Repool (r r' : Reactor κ π ν) : Prop :=
  ∃ os pool, r' = { r with os, pool } ∧ Adds Entry.OfAdmission r.os.journal os.journal

theorem turnAway_spec (listener : Fd) (r : Reactor κ π ν) :
    ∃ os, (turnAway listener r).2 = { r with os } ∧ Yields [] r.os.journal os.journal := by
  have hy := Sockets.accept_opening (κ := κ) (ν := ν) listener r.os.journal r.os (.refl _)
  unfold turnAway
  rw [bind_run]
  have he : systemExcept (Sockets.accept listener) r =
    ((Sockets.accept listener r.os).1, { r with os := (Sockets.accept listener r.os).2 }) := rfl
  rw [he]
  generalize Sockets.accept listener r.os = out at hy ⊢
  rcases out with ⟨_ | ⟨client, peer⟩, os⟩
  · exact ⟨os, rfl, hy⟩
  · exact ⟨_, rfl, hy.closed⟩

theorem welcome_run (h : Holding r none) (listener : Fd) :
    r.pool.free = [] ∧ welcome P listener r = ((turnAway listener r).2, .go []) ∨
    ∃ slot free, r.pool.free = slot :: free ∧ r.pool.slots[slot]? = some (some .empty) ∧
      welcome P listener r = match Sockets.accept listener r.os with
        | (.error _, os) => ({ r with os }, .go [])
        | (.ok (client, peer), os) =>
          ((remark (.ready peer) { r with os, pool := r.pool.without slot free }).2,
            .go [.meet ⟨r.pool.id, slot, ⟨some client, false⟩⟩ peer
              (P.ready peer r.defaults r.app)]) := by
  unfold welcome
  obtain ⟨hf, hr⟩ | ⟨slot, free, s, hf, hs, hr⟩ := h.kept.reserve
  · rw [hr]
    exact .inl ⟨hf, rfl⟩
  · obtain rfl := h.parked slot s hs
    have he : systemExcept (Sockets.accept listener)
        { r with pool := r.pool.without slot free } = ((Sockets.accept listener r.os).1,
          { r with pool := r.pool.without slot free, os := (Sockets.accept listener r.os).2 }) :=
      rfl
    refine .inr ⟨slot, free, hf, hs, ?_⟩
    rw [hr]
    dsimp only
    rw [he]
    rcases Sockets.accept listener r.os with ⟨_ | ⟨client, peer⟩, os⟩
    · have hrel := Pool.release_eq (p := r.pool.without slot free) (t := ⟨r.pool.id, slot, .empty⟩)
        rfl (by rw [Pool.getElem?_without, if_pos rfl]
                exact ⟨(Array.getElem?_eq_some_iff.1 hs).1, rfl⟩)
      dsimp only
      unfold release
      rw [modify_run, hrel, Pool.parked_without hf hs]
    · rfl

theorem welcome_spec (h : Holding r none) (listener : Fd) :
    (∃ os, welcome P listener r = ({ r with os }, .go []) ∧ Yields [] r.os.journal os.journal) ∨
    ∃ slot free os client peer, r.pool.free = slot :: free ∧
      r.pool.slots[slot]? = some (some .empty) ∧ Yields [client] r.os.journal os.journal ∧
      welcome P listener r =
        ((remark (.ready peer) { r with os, pool := r.pool.without slot free }).2,
          .go [.meet ⟨r.pool.id, slot, ⟨some client, false⟩⟩ peer
            (P.ready peer r.defaults r.app)]) := by
  obtain ⟨-, hw⟩ | ⟨slot, free, hf, hs, hw⟩ := welcome_run (P := P) h listener
  · obtain ⟨os, he, hy⟩ := turnAway_spec listener r
    rw [hw, he]
    exact .inl ⟨os, rfl, hy⟩
  · have hy := Sockets.accept_opening (κ := κ) (ν := ν) listener r.os.journal r.os (.refl _)
    rw [hw]
    generalize Sockets.accept listener r.os = out at hy ⊢
    rcases out with ⟨_ | ⟨client, peer⟩, os⟩
    · exact .inl ⟨os, rfl, hy⟩
    · exact .inr ⟨slot, free, os, client, peer, hf, hs, hy, rfl⟩

def enrolled (t : Token Stream) (peer : Net.SocketAddr) (d : Draft) (now : Nat)
    (r : Reactor κ π ν) : Reactor κ π ν :=
  { r with
    os := ⟨(Os.call .clock r.os).2.kernel,
      .remark (.admitted (r.conns.size + 1) t.value.fd d) :: .sys .clock now :: r.os.journal⟩
    conns := r.conns.push (.ofDraft d (r.conns.size + 1) peer t now)
    live := r.live ++ [r.conns.size + 1] }

theorem enroll_run (t : Token Stream) (peer : Net.SocketAddr) (d : Draft) (r : Reactor κ π ν) :
    ∃ now, (enroll t peer d r).2 = enrolled t peer d now r :=
  ⟨_, rfl⟩

theorem conn?_enrolled (t : Token Stream) (peer : Net.SocketAddr) (d : Draft) (now : Nat)
    (r : Reactor κ π ν) (id : Nat) : (enrolled t peer d now r).conn? id =
      if id = r.conns.size + 1 then some (.ofDraft d (r.conns.size + 1) peer t now)
      else r.conn? id :=
  conn?_push rfl id

theorem system_close {s : Stream} {fd : Fd} (h : s.fd = some fd) (r : Reactor κ π ν) :
    system s.close r = (.empty, { r with os := (Os.call (.close fd) r.os).2 }) := by
  unfold system
  rw [Stream.close_run h]

theorem closeAndRelease_run {t : Token Stream} {fd : Fd} (h : t.value.fd = some fd)
    (r : Reactor κ π ν) : (closeAndRelease t r).2 = { r with
      os := (Os.call (.close fd) r.os).2
      pool := (r.pool.release { t with value := .empty }).2 } := by
  unfold closeAndRelease
  rw [bind_run]
  rw [system_close h]
  rfl

theorem part_of_none {id : Nat} (h : r.place? id = none) :
    part id r = { r with live := r.live.filter (· ≠ id) } := by
  unfold part detach
  rw [bind_run, get_run]
  cases hc : r.conn? id with
  | none => rfl
  | some c =>
    have hs : c.socket = none := by
      rw [place?, hc] at h
      exact Option.map_eq_none_iff.1 h
    have hself : { c with socket := none } = c := by rw [← hs]
    dsimp only
    rw [bind_run, modify_run, hself, setConn_self hc, hs]
    rfl

theorem part_of_some {id : Nat} {c : Conn} {t : Token Stream} {fd : Fd} (hc : r.conn? id = some c)
    (ht : c.socket = some t) (hfd : t.value.fd = some fd) :
    part id r = { r.setConn id { c with socket := none } with
      os := (Os.call (.close fd) r.os).2
      pool := (r.pool.release { t with value := .empty }).2
      live := r.live.filter (· ≠ id) } := by
  unfold part detach
  rw [bind_run, get_run, hc]
  dsimp only
  rw [bind_run, modify_run, ht]
  dsimp only
  rw [closeAndRelease_run hfd]
  rfl

theorem adds_close (s : Stream) (r : Reactor κ π ν) :
    Adds (·.isSetup) r.os.journal (system s.close r).2.os.journal := by
  cases hs : s.fd with
  | none =>
    have he : system s.close r = (.empty, r) := by
      unfold system Stream.close
      rw [hs]
      rfl
    rw [he]
    exact .refl _
  | some fd =>
    rw [system_close hs]
    exact .single rfl

theorem welcome_repool (listener : Fd) (r : Reactor κ π ν) :
    Repool r (welcome P listener r).1 := by
  unfold welcome
  cases r.pool.reserve with
  | vacantSlot slot => exact ⟨r.os, r.pool, rfl, .refl _⟩
  | exhausted =>
    obtain ⟨os, he, hy⟩ := turnAway_spec listener r
    dsimp only
    rw [he]
    exact ⟨os, r.pool, rfl, hy.1.mono fun _ ↦ .setup⟩
  | token t pool =>
    have hj := Sockets.accept_opening (κ := κ) (ν := ν) listener r.os.journal r.os (.refl _)
    have he : systemExcept (Sockets.accept listener) { r with pool } =
      ((Sockets.accept listener r.os).1,
        { r with pool, os := (Sockets.accept listener r.os).2 }) := rfl
    dsimp only
    rw [he]
    generalize Sockets.accept listener r.os = out at hj ⊢
    rcases out with ⟨_ | ⟨fd, peer⟩, os⟩
    · exact ⟨os, _, rfl, hj.1.mono fun _ ↦ .setup⟩
    · have hc := adds_close t.value { r with pool, os }
      refine ⟨_, pool, rfl, ((hj.1.trans hc).mono fun _ ↦ .setup).cons (.ready peer)⟩

theorem decide_spec (t : Token Stream) (peer : Net.SocketAddr) (r : Reactor κ π ν)
    (result : Except Panic (Option Draft)) : Repool r (decide t peer r result).1 ∨
      ∃ d now, (decide t peer r result).1 = enrolled t peer d now r := by
  rcases result with p | _ | d
  · refine .inl ⟨_, r.pool, rfl, ?_⟩
    have hr : Adds Entry.OfAdmission r.os.journal
        (remark (κ := κ) (π := π) (.raised p) r).2.os.journal := .single (.raised p)
    exact hr.trans ((adds_close t.value _).mono fun _ ↦ .setup)
  · exact .inl ⟨_, _, rfl, (adds_close t.value r).mono fun _ ↦ .setup⟩
  · obtain ⟨now, he⟩ := enroll_run t peer d r
    exact .inr ⟨d, now, he⟩

theorem part_spec (id : Nat) (r : Reactor κ π ν) : ∃ os pool conns,
    part id r = { r with os, pool, conns, live := r.live.filter (· ≠ id) } ∧
      conns.size = r.conns.size ∧
      (∀ id', (part id r).conn? id' = if id' = id then
        (r.conn? id).map fun c ↦ { c with socket := none } else r.conn? id') ∧
      Adds (·.isSetup) r.os.journal os.journal := by
  unfold part detach
  rw [bind_run, get_run]
  cases hc : r.conn? id with
  | none =>
    refine ⟨r.os, r.pool, r.conns, rfl, rfl, ?_, .refl _⟩
    intro id'
    split_ifs with he
    · rw [he]
      exact hc
    · rfl
  | some c =>
    have hconn := conn?_setConn hc { c with socket := none }
    dsimp only
    rw [bind_run, modify_run]
    cases c.socket with
    | none => exact ⟨r.os, r.pool, _, rfl, Array.size_setIfInBounds, hconn, .refl _⟩
    | some t =>
      have hj := adds_close t.value (r.setConn id { c with socket := none })
      exact ⟨_, _, _, rfl, Array.size_setIfInBounds, hconn, hj⟩

theorem part_live (id : Nat) (r : Reactor κ π ν) :
    (part id r).live = r.live.filter (· ≠ id) := by
  obtain ⟨os, pool, conns, he, -⟩ := part_spec id r
  exact congrArg live he

/-- Holders and owners agree with a pool of `n` sockets, the list of live connections and the
journal. A socket is lost only by a callback that raised. -/
structure Sound (n : Nat) (r : Reactor κ π ν) (hand : Option (Token Stream)) : Prop where
  holding : Holding r hand
  ledger : Fresh r.os.journal → Ledger r hand
  size : r.pool.slots.size = n
  all : Returned r.os.journal →
    r.pool.free.length + r.live.length + hand.toList.length = r.pool.slots.size

section

variable {n : Nat} {hand : Option (Token Stream)}

omit [Kernel κ] in
theorem Holding.os {os : Os κ (Mark ν)} (h : Holding r hand) : Holding { r with os } hand :=
  ⟨h.kept, h.parked, h.nodup, h.live_iff, h.out, h.apart⟩

omit [Kernel κ] in
theorem Sound.still {C : Entry (Mark ν) → Prop} (h : Sound n r hand)
    (hs : Still C r r') (hC : ∀ e, C e → e.closes? = none) : Sound n r' hand where
  holding := h.holding.still hs
  ledger hf := (h.ledger (hs.journal.fresh hf)).still hs hC
  size := by rw [hs.pool, h.size]
  all hr := by
    rw [hs.pool, hs.live]
    exact h.all (hs.journal.returned hr)

omit [Kernel κ] in
theorem Sound.relisten (h : Sound n r hand) (hs : Relisten r r')
    (hl : Ledger r hand → Fresh r'.os.journal → Ledger r' hand) : Sound n r' hand := by
  have hj := hs.journal
  have hh := hs.holding h.holding
  obtain ⟨os, listener, rfl, -⟩ := hs
  exact ⟨hh, fun hf ↦ hl (h.ledger (hj.fresh hf)) hf, h.size, fun hr ↦ h.all (hj.returned hr)⟩

end

omit [Kernel κ] in
theorem size_parked {slot : Nat} {s : Stream} :
    (r.pool.parked slot s).slots.size = r.pool.slots.size :=
  Array.size_setIfInBounds

theorem length_filter_ne {l : List Nat} (h : l.Nodup) {a : Nat} (ha : a ∈ l) :
    (l.filter (· ≠ a)).length + 1 = l.length := by
  have he : l.filter (· ≠ a) = l.erase a := by
    rw [h.erase_eq_filter]
    exact List.filter_congr fun x _ ↦ by simp [bne, BEq.beq, decide_not]
  rw [he, List.length_erase_of_mem ha]
  have := List.length_pos_of_mem ha
  omega

theorem welcome_sound {n : Nat} (h : Sound n r none) (listener : Fd) :
    (welcome P listener r).2 = .go [] ∧ Sound n (welcome P listener r).1 none ∨
      ∃ t peer script, (welcome P listener r).2 = .go [.meet t peer script] ∧
        Sound n (welcome P listener r).1 (some t) := by
  obtain ⟨os, he, hy⟩ | ⟨slot, free, os, client, peer, hfree, hs, hy, he⟩ :=
    welcome_spec (P := P) h.holding listener
  · rw [he]
    refine .inl ⟨rfl, ⟨h.holding.os, ?_, h.size, ?_⟩⟩
    · intro hf
      exact (h.ledger (hy.1.fresh hf)).os fun _ fd _ hopen ↦ ((hy.2 hf).2 fd).2 (.inr hopen)
    · intro hr
      exact h.all (hy.1.returned hr)
  · rw [he]
    have hsize : (r.pool.without slot free).slots.size = r.pool.slots.size :=
      Array.size_setIfInBounds
    refine .inr ⟨_, _, _, rfl, ⟨h.holding.take hfree hs rfl rfl rfl rfl rfl fun _ ↦ rfl, ?_,
      hsize.trans h.size, ?_⟩⟩
    · intro hf
      have hl := h.ledger (hy.1.fresh hf.2)
      obtain ⟨⟨-, hn⟩, hiff⟩ := hy.2 hf.2
      refine hl.gain .hand client ?_
        (fun o ho ↦ absurd (hl.opened o client ho) (hn client List.mem_cons_self))
        (((hiff client).2 (.inl List.mem_cons_self)).cons rfl)
        fun _ fd _ hopen ↦ ((hiff fd).2 (.inr hopen)).cons rfl
      intro o fd ho
      cases o with
      | hand => exact .inl ⟨rfl, (Option.some.inj ho).symm⟩
      | _ => exact .inr ho
    · intro hr
      have hall := h.all (hy.1.returned (hr.of_append [_]))
      rw [hfree] at hall
      refine Eq.trans ?_ (hall.trans hsize.symm)
      show free.length + r.live.length + 1 = (slot :: free).length + r.live.length + 0
      simp only [List.length_cons]
      omega

section

variable {n : Nat} {t : Token Stream}

omit [Kernel κ] in
theorem Holding.hand_fd (h : Holding r (some t)) : ∃ fd, t.value.fd = some fd := by
  obtain ⟨-, -, hfd⟩ := h.out .hand t.place rfl
  exact Option.isSome_iff_exists.1 hfd

omit [Kernel κ] in
theorem Ledger.without_hand (h : Ledger r (some t)) {fd fd' : Fd} (hfd : t.value.fd = some fd)
    {o : Owner} (ho : r.owned none o = some fd') : r.owned (some t) o = some fd' ∧ fd' ≠ fd := by
  have hhand : r.owned (some t) .hand = some fd := hfd
  have ho' : o ≠ .hand ∧ r.owned (some t) o = some fd' := by
    cases o with
    | hand => cases ho
    | _ => exact ⟨by simp, ho⟩
  exact ⟨ho'.2, fun he ↦ ho'.1 (h.apart o .hand fd (he ▸ ho'.2) hhand)⟩

theorem raised_sound (h : Sound n r (some t)) (peer : Net.SocketAddr) (p : Panic) :
    Sound n (decide t peer r (.error p)).1 none := by
  obtain ⟨fd, hfd⟩ := h.holding.hand_fd
  have he : (decide t peer r (.error p)).1 =
      { r with os := (Os.call (.close fd) (remark (.raised p) r).2.os).2 } := by
    show (system t.value.close (remark (.raised p) r).2).2 = _
    rw [system_close hfd]
    rfl
  rw [he]
  refine ⟨h.holding.drop.os, ?_, h.size, ?_⟩
  · intro hf
    have hl := h.ledger (hf.of_append [_, _])
    refine hl.pass id (fun o fd' ho ↦ (hl.without_hand hfd ho).1) (fun _ _ _ _ h ↦ h) ?_
    intro o fd' ho hopen
    exact Journal.isOpen_close.2 ⟨(hl.without_hand hfd ho).2, hopen.cons rfl⟩
  · intro hr
    cases hr (.remark (.raised p)) (List.mem_cons_of_mem _ List.mem_cons_self)

theorem refused_sound (h : Sound n r (some t)) : Sound n (closeAndRelease t r).2 none := by
  obtain ⟨hpool, hs, -⟩ := h.holding.out .hand t.place rfl
  obtain ⟨fd, hfd⟩ := h.holding.hand_fd
  rw [closeAndRelease_run hfd, Pool.release_eq (t := { t with value := .empty }) hpool hs]
  have hholds : r.holds (some t) .hand = some t.place := rfl
  refine ⟨h.holding.giveBack hholds rfl ?_ ?_ h.holding.nodup, ?_, size_parked.trans h.size, ?_⟩
  · intro o
    cases o <;> rfl
  · intro id
    simp
  · intro hf
    have hl := h.ledger (hf.of_append [_])
    exact hl.pass id (fun o fd' ho ↦ (hl.without_hand hfd ho).1) (fun _ _ _ _ h ↦ h)
      fun o fd' ho hopen ↦ Journal.isOpen_close.2 ⟨(hl.without_hand hfd ho).2, hopen⟩
  · intro hr
    have hall := h.all (hr.of_append [_])
    refine Eq.trans ?_ (hall.trans size_parked.symm)
    show (t.slot :: r.pool.free).length + r.live.length + 0 =
      r.pool.free.length + r.live.length + 1
    simp only [List.length_cons]
    omega

theorem place?_enrolled (peer : Net.SocketAddr) (d : Draft) (now id : Nat) :
    (enrolled t peer d now r).place? id =
      if id = r.conns.size + 1 then some t.place else r.place? id :=
  place?_push (r := r) (c := .ofDraft d (r.conns.size + 1) peer t now) rfl id

theorem Ledger.enrolled (h : Ledger r (some t)) (peer : Net.SocketAddr) (d : Draft) (now : Nat) :
    Ledger (Reactor.enrolled t peer d now r) none := by
  refine h.pass (fun o ↦ if o = .conn (r.conns.size + 1) then .hand else o) ?_ ?_
    fun o fd' _ hopen ↦ (hopen.cons rfl).cons rfl
  · intro o fd' ho
    cases o with
    | conn id =>
      rw [owned_conn, place?_enrolled] at ho
      split_ifs at ho ⊢ with h1 h2 h2
      · exact ho
      · exact absurd (Owner.conn.inj h1) h2
      · exact absurd (congrArg _ h2) h1
      · exact ho
    | hand => cases ho
    | _ => exact ho
  · intro o o' ho ho' he
    have hne (o : Owner) (ho : ((Reactor.enrolled t peer d now r).owned none o).isSome) :
        o ≠ .hand := by
      rintro rfl
      cases ho
    split_ifs at he with h1 h2 h2
    · rw [h1, h2]
    · exact absurd he.symm (hne o' ho')
    · exact absurd he (hne o ho)
    · exact he

theorem enrolled_sound (h : Sound n r (some t)) (peer : Net.SocketAddr) (d : Draft) (now : Nat) :
    Sound n (enrolled t peer d now r) none := by
  have hid : r.place? (r.conns.size + 1) = none := by
    rw [place?, conn?_of_size_lt (Nat.lt_succ_self _)]
    rfl
  refine ⟨h.holding.settle rfl rfl hid (place?_enrolled peer d now),
    fun hf ↦ (h.ledger (hf.of_append [_, _])).enrolled peer d now, h.size, fun hr ↦ ?_⟩
  have hall := h.all (hr.of_append [_, _])
  refine Eq.trans ?_ hall
  show r.pool.free.length + (r.live ++ [r.conns.size + 1]).length + 0 =
    r.pool.free.length + r.live.length + 1
  simp only [List.length_append, List.length_singleton]
  omega

theorem decide_sound (h : Sound n r (some t)) (peer : Net.SocketAddr)
    (result : Except Panic (Option Draft)) : Sound n (decide t peer r result).1 none := by
  rcases result with p | _ | d
  · exact raised_sound h peer p
  · exact refused_sound h
  · obtain ⟨now, he⟩ := enroll_run t peer d r
    show Sound n (enroll t peer d r).2 none
    rw [he]
    exact enrolled_sound h peer d now

end

theorem part_of_not_live {hand : Option (Token Stream)} (h : Holding r hand) {id : Nat}
    (hid : id ∉ r.live) : part id r = r := by
  rw [h.live_iff, Option.not_isSome_iff_eq_none] at hid
  rw [part_of_none hid]
  have hl : r.live.filter (· ≠ id) = r.live := by
    refine List.filter_eq_self.2 fun id' hl ↦ decide_eq_true fun he ↦ ?_
    rw [h.live_iff, he, hid] at hl
    cases hl
  rw [hl]

omit [Kernel κ] in
theorem Holding.live {hand : Option (Token Stream)} (h : Holding r hand) {id : Nat}
    (hid : id ∈ r.live) : ∃ c t fd, r.conn? id = some c ∧ c.socket = some t ∧
      t.value.fd = some fd ∧ r.place? id = some t.place := by
  obtain ⟨p, hp⟩ := Option.isSome_iff_exists.1 ((h.live_iff id).1 hid)
  obtain ⟨-, -, hfd⟩ := h.out (.conn id) p hp
  obtain ⟨fd, hfd⟩ := Option.isSome_iff_exists.1 hfd
  obtain ⟨c, hc, hcp⟩ := Option.bind_eq_some_iff.1 hp
  obtain ⟨t, ht, rfl⟩ := Option.map_eq_some_iff.1 hcp
  exact ⟨c, t, fd, hc, ht, hfd, hp⟩

omit [Kernel κ] in
theorem place?_without_socket {id : Nat} {c : Conn} (hc : r.conn? id = some c) (id' : Nat) :
    (r.setConn id { c with socket := none }).place? id' =
      if id' = id then none else r.place? id' := by
  unfold place?
  rw [conn?_setConn hc]
  split_ifs <;> rfl

omit [Kernel κ] in
theorem owned_without_socket {hand : Option (Token Stream)} {id : Nat} {c : Conn} {o : Owner}
    {fd : Fd} (hc : r.conn? id = some c)
    (ho : (r.setConn id { c with socket := none }).owned hand o = some fd) :
    o ≠ .conn id ∧ r.owned hand o = some fd := by
  cases o with
  | conn id' =>
    rw [owned_conn, place?_without_socket hc] at ho
    split_ifs at ho with he
    · cases ho
    · exact ⟨fun h ↦ he (Owner.conn.inj h), ho⟩
  | _ => exact ⟨nofun, ho⟩

omit [Kernel κ] in
theorem Holding.fd?_of_live {hand : Option (Token Stream)} (h : Holding r hand) {id : Nat}
    {c : Conn} (hid : id ∈ r.live) (hc : r.conn? id = some c) : ∃ fd, c.fd? = some fd := by
  obtain ⟨c', t, fd, hc', ht, hfd, -⟩ := h.live hid
  obtain rfl : c' = c := Option.some.inj (hc'.symm.trans hc)
  exact ⟨fd, by rw [Conn.fd?, ht, Option.bind_some, hfd]⟩

theorem part_sound {n : Nat} {hand : Option (Token Stream)} (h : Sound n r hand) (id : Nat) :
    Sound n (part id r) hand := by
  by_cases hid : id ∈ r.live
  · obtain ⟨c, t, fd, hc, ht, hfd, hp⟩ := h.holding.live hid
    obtain ⟨hpool, hs, -⟩ := h.holding.out (.conn id) t.place hp
    rw [part_of_some hc ht hfd, Pool.release_eq (t := { t with value := .empty }) hpool hs]
    have hconn : r.owned hand (.conn id) = some fd := by
      rw [owned_conn, hp]
      exact hfd
    have hholds : r.holds hand (.conn id) = some t.place := hp
    refine ⟨h.holding.giveBack hholds rfl ?_ ?_ (h.holding.nodup.filter _), ?_,
      size_parked.trans h.size, ?_⟩
    · intro o
      cases o with
      | conn id' =>
        refine (place?_without_socket hc id').trans ?_
        split_ifs with h1 h2 h2
        · rfl
        · exact absurd (congrArg _ h1) h2
        · exact absurd (Owner.conn.inj h2) h1
        · rfl
      | _ => rfl
    · intro id'
      simp only [List.mem_filter, decide_eq_true_eq, ne_eq, Owner.conn.injEq, @eq_comm _ id]
    · intro hf
      have hl := h.ledger (hf.of_append [_])
      refine hl.pass (fun o ↦ o) (fun o fd' ho ↦ (owned_without_socket hc ho).2) (fun _ _ _ _ h ↦ h)
        fun o fd' ho hopen ↦ Journal.isOpen_close.2 ⟨?_, hopen⟩
      intro he
      obtain ⟨hne, ho⟩ := owned_without_socket hc ho
      exact hne (hl.apart o (.conn id) fd (he ▸ ho) hconn)
    · intro hr
      have hall := h.all (hr.of_append [_])
      have hlen := length_filter_ne h.holding.nodup hid
      refine Eq.trans ?_ (hall.trans size_parked.symm)
      show (t.slot :: r.pool.free).length + (r.live.filter (· ≠ id)).length + hand.toList.length =
        r.pool.free.length + r.live.length + hand.toList.length
      simp only [List.length_cons]
      omega
  · rw [part_of_not_live h.holding hid]
    exact h

end Reactor

end PollReactor
