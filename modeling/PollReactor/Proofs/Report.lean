import Mathlib.Data.List.Pairwise
import PollReactor.Proofs.Agreement
import PollReactor.Proofs.Watching

namespace PollReactor

namespace WatchList

/-- The word that was reported of a descriptor, zero if it is not on the list. -/
def word : WatchList → List UInt16 → Fd → UInt16
  | e :: ws, x :: xs, fd => if e.fd = fd then x else word ws xs fd
  | _, _, _ => 0

/-- No descriptor and no token is on the list twice. -/
def Apart (ws : WatchList) : Prop := ws.Pairwise fun e e' ↦ e.fd ≠ e'.fd ∧ e.token ≠ e'.token

theorem Apart.eq {ws : WatchList} (h : ws.Apart) {e e' : PollEntry} (he : e ∈ ws) (he' : e' ∈ ws)
    (hfd : e.fd = e'.fd) : e = e' := by
  let same (e e' : PollEntry) : Prop := e.fd = e'.fd → e = e'
  have : Std.Symm same := ⟨fun _ _ h hfd ↦ (h hfd.symm).symm⟩
  have hall : ws.Pairwise same := h.imp fun hne hfd ↦ absurd hfd hne.1
  exact hall.forall_of_forall (fun _ _ _ ↦ rfl) he he' hfd

theorem word_nil (ws : WatchList) (fd : Fd) : ws.word [] fd = 0 := by
  cases ws <;> rfl

theorem word_of_not_mem {ws : WatchList} {fd : Fd} (h : ∀ e ∈ ws, e.fd ≠ fd) (xs : List UInt16) :
    ws.word xs fd = 0 := by
  induction ws generalizing xs with
  | nil => rfl
  | cons e ws ih =>
    cases xs with
    | nil => rfl
    | cons x xs =>
      rw [word, if_neg (h e List.mem_cons_self)]
      exact ih (fun e he ↦ h e (List.mem_cons_of_mem _ he)) xs

end WatchList

namespace Event

/-- What the word of a descriptor tells; nothing if the descriptor is not ready. -/
def ofWord (token : Nat) (word : UInt16) : Event :=
  if (ofBits .posix token word).isReady then ofBits .posix token word else none

theorem isReady_ofWord (token : Nat) (word : UInt16) :
    (ofWord token word).isReady = (ofBits .posix token word).isReady := by
  unfold ofWord
  split_ifs with h
  · rfl
  · simpa [none, isReady] using h

theorem ofReport_cons (e : PollEntry) (ws : WatchList) (x : UInt16) (xs : List UInt16) :
    ofReport .posix (e :: ws) (x :: xs) =
      if x = 0 then ofReport .posix ws xs
      else ofBits .posix e.token x :: ofReport .posix ws xs := by
  simp only [ofReport, List.zip_cons_cons, List.filter_cons, bne_iff_ne, ne_eq]
  split_ifs <;> rfl

theorem isReady_ofBits_zero (token : Nat) : (ofBits .posix token 0).isReady = false := by
  simp [ofBits, isReady]

theorem token_ofBits (token : Nat) (word : UInt16) :
    (ofBits .posix token word).token = token := rfl

def about (events : List Event) (token : Nat) : List Event :=
  events.filter fun e ↦ e.isReady && e.token = token

theorem about_cons (e : Event) (events : List Event) (token : Nat) : about (e :: events) token =
    if e.isReady ∧ e.token = token then e :: about events token else about events token := by
  simp only [about, List.filter_cons, Bool.and_eq_true, decide_eq_true_eq]

theorem about_of_not_mem {ws : WatchList} {token : Nat} (h : ∀ e ∈ ws, e.token ≠ token)
    (xs : List UInt16) : about (ofReport .posix ws xs) token = [] := by
  induction ws generalizing xs with
  | nil => rfl
  | cons e ws ih =>
    cases xs with
    | nil => rfl
    | cons x xs =>
      have hrest := ih (fun e he ↦ h e (List.mem_cons_of_mem _ he)) xs
      rw [ofReport_cons]
      split_ifs
      · exact hrest
      · rw [about_cons, if_neg (fun hc ↦ h e List.mem_cons_self hc.2), hrest]

theorem about_ofReport {ws : WatchList} (h : ws.Apart) {e : PollEntry} (he : e ∈ ws)
    (xs : List UInt16) : about (ofReport .posix ws xs) e.token =
      if (ofBits .posix e.token (ws.word xs e.fd)).isReady
      then [ofBits .posix e.token (ws.word xs e.fd)] else [] := by
  induction ws generalizing xs with
  | nil => cases he
  | cons e' ws ih =>
    -- Each entry is about a descriptor and a token of its own.
    obtain ⟨hne, h⟩ := List.pairwise_cons.1 h
    cases xs with
    | nil =>
      rw [WatchList.word_nil, isReady_ofBits_zero]
      rfl
    | cons x xs =>
      rw [ofReport_cons, WatchList.word]
      rcases List.mem_cons.1 he with rfl | he
      · have hrest := about_of_not_mem (fun e' he' ↦ (hne e' he').2.symm) xs
        rw [if_pos rfl]
        by_cases hx : x = 0
        · rw [if_pos hx, hrest, hx, isReady_ofBits_zero]
          rfl
        · rw [if_neg hx, about_cons, hrest]
          simp only [token_ofBits, and_true]
      · obtain ⟨hfd, htoken⟩ := hne e he
        rw [if_neg hfd, ← ih h he xs]
        split_ifs
        · rfl
        · rw [about_cons, if_neg (fun hc ↦ htoken hc.2)]

end Event

open Event (about ofWord ofBits ofReport)

namespace Reactor

theorem eventOf_eq (events : List Event) (place : Nat) :
    eventOf events place = ((about events place).getLast?).getD .none := rfl

theorem isReported_eq (events : List Event) (token : Nat) :
    isReported events token = !(about events token).isEmpty := by
  rw [Bool.eq_iff_iff]
  simp [isReported, about]

section

variable {ws : WatchList} {e : PollEntry} {xs : List UInt16} {token : Nat}

theorem eventOf_ofReport (h : ws.Apart) (he : e ∈ ws) (xs : List UInt16) :
    eventOf (ofReport .posix ws xs) e.token = ofWord e.token (ws.word xs e.fd) := by
  rw [eventOf_eq, Event.about_ofReport h he, ofWord]
  split_ifs <;> rfl

theorem eventOf_of_not_mem (h : ∀ e ∈ ws, e.token ≠ token) (xs : List UInt16) :
    eventOf (ofReport .posix ws xs) token = .none := by
  rw [eventOf_eq, Event.about_of_not_mem h]
  rfl

theorem isReported_ofReport (h : ws.Apart) (he : e ∈ ws) (xs : List UInt16) :
    isReported (ofReport .posix ws xs) e.token =
      (ofBits .posix e.token (ws.word xs e.fd)).isReady := by
  rw [isReported_eq, Event.about_ofReport h he]
  split_ifs with hr
  · exact hr.symm
  · simpa using hr

theorem isReported_of_not_mem (h : ∀ e ∈ ws, e.token ≠ token) (xs : List UInt16) :
    isReported (ofReport .posix ws xs) token = false := by
  rw [isReported_eq, Event.about_of_not_mem h]
  rfl

end

variable {κ π ν : Type} {r : Reactor κ π ν}

def connEntries : List (Conn × Watched) → (place : Nat) → WatchList
  | [], _ => []
  | (c, w) :: rest, place =>
    (if w.interest.isEmpty then []
      else c.fd?.toList.map (WatchList.entry .posix · place w.interest)) ++
      connEntries rest (place + 1)

theorem watchConns_eq (ws : WatchList) (l : List (Conn × Watched)) (place : Nat) :
    watchConns ws l place = ws ++ connEntries l place := by
  induction l generalizing ws place with
  | nil => exact (List.append_nil ws).symm
  | cons p l ih =>
    rcases p with ⟨c, w⟩
    rw [watchConns, ih, connEntries]
    cases c.fd? with
    | none => split_ifs <;> rfl
    | some fd =>
      unfold WatchList.register
      split_ifs
      · rfl
      · rw [List.append_assoc]
        rfl

theorem prepare_list (r : Reactor κ π ν) : r.prepare.list =
    WatchList.entry .posix r.waker.receiver wakeToken .readOnly ::
      (r.listener.toList.map (WatchList.entry .posix · listenerToken .readOnly) ++
        connEntries r.watchedOf 0) := by
  show watchConns _ _ _ = _
  rw [watchConns_eq]
  cases r.listener <;> rfl

theorem mem_connEntries {e : PollEntry} {l : List (Conn × Watched)} {place : Nat}
    (h : e ∈ connEntries l place) : ∃ k c w fd, l[k]? = some (c, w) ∧ c.fd? = some fd ∧
      w.interest.isEmpty = false ∧ e = WatchList.entry .posix fd (place + k) w.interest := by
  induction l generalizing place with
  | nil => cases h
  | cons p l ih =>
    rcases p with ⟨c, w⟩
    rcases List.mem_append.1 h with h | h
    · split_ifs at h with hi
      · cases h
      · simp only [List.mem_map, Option.mem_toList] at h
        obtain ⟨fd, hfd, rfl⟩ := h
        exact ⟨0, c, w, fd, rfl, hfd, by simpa using hi, rfl⟩
    · obtain ⟨k, c', w', fd, hk, hfd, hi, rfl⟩ := ih h
      exact ⟨k + 1, c', w', fd, hk, hfd, hi, by rw [Nat.add_assoc, Nat.add_comm 1]⟩

theorem connEntries_apart {l : List (Conn × Watched)} (h : l.Pairwise fun p q ↦
    ∀ fd, p.1.fd? = some fd → q.1.fd? ≠ some fd) (place : Nat) :
    WatchList.Apart (connEntries l place) := by
  induction l generalizing place with
  | nil => exact .nil
  | cons p l ih =>
    rcases p with ⟨c, w⟩
    obtain ⟨hne, h⟩ := List.pairwise_cons.1 h
    refine List.pairwise_append.2 ⟨?_, ih h (place + 1), ?_⟩
    · split_ifs
      · exact .nil
      · cases c.fd? with
        | none => exact .nil
        | some fd => exact List.pairwise_singleton _ _
    · intro e he e' he'
      obtain ⟨k, c', w', fd', hk, hfd', -, rfl⟩ := mem_connEntries he'
      split_ifs at he
      · cases he
      · simp only [List.mem_map, Option.mem_toList] at he
        obtain ⟨fd, hfd, rfl⟩ := he
        refine ⟨?_, ?_⟩
        · rintro rfl
          exact hne _ (List.mem_of_getElem? hk) fd hfd hfd'
        · show place ≠ place + 1 + k
          omega

theorem mem_watchedOf {c : Conn} {w : Watched} (h : (c, w) ∈ r.watchedOf) :
    w.id ∈ r.live ∧ r.conn? w.id = some c ∧ w.interest = c.interest := by
  obtain ⟨id, hid, hc⟩ := List.mem_filterMap.1 h
  obtain ⟨c', hc', he⟩ := Option.map_eq_some_iff.1 hc
  cases he
  exact ⟨hid, hc', rfl⟩

theorem length_watchedOf_le (r : Reactor κ π ν) : r.watchedOf.length ≤ r.live.length :=
  List.length_filterMap_le _ _

theorem watchedOf_pairwise {hand : Option (Token Stream)} (h : Ledger r hand)
    (hn : r.live.Nodup) : r.watchedOf.Pairwise fun p q ↦
      ∀ fd, p.1.fd? = some fd → q.1.fd? ≠ some fd := by
  refine List.pairwise_filterMap.2 (hn.imp fun {id id'} hne ↦ ?_)
  intro p hp q hq fd hfd hfd'
  obtain ⟨c, hc, rfl⟩ := Option.map_eq_some_iff.1 hp
  obtain ⟨c', hc', rfl⟩ := Option.map_eq_some_iff.1 hq
  exact hne (Owner.conn.inj (h.apart _ _ fd (owned_of_fd? hc hfd) (owned_of_fd? hc' hfd')))

theorem listenerToken_lt_wakeToken : listenerToken < wakeToken := by decide

theorem prepare_apart {hand : Option (Token Stream)} (h : Ledger r hand) (hn : r.live.Nodup)
    (hl : r.live.length < listenerToken) : r.prepare.list.Apart := by
  have hconn {e : PollEntry} (he : e ∈ connEntries r.watchedOf 0) :
      (∃ id, r.owned hand (.conn id) = some e.fd) ∧ e.token < listenerToken := by
    obtain ⟨k, c, w, fd, hk, hfd, -, rfl⟩ := mem_connEntries he
    obtain ⟨-, hc, -⟩ := mem_watchedOf (List.mem_of_getElem? hk)
    obtain ⟨hlt, -⟩ := List.getElem?_eq_some_iff.1 hk
    have hle := r.length_watchedOf_le
    refine ⟨⟨w.id, owned_of_fd? hc hfd⟩, ?_⟩
    show 0 + k < listenerToken
    omega
  have hlistener {e : PollEntry}
      (he : e ∈ r.listener.toList.map (WatchList.entry .posix · listenerToken .readOnly)) :
      r.owned hand .listener = some e.fd ∧ e.token = listenerToken := by
    simp only [List.mem_map, Option.mem_toList] at he
    obtain ⟨fd, hfd, rfl⟩ := he
    exact ⟨hfd, rfl⟩
  have hne {o o' : Owner} {fd fd' : Fd} (ho : r.owned hand o = some fd)
      (ho' : r.owned hand o' = some fd') (hoo : o ≠ o') : fd ≠ fd' := by
    rintro rfl
    exact hoo (h.apart o o' fd ho ho')
  have hreceiver : r.owned hand .receiver = some r.waker.receiver := rfl
  rw [prepare_list]
  refine List.pairwise_cons.2 ⟨?_, List.pairwise_append.2
    ⟨?_, connEntries_apart (watchedOf_pairwise h hn) 0, ?_⟩⟩
  · intro e he
    rcases List.mem_append.1 he with he | he
    · obtain ⟨ho, ht⟩ := hlistener he
      refine ⟨hne hreceiver ho nofun, ?_⟩
      rw [ht]
      exact Nat.ne_of_gt listenerToken_lt_wakeToken
    · obtain ⟨⟨id, ho⟩, ht⟩ := hconn he
      exact ⟨hne hreceiver ho nofun, Nat.ne_of_gt (Nat.lt_trans ht listenerToken_lt_wakeToken)⟩
  · cases r.listener with
    | none => exact .nil
    | some fd => exact List.pairwise_singleton _ _
  · intro e he e' he'
    obtain ⟨ho, ht⟩ := hlistener he
    obtain ⟨⟨id, ho'⟩, ht'⟩ := hconn he'
    exact ⟨hne ho ho' nofun, by rw [ht]; exact Nat.ne_of_gt ht'⟩

theorem prepare_watched_getElem? {k : Nat} {x : Watched} (h : r.prepare.watched[k]? = some x) :
    ∃ c, r.watchedOf[k]? = some (c, x) := by
  obtain ⟨⟨c, x'⟩, hk, rfl⟩ := Option.map_eq_some_iff.1 ((List.getElem?_map ..).symm.trans h)
  exact ⟨c, hk⟩

theorem entry_of_conn {hand : Option (Token Stream)} (h : Ledger r hand) {e : PollEntry}
    (he : e ∈ r.prepare.list) {id : Nat} (ho : r.owned hand (.conn id) = some e.fd) :
    ∃ k c x, r.watchedOf[k]? = some (c, x) ∧ x.id = id ∧ x.interest.isEmpty = false ∧
      e = WatchList.entry .posix e.fd k x.interest := by
  rw [prepare_list] at he
  rcases List.mem_cons.1 he with rfl | he
  · cases h.apart .receiver (.conn id) _ rfl ho
  rcases List.mem_append.1 he with he | he
  · simp only [List.mem_map, Option.mem_toList] at he
    obtain ⟨fd, hfd, rfl⟩ := he
    cases h.apart .listener (.conn id) _ hfd ho
  · obtain ⟨k, c, x, fd, hk, hfd, hi, rfl⟩ := mem_connEntries he
    obtain ⟨-, hc, -⟩ := mem_watchedOf (List.mem_of_getElem? hk)
    have hid := Owner.conn.inj (h.apart _ _ fd (owned_of_fd? hc hfd) ho)
    exact ⟨k, c, x, hk, hid, hi, by rw [Nat.zero_add]; rfl⟩

section

variable {hand : Option (Token Stream)} {k : Nat} {c : Conn} {x : Watched} {fd : Fd}

theorem not_listed (h : Ledger r hand) (hk : r.watchedOf[k]? = some (c, x))
    (hfd : c.fd? = some fd) (hi : x.interest.isEmpty) :
    ∀ e ∈ r.prepare.list, e.fd ≠ fd := by
  obtain ⟨-, hc, hx⟩ := mem_watchedOf (List.mem_of_getElem? hk)
  rintro e he rfl
  obtain ⟨k', c', x', hk', hid, hi', -⟩ := entry_of_conn h he (owned_of_fd? hc hfd)
  obtain ⟨-, hc', hx'⟩ := mem_watchedOf (List.mem_of_getElem? hk')
  rw [hid, hc, Option.some.injEq] at hc'
  rw [hx', ← hc', ← hx, hi] at hi'
  cases hi'

theorem listed_iff (h : Ledger r hand) (hn : r.live.Nodup) (hl : r.live.length < listenerToken)
    (hk : r.watchedOf[k]? = some (c, x)) (hfd : c.fd? = some fd) (e : PollEntry) :
    e ∈ r.prepare.list ∧ e.fd = fd ↔
      x.interest.isEmpty = false ∧ e = WatchList.entry .posix fd k x.interest := by
  have hmem (hi : x.interest.isEmpty = false) :
      WatchList.entry .posix fd k x.interest ∈ r.prepare.list := by
    have he : WatchList.entry .posix fd (0 + k) x.interest ∈ r.prepare.list :=
      mem_watchConns hk hfd hi _ 0
    rwa [Nat.zero_add] at he
  constructor
  · rintro ⟨he, rfl⟩
    cases hi : x.interest.isEmpty with
    | true => exact absurd rfl (not_listed h hk hfd hi e he)
    | false => exact ⟨rfl, (prepare_apart h hn hl).eq he (hmem hi) rfl⟩
  · rintro ⟨hi, rfl⟩
    exact ⟨hmem hi, rfl⟩

/-- The event at the place of a connection is what was reported of its own descriptor. -/
theorem eventOf_prepare (h : Ledger r hand) (hn : r.live.Nodup)
    (hl : r.live.length < listenerToken) (hk : r.watchedOf[k]? = some (c, x))
    (hfd : c.fd? = some fd) (xs : List UInt16) :
    eventOf (ofReport .posix r.prepare.list xs) k = ofWord k (r.prepare.list.word xs fd) := by
  cases hi : x.interest.isEmpty with
  | false =>
    obtain ⟨he, -⟩ := (listed_iff h hn hl hk hfd _).2 ⟨hi, rfl⟩
    exact eventOf_ofReport (prepare_apart h hn hl) he xs
  | true =>
    -- Neither the descriptor nor the place is on the list.
    have hword := WatchList.word_of_not_mem (not_listed h hk hfd hi) xs
    have htoken : ∀ e ∈ r.prepare.list, e.token ≠ k := by
      obtain ⟨hlt, -⟩ := List.getElem?_eq_some_iff.1 hk
      have hle := r.length_watchedOf_le
      have hlw := listenerToken_lt_wakeToken
      intro e he hek
      rw [prepare_list] at he
      rcases List.mem_cons.1 he with rfl | he
      · have ht : wakeToken = k := hek
        omega
      rcases List.mem_append.1 he with he | he
      · obtain ⟨fd', -, rfl⟩ := List.mem_map.1 he
        have ht : listenerToken = k := hek
        omega
      · obtain ⟨k', c', x', fd', hk', -, hi', rfl⟩ := mem_connEntries he
        obtain rfl : k' = k := (Nat.zero_add k').symm.trans hek
        rw [hk, Option.some.injEq, Prod.mk.injEq] at hk'
        rw [← hk'.2, hi] at hi'
        cases hi'
    rw [eventOf_of_not_mem htoken, hword, ofWord, if_neg (by simp [Event.isReady_ofBits_zero])]

end

theorem isReported_waker {hand : Option (Token Stream)} (h : Ledger r hand)
    (hn : r.live.Nodup) (hl : r.live.length < listenerToken) (xs : List UInt16) :
    isReported (ofReport .posix r.prepare.list xs) wakeToken =
      (ofWord wakeToken (r.prepare.list.word xs r.waker.receiver)).isReady := by
  have he : WatchList.entry .posix r.waker.receiver wakeToken .readOnly ∈ r.prepare.list := by
    rw [prepare_list]
    exact List.mem_cons_self
  rw [Event.isReady_ofWord]
  exact isReported_ofReport (prepare_apart h hn hl) he xs

theorem isReported_listener {hand : Option (Token Stream)} (h : Ledger r hand)
    (hn : r.live.Nodup) (hl : r.live.length < listenerToken) (xs : List UInt16) :
    isReported (ofReport .posix r.prepare.list xs) listenerToken = r.listener.any fun fd ↦
      (ofWord listenerToken (r.prepare.list.word xs fd)).isReady := by
  have hlist := r.prepare_list
  cases hfd : r.listener with
  | none =>
    refine isReported_of_not_mem (fun e he ↦ ?_) xs
    rw [hlist, hfd] at he
    rcases List.mem_cons.1 he with rfl | he
    · exact Nat.ne_of_gt listenerToken_lt_wakeToken
    · obtain ⟨k, c, x, fd, hk, -, -, rfl⟩ := mem_connEntries he
      obtain ⟨hlt, -⟩ := List.getElem?_eq_some_iff.1 hk
      have hle := r.length_watchedOf_le
      show 0 + k ≠ listenerToken
      omega
  | some fd =>
    have he : WatchList.entry .posix fd listenerToken .readOnly ∈ r.prepare.list := by
      rw [hlist, hfd]
      exact List.mem_cons_of_mem _ List.mem_cons_self
    rw [Option.any_some, Event.isReady_ofWord]
    exact isReported_ofReport (prepare_apart h hn hl) he xs

end Reactor

end PollReactor
