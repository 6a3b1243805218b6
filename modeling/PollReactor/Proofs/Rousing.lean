import PollReactor.Proofs.Announce
import PollReactor.Proofs.Deed

namespace PollReactor

open Journal (Adds)

variable {κ π ν : Type}

namespace Entry

def pipedIn (sender : Fd) : Entry (Mark ν) → Nat
  | .sys (.write fd _) (.ok n) => if fd = sender then n else 0
  | _ => 0

def pipedOut (receiver : Fd) : Entry (Mark ν) → Nat
  | .sys (.read fd _) (.ok n) => if fd = receiver then n else 0
  | _ => 0

def fits (sender : Fd) (unread : Nat) : Entry (Mark ν) → Bool
  | .sys (.write fd bs) (.ok n) => fd ≠ sender ∨ n = bs.length
  | .sys (.write fd _) (.error _) => fd ≠ sender ∨ 0 < unread
  | _ => true

def asks (id : Nat) (immediate : Bool) : Entry (Mark ν) → Bool
  | .remark (.called id' _ op) => id' = id ∧ op.closes immediate
  | _ => false

/-- The bytes that a cancelled batch appended to the output of a connection. -/
def murmured (id : Nat) : Entry (Mark ν) → Bytes
  | .remark (.called id' c (.batch ops .cancel)) =>
    if id' = id then (ConnOp.batch ops .cancel).appended (c.perform (.batch ops .cancel)).1 else []
  | _ => []

def isDry : Entry (Mark ν) → Bool
  | .sys (.read ..) _ => false
  | .sys (.write ..) _ => false
  | _ => true

def isUnasked : Entry (Mark ν) → Bool
  | .remark (.called ..) => false
  | .remark (.request ..) => false
  | .remark .waits => false
  | _ => true

def IsInert (e : Entry (Mark ν)) : Prop := e.isDry ∧ e.isUnasked

variable {e : Entry (Mark ν)}

theorem piped_of_isDry (h : e.isDry) (fd : Fd) : e.pipedIn fd = 0 ∧ e.pipedOut fd = 0 := by
  cases e with
  | sys c a => cases c <;> first | exact ⟨rfl, rfl⟩ | cases h
  | remark m => exact ⟨rfl, rfl⟩

theorem asks_of_isUnasked (h : e.isUnasked) (id : Nat) (immediate : Bool) :
    e.asks id immediate = false := by
  cases e with
  | sys c a => rfl
  | remark m => cases m <;> first | rfl | cases h

theorem murmured_of_isUnasked (h : e.isUnasked) (id : Nat) : e.murmured id = [] := by
  cases e with
  | sys c a => rfl
  | remark m => cases m <;> first | rfl | cases h

theorem murmured_called (id id' : Nat) (c : Conn) (op : ConnOp) :
    (remark (.called (ν := ν) id c op)).murmured id' = [] ∨ id = id' ∧
      (remark (.called (ν := ν) id c op)).murmured id' = op.appended (c.perform op).1 := by
  cases op with
  | batch ops release =>
    cases release with
    | cancel =>
      by_cases he : id = id'
      · exact .inr ⟨he, if_pos he⟩
      · exact .inl (if_neg he)
    | _ => exact .inl rfl
  | _ => exact .inl rfl

theorem inert_of_isSetup (h : e.isSetup) : e.IsInert := by
  cases e with
  | sys c a => cases c <;> first | exact ⟨rfl, rfl⟩ | cases h
  | remark m => cases h

theorem OfSetup.inert (h : e.OfSetup) : e.IsInert := by
  rcases h with h | h
  · exact inert_of_isSetup h
  · cases e with
    | sys c a => cases h
    | remark m => cases m <;> first | exact ⟨rfl, rfl⟩ | cases h

theorem OfAdmission.inert (h : e.OfAdmission) : e.IsInert := by
  cases h with
  | setup h => exact inert_of_isSetup h
  | _ => exact ⟨rfl, rfl⟩

theorem OfService.inert {fd? : Option Fd} {sends : Bool} (h : e.OfService fd? sends) :
    e.IsInert := by
  rcases h.input_or_output with h | h <;> cases h <;> exact ⟨rfl, rfl⟩

theorem IsChore.unasked (h : e.IsChore) : e.isUnasked := by
  cases h with
  | call => rfl
  | adopted => rfl

theorem OfRequest.pipedOut {sender : Fd} (h : e.OfRequest sender) (receiver : Fd) :
    e.pipedOut receiver = 0 := by
  cases h with
  | effect h => cases h <;> rfl
  | _ => rfl

end Entry

namespace Journal

def unread (sender receiver : Fd) : Journal ν → Nat
  | [] => 0
  | e :: j => unread sender receiver j + e.pipedIn sender - e.pipedOut receiver

/-- Writes to the pipe fail only if it is full. -/
def Piped (sender receiver : Fd) : Journal ν → Prop
  | [] => True
  | e :: j => e.fits sender (unread sender receiver j) ∧ Piped sender receiver j

instance decidablePiped (sender receiver : Fd) :
    (j : Journal ν) → Decidable (Piped sender receiver j)
  | [] => inferInstanceAs (Decidable True)
  | _ :: j =>
    have := decidablePiped sender receiver j
    inferInstanceAs (Decidable (_ ∧ _))

def asked (id : Nat) (immediate : Bool) (j : Journal ν) : Bool := j.any (·.asks id immediate)

def murmured (id : Nat) : Journal ν → Bytes
  | [] => []
  | .remark .waits :: _ => []
  | e :: j => murmured id j ++ e.murmured id

variable {sender receiver : Fd} {j j' : Journal ν}

theorem Piped.of_adds {C : Entry (Mark ν) → Prop} (h : Piped sender receiver j')
    (ha : Adds C j j') : Piped sender receiver j := by
  obtain ⟨new, rfl, -⟩ := ha
  induction new with
  | nil => exact h
  | cons e new ih => exact ih h.2

theorem unread_dry (h : Adds (·.isDry) j j') : unread sender receiver j' =
    unread sender receiver j := by
  obtain ⟨new, rfl, hn⟩ := h
  induction new with
  | nil => rfl
  | cons e new ih =>
    have he := hn e List.mem_cons_self
    rw [List.cons_append, unread, (Entry.piped_of_isDry he sender).1,
      (Entry.piped_of_isDry he receiver).2, ih fun e he ↦ hn e (List.mem_cons_of_mem _ he)]
    rfl

theorem unread_le (h : Adds (·.pipedOut receiver = 0) j j') : unread sender receiver j ≤
    unread sender receiver j' := by
  obtain ⟨new, rfl, hn⟩ := h
  induction new with
  | nil => exact Nat.le_refl _
  | cons e new ih =>
    have ih := ih fun e he ↦ hn e (List.mem_cons_of_mem _ he)
    rw [List.cons_append, unread, hn e List.mem_cons_self]
    omega

theorem asked_unasked (h : Adds (·.isUnasked) j j') (id : Nat) (immediate : Bool) :
    asked id immediate j' = asked id immediate j := by
  obtain ⟨new, rfl, hn⟩ := h
  have h0 : new.any (·.asks id immediate) = false := by
    apply List.any_eq_false.2
    intro e he
    rw [Entry.asks_of_isUnasked (hn e he)]
    nofun
  rw [asked, List.any_append, h0, Bool.false_or]
  rfl

theorem murmured_cons {e : Entry (Mark ν)} (h : e ≠ .remark .waits) (id : Nat) (j : Journal ν) :
    murmured id (e :: j) = murmured id j ++ e.murmured id := by
  cases e with
  | sys c a => rfl
  | remark m =>
    cases m with
    | waits => exact absurd rfl h
    | _ => rfl

theorem murmured_unasked (h : Adds (·.isUnasked) j j') (id : Nat) :
    murmured id j' = murmured id j := by
  obtain ⟨new, rfl, hn⟩ := h
  induction new with
  | nil => rfl
  | cons e new ih =>
    have he := hn e List.mem_cons_self
    refine (murmured_cons ?_ id _).trans ?_
    · rintro rfl
      cases he
    · rw [Entry.murmured_of_isUnasked he, List.append_nil]
      exact ih fun e he ↦ hn e (List.mem_cons_of_mem _ he)

theorem mem_of_unasked (h : Adds (·.isUnasked) j j') {q : Request} {a : q.Answer}
    (hm : .remark (.request q a) ∈ j') : .remark (.request q a) ∈ j := by
  obtain ⟨new, rfl, hn⟩ := h
  rcases List.mem_append.1 hm with hm | hm
  · cases hn _ hm
  · exact hm

end Journal

open Journal (asked murmured)

namespace Reactor

variable {r r' r'' : Reactor κ π ν}

def unread (r : Reactor κ π ν) : Nat :=
  Journal.unread r.waker.sender r.waker.receiver r.os.journal

def Piped (r : Reactor κ π ν) : Prop :=
  Journal.Piped r.waker.sender r.waker.receiver r.os.journal

instance (r : Reactor κ π ν) : Decidable r.Piped :=
  inferInstanceAs (Decidable (Journal.Piped ..))

theorem Grows.piped (h : Grows r r') (hp : r'.Piped) : r.Piped := by
  unfold Piped at hp ⊢
  rw [h.sender, h.receiver] at hp
  exact hp.of_adds h.journal

theorem Still.unread_le {C : Entry (Mark ν) → Prop} (h : Still C r r')
    (hC : ∀ e, C e → e.pipedOut r.waker.receiver = 0) : r.unread ≤ r'.unread := by
  unfold unread
  rw [h.sender, h.receiver]
  exact Journal.unread_le (h.journal.mono hC)

/-- What the reactor knows of the requests made so far. -/
structure Alert (r : Reactor κ π ν) : Prop where
  signaled : r.waker.signaled → 0 < r.unread
  shut : ∀ id c, r.conn? id = some c → asked id true r.os.journal → c.isConnected = false
  closing : ∀ id c, r.conn? id = some c → asked id false r.os.journal → c.closePending
  known : ∀ id immediate, asked id immediate r.os.journal → id ≤ r.conns.size
  cancelled : ∀ a, .remark (.request .cancel a) ∈ r.os.journal → r.cancelled

/-- What changes where nothing is called for: no connection is asked for, watched for more or out of
output. -/
structure Unmoved (r r' : Reactor κ π ν) : Prop where
  live : r'.live = r.live
  cancelled : r'.cancelled = r.cancelled
  conn : ∀ id c', r'.conn? id = some c' → ∃ c bs, r.conn? id = some c ∧ c'.fd? = c.fd? ∧
    (c.isConnected → c'.isConnected) ∧ (c'.interest.read → c.interest.read) ∧
    (c'.interest.urgent → c.interest.urgent) ∧ c'.output.toList = c.output.toList ++ bs ∧
    murmured id r'.os.journal = murmured id r.os.journal ++ bs
  asked : ∀ id immediate, asked id immediate r'.os.journal → asked id immediate r.os.journal

theorem Unmoved.trans (h : Unmoved r r') (h' : Unmoved r' r'') : Unmoved r r'' where
  live := h'.live.trans h.live
  cancelled := h'.cancelled.trans h.cancelled
  conn id c'' hc'' := by
    obtain ⟨c', bs', hc', hfd', hs', hr', hu', ho', hm'⟩ := h'.conn id c'' hc''
    obtain ⟨c, bs, hc, hfd, hs, hr, hu, ho, hm⟩ := h.conn id c' hc'
    refine ⟨c, bs ++ bs', hc, hfd'.trans hfd, fun h ↦ hs' (hs h), fun h ↦ hr (hr' h),
      fun h ↦ hu (hu' h), ?_, ?_⟩
    · rw [ho', ho, List.append_assoc]
    · rw [hm', hm, List.append_assoc]
  asked id immediate ha := h.asked id immediate (h'.asked id immediate ha)

theorem unmoved_of_conns (hl : r'.live = r.live) (hx : r'.cancelled = r.cancelled)
    (hc : r'.conns = r.conns) (hj : Adds (·.isUnasked) r.os.journal r'.os.journal) :
    Unmoved r r' := by
  refine ⟨hl, hx, ?_, fun id immediate ha ↦ Journal.asked_unasked hj id _ ▸ ha⟩
  intro id c' hc'
  rw [conn?_congr hc] at hc'
  refine ⟨c', [], hc', rfl, fun h ↦ h, fun h ↦ h, fun h ↦ h, (List.append_nil _).symm, ?_⟩
  rw [Journal.murmured_unasked hj, List.append_nil]

theorem Unmoved.refl (r : Reactor κ π ν) : Unmoved r r := unmoved_of_conns rfl rfl rfl (.refl _)

theorem unread_inert (hw : r'.waker = r.waker)
    (hj : Adds Entry.IsInert r.os.journal r'.os.journal) : r'.unread = r.unread := by
  unfold unread
  rw [hw]
  exact Journal.unread_dry (hj.mono fun _ he ↦ he.1)

theorem Alert.unasked (h : Alert r) (hs : r'.waker.signaled → 0 < r'.unread)
    (hx : r'.cancelled = r.cancelled) (hn : r.conns.size ≤ r'.conns.size)
    (hc : ∀ id c', r'.conn? id = some c' → r.conns.size < id ∨ ∃ c, r.conn? id = some c ∧
      (c'.isConnected → c.isConnected) ∧ (c.closePending → c'.closePending))
    (hj : Adds (·.isUnasked) r.os.journal r'.os.journal) : Alert r' := by
  have hask {id : Nat} {immediate : Bool} (ha : asked id immediate r'.os.journal) :
      asked id immediate r.os.journal := by
    rw [Journal.asked_unasked hj] at ha
    exact ha
  have hnew {id : Nat} {immediate : Bool} (hid : r.conns.size < id)
      (ha : asked id immediate r'.os.journal) : False :=
    absurd (h.known id immediate (hask ha)) (Nat.not_le.2 hid)
  constructor
  case signaled => exact hs
  case shut =>
    intro id c' hc' ha
    rcases hc id c' hc' with hid | ⟨c, hc, hcon, -⟩
    · exact (hnew hid ha).elim
    · rw [← Bool.not_eq_true]
      intro hcon'
      cases (h.shut id c hc (hask ha)).symm.trans (hcon hcon')
  case closing =>
    intro id c' hc' ha
    rcases hc id c' hc' with hid | ⟨c, hc, -, hcl⟩
    · exact (hnew hid ha).elim
    · exact hcl (h.closing id c hc (hask ha))
  case known =>
    intro id immediate ha
    exact Nat.le_trans (h.known id immediate (hask ha)) hn
  case cancelled =>
    intro a ha
    rw [hx]
    exact h.cancelled a (Journal.mem_of_unasked hj ha)

theorem Alert.roused (h : Alert r) (hs : r'.waker.signaled → 0 < r'.unread)
    (hx : r'.cancelled = r.cancelled) (hc : r'.conns = r.conns)
    (hj : Adds (·.isUnasked) r.os.journal r'.os.journal) : Alert r' := by
  refine h.unasked hs hx (Nat.le_of_eq (congrArg _ hc.symm)) (fun id c hc' ↦ .inr ?_) hj
  rw [conn?_congr hc] at hc'
  exact ⟨c, hc', fun h ↦ h, fun h ↦ h⟩

theorem Alert.signaled_inert (h : Alert r) (hw : r'.waker = r.waker)
    (hj : Adds Entry.IsInert r.os.journal r'.os.journal) (hs : r'.waker.signaled) :
    0 < r'.unread := by
  rw [unread_inert hw hj]
  exact h.signaled (hw ▸ hs)

theorem Alert.inert (h : Alert r) (hw : r'.waker = r.waker) (hx : r'.cancelled = r.cancelled)
    (hn : r.conns.size ≤ r'.conns.size)
    (hc : ∀ id c', r'.conn? id = some c' → r.conns.size < id ∨ ∃ c, r.conn? id = some c ∧
      (c'.isConnected → c.isConnected) ∧ (c.closePending → c'.closePending))
    (hj : Adds Entry.IsInert r.os.journal r'.os.journal) : Alert r' :=
  h.unasked (h.signaled_inert hw hj) hx hn hc (hj.mono fun _ he ↦ he.2)

theorem Alert.same (h : Alert r) (hw : r'.waker = r.waker) (hx : r'.cancelled = r.cancelled)
    (hc : r'.conns = r.conns) (hj : Adds Entry.IsInert r.os.journal r'.os.journal) : Alert r' :=
  h.roused (h.signaled_inert hw hj) hx hc (hj.mono fun _ he ↦ he.2)

variable [Kernel κ]

theorem wake_run (r : Reactor κ π ν) : (wake r).2 = if r.waker.signaled then r else
    (system (attempt (.write r.waker.sender [1])) { r with waker.signaled := true }).2 := by
  unfold wake
  rw [bind_run, get_run, bind_run, modify_run]
  unfold Waker.wake
  cases r.waker.signaled <;> rfl

theorem notify_unread (hp : (system (attempt (.write r.waker.sender [1])) r).2.Piped) :
    (system (attempt (.write r.waker.sender [1])) r).2.unread = r.unread + 1 ∨
      0 < r.unread ∧ (system (attempt (.write r.waker.sender [1])) r).2.unread = r.unread := by
  have hfits : (Entry.sys (.write r.waker.sender [1])
      (Os.call (.write r.waker.sender [1]) r.os).1).fits r.waker.sender r.unread = true := hp.1
  show Journal.unread r.waker.sender r.waker.receiver (.sys (.write r.waker.sender [1])
    (Os.call (.write r.waker.sender [1]) r.os).1 :: r.os.journal) = r.unread + 1 ∨ 0 < r.unread ∧
      Journal.unread r.waker.sender r.waker.receiver (.sys (.write r.waker.sender [1])
        (Os.call (.write r.waker.sender [1]) r.os).1 :: r.os.journal) = r.unread
  generalize (Os.call (.write r.waker.sender [1]) r.os).1 = a at hfits ⊢
  -- The answer to the write: all of it went into the pipe, or there was no room.
  cases a with
  | ok n =>
    have hn : n = 1 := by simpa [Entry.fits] using hfits
    refine .inl ?_
    simp [Journal.unread, Entry.pipedIn, Entry.pipedOut, hn, Reactor.unread]
  | error e =>
    have hu : 0 < r.unread := by simpa [Entry.fits] using hfits
    exact .inr ⟨hu, rfl⟩

theorem unread_notify (hp : (system (attempt (.write r.waker.sender [1])) r).2.Piped) :
    0 < (system (attempt (.write r.waker.sender [1])) r).2.unread := by
  rcases notify_unread hp with h | ⟨hu, h⟩
  · omega
  · omega

theorem wake_unread (h : r.waker.signaled → 0 < r.unread) (hp : (wake r).2.Piped) :
    0 < (wake r).2.unread := by
  rw [wake_run] at hp ⊢
  split_ifs at hp ⊢ with hs
  · exact h hs
  · exact unread_notify (r := { r with waker.signaled := true }) hp

theorem pipedOut_of_effect {sender : Fd} (receiver : Fd) (e : Entry (Mark ν))
    (h : e.OfEffect sender) : e.pipedOut receiver = 0 :=
  (Entry.OfRequest.effect h).pipedOut receiver

theorem actAll_unread (es : List Effect) (h : r.waker.signaled → 0 < r.unread)
    (hp : (actAll es r).2.Piped) :
    ((actAll es r).2.waker.signaled → 0 < (actAll es r).2.unread) ∧
      (.wake ∈ es → 0 < (actAll es r).2.unread) := by
  induction es generalizing r with
  | nil => exact ⟨h, fun hw ↦ by cases hw⟩
  | cons e es ih =>
    have hs := actAll_still es (act e r).2
    -- What is in the pipe stays there, as no effect reads from it.
    have hle : (act e r).2.unread ≤ (actAll es (act e r).2).2.unread :=
      hs.unread_le (pipedOut_of_effect _)
    have hp1 : (act e r).2.Piped := hs.grows.piped hp
    cases e with
    | wake =>
      have hu : 0 < (act .wake r).2.unread := wake_unread h hp1
      exact ⟨(ih (fun _ ↦ hu) hp).1, fun _ ↦ Nat.lt_of_lt_of_le hu hle⟩
    | shutdown fd =>
      have h1 := ih (r := (act (.shutdown fd) r).2) h hp
      refine ⟨h1.1, fun hw ↦ h1.2 ?_⟩
      simpa using hw

theorem actAll_cancelled (es : List Effect) (r : Reactor κ π ν) :
    (actAll es r).2.cancelled = r.cancelled := by
  induction es generalizing r with
  | nil => rfl
  | cons e es ih =>
    refine (ih (act e r).2).trans ?_
    cases e <;> rfl

theorem callConn_journal {id : Nat} {c : Conn} (hc : r.conn? id = some c) (op : ConnOp) :
    Adds (·.isUnasked) (.remark (.called id c op) :: r.os.journal)
      (callConn id op r).2.os.journal := by
  rw [callConn_run hc]
  exact (actAll_still _ _).journal.mono fun _ he ↦ he.chore.unasked

theorem callConn_asked {id : Nat} {c : Conn} (hc : r.conn? id = some c) (op : ConnOp) {id' : Nat}
    {immediate : Bool} (h : asked id' immediate (callConn id op r).2.os.journal) :
    id = id' ∧ op.closes immediate ∨ asked id' immediate r.os.journal := by
  rw [Journal.asked_unasked (callConn_journal hc op), asked, List.any_cons, Bool.or_eq_true] at h
  exact h.imp_left of_decide_eq_true

theorem callConn_unread {id : Nat} {c : Conn} (hc : r.conn? id = some c) (op : ConnOp)
    (h : r.waker.signaled → 0 < r.unread) (hp : (callConn id op r).2.Piped) :
    ((callConn id op r).2.waker.signaled → 0 < (callConn id op r).2.unread) ∧
      (.wake ∈ (c.perform op).2.2 → 0 < (callConn id op r).2.unread) := by
  rw [callConn_run hc] at hp ⊢
  exact actAll_unread (r := (remark (.called id c op) (r.setConn id (c.perform op).2.1)).2) _ h hp

theorem Alert.called (h : Alert r) {id : Nat} {c : Conn} (hc : r.conn? id = some c) (op : ConnOp)
    (hp : (callConn id op r).2.Piped) : Alert (callConn id op r).2 := by
  have hann := c.perform_announced op
  constructor
  case signaled => exact (callConn_unread hc op h.signaled hp).1
  case shut =>
    intro id' c' hc' ha
    replace ha := callConn_asked hc op ha
    rw [callConn_conn? hc] at hc'
    split_ifs at hc' with he
    · obtain rfl := Option.some.inj hc'
      rcases ha with ⟨-, ha⟩ | ha
      · exact (c.perform_closes ha).2
      · rw [← Bool.not_eq_true]
        intro hcon
        cases (h.shut id c hc (he ▸ ha)).symm.trans (hann.connected hcon)
    · rcases ha with ⟨ha, -⟩ | ha
      · exact absurd ha.symm he
      · exact h.shut id' c' hc' ha
  case closing =>
    intro id' c' hc' ha
    replace ha := callConn_asked hc op ha
    rw [callConn_conn? hc] at hc'
    split_ifs at hc' with he
    · obtain rfl := Option.some.inj hc'
      rcases ha with ⟨-, ha⟩ | ha
      · exact (c.perform_closes ha).2
      · exact hann.closing (h.closing id c hc (he ▸ ha))
    · rcases ha with ⟨ha, -⟩ | ha
      · exact absurd ha.symm he
      · exact h.closing id' c' hc' ha
  case known =>
    intro id' immediate ha
    replace ha := callConn_asked hc op ha
    rw [(Stir.called id c op hc).still.size]
    rcases ha with ⟨rfl, -⟩ | ha
    · exact (conn?_bounds hc).2
    · exact h.known id' immediate ha
  case cancelled =>
    intro a ha
    have hx : (callConn id op r).2.cancelled = r.cancelled := by
      rw [callConn_run hc, actAll_cancelled]
      rfl
    rw [hx]
    rcases List.mem_cons.1 (Journal.mem_of_unasked (callConn_journal hc op) ha) with ha | ha
    · cases ha
    · exact h.cancelled a ha

theorem unmoved_called {id : Nat} {c : Conn} (hc : r.conn? id = some c) {op : ConnOp}
    (hw : .wake ∉ (c.perform op).2.2) : Unmoved r (callConn id op r).2 := by
  have hs := (Stir.called id c op hc).still
  have hann := c.perform_announced op
  have hmur (id' : Nat) : murmured id' (callConn id op r).2.os.journal =
      murmured id' r.os.journal ++ (Entry.remark (.called id c op)).murmured id' :=
    Journal.murmured_unasked (callConn_journal hc op) id'
  refine ⟨hs.live, ?_, ?_, ?_⟩
  · rw [callConn_run hc, actAll_cancelled]
    rfl
  · intro id' c' hc'
    rw [callConn_conn? hc] at hc'
    split_ifs at hc' with he
    · obtain rfl := Option.some.inj hc'
      obtain rfl := he
      refine ⟨c, op.appended (c.perform op).1, hc, ?_, ?_, ?_, ?_, c.perform_output op, ?_⟩
      · rw [Conn.fd?_eq, Conn.fd?_eq, c.perform_place]
      · intro h
        rw [← Bool.not_eq_false]
        intro hcon
        rcases hann.shut hcon with hcon | hwake
        · cases h.symm.trans hcon
        · exact hw hwake
      · intro h
        exact (hann.read h).resolve_right hw
      · intro h
        exact (hann.urgent h).resolve_right hw
      · rw [hmur]
        refine congrArg _ ?_
        by_cases happ : op.appended (c.perform op).1 = []
        · rw [happ]
          rcases Entry.murmured_called (ν := ν) id' id' c op with he | ⟨-, he⟩
          · exact he
          · exact he.trans happ
        · obtain ⟨ops, rfl⟩ := (c.perform_appended happ).resolve_left hw
          exact if_pos rfl
    · refine ⟨c', [], hc', rfl, fun h ↦ h, fun h ↦ h, fun h ↦ h, (List.append_nil _).symm, ?_⟩
      rcases Entry.murmured_called (ν := ν) id id' c op with hn | ⟨hid, -⟩
      · rw [hmur, hn]
      · exact absurd hid.symm he
  · intro id' immediate ha
    rcases callConn_asked hc op ha with ⟨-, hcl⟩ | ha
    · exact absurd (c.perform_closes hcl).1 hw
    · exact ha

theorem Alert.wake (h : Alert r) (hp : (Reactor.wake r).2.Piped) : Alert (Reactor.wake r).2 :=
  h.roused (fun _ ↦ wake_unread h.signaled hp) (wake_cancelled r) (wake_conns r)
    ((wake_still r).journal.mono fun _ he ↦ he.chore.unasked)

theorem Alert.stir (h : Alert r) (hs : Stir r r') (hp : r'.Piped) : Alert r' := by
  cases hs with
  | called id c op hc => exact h.called hc op hp
  | wake => exact h.wake hp
  | cancel =>
    have hx : Alert { r with cancelled := true } := { h with cancelled := fun _ _ ↦ rfl }
    exact hx.wake hp
  | clock => exact h.same rfl rfl rfl (.single ⟨rfl, rfl⟩)
  | answered q a hq =>
    refine { h with cancelled := ?_ }
    intro a' ha
    rcases List.mem_cons.1 ha with ha | ha
    · cases ha
      exact hq rfl
    · exact h.cancelled a' ha

theorem Stir.unmoved (hs : Stir r r') (h : r.waker.signaled → 0 < r.unread) (hp : r'.Piped)
    (h0 : r'.unread = 0) : Unmoved r r' := by
  cases hs with
  | called id c op hc =>
    apply unmoved_called hc
    intro hw
    exact absurd h0 (Nat.ne_of_gt ((callConn_unread hc op h hp).2 hw))
  | wake => exact absurd h0 (Nat.ne_of_gt (wake_unread h hp))
  | cancel =>
    exact absurd h0 (Nat.ne_of_gt (wake_unread (r := { r with cancelled := true }) h hp))
  | clock => exact unmoved_of_conns rfl rfl rfl (.single rfl)
  | answered q a hq =>
    refine ⟨rfl, rfl, ?_, fun _ _ ha ↦ ha⟩
    intro id c hc
    exact ⟨c, [], hc, rfl, fun h ↦ h, fun h ↦ h, fun h ↦ h, (List.append_nil _).symm, rfl⟩

theorem request_unmoved (q : Request) (h : Alert r) (hp : (request q r).2.Piped) :
    Alert (request q r).2 ∧
      ((request q r).2.unread = 0 → r.unread = 0 ∧ Unmoved r (request q r).2) := by
  have hs := request_stirs q r
  generalize (request q r).2 = r' at hs hp ⊢
  -- By the stirs of the request. As the pipe never runs lower, it was empty before each of them.
  induction hs with
  | refl => exact ⟨h, fun h0 ↦ ⟨h0, .refl r⟩⟩
  | @tail r₁ r₂ _ hs ih =>
    obtain ⟨ha, hu⟩ := ih (hs.still.grows.piped hp)
    refine ⟨ha.stir hs hp, ?_⟩
    intro h0
    have hle : r₁.unread ≤ r₂.unread := hs.still.unread_le fun _ he ↦ he.pipedOut _
    obtain ⟨h0', hu⟩ := hu (by omega)
    exact ⟨h0', hu.trans (hs.unmoved ha.signaled hp h0)⟩

variable {P : Policy π ν}

theorem Alert.service {id : Nat} {c : Conn} {sends : Bool} (h : Alert r) (hc : r.conn? id = some c)
    (hs : Service r id c sends r') : Alert r' := by
  obtain ⟨os, c', rfl, hserved⟩ := hs.spec hc
  have hconn := conn?_setConn (r := { r with os }) hc c'
  refine h.inert rfl rfl (Nat.le_of_eq Array.size_setIfInBounds.symm) (fun id' c'' hc'' ↦ .inr ?_)
    (hserved.journal.mono fun _ he ↦ he.inert)
  rw [hconn] at hc''
  split_ifs at hc'' with he
  · obtain rfl := Option.some.inj hc''
    refine ⟨c, he ▸ hc, ?_, fun h ↦ hserved.closing.trans h⟩
    intro h
    rw [Conn.isConnected, ← hserved.socket]
    exact h
  · exact ⟨c'', hc'', fun h ↦ h, fun h ↦ h⟩

omit [Kernel κ] in
theorem Alert.repool (h : Alert r) (hr : Repool r r') : Alert r' := by
  obtain ⟨os, pool, rfl, hj⟩ := hr
  exact h.same rfl rfl rfl (hj.mono fun _ he ↦ he.inert)

omit [Kernel κ] in
theorem Alert.relisten (h : Alert r) (hr : Relisten r r') : Alert r' := by
  obtain ⟨os, listener, rfl, hj⟩ := hr
  exact h.same rfl rfl rfl (hj.mono fun _ he ↦ he.inert)

omit [Kernel κ] in
theorem Alert.remark (h : Alert r) {m : Mark ν} (hm : (Entry.remark m).IsInert) :
    Alert (remark m r).2 :=
  h.same rfl rfl rfl (.single hm)

theorem Alert.enrolled (h : Alert r) (t : Token Stream) (peer : Net.SocketAddr) (d : Draft)
    (now : Nat) : Alert (Reactor.enrolled t peer d now r) := by
  refine h.inert rfl rfl ?_ ?_ ?_
  · exact Nat.le_of_lt (Nat.lt_of_lt_of_eq (Nat.lt_succ_self _) (Array.size_push _).symm)
  · intro id c hc
    rw [conn?_enrolled] at hc
    split_ifs at hc with he
    · exact .inl (by omega)
    · exact .inr ⟨c, hc, fun h ↦ h, fun h ↦ h⟩
  · have hclock : Adds Entry.IsInert r.os.journal (.sys .clock now :: r.os.journal) :=
      .single ⟨rfl, rfl⟩
    exact hclock.cons ⟨rfl, rfl⟩

theorem Alert.part (h : Alert r) (id : Nat) : Alert (part id r) := by
  obtain ⟨os, pool, conns, he, hn, hconn, hj⟩ := part_spec id r
  refine h.inert (congrArg (·.waker) he) (congrArg (·.cancelled) he) ?_
    (fun id' c' hc' ↦ .inr ?_) ?_
  · exact Nat.le_of_eq (hn.symm.trans (congrArg (·.conns.size) he.symm))
  · rw [hconn] at hc'
    split_ifs at hc' with hid
    · obtain ⟨c, hc, rfl⟩ := Option.map_eq_some_iff.1 hc'
      exact ⟨c, hid ▸ hc, fun h ↦ (by cases h), fun h ↦ h⟩
    · exact ⟨c', hc', fun h ↦ h, fun h ↦ h⟩
  · rw [he]
    exact hj.mono fun _ ↦ Entry.inert_of_isSetup

theorem Alert.settled (h : Alert r) (events : List Event) : Alert (settleWaker events r).2 := by
  have hj := (settleWaker_still events r).journal.mono fun _ he ↦ he.chore.unasked
  rw [settleWaker_run] at hj ⊢
  split_ifs at hj ⊢
  · exact h.roused nofun rfl rfl hj
  · exact h

omit [Kernel κ] in
theorem Alert.aside (h : Alert r) {m : Mark ν} (hm : m.isAside) : Alert (Reactor.remark m r).2 := by
  cases m with
  | waits =>
    refine { h with cancelled := ?_ }
    intro a ha
    rcases List.mem_cons.1 ha with ha | ha
    · cases ha
    · exact h.cancelled a ha
  | raised p => exact h.remark ⟨rfl, rfl⟩
  | said v => exact h.remark ⟨rfl, rfl⟩
  | _ => cases hm

theorem Alert.deed {first : Task π ν} (h : Alert r) (hd : Deed first r r') (hp : r'.Piped) :
    Alert r' := by
  cases hd with
  | nothing => exact h
  | aside m hm => exact h.aside hm
  | request q => exact (request_unmoved q h hp).1
  | wake => exact h.wake hp
  | settled events => exact h.settled events
  | clock => exact h.same rfl rfl rfl (.single ⟨rfl, rfl⟩)
  | repooled hr => exact h.repool hr
  | enrolled t peer d now => exact h.enrolled t peer d now
  | served _ hc hs => exact h.service hc hs
  | told _ hc hs => exact (h.service hc hs).remark ⟨rfl, rfl⟩
  | @ended id why _ => exact (h.part id).remark (by cases why <;> exact ⟨rfl, rfl⟩)
  | relistened hr => exact h.relisten hr

theorem advance_alert (first : Task π ν) (h : Alert r) (hp : (advance P first r).1.Piped) :
    Alert (advance P first r).1 := by
  obtain ⟨app, hd⟩ := advance_deed (P := P) first r
  have happ : Alert { r with app } := h.same rfl rfl rfl (.refl _)
  exact happ.deed hd hp

end Reactor

end PollReactor
