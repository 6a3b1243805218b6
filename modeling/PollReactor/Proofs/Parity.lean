import Mathlib.Data.List.Forall2
import PollReactor.Reactor.Run
import PollReactor.Simulation.WinWorld
import PollReactor.WinSock.Multiplexer

namespace PollReactor

inductive Flag where
  | input
  | output
  | urgent
  | error
  | hangup
  | invalid
  deriving DecidableEq

abbrev Readiness := Flag → Bool

namespace Flag

def all : List Flag := [input, output, urgent, error, hangup, invalid]

theorem mem_all (f : Flag) : f ∈ all := by cases f <;> decide

end Flag

namespace Readiness

def isSilent (r : Readiness) : Bool := Flag.all.all fun f ↦ !r f

theorem isSilent_iff {r : Readiness} : r.isSilent ↔ ∀ f, r f = false := by
  simp [isSilent, Flag.mem_all]

def isGone (r : Readiness) : Bool := r .hangup || r .error || r .invalid

end Readiness

def Interest.asks (i : Interest) : Readiness
  | .input => i.read
  | .output => i.write
  | .urgent => i.urgent
  | _ => false

namespace PollBits

variable (bits : PollBits)

def bit : Flag → UInt16
  | .input => bits.read
  | .output => bits.write
  | .urgent => bits.urgent
  | .error => bits.error
  | .hangup => bits.hangup
  | .invalid => bits.invalid

/-- The word that has the bits of the flags that are set. -/
def word (r : Readiness) : UInt16 :=
  Flag.all.foldr (fun f w ↦ (if r f then bits.bit f else 0) ||| w) 0

/-- Every flag has a bit, and no two have one in common. -/
def Apart : Prop := ∀ f g, bits.bit f &&& bits.bit g = 0 ↔ f ≠ g

theorem posix_apart : posix.Apart := by
  intro f g
  cases f <;> cases g <;> decide

theorem winsock_apart : winsock.Apart := by
  intro f g
  cases f <;> cases g <;> decide

variable {bits} {r s : Readiness}

theorem word_and_bit (h : bits.Apart) (f : Flag) :
    bits.word r &&& bits.bit f = 0 ↔ r f = false := by
  have hfold (l : List Flag) :
      l.foldr (fun g w ↦ (if r g then bits.bit g else 0) ||| w) 0 &&& bits.bit f = 0 ↔
        (f ∈ l → r f = false) := by
    induction l with
    | nil => simp [UInt16.zero_and]
    | cons g l ih =>
      rw [List.foldr_cons, or_and_eq_zero, ih, List.mem_cons]
      cases hg : r g with
      | false =>
        simp only [Bool.false_eq_true, if_false, UInt16.zero_and, true_and]
        constructor
        · rintro hl (rfl | hf)
          · exact hg
          · exact hl hf
        · exact fun hl hf ↦ hl (.inr hf)
      | true =>
        rw [if_pos rfl, h]
        constructor
        · rintro ⟨hne, hl⟩ (rfl | hf)
          · exact absurd rfl hne
          · exact hl hf
        · intro hl
          refine ⟨?_, fun hf ↦ hl (.inr hf)⟩
          rintro rfl
          simp [hl] at hg
  rw [word, hfold]
  simp [Flag.mem_all]

theorem word_eq_zero (h : bits.Apart) : bits.word r = 0 ↔ r.isSilent := by
  rw [Readiness.isSilent_iff]
  constructor
  · intro hw f
    rw [← word_and_bit h, hw, UInt16.zero_and]
  · intro hr
    simp [word, Flag.all, hr]

def reads (bits : PollBits) (word : UInt16) : Readiness := fun f ↦ word &&& bits.bit f != 0

theorem reads_word (h : bits.Apart) (r : Readiness) : bits.reads (bits.word r) = r := by
  funext f
  rw [reads, Bool.eq_iff_iff, bne_iff_ne, ne_eq, word_and_bit h, Bool.not_eq_false]

theorem request_eq_word (i : Interest) : bits.request i = bits.word i.asks := by
  rw [request, UInt16.or_assoc]
  simp [word, Flag.all, bit, Interest.asks]
  rfl

/-- Bit for bit, the words of two systems say the same, and have no other bits. -/
structure SameBits (x y : UInt16) : Prop where
  reads : posix.reads x = winsock.reads y
  plain : posix.word (posix.reads x) = x ∧ winsock.word (winsock.reads y) = y

theorem sameBits_word (r : Readiness) : SameBits (posix.word r) (winsock.word r) := by
  constructor <;> simp only [reads_word posix_apart, reads_word winsock_apart, and_self]

end PollBits

namespace Event

def ofReadiness (token : Nat) (r : Readiness) : Event where
  token
  readable := r .input || r.isGone
  writable := r .output
  urgent := r .urgent
  hangup := r.isGone

theorem ofBits_word {bits : PollBits} (h : bits.Apart) (token : Nat) (r : Readiness) :
    ofBits bits token (bits.word r) = ofReadiness token r := by
  have hbit (f : Flag) : (bits.word r &&& bits.bit f != 0) = r f :=
    congrFun (PollBits.reads_word h r) f
  have hgone : (bits.word r &&& (bits.hangup ||| bits.error ||| bits.invalid) != 0) = r.isGone := by
    have hh := PollBits.word_and_bit (r := r) h .hangup
    have he := PollBits.word_and_bit (r := r) h .error
    have hi := PollBits.word_and_bit (r := r) h .invalid
    simp only [PollBits.bit] at hh he hi
    rw [Bool.eq_iff_iff, bne_iff_ne, ne_eq, and_or_eq_zero, and_or_eq_zero, hh, he, hi,
      Readiness.isGone]
    cases r .hangup <;> cases r .error <;> cases r .invalid <;> decide
  have hinput := hbit .input
  have houtput := hbit .output
  have hurgent := hbit .urgent
  simp only [PollBits.bit] at hinput houtput hurgent
  simp only [ofBits, ofReadiness, hgone, hinput, houtput, hurgent]

/-- The events of the descriptors of which anything is so. -/
def heard (tokens : List Nat) (told : List Readiness) : List Event :=
  (told.zip tokens).filterMap fun (r, token) ↦
    if r.isSilent then Option.none else some (ofReadiness token r)

end Event

structure Registration where
  fd : Fd
  token : Nat
  interest : Interest

inductive Watching where
  | clear
  | register (x : Registration)

/-- The registrations since the list was cleared last, but those for nothing. -/
def kept (xs : List Registration) : Watching → List Registration
  | .clear => []
  | .register x => if x.interest.isEmpty then xs else xs ++ [x]

def registered (ops : List Watching) : List Registration := ops.foldl kept []

namespace WatchList

variable (bits : PollBits) (receiver : Fd)

def perform (ws : WatchList) : Watching → WatchList
  | .clear => start bits receiver
  | .register x => ws.register bits x.fd x.token x.interest

def of (xs : List Registration) : WatchList :=
  entry bits receiver wakeToken .readOnly ::
    xs.map fun x ↦ entry bits x.fd x.token x.interest

theorem perform_of (xs : List Registration) (op : Watching) :
    (of bits receiver xs).perform bits receiver op = of bits receiver (kept xs op) := by
  cases op with
  | clear => rfl
  | register x =>
    simp only [perform, register, kept]
    split_ifs
    · rfl
    · simp [of]

theorem foldl_perform (ops : List Watching) :
    ops.foldl (perform bits receiver) (start bits receiver) =
      of bits receiver (registered ops) := by
  show ops.foldl (perform bits receiver) (of bits receiver []) = _
  exact List.foldl_hom (of bits receiver) (perform_of bits receiver)

end WatchList

namespace PollSet

variable (bits : PollBits) (receiver : Fd)

def perform (p : PollSet) : Watching → PollSet
  | .clear => start bits receiver
  | .register x => p.register bits x.fd x.token x.interest

def ofList (ws : WatchList) : PollSet := ⟨ws.map fun e ↦ ⟨e.fd, e.events⟩, ws.map (·.token)⟩

def of (xs : List Registration) : PollSet := ofList (.of bits receiver xs)

theorem perform_of (xs : List Registration) (op : Watching) :
    (of bits receiver xs).perform bits receiver op = of bits receiver (kept xs op) := by
  cases op with
  | clear => rfl
  | register x =>
    simp only [perform, register, kept]
    split_ifs
    · rfl
    · simp [of, ofList, push, WatchList.of, WatchList.entry]

theorem foldl_perform (ops : List Watching) :
    ops.foldl (perform bits receiver) (start bits receiver) =
      of bits receiver (registered ops) := by
  show ops.foldl (perform bits receiver) (of bits receiver []) = _
  exact List.foldl_hom (of bits receiver) (perform_of bits receiver)

variable {bits}

theorem collect_ofList (ws : WatchList) (reported : List UInt16) :
    (ofList ws).collect bits reported = Event.ofReport bits ws reported := by
  induction ws generalizing reported with
  | nil => rfl
  | cons e ws ih =>
    cases reported with
    | nil => rfl
    | cons word reported =>
      have ih := ih reported
      simp only [collect, ofList, Event.ofReport, List.map_cons, List.zip_cons_cons,
        List.filterMap_cons, List.filter_cons, bne_iff_ne, ne_eq, ite_not] at ih ⊢
      split_ifs
      · exact ih
      · rw [ih, List.map_cons]

theorem collect_word (h : bits.Apart) {p : PollSet} (hp : p.fds.length = p.tokens.length)
    (told : List Readiness) :
    p.collect bits (told.map bits.word) = Event.heard p.tokens told := by
  obtain ⟨fds, tokens⟩ := p
  dsimp only at hp
  induction told generalizing fds tokens with
  | nil => simp [collect, Event.heard]
  | cons r told ih =>
    rcases fds with _ | ⟨x, fds⟩ <;> rcases tokens with _ | ⟨token, tokens⟩
    · rfl
    · simp at hp
    · simp at hp
    · have ih := ih fds tokens (by simpa using hp)
      simp only [collect, Event.heard, List.map_cons, List.zip_cons_cons, List.filterMap_cons,
        PollBits.word_eq_zero h, Event.ofBits_word h] at ih ⊢
      split_ifs
      · exact ih
      · rw [ih]

theorem settle_ok (p : PollSet) (n : Nat) (reported : List UInt16) (before : List Event) :
    p.settle bits (.ok (n, reported)) before = (.ok n, p.collect bits reported) := rfl

theorem perform_eq_self_iff (p : PollSet) (x : Registration) :
    p.perform bits receiver (.register x) = p ↔ x.interest.isEmpty := by
  simp only [perform, register]
  split_ifs with h
  · simp [h]
  · simp only [h, Bool.false_eq_true, iff_false]
    intro hp
    have hlength := congrArg (·.fds.length) hp
    simp [push] at hlength

/-- Two sets of arrays that ask two systems for the same and make the same of their answers. -/
structure Alike (p q : PollSet) : Prop where
  tokens : p.tokens = q.tokens
  aligned : p.fds.length = p.tokens.length ∧ q.fds.length = q.tokens.length
  requests : List.Forall₂ PollBits.SameBits (p.fds.map (·.events)) (q.fds.map (·.events))
  watched : p.fds.tail.map (·.fd) = q.fds.tail.map (·.fd)
  skips (x : Registration) (receiver receiver' : Fd) :
    (p.perform .posix receiver (.register x) = p ↔ x.interest.isEmpty) ∧
      (q.perform .winsock receiver' (.register x) = q ↔ x.interest.isEmpty)
  told (n : Nat) (told : List Readiness) (before before' : List Event) :
    p.settle .posix (.ok (n, told.map PollBits.posix.word)) before =
        (.ok n, Event.heard p.tokens told) ∧
      q.settle .winsock (.ok (n, told.map PollBits.winsock.word)) before' =
        (.ok n, Event.heard p.tokens told)
  failed (e e' : IoError) (before before' : List Event) :
    p.settle .posix (.error e) before = (.error e, []) ∧
      q.settle .winsock (.error e') before' = (.error e', [])

theorem length_of (bits : PollBits) (receiver : Fd) (xs : List Registration) :
    (of bits receiver xs).fds.length = (of bits receiver xs).tokens.length := by
  simp [of, ofList]

theorem tokens_of (bits : PollBits) (receiver : Fd) (xs : List Registration) :
    (of bits receiver xs).tokens = wakeToken :: xs.map (·.token) := by
  simp [of, ofList, WatchList.of, WatchList.entry, Function.comp_def]

theorem of_alike (receiver receiver' : Fd) (xs : List Registration) :
    Alike (of .posix receiver xs) (of .winsock receiver' xs) where
  tokens := by rw [tokens_of, tokens_of]
  aligned := ⟨length_of _ _ xs, length_of _ _ xs⟩
  requests := by
    have hsame (i : Interest) : PollBits.SameBits (PollBits.posix.request i)
        (PollBits.winsock.request i) := by
      rw [PollBits.request_eq_word, PollBits.request_eq_word]
      exact PollBits.sameBits_word i.asks
    simp only [of, ofList, WatchList.of, WatchList.entry, List.map_cons, List.map_map,
      List.forall₂_cons, List.forall₂_map_left_iff, List.forall₂_map_right_iff]
    exact ⟨hsame _, List.forall₂_same.2 fun x _ ↦ hsame x.interest⟩
  watched := by simp [of, ofList, WatchList.of, WatchList.entry]
  skips x receiver receiver' := ⟨perform_eq_self_iff .., perform_eq_self_iff ..⟩
  told n told before before' := by
    rw [settle_ok, settle_ok, collect_word PollBits.posix_apart (length_of ..),
      collect_word PollBits.winsock_apart (length_of ..), tokens_of, tokens_of]
    exact ⟨rfl, rfl⟩
  failed e e' before before' := ⟨rfl, rfl⟩

end PollSet

namespace Reactor

variable {κ π ν : Type}

def connWatchings : List (Conn × Watched) → (place : Nat) → List Watching
  | [], _ => []
  | (c, w) :: rest, place =>
    c.fd?.toList.map (fun fd ↦ .register ⟨fd, place, w.interest⟩) ++ connWatchings rest (place + 1)

def watchings (r : Reactor κ π ν) : List Watching :=
  r.listener.toList.map (fun fd ↦ .register ⟨fd, listenerToken, .readOnly⟩) ++
    connWatchings r.watchedOf 0

theorem watchConns_foldl (receiver : Fd) (ws : WatchList) (l : List (Conn × Watched))
    (place : Nat) : watchConns ws l place =
      (connWatchings l place).foldl (WatchList.perform .posix receiver) ws := by
  induction l generalizing ws place with
  | nil => rfl
  | cons x l ih =>
    rcases x with ⟨c, w⟩
    rw [watchConns, connWatchings, List.foldl_append, ← ih]
    cases c.fd? <;> rfl

theorem prepare_foldl (r : Reactor κ π ν) : r.prepare.list =
    r.watchings.foldl (WatchList.perform .posix r.waker.receiver)
      (.start .posix r.waker.receiver) := by
  rw [watchings, List.foldl_append, ← watchConns_foldl]
  show watchConns _ _ _ = _
  cases r.listener <;> rfl

variable [Kernel κ] {P : Policy π ν}

theorem resume_settled (w : Wait) (report : Except Errno (List UInt16)) (n : Nat)
    (before : List Event) : (resume P w report : ReactorM κ π ν Progress) =
      match (PollSet.ofList w.list).settle .posix ((report.mapError .os).map (n, ·)) before with
      | (.error e, _) =>
        if e.kind = .interrupted then return .waiting w
        else return .ended (.error (.failure (.poll e)))
      | (.ok _, events) => (do
        match ← (turn P w events).run with
        | .error p => return .ended (.error (.panic p))
        | .ok () => proceed P) := by
  cases report with
  | error e => rfl
  | ok reported =>
    dsimp only [Except.mapError, Except.map]
    rw [PollSet.settle_ok, PollSet.collect_ofList]
    rfl

end Reactor

namespace WinSock.Multiplexer

variable {ω : Type} [WinSock ω]

def perform (m : Multiplexer) : Watching → Multiplexer
  | .clear => m.clear
  | .register x => m.register x.fd x.token x.interest

theorem foldl_perform (m : Multiplexer) (ops : List Watching) :
    ops.foldl perform m.clear = ⟨.of .winsock m.waker.receiver (registered ops), m.waker⟩ := by
  let after (xs : List Registration) : Multiplexer := ⟨.of .winsock m.waker.receiver xs, m.waker⟩
  have hstep (xs : List Registration) (op : Watching) :
      (after xs).perform op = after (kept xs op) := by
    have h := PollSet.perform_of .winsock m.waker.receiver xs op
    cases op with
    | clear => rfl
    | register x => exact congrArg (fun polled ↦ (⟨polled, m.waker⟩ : Multiplexer)) h
  show ops.foldl perform (after []) = _
  exact List.foldl_hom after hstep

/-- Whatever is registered, and whatever comes to be so of it, the multiplexer over Windows sockets
asks for the same as the list of a reactor does and tells the same events. -/
theorem events_agree (m : Multiplexer) (receiver : Fd) (ops : List Watching) :
    let ws := ops.foldl (WatchList.perform .posix receiver) (.start .posix receiver)
    let p := ops.foldl (PollSet.perform .posix receiver) (.start .posix receiver)
    let q := ops.foldl perform m.clear
    p.Alike q.polled ∧ p = .ofList ws ∧
    (∀ n reported before, p.settle .posix (.ok (n, reported)) before =
      (.ok n, Event.ofReport .posix ws reported)) ∧
    ∀ (w : Win ω) (timeout : Nat) (before : List Event),
      match w.call (.poll q.polled.fds (min timeout longestTimeout)) with
      | (none, w') => q.wait timeout before w = ((.error (.os w'.lastError), []), w')
      | (some (n, reported), w') => ∀ told : List Readiness,
        reported = told.map PollBits.winsock.word →
        q.wait timeout before w = ((.ok n, Event.heard p.tokens told), w') := by
  intro ws p q
  have hws : ws = .of .posix receiver (registered ops) := WatchList.foldl_perform ..
  have hp : p = .of .posix receiver (registered ops) := PollSet.foldl_perform ..
  have hq : q.polled = .of .winsock m.waker.receiver (registered ops) :=
    congrArg Multiplexer.polled (foldl_perform m ops)
  have halike : p.Alike q.polled := by
    rw [hp, hq]
    exact PollSet.of_alike ..
  have hlist : p = .ofList ws := by rw [hp, hws, PollSet.of]
  refine ⟨halike, hlist, ?_, ?_⟩
  · intro n reported before
    rw [PollSet.settle_ok, hlist, PollSet.collect_ofList]
  · intro w timeout before
    unfold wait demand
    rcases w.call (.poll q.polled.fds (min timeout longestTimeout)) with ⟨_ | ⟨n, reported⟩, w'⟩
    · rfl
    · rintro told rfl
      exact congrArg (·, w') (halike.told n told before before).2

/-- Three sockets were made besides those of the waker. What is urgent at the first comes with its
hang-up. -/
def crowd : Simulation.WinWorld where
  sockets := List.replicate 5 {}
  replies := [("WSAPoll", .reported [(5002, 0x202), (5004, 0x10)])]

def crowded : List Watching :=
  [.register ⟨5003, 8, ⟨true, true, true⟩⟩, .clear, .register ⟨5002, 0, ⟨true, false, true⟩⟩,
    .register ⟨5003, 1, ⟨false, false, false⟩⟩, .register ⟨5004, 2, ⟨false, true, false⟩⟩]

def crowdTold : List Readiness :=
  [fun _ ↦ false, fun f ↦ f = .urgent ∨ f = .hangup, fun f ↦ f = .output]

/-- Of four registrations two count, and both multiplexers tell of these, whatever was told
before. -/
theorem events_agree_crowded :
    let m : Multiplexer := ⟨{}, ⟨5000, 5001, false⟩⟩
    let p := crowded.foldl (PollSet.perform .posix 7) (.start .posix 7)
    let q := crowded.foldl perform m.clear
    p.tokens = [wakeToken, 0, 2] ∧
    q.polled.fds = [⟨5000, 0x100⟩, ⟨5002, 0x300⟩, ⟨5004, 0x10⟩] ∧
    (q.wait 1000 [⟨8, true, false, false, false⟩] (⟨crowd, []⟩ : Win Simulation.WinWorld)).1 =
      (.ok 2, [⟨0, true, false, true, true⟩, ⟨2, false, true, false, false⟩]) ∧
    p.settle .posix (.ok (2, [0, 0x12, 0x4])) [] =
      (.ok 2, [⟨0, true, false, true, true⟩, ⟨2, false, true, false, false⟩]) := by
  intro m p q
  obtain ⟨halike, -, -, hwait⟩ := events_agree m 7 crowded (ω := Simulation.WinWorld)
  have hcall : (⟨crowd, []⟩ : Win Simulation.WinWorld).call (.poll q.polled.fds 1000) =
      (some (2, [0, 0x202, 0x10]), ((⟨crowd, []⟩ : Win _).call (.poll q.polled.fds 1000)).2) := by
    rfl
  have hwait := hwait ⟨crowd, []⟩ 1000 [⟨8, true, false, false, false⟩]
  have htold := (halike.told 2 crowdTold [] []).1
  refine ⟨rfl, rfl, ?_, htold⟩
  have hmin : min 1000 longestTimeout = 1000 := rfl
  rw [hmin, hcall] at hwait
  exact congrArg Prod.fst (hwait crowdTold rfl)

end WinSock.Multiplexer

end PollReactor
