import PollReactor.WinSock.Sockets

namespace PollReactor.Simulation

inductive WinReply where
  | pass
  | fail (e : Errno)
  | peer (name : Bytes)
  | data (bs : Bytes)
  | sent (n : Nat)
  | reported (bits : List (Fd × UInt16))
  deriving DecidableEq, Repr

structure WinSocket where
  name : Bytes := []
  target : Option UInt16 := none
  queue : List Bytes := []
  isOpen : Bool := true
  deriving DecidableEq, Repr

structure WinWorld where
  sockets : List WinSocket := []
  /-- The replies that are left, each with the name of the call that takes it. -/
  replies : List (String × WinReply) := []
  nextPort : Nat := 50000
  lastError : Errno := ⟨0⟩

def takeReply (call : String) :
    List (String × WinReply) → Option WinReply × List (String × WinReply)
  | [] => (none, [])
  | (c, r) :: rest =>
    if c = call then (some r, rest)
    else
      let (found, rest) := takeReply call rest
      (found, (c, r) :: rest)

theorem length_takeReply (call : String) (rs : List (String × WinReply)) :
    (takeReply call rs).2.length + (if (takeReply call rs).1.isSome then 1 else 0) = rs.length := by
  induction rs with
  | nil => rfl
  | cons r rs ih =>
    unfold takeReply
    split
    · simp
    · simp only [List.length_cons]
      omega

def WinSocket.isBoundTo (port : UInt16) (k : WinSocket) : Bool :=
  k.isOpen && k.name ≠ [] && Net.SockNameFormat.portOf k.name = port

/-- Puts a datagram into the queue of the first open socket that is bound to `port`. -/
def enqueue (port : UInt16) (bs : Bytes) : List WinSocket → List WinSocket
  | [] => []
  | k :: ks =>
    if k.isBoundTo port then { k with queue := k.queue ++ [bs] } :: ks
    else k :: enqueue port bs ks

namespace WinWorld

def firstFd : Int := 5000

variable (w : WinWorld)

def socket? (s : Fd) : Option WinSocket :=
  if s < firstFd then none else (w.sockets[(s - firstFd).toNat]?).filter (·.isOpen)

def setSocket (s : Fd) (k : WinSocket) : WinWorld :=
  { w with sockets := w.sockets.set (s - firstFd).toNat k }

def create (k : WinSocket) : Fd × WinWorld :=
  (firstFd + w.sockets.length, { w with sockets := w.sockets ++ [k] })

def onSocket {α : Type} (s : Fd) (act : WinSocket → Except Errno α × WinWorld) :
    Except Errno α × WinWorld :=
  match w.socket? s with
  | none => (.error WinSock.notSocket, w)
  | some k => act k

def assignPort (name : Bytes) : Bytes × WinWorld :=
  if Net.SockNameFormat.portOf name = 0 then
    (Net.SockNameFormat.withPort name w.nextPort, { w with nextPort := w.nextPort + 1 })
  else (name, w)

def bind (s : Fd) (name : Bytes) : Except Errno Unit × WinWorld :=
  w.onSocket s fun k ↦
    let (name, w) := w.assignPort name
    (.ok (), w.setSocket s { k with name })

def deliver (port : UInt16) (bs : Bytes) : WinWorld :=
  { w with sockets := enqueue port bs w.sockets }

def send (s : Fd) (bs : Bytes) : Except Errno Nat × WinWorld :=
  w.onSocket s fun k ↦
    (.ok bs.length, k.target.elim w (w.deliver · bs))

/-- The first datagram; the rest of it is lost if there is no room. -/
def recv (s : Fd) (room : Nat) : Except Errno { bs : Bytes // bs.length ≤ room } × WinWorld :=
  w.onSocket s fun k ↦
    match k.queue with
    | [] => (.error WinSock.wouldBlock, w)
    | bs :: rest =>
      (.ok ⟨bs.take room, List.length_take_le ..⟩, w.setSocket s { k with queue := rest })

def acceptPeer (name : Bytes) : Except Errno (Fd × Bytes) × WinWorld :=
  let (client, w) := w.create {}
  (.ok (client, name), w)

def close (s : Fd) : Except Errno Unit × WinWorld :=
  w.onSocket s fun k ↦ (.ok (), w.setSocket s { k with isOpen := false })

def reportOf (forced : List (Fd × UInt16)) (e : PollFd) : UInt16 :=
  let bits := match w.socket? e.fd with
    | none => PollBits.winsock.invalid
    | some k => if k.queue.isEmpty then 0 else e.events &&& PollBits.winsock.read
  (forced.filter (·.1 = e.fd)).foldl (fun bits f ↦ bits ||| f.2) bits

def poll (fds : List PollFd) (forced : List (Fd × UInt16)) :
    Except Errno (Nat × List UInt16) × WinWorld :=
  let words := fds.map (w.reportOf forced)
  (.ok ((words.filter (· ≠ 0)).length, words), w)

/-- Answers a call by the first reply for it: a failure, or what `use` makes of the reply, or else
by `act`. -/
def replied {α : Type} (call : WinCall)
    (use : WinReply → Option (WinWorld → Except Errno α × WinWorld))
    (act : WinWorld → Except Errno α × WinWorld) : Except Errno α × WinWorld :=
  match takeReply call.name w.replies with
  | (none, replies) => act { w with replies }
  | (some (.fail e), replies) => (.error e, { w with replies })
  | (some r, replies) => (use r).getD act { w with replies }

def struck {α : Type} (call : WinCall) (act : WinWorld → Except Errno α × WinWorld) :
    Except Errno α × WinWorld :=
  w.replied call (fun _ ↦ none) act

def acceptReply : WinReply → Option (WinWorld → Except Errno (Fd × Bytes) × WinWorld)
  | .peer name => some (·.acceptPeer name)
  | _ => none

def recvReply (room : Nat) :
    WinReply → Option (WinWorld → Except Errno { bs : Bytes // bs.length ≤ room } × WinWorld)
  | .data bs => some fun w ↦ (.ok ⟨bs.take room, List.length_take_le ..⟩, w)
  | _ => none

def sendReply : WinReply → Option (WinWorld → Except Errno Nat × WinWorld)
  | .sent n => some fun w ↦ (.ok n, w)
  | _ => none

def pollReply (fds : List PollFd) :
    WinReply → Option (WinWorld → Except Errno (Nat × List UInt16) × WinWorld)
  | .reported bits => some (·.poll fds bits)
  | _ => none

def answer : (call : WinCall) → WinWorld → Except Errno call.Result × WinWorld
  | .socket family, w => w.struck (.socket family) fun w ↦
    let (s, w) := w.create {}
    (.ok s, w)
  | .datagramSocket, w => w.struck .datagramSocket fun w ↦
    let (s, w) := w.create {}
    (.ok s, w)
  | .setNonblocking s, w => w.struck (.setNonblocking s) fun w ↦ w.onSocket s fun _ ↦ (.ok (), w)
  | .bind s name, w => w.struck (.bind s name) (·.bind s name)
  | .connect s name, w => w.struck (.connect s name) fun w ↦ w.onSocket s fun k ↦
    (.ok (), w.setSocket s { k with target := some (Net.SockNameFormat.portOf name) })
  | .listen s backlog, w => w.struck (.listen s backlog) fun w ↦ w.onSocket s fun _ ↦ (.ok (), w)
  | .setOption s level option value, w =>
    w.struck (.setOption s level option value) fun w ↦ w.onSocket s fun _ ↦ (.ok (), w)
  | .localName s room, w => w.struck (.localName s room) fun w ↦ w.onSocket s fun k ↦
    (.ok (k.name.take room), w)
  | .accept s room, w => w.replied (.accept s room) acceptReply fun w ↦
    (.error WinSock.wouldBlock, w)
  | .shutdown s how, w => w.struck (.shutdown s how) fun w ↦ w.onSocket s fun _ ↦ (.ok (), w)
  | .closeSocket s, w =>
    match w.struck (.closeSocket s) (·.close s) with
    | (.ok (), w) => (.ok (), w)
    | (.error e, w) => (.error e, (w.close s).2)
  | .recv s room urgent, w => w.replied (.recv s room urgent) (recvReply room) (·.recv s room)
  | .send s bs, w => w.replied (.send s bs) sendReply (·.send s bs)
  | .poll fds timeout, w => w.replied (.poll fds timeout) (pollReply fds) (·.poll fds [])

def confess {α : Type} : Except Errno α × WinWorld → Option α × WinWorld
  | (.ok a, w) => (some a, w)
  | (.error e, w) => (none, { w with lastError := e })

def queued : List WinSocket → Nat
  | [] => 0
  | k :: ks => k.queue.length + queued ks

def patience (w : WinWorld) : Nat := w.replies.length + queued w.sockets

theorem queued_set_lt {ks : List WinSocket} {i : Nat} {k : WinSocket} (h : ks[i]? = some k)
    (new : WinSocket) (hk : new.queue.length < k.queue.length) :
    queued (ks.set i new) < queued ks := by
  induction ks generalizing i with
  | nil => simp at h
  | cons a ks ih =>
    cases i with
    | zero =>
      simp only [List.getElem?_cons_zero, Option.some.injEq] at h
      simp only [queued, List.set_cons_zero, h]
      omega
    | succ i =>
      have := ih h
      simp only [queued, List.set_cons_succ] at this ⊢
      omega

theorem recv_patience {w w' : WinWorld} {s : Fd} {room : Nat}
    {bs : { bs : Bytes // bs.length ≤ room }} (h : w.recv s room = (.ok bs, w')) :
    w'.patience < w.patience := by
  unfold recv onSocket at h
  split at h
  · simp at h
  next k hk =>
    dsimp only at h
    split at h
    · simp at h
    next d rest hq =>
      simp only [Prod.mk.injEq] at h
      rw [← h.2]
      have hs : w.sockets[(s - firstFd).toNat]? = some k := by
        unfold socket? at hk
        split at hk
        · simp at hk
        · exact (Option.filter_eq_some_iff.1 hk).1
      have := queued_set_lt hs { k with queue := rest } (by simp [hq])
      show w.replies.length + queued (w.sockets.set _ _) < w.replies.length + queued w.sockets
      omega

theorem answer_of_confess {α : Type} {out : Except Errno α × WinWorld} {a : α} {w : WinWorld}
    (h : confess out = (some a, w)) : out = (.ok a, w) := by
  rcases out with ⟨e | b, w'⟩
  · simp [confess] at h
  · simpa [confess] using h

instance : WinSock WinWorld where
  answer call w := confess (answer call w)
  lastError := lastError
  patience := patience
  recv_found {s room urgent w w' bs} h _ := by
    have hl := length_takeReply (WinCall.recv s room urgent).name w.replies
    replace h := answer_of_confess h
    simp only [answer, replied] at h
    split at h
    next replies hr =>
      have := recv_patience h
      rw [hr] at hl
      simp only [patience, Option.isSome_none, Bool.false_eq_true, if_false] at this hl ⊢
      omega
    · simp at h
    next r replies _ hr =>
      rw [hr] at hl
      simp only [Option.isSome_some, if_true] at hl
      cases hu : recvReply room r with
      | none =>
        rw [hu] at h
        have := recv_patience h
        simp only [patience] at this ⊢
        omega
      | some f =>
        rw [hu] at h
        cases r with
        | data d =>
          simp only [recvReply, Option.some.injEq] at hu
          subst hu
          simp only [Option.getD_some, Prod.mk.injEq] at h
          rw [← h.2]
          simp only [patience]
          omega
        | _ => simp [recvReply] at hu

def openSockets (w : WinWorld) : List Fd :=
  ((List.range w.sockets.length).map fun (n : Nat) ↦ firstFd + n).filter fun s ↦
    (w.socket? s).isSome

end WinWorld

end PollReactor.Simulation
