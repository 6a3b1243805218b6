import PollReactor.Connection
import PollReactor.Word

namespace PollReactor

structure Interest where
  read : Bool
  write : Bool
  urgent : Bool
  deriving DecidableEq, Repr

namespace Interest

def readOnly : Interest := ⟨true, false, false⟩

def isEmpty (i : Interest) : Bool := !(i.read || i.write || i.urgent)

end Interest

theorem or_and_eq_zero {a b w : UInt16} : (a ||| b) &&& w = 0 ↔ a &&& w = 0 ∧ b &&& w = 0 := by
  rw [← UInt16.or_eq_zero_iff, ← UInt16.toBitVec_inj, ← UInt16.toBitVec_inj]
  simp only [UInt16.toBitVec_and, UInt16.toBitVec_or, BitVec.and_or_distrib_right]

theorem and_or_eq_zero {a b w : UInt16} : w &&& (a ||| b) = 0 ↔ w &&& a = 0 ∧ w &&& b = 0 := by
  rw [UInt16.and_comm, or_and_eq_zero, UInt16.and_comm a, UInt16.and_comm b]

structure PollBits where
  read : UInt16
  write : UInt16
  urgent : UInt16
  error : UInt16
  hangup : UInt16
  invalid : UInt16
  deriving DecidableEq, Repr

namespace PollBits

def posix : PollBits where
  read := 0x1
  write := 0x4
  urgent := 0x2
  error := 0x8
  hangup := 0x10
  invalid := 0x20

def winsock : PollBits where
  read := 0x100
  write := 0x10
  urgent := 0x200
  error := 0x1
  hangup := 0x2
  invalid := 0x4

def request (bits : PollBits) (i : Interest) : UInt16 :=
  (if i.read then bits.read else 0) ||| (if i.write then bits.write else 0) |||
    (if i.urgent then bits.urgent else 0)

end PollBits

structure PollEntry where
  fd : Fd
  token : Nat
  events : UInt16
  deriving DecidableEq, Repr

def wakeToken : Nat := Word.size - 1

def listenerToken : Nat := Word.size - 2

abbrev WatchList := List PollEntry

namespace WatchList

def entry (bits : PollBits) (fd : Fd) (token : Nat) (i : Interest) : PollEntry :=
  ⟨fd, token, bits.request i⟩

def start (bits : PollBits) (receiver : Fd) : WatchList :=
  [entry bits receiver wakeToken .readOnly]

/-- Adds a descriptor. One that is watched for nothing is left out, since a system reports hang-ups
unasked. -/
def register (bits : PollBits) (ws : WatchList) (fd : Fd) (token : Nat) (i : Interest) :
    WatchList :=
  if i.isEmpty then ws else ws ++ [entry bits fd token i]

end WatchList

structure Event where
  token : Nat
  /-- There is input, or a failure or hang-up that the next read will tell. -/
  readable : Bool
  writable : Bool
  urgent : Bool
  hangup : Bool
  deriving DecidableEq, Repr

namespace Event

def none : Event := ⟨0, false, false, false, false⟩

def isReady (e : Event) : Bool := e.readable || e.writable || e.urgent || e.hangup

def ofBits (bits : PollBits) (token : Nat) (reported : UInt16) : Event :=
  let hangup := reported &&& (bits.hangup ||| bits.error ||| bits.invalid) != 0
  { token
    readable := reported &&& bits.read != 0 || hangup
    writable := reported &&& bits.write != 0
    urgent := reported &&& bits.urgent != 0
    hangup }

/-- The events of a watch list, of which the system reported one word for each entry. -/
def ofReport (bits : PollBits) (ws : WatchList) (reported : List UInt16) : List Event :=
  ((ws.zip reported).filter (·.2 != 0)).map fun (w, r) ↦ ofBits bits w.token r

end Event

namespace Conn

def interest (c : Conn) : Interest where
  read := !c.isReadHigh
  write := decide (0 < c.output.len)
  urgent := c.urgent.isNone && !c.hungUp

end Conn

end PollReactor
