import PollReactor.Connection.Config
import PollReactor.Ring
import PollReactor.Text.Utf8

namespace PollReactor

/-- What the application works on: input received and not yet consumed, output queued and not yet
sent, and an urgent byte. -/
structure Channel where
  readMarks : Watermarks
  writeMarks : Watermarks
  idleLimit : Option Nat
  input : Ring
  output : Ring
  /-- Set when the output reaches its high mark, until a flush leaves less than its low mark. -/
  outputHigh : Bool
  urgent : Option UInt8
  closePending : Bool
  /-- A hang-up was reported while nothing was read. -/
  hungUp : Bool
  lastActivity : Nat

namespace Channel

def make (c : ConnConfig) (now : Nat) : Except Failure Channel :=
  match h : c.check with
  | .error e => .error e
  | .ok () => .ok {
      readMarks := c.read
      writeMarks := c.write
      idleLimit := c.idleLimit
      input := .ofCapacity c.capacity (ConnConfig.capacity_pos_of_check h)
      output := .ofCapacity c.capacity (ConnConfig.capacity_pos_of_check h)
      outputHigh := false
      urgent := none
      closePending := false
      hungUp := false
      lastActivity := now }

variable (ch : Channel)

def isReadLow : Bool := ch.input.len < ch.readMarks.low

def isReadHigh : Bool := ch.readMarks.high ≤ ch.input.len

def isWriteLow : Bool := ch.output.len < ch.writeMarks.low

/-- Whether `ch` stopped being read-high since it was `before`: reading goes on, so the reactor has
to look again. -/
def resumedSince (before : Channel) : Bool := before.isReadHigh && !ch.isReadHigh

/-- Takes up to `n` bytes; with `fully`, takes none unless there are `n`. -/
def read (n : Nat) (fully : Bool) : Bytes × Channel :=
  if fully && ch.input.len < n then ([], ch)
  else
    let (bs, input) := ch.input.read n
    (bs, { ch with input })

def lineFeed : UInt8 := 10

def carriageReturn : UInt8 := 13

/-- Takes a line: the bytes before a line feed among the first `most`, or the first `most` bytes if
there is none among them. The line feed is taken too. -/
def takeLine (most : Nat) : Option Bytes × Channel :=
  if most = 0 then (none, ch)
  else
    match ch.input.peekUntil lineFeed most with
    | some i =>
      let (line, input) := ch.input.read i
      (some line, { ch with input := input.consume 1 })
    | none =>
      if most ≤ ch.input.len then
        let (line, input) := ch.input.read most
        (some line, { ch with input })
      else (none, ch)

def dropCarriageReturn (line : Bytes) : Bytes :=
  if line.getLast? = some carriageReturn then line.dropLast else line

def readLine (most : Nat) : Option String × Channel :=
  let (line, ch) := ch.takeLine most
  (line.map fun bs ↦ Text.Utf8.decode (dropCarriageReturn bs), ch)

def readUInt (w : Nat) : Option Nat × Channel :=
  let (bs, ch) := ch.read w true
  (if bs.length = w then some (Bytes.ofBigEndian bs) else none, ch)

def takeUrgent : Option UInt8 × Channel :=
  (ch.urgent, { ch with urgent := none })

def append (parts : List Bytes) : Bool × Channel :=
  if ch.output.free < parts.flatten.length then (false, ch)
  else
    let output := parts.foldl (fun r bs ↦ (r.write bs).2) ch.output
    (true, { ch with
      output
      outputHigh := ch.outputHigh || decide (ch.writeMarks.high ≤ output.len) })

def lineEnd : Bytes := [carriageReturn, lineFeed]

def write (bs : Bytes) : Bool × Channel := ch.append [bs]

def writeLine (s : String) : Bool × Channel := ch.append [Text.Utf8.encode s, lineEnd]

def writeUInt (w n : Nat) : Bool × Channel := ch.write (Bytes.bigEndian w n)

/-- Whether more than the limit has passed since a byte moved. The channel's own limit goes before
`default`; a limit of zero is none. -/
def isIdle (now : Nat) (default : Option Nat) : Bool :=
  match ch.idleLimit.or default with
  | none => false
  | some limit => limit ≠ 0 && limit < now - ch.lastActivity

end Channel

end PollReactor
