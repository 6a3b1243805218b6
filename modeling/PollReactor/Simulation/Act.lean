import PollReactor.Policy

namespace PollReactor.Simulation

inductive Act where
  | call (op : ConnOp)
  /-- Takes lines until there is none; with `echo`, writes each one back. -/
  | readLines (most : Nat) (echo : Bool)
  | idle
  | debug
  | count
  | broadcast (bs : Bytes)
  | cancel
  | on (id : Nat) (act : Act)
  | giveUp
  deriving Repr

inductive ActResult where
  | bytes (bs : Bytes)
  | line (s : Option String)
  | lines (ls : List (String × Option Bool))
  | number (n : Option Nat)
  | flag (b : Bool)
  | batch (as : List BatchAnswer)
  | status (s : Status)
  | text (s : String)
  | done
  | panicked (p : Panic)
  | unknown

def opName : ConnOp → String
  | .read .. => "read"
  | .peek _ => "peek"
  | .readLine _ => "read_line"
  | .readUInt w => s!"read_u{8 * w.bytes}"
  | .readUrgent => "read_oob"
  | .write _ => "write"
  | .writeLine _ => "write_line"
  | .writeUInt w _ => s!"write_u{8 * w.bytes}"
  | .batch .. => "guard"
  | .close _ => "close"
  | .status => "state"

def Act.name : Act → String
  | call op => opName op
  | readLines .. => "read_lines"
  | idle => "idle"
  | debug => "debug"
  | count => "count"
  | broadcast _ => "write_all"
  | cancel => "cancel"
  | on .. => "on"
  | giveUp => "panic"

def policyPanic : Panic := .raised "policy panic"

def batchPanic : Panic := .raised "guard panic"

def ActResult.ofAnswer : (op : ConnOp) → op.Answer → ActResult
  | .read .., bs => .bytes bs
  | .peek _, bs => .bytes bs
  | .readLine _, s => .line s
  | .readUInt _, n => .number n
  | .readUrgent, b => .number (b.map UInt8.toNat)
  | .write _, b => .flag b
  | .writeLine _, b => .flag b
  | .writeUInt .., b => .flag b
  | .batch _ .abandon, _ => .panicked batchPanic
  | .batch .., as => .batch as
  | .close _, _ => .done
  | .status, s => .status s

namespace Act

variable {ν : Type}

def takeLines (id most : Nat) (echo : Bool) :
    (fuel : Nat) → (taken : List (String × Option Bool)) → Script ν (List (String × Option Bool))
  | 0, taken => return taken.reverse
  | fuel + 1, taken => do
    match ← Script.request (.conn id (.readLine most)) with
    | some (some line) =>
      let echoed ← if echo then Script.request (.conn id (.writeLine line)) else pure none
      takeLines id most echo fuel ((line, echoed) :: taken)
    | _ => return taken.reverse

def answered {α : Type} (result : α → ActResult) (answer : Option α) : ActResult :=
  answer.elim .unknown result

/-- The script of an act on connection `id`. Other connections can be named if they are `known`. -/
def script (known : List Nat) : (id : Nat) → Act → Script ν (Except Panic ActResult)
  | id, call op => do
    return .ok (answered (.ofAnswer op) (← Script.request (.conn id op)))
  | id, readLines most echo => do
    -- Every line that is taken makes the input shorter.
    match ← Script.request (.conn id .status) with
    | none => return .ok .unknown
    | some s => return .ok (.lines (← takeLines id most echo (s.available + 1) []))
  | id, idle => do
    return .ok (answered (fun n ↦ .number (some n)) (← Script.request (.idleTime id)))
  | id, debug => do
    return .ok (answered (fun s ↦ .text s.text) (← Script.request (.conn id .status)))
  | _, count => do return .ok (.number (some (← Script.request .count)))
  | _, broadcast bs => do return .ok (.number (some (← Script.request (.broadcast bs))))
  | _, cancel => do
    Script.request .cancel
    return .ok .done
  | _, on other act => if other ∈ known then act.script known other else return .ok .unknown
  | _, giveUp => return .error policyPanic

def scripts (known : List Nat) (id : Nat) : List Act → Script ν (Except Panic (List ActResult))
  | [] => return .ok []
  | act :: acts => do
    match ← act.script known id with
    | .error p => return .error p
    | .ok r => return (← scripts known id acts).map (r :: ·)

end Act

def draftId : Nat := 0

/-- Carries out on a draft what a script asks of it. All other requests are passed on. -/
def withDraft {ν α : Type} : Script ν α → Draft → Script ν (α × Draft)
  | .done a, d => .done (a, d)
  | .ask (.conn 0 op) next, d =>
    let (a, d) := d.perform op
    withDraft (next (some a)) d
  | .ask (.idleTime 0) next, d =>
    .ask .clock fun now ↦ withDraft (next (some (now - d.channel.lastActivity))) d
  | .ask q next, d => .ask q fun a ↦ withDraft (next a) d
  | .say v next, d => .say v (withDraft next d)

end PollReactor.Simulation
