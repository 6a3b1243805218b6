import PollReactor.Readiness
import PollReactor.Simulation.World

namespace PollReactor.Simulation.World

variable (w : World)

def bitIf (b : Bool) (bit : UInt16) : UInt16 := if b then bit else 0

def readiness : Object → UInt16
  | .pipeReader i => bitIf (w.pipes.getD i 0 ≠ 0) PollBits.posix.read
  | .pipeWriter _ => PollBits.posix.write
  | .socket _ listening => bitIf (listening && !w.pending.isEmpty) PollBits.posix.read
  | .stream i =>
    match w.peers[i]? with
    | none => 0
    | some p =>
      bitIf (!p.segments.isEmpty || p.fin || p.reset || p.shut) PollBits.posix.read |||
        bitIf (p.window ≠ some 0 || p.reset || p.shut) PollBits.posix.write |||
        bitIf p.urgent.isSome PollBits.posix.urgent |||
        bitIf p.reset PollBits.posix.error |||
        bitIf (p.reset || p.shut) PollBits.posix.hangup

def targetOf : Object → Option Target
  | .pipeReader _ => some .waker
  | .pipeWriter _ => none
  | .socket .. => some .listener
  | .stream i => some (.peer i)

def forcedBits (object : Object) : UInt16 :=
  (w.forced.filter fun f ↦ some f.1 = targetOf object).foldl (fun bits f ↦ bits ||| f.2) 0

def unasked : UInt16 :=
  PollBits.posix.error ||| PollBits.posix.hangup ||| PollBits.posix.invalid

/-- What is reported of one watched descriptor. A closed one is invalid and no more. -/
def reportOf (e : PollEntry) : UInt16 :=
  match w.object? e.fd with
  | none => PollBits.posix.invalid
  | some object => w.readiness object &&& (e.events ||| unasked) ||| w.forcedBits object

def poll (list : WatchList) (timeout : Nat) : List UInt16 × World :=
  let report := list.map w.reportOf
  let clock := if report.all (· = 0) then w.clock + timeout else w.clock
  (report, { w with clock, forced := [] })

end PollReactor.Simulation.World
