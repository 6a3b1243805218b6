import PollReactor.Connection

namespace PollReactor

namespace Conn

def detached (ch : Channel) : Conn :=
  { ch with id := 0, peer := .unspecified, socket := none }

end Conn

namespace Channel

inductive Drafted : Channel → Prop where
  | made {c : ConnConfig} {now : Nat} {ch : Channel} : make c now = .ok ch → Drafted ch
  | called {ch : Channel} (op : ConnOp) :
      Drafted ch → Drafted ((Conn.detached ch).perform op).2.1.toChannel

end Channel

structure Draft where
  channel : Channel
  drafted : channel.Drafted

namespace Draft

def make (c : ConnConfig) (now : Nat) : Except Failure Draft :=
  match h : Channel.make c now with
  | .error f => .error f
  | .ok ch => .ok ⟨ch, .made h⟩

variable (d : Draft)

def perform (op : ConnOp) : op.Answer × Draft :=
  (((Conn.detached d.channel).perform op).1, ⟨_, .called op d.drafted⟩)

def status : Status := (Conn.detached d.channel).status

end Draft

end PollReactor
