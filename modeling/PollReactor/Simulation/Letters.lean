import PollReactor.Readiness

namespace PollReactor.Simulation

structure Letters where
  bits : PollBits
  strange : UInt16

namespace Letters

def posix : Letters := ⟨.posix, 0x40⟩

def winsock : Letters := ⟨.winsock, 0x400⟩

variable (l : Letters)

def table : List (Char × UInt16) :=
  [('r', l.bits.read), ('w', l.bits.write), ('u', l.bits.urgent), ('e', l.bits.error),
    ('h', l.bits.hangup), ('n', l.bits.invalid), ('x', l.strange)]

def spell (word : UInt16) : String :=
  String.ofList ((l.table.filter fun (_, bit) ↦ word &&& bit != 0).map (·.1))

def read (s : String) : UInt16 :=
  s.toList.foldl (fun word c ↦ word ||| (l.table.lookup c).getD 0) 0

end Letters

def interestOf (s : String) : Interest :=
  ⟨s.toList.contains 'r', s.toList.contains 'w', s.toList.contains 'u'⟩

end PollReactor.Simulation
