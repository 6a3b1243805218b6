namespace PollReactor

/-- What a failure means to a program, whatever its number on one system. -/
inductive ErrorKind where
  | interrupted
  | inputOutput
  | uncategorized
  | wouldBlock
  | outOfMemory
  | permissionDenied
  | invalidInput
  | invalidData
  | tooManyOpenFiles
  | brokenPipe
  | addrInUse
  | addrNotAvailable
  | connectionAborted
  | connectionReset
  | notConnected
  | timedOut
  | writeZero
  | other
  deriving DecidableEq, Repr

def ErrorKind.name : ErrorKind → String
  | interrupted => "Interrupted"
  | inputOutput => "InputOutputError"
  | uncategorized => "Uncategorized"
  | wouldBlock => "WouldBlock"
  | outOfMemory => "OutOfMemory"
  | permissionDenied => "PermissionDenied"
  | invalidInput => "InvalidInput"
  | invalidData => "InvalidData"
  | tooManyOpenFiles => "TooManyOpenFiles"
  | brokenPipe => "BrokenPipe"
  | addrInUse => "AddrInUse"
  | addrNotAvailable => "AddrNotAvailable"
  | connectionAborted => "ConnectionAborted"
  | connectionReset => "ConnectionReset"
  | notConnected => "NotConnected"
  | timedOut => "TimedOut"
  | writeZero => "WriteZero"
  | other => "Other"

structure Errno where
  code : Nat
  deriving DecidableEq, Repr

namespace Errno

def eintr : Errno := ⟨4⟩
def eio : Errno := ⟨5⟩
def ebadf : Errno := ⟨9⟩
def eagain : Errno := ⟨11⟩
def enomem : Errno := ⟨12⟩
def eacces : Errno := ⟨13⟩
def einval : Errno := ⟨22⟩
def enfile : Errno := ⟨23⟩
def emfile : Errno := ⟨24⟩
def epipe : Errno := ⟨32⟩
def eaddrinuse : Errno := ⟨98⟩
def eaddrnotavail : Errno := ⟨99⟩
def econnaborted : Errno := ⟨103⟩
def econnreset : Errno := ⟨104⟩
def enotconn : Errno := ⟨107⟩
def etimedout : Errno := ⟨110⟩

def table : List (Errno × String × ErrorKind × String) :=
  [(eintr, "EINTR", .interrupted, "Interrupted system call"),
    (eio, "EIO", .inputOutput, "Input/output error"),
    (ebadf, "EBADF", .uncategorized, "Bad file descriptor"),
    (eagain, "EAGAIN", .wouldBlock, "Resource temporarily unavailable"),
    (enomem, "ENOMEM", .outOfMemory, "Cannot allocate memory"),
    (eacces, "EACCES", .permissionDenied, "Permission denied"),
    (einval, "EINVAL", .invalidInput, "Invalid argument"),
    (enfile, "ENFILE", .tooManyOpenFiles, "Too many open files in system"),
    (emfile, "EMFILE", .tooManyOpenFiles, "Too many open files"),
    (epipe, "EPIPE", .brokenPipe, "Broken pipe"),
    (eaddrinuse, "EADDRINUSE", .addrInUse, "Address already in use"),
    (eaddrnotavail, "EADDRNOTAVAIL", .addrNotAvailable, "Cannot assign requested address"),
    (econnaborted, "ECONNABORTED", .connectionAborted, "Software caused connection abort"),
    (econnreset, "ECONNRESET", .connectionReset, "Connection reset by peer"),
    (enotconn, "ENOTCONN", .notConnected, "Transport endpoint is not connected"),
    (etimedout, "ETIMEDOUT", .timedOut, "Connection timed out")]

def name (e : Errno) : String :=
  (table.lookup e).elim s!"E{e.code}" (·.1)

def kind (e : Errno) : ErrorKind :=
  (table.lookup e).elim .uncategorized (·.2.1)

def text (e : Errno) : String :=
  (table.lookup e).elim s!"Unknown error {e.code}" (·.2.2)

def ofName? (s : String) : Option Errno :=
  (table.find? (·.2.1 == s)).map (·.1)

end Errno

/-- A failure of input or output: one that the system reported, or one found above it. -/
inductive IoError where
  | os (e : Errno)
  | custom (kind : ErrorKind) (text : String)
  deriving DecidableEq, Repr

namespace IoError

def notConnected : IoError := .custom .notConnected "not connected"

def invalidAddress : IoError := .custom .invalidInput "invalid socket addr"

def writeZero : IoError := .custom .writeZero "sink accepted zero bytes"

def kind : IoError → ErrorKind
  | os e => e.kind
  | custom k _ => k

def message : IoError → String
  | os e => s!"{e.text} (os error {e.code})"
  | custom _ text => text

end IoError

/-- A broken promise of the caller, or of the application's own code: the operation is abandoned
where it stands. -/
inductive Panic where
  | multiplyOverflow
  | capacityOverflow
  | emptyRing
  | vacantSlot
  | raised (text : String)
  deriving DecidableEq, Repr

def Panic.message : Panic → String
  | multiplyOverflow => "attempt to multiply with overflow"
  | capacityOverflow => "capacity overflow"
  | emptyRing => "ring buffer capacity must be > 0"
  | vacantSlot =>
    "internal error: entered unreachable code: free list points at a checked-out slot"
  | raised text => text

end PollReactor
