import PollReactor.Word

namespace PollReactor

namespace Settings

def isKeyChar (c : Char) : Bool :=
  ('a' ≤ c && c ≤ 'z') || ('A' ≤ c && c ≤ 'Z') || ('0' ≤ c && c ≤ '9') || c = '_' || c = '-'

def IsKey (key : String) : Prop := key.toList ≠ [] ∧ key.toList.all isKeyChar

instance (key : String) : Decidable (IsKey key) := inferInstanceAs (Decidable (_ ∧ _))

/-- A library that stores settings. It refuses what is no path, and to read what is no unsigned
number; both in its own words. -/
class Store (σ : Type) where
  Value : Type
  find : σ → String → Except String (Option Value)
  asUnsigned : Value → Except String Nat
  /-- A key by itself is a path. -/
  find_key : ∀ {key}, IsKey key → ∀ s, ∃ value?, find s key = .ok value?
  asUnsigned_lt : ∀ {v n}, asUnsigned v = .ok n → n < Word.size

inductive Refusal where
  | badPath (reason : String)
  /-- There is a value at `path`, which cannot be read. -/
  | malformed (reason path : String)
  deriving DecidableEq, Repr

def Refusal.message : Refusal → String
  | badPath reason => reason
  | malformed reason path => s!"{reason} for key `{path}`"

inductive Lookup where
  | found (n : Nat)
  | missing
  | refused (e : Refusal)
  deriving DecidableEq, Repr

section

variable {σ : Type} [Store σ]

def lookup (s : σ) (path : String) : Lookup :=
  match Store.find s path with
  | .error reason => .refused (.badPath reason)
  | .ok none => .missing
  | .ok (some v) =>
    match Store.asUnsigned v with
    | .ok n => .found n
    | .error reason => .refused (.malformed reason path)

/-- Whatever goes wrong under the name, the bare key decides. -/
def lookupNamed (s : σ) (name key : String) : Lookup :=
  if name = "" then lookup s key
  else
    match lookup s s!"{name}.{key}" with
    | .found n => .found n
    | _ => lookup s key

end

def optional : Lookup → Except Refusal (Option Nat)
  | .found n => .ok (some n)
  | .missing => .ok none
  | .refused e => .error e

end Settings

def defaultMaxConnections : Nat := 64

def defaultBufferCapacity : Nat := 4096

structure Settings where
  maxConnections : Nat := defaultMaxConnections
  /-- Milliseconds a connection may be idle; `none` is for ever. -/
  idleLimit : Option Nat := none
  bufferCapacity : Nat := defaultBufferCapacity
  deriving DecidableEq, Repr

/-- Reads the settings called `name`; the empty name has top-level keys only. -/
def Settings.read {σ : Type} [Settings.Store σ] (s : σ) (name : String) :
    Except Settings.Refusal Settings := do
  let maxConnections ← Settings.optional (Settings.lookupNamed s name "max_connections")
  let idleLimit ← Settings.optional (Settings.lookupNamed s name "idle_limit_ms")
  let bufferCapacity ← Settings.optional (Settings.lookupNamed s name "buffer_capacity")
  return {
    maxConnections := maxConnections.getD defaultMaxConnections
    idleLimit := idleLimit.filter (· ≠ 0)
    bufferCapacity := bufferCapacity.getD defaultBufferCapacity }

end PollReactor
