import PollReactor.Error
import PollReactor.Net.Address
import PollReactor.Settings

namespace PollReactor

inductive Sized where
  | pool
  | connectionBuffer
  deriving DecidableEq, Repr

def Sized.name : Sized → String
  | pool => "pool"
  | connectionBuffer => "connection buffer"

/-- Faults of a single connection are not among these: the application hears of them in a callback.
-/
inductive Failure where
  | io (e : IoError)
  | poll (e : IoError)
  | poolExhausted (capacity : Nat)
  | alreadyBound (addr : Net.SocketAddr)
  | notBound
  | invalidWatermarks (low high capacity : Nat)
  | invalidCapacity (what : Sized)
  | settings (e : Settings.Refusal)
  deriving DecidableEq, Repr

def Failure.message : Failure → String
  | io e => s!"I/O error: {e.message}"
  | poll e => s!"Poll error: {e.message}"
  | poolExhausted capacity => s!"Pool exhausted: all {capacity} slots are in use"
  | alreadyBound addr => s!"Selector already bound to listener on {addr.text}"
  | notBound => "Selector has no listening socket"
  | invalidWatermarks low high capacity =>
    s!"Invalid watermarks: low={low}, high={high}, capacity={capacity}"
  | invalidCapacity what => s!"Invalid capacity for {what.name}: must be greater than zero"
  | settings e => s!"Configuration error: {e.message}"

end PollReactor
