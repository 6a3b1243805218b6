import PollReactor.Settings.Decimal
import PollReactor.Text.Quoted
import PollReactor.Word

namespace PollReactor.Settings

inductive Value where
  | null
  | flag (b : Bool)
  | whole (n : Int) (h : -Word.half ≤ n ∧ n < Word.size)
  | decimal (d : Decimal)
  | text (s : String)
  | list (vs : List Value)
  | table (fields : List (String × Value))
  deriving Inhabited

inductive Mismatch where
  | negative (n : Int)
  | text (s : String)
  | null
  | list
  | table
  deriving DecidableEq, Repr

def Mismatch.message : Mismatch → String
  | negative n =>
    s!"invalid type: 64-bit integer `{n}`, expected an unsigned 64 bit or less integer"
  | text s => s!"invalid type: string {Text.Quoted.quote s}, expected an integer"
  | null => "invalid type: unit value, expected an integer"
  | list => "invalid type: sequence, expected an integer"
  | table => "invalid type: map, expected an integer"

namespace Value

def ofInt (n : Int) : Value :=
  if h : -Word.half ≤ n ∧ n < Word.size then whole n h else decimal ⟨n < 0, n.natAbs, 0⟩

def digitsValue (cs : List Char) : Nat :=
  cs.foldl (fun n c ↦ n * 10 + (c.toNat - 48)) 0

/-- One or more digits, with a plus sign in front or not, below the size of a word. -/
def unsignedOfText? (s : String) : Option Nat :=
  let digits := match s.toList with
    | '+' :: rest => rest
    | cs => cs
  if digits = [] ∨ digits.any (fun c ↦ c < '0' || '9' < c) then none
  else if Word.size ≤ digitsValue digits then none
  else some (digitsValue digits)

def textUnsigned (s : String) : Except Mismatch Nat :=
  let word := String.ofList (s.toList.map Char.toLower)
  if word ∈ ["true", "on", "yes"] then .ok 1
  else if word ∈ ["false", "off", "no"] then .ok 0
  else (unsignedOfText? s).elim (.error (.text s)) .ok

def asUnsigned : Value → Except Mismatch Nat
  | null => .error .null
  | flag b => .ok b.toNat
  | whole n _ => if n < 0 then .error (.negative n) else .ok n.toNat
  | decimal d => .ok d.toUnsigned
  | text s => textUnsigned s
  | list _ => .error .list
  | table _ => .error .table

theorem unsignedOfText?_lt {s : String} {n : Nat} (h : unsignedOfText? s = some n) :
    n < Word.size := by
  unfold unsignedOfText? at h
  simp only [Option.ite_none_left_eq_some, Option.some.injEq] at h
  obtain ⟨-, hlt, rfl⟩ := h
  exact Nat.lt_of_not_le hlt

theorem textUnsigned_lt {s : String} {n : Nat} (h : textUnsigned s = .ok n) : n < Word.size := by
  unfold textUnsigned at h
  dsimp only at h
  split at h
  · cases h
    decide
  · split at h
    · cases h
      decide
    · cases hn : unsignedOfText? s with
      | none =>
        rw [hn] at h
        cases h
      | some k =>
        rw [hn] at h
        cases h
        exact unsignedOfText?_lt hn

theorem asUnsigned_lt {v : Value} {n : Nat} (h : v.asUnsigned = .ok n) : n < Word.size := by
  cases v with
  | null | list | table => cases h
  | flag b =>
    cases h
    cases b <;> decide
  | whole i hi =>
    have h : (if i < 0 then .error (Mismatch.negative i) else .ok i.toNat) = Except.ok n := h
    by_cases hneg : i < 0
    · rw [if_pos hneg] at h
      cases h
    · rw [if_neg hneg] at h
      cases h
      omega
  | decimal d =>
    cases h
    exact d.toUnsigned_lt
  | text s => exact textUnsigned_lt h

def field? (key : String) : Value → Option Value
  | table fields => fields.lookup key
  | _ => none

/-- The place that `i` names in a list of `n`; negative ones count from the end. -/
def place? (i : Int) (n : Nat) : Option Nat :=
  if 0 ≤ i then some i.toNat
  else if i.natAbs ≤ n then some (n - i.natAbs) else none

def item? (i : Int) : Value → Option Value
  | list vs => do vs[← place? i vs.length]?
  | _ => none

def updateFields (key : String) (f : Value → Value) :
    List (String × Value) → List (String × Value)
  | [] => [(key, f null)]
  | (k, v) :: rest => if k = key then (k, f v) :: rest else (k, v) :: updateFields key f rest

def updateField (key : String) (f : Value → Value) : Value → Value
  | table fields => table (updateFields key f fields)
  | _ => table [(key, f null)]

/-- Changes the item `i`; what is no list becomes one, and a list too short is filled up with
nulls, behind for places counted from the start and in front for those counted from the end. -/
def updateItem (i : Int) (f : Value → Value) (v : Value) : Value :=
  let vs := match v with
    | list vs => vs
    | _ => []
  match place? i vs.length with
  | some k => list ((vs ++ List.replicate (k + 1 - vs.length) null).modify k f)
  | none => list ((List.replicate (i.natAbs - vs.length) null ++ vs).modify 0 f)

mutual

/-- Lays `new` over `old`: tables are joined field by field, anything else replaces. -/
def overlay (new old : Value) : Value :=
  match new with
  | table fields => overlayFields fields (match old with
      | table olds => table olds
      | _ => table [])
  | v => v

def overlayFields : List (String × Value) → Value → Value
  | [], old => old
  | (key, new) :: rest, old => overlayFields rest (updateField key (overlay new) old)

end

end Value

end PollReactor.Settings
