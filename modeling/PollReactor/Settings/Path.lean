import PollReactor.Settings
import PollReactor.Settings.Value

namespace PollReactor.Settings

inductive Path.Step where
  | key (name : String)
  | index (i : Int)
  deriving DecidableEq, Repr

/-- A path such as `root.key[index].key`, of keys of letters, digits, underscores and hyphens. -/
structure Path where
  root : String
  steps : List Path.Step
  deriving DecidableEq, Repr

namespace Path

/-- What a character of a path may be part of. -/
inductive Place where
  | keyStart
  | inKey (rev : List Char)
  | indexStart
  | signed
  | inIndex (negative : Bool) (value : Nat)
  /-- Behind the digits of an index, at blanks. -/
  | indexEnd (negative : Bool) (value : Nat)
  | closed

def isBlank (c : Char) : Bool := c = ' ' || c = '\t'

def digit? (c : Char) : Option Nat :=
  if '0' ≤ c ∧ c ≤ '9' then some (c.toNat - 48) else none

def signedValue (negative : Bool) (value : Nat) : Int :=
  if negative then -value else value

def indexStep? (negative : Bool) (value : Nat) : Option Step :=
  let i := signedValue negative value
  if -Word.half ≤ i ∧ i < Word.half then some (.index i) else none

def keyStep (rev : List Char) : Step := .key (String.ofList rev.reverse)

def stepsFrom : Place → List Char → Option (List Step)
  | .keyStart, c :: cs => if isKeyChar c then stepsFrom (.inKey [c]) cs else none
  | .inKey rev, [] => some [keyStep rev]
  | .inKey rev, c :: cs =>
    if isKeyChar c then stepsFrom (.inKey (c :: rev)) cs
    else if c = '.' then (keyStep rev :: ·) <$> stepsFrom .keyStart cs
    else if c = '[' then (keyStep rev :: ·) <$> stepsFrom .indexStart cs
    else none
  | .indexStart, c :: cs =>
    if isBlank c then stepsFrom .indexStart cs
    else if c = '-' then stepsFrom .signed cs
    else do stepsFrom (.inIndex false (← digit? c)) cs
  | .signed, c :: cs => do stepsFrom (.inIndex true (← digit? c)) cs
  | .inIndex negative value, c :: cs =>
    match digit? c with
    | some d => stepsFrom (.inIndex negative (value * 10 + d)) cs
    | none =>
      if isBlank c then stepsFrom (.indexEnd negative value) cs
      else if c = ']' then do return (← indexStep? negative value) :: (← stepsFrom .closed cs)
      else none
  | .indexEnd negative value, c :: cs =>
    if isBlank c then stepsFrom (.indexEnd negative value) cs
    else if c = ']' then do return (← indexStep? negative value) :: (← stepsFrom .closed cs)
    else none
  | .closed, [] => some []
  | .closed, c :: cs =>
    if c = '.' then stepsFrom .keyStart cs
    else if c = '[' then stepsFrom .indexStart cs
    else none
  | _, [] => none

def parse? (s : String) : Option Path :=
  match stepsFrom .keyStart s.toList with
  | some (.key root :: steps) => some ⟨root, steps⟩
  | _ => none

theorem stepsFrom_inKey {rev cs : List Char} (h : cs.all isKeyChar) :
    stepsFrom (.inKey rev) cs = some [keyStep (cs.reverse ++ rev)] := by
  induction cs generalizing rev with
  | nil => rfl
  | cons c cs ih =>
    rw [List.all_cons, Bool.and_eq_true_iff] at h
    rw [stepsFrom, if_pos h.1, ih h.2, List.reverse_cons, List.append_assoc]
    rfl

theorem parse?_key {key : String} (h : IsKey key) : parse? key = some ⟨key, []⟩ := by
  obtain ⟨h0, hall⟩ := h
  obtain ⟨c, cs, hkey⟩ := List.exists_cons_of_ne_nil h0
  rw [hkey, List.all_cons, Bool.and_eq_true_iff] at hall
  have hsteps : stepsFrom .keyStart key.toList = some [.key key] := by
    rw [hkey, stepsFrom, if_pos hall.1, stepsFrom_inKey hall.2, keyStep, List.reverse_append,
      List.reverse_reverse]
    show some [Step.key (String.ofList (c :: cs))] = _
    rw [← hkey, String.ofList_toList]
  unfold parse?
  rw [hsteps]

def Step.get? : Step → Value → Option Value
  | .key name => Value.field? name
  | .index i => Value.item? i

def Step.update : Step → (Value → Value) → Value → Value
  | .key name => Value.updateField name
  | .index i => Value.updateItem i

def get? (p : Path) (v : Value) : Option Value :=
  (Step.key p.root :: p.steps).foldlM (fun v step ↦ step.get? v) v

def update (p : Path) (f : Value → Value) : Value → Value :=
  (Step.key p.root :: p.steps).foldr Step.update f

end Path

end PollReactor.Settings
