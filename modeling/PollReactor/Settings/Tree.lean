import PollReactor.Settings.Path

namespace PollReactor.Settings

abbrev Tree := List (String × Value)

/-- Lays the tree out for look-up: a key that spells a path stands for the place it names. -/
def Tree.arrange (fields : Tree) : Value :=
  fields.foldl (fun root (key, value) ↦
    ((Path.parse? key).getD ⟨key, []⟩).update (Value.overlay value) root) (.table [])

def Tree.find (fields : Tree) (path : String) : Except String (Option Value) :=
  match Path.parse? path with
  | none => .error path
  | some p => .ok (p.get? fields.arrange)

instance : Store Tree where
  Value := Value
  find := Tree.find
  asUnsigned v := v.asUnsigned.mapError Mismatch.message
  find_key hk s := ⟨_, by unfold Tree.find; rw [Path.parse?_key hk]⟩
  asUnsigned_lt {v n} h := by
    cases hn : v.asUnsigned with
    | error m =>
      rw [hn] at h
      cases h
    | ok k =>
      rw [hn] at h
      cases h
      exact Value.asUnsigned_lt hn

end PollReactor.Settings
