import PollReactor.Reactor.Setup

namespace PollReactor

theorem except_bind {ε σ α β : Type} (x : ExceptT ε (StateM σ) α)
    (f : α → ExceptT ε (StateM σ) β) (s : σ) : (x >>= f) s = match x s with
      | (.ok a, s') => f a s'
      | (.error e, s') => (.error e, s') := by
  show ExceptT.bind x f s = _
  unfold ExceptT.bind ExceptT.mk
  show ExceptT.bindCont f (x s).1 (x s).2 = _
  rcases x s with ⟨_ | a, s'⟩ <;> rfl

section

variable {σ α β : Type}

theorem bind_run (x : StateM σ α) (f : α → StateM σ β) (s : σ) :
    (x >>= f) s = f (x s).1 (x s).2 := rfl

theorem pure_run (a : α) (s : σ) : (pure a : StateM σ α) s = (a, s) := rfl

theorem get_run (s : σ) : (get : StateM σ σ) s = (s, s) := rfl

theorem modify_run (f : σ → σ) (s : σ) : (modify f : StateM σ PUnit) s = (⟨⟩, f s) := rfl

end

namespace Reactor

variable {κ π ν : Type} {α β : Type}

def andThen (f : α → PassM κ π ν β) :
    Except Panic α × Reactor κ π ν → Except Panic β × Reactor κ π ν
  | (.ok a, r) => f a r
  | (.error p, r) => (.error p, r)

theorem pass_bind (x : PassM κ π ν α) (f : α → PassM κ π ν β) (r : Reactor κ π ν) :
    (x >>= f) r = andThen f (x r) := by
  show ExceptT.bind x f r = _
  unfold ExceptT.bind ExceptT.mk andThen
  rw [bind_run]
  rcases x r with ⟨_ | a, r'⟩ <;> rfl

theorem pass_get (r : Reactor κ π ν) : (get : PassM κ π ν _) r = (.ok r, r) := rfl

theorem calmly_run (x : ReactorM κ π ν α) (r : Reactor κ π ν) :
    calmly x r = (.ok (x r).1, (x r).2) := rfl

theorem withConn_run {α : Type} [Inhabited α] (id : Nat) (f : Conn → PassM κ π ν α)
    (r : Reactor κ π ν) : withConn id f r = match r.conn? id with
      | none => (.ok default, r)
      | some c => f c r := by
  unfold withConn
  rw [pass_bind, pass_get]
  show (match r.conn? id with | none => pure default | some c => f c) r = _
  cases r.conn? id <;> rfl

theorem andThen_andThen {α β γ : Type} (f : α → PassM κ π ν β) (g : β → PassM κ π ν γ)
    (out : Except Panic α × Reactor κ π ν) :
    andThen g (andThen f out) = andThen (fun a ↦ f a >>= g) out := by
  rcases out with ⟨_ | a, r⟩
  · rfl
  · exact (pass_bind _ _ _).symm

end Reactor

end PollReactor
