import PollReactor.Proofs.Output

namespace PollReactor

open Journal (Adds Fresh fdOf)

variable {κ π ν : Type}

namespace Entry

def isImpersonal : Entry (Mark ν) → Bool
  | .sys (.send ..) _ => false
  | .sys (.recv ..) _ => false
  | .sys (.recvUrgent _) _ => false
  | .remark (.admitted ..) => false
  | .remark (.callback _) => false
  | .remark (.called ..) => false
  | _ => true

theorem IsChore.impersonal {e : Entry (Mark ν)} (h : e.IsChore) : e.isImpersonal := by
  cases h with
  | @call c h a => cases c <;> first | rfl | cases h
  | adopted => rfl

theorem OfAdmission.impersonal {e : Entry (Mark ν)} (h : e.OfAdmission) : e.isImpersonal := by
  cases h with
  | setup h => exact (chore_of_isSetup h).impersonal
  | _ => rfl

end Entry

namespace Reactor

variable [Kernel κ] {P : Policy π ν} {r r' : Reactor κ π ν}

/-- A change to one connection, or to none of them. -/
inductive Change (r : Reactor κ π ν) : Reactor κ π ν → Prop where
  | apart {r' : Reactor κ π ν} (hc : r'.conns = r.conns)
      (hj : Adds (·.isImpersonal) r.os.journal r'.os.journal) : Change r r'
  | called (id : Nat) (c : Conn) (op : ConnOp) (hc : r.conn? id = some c) :
      Change r (remark (.called id c op) (r.setConn id (c.perform op).2.1)).2
  | enrolled (t : Token Stream) (peer : Net.SocketAddr) (d : Draft) (now : Nat) :
      Change r (Reactor.enrolled t peer d now r)
  | served {id : Nat} {c : Conn} {fd : Fd} {sends : Bool} {r' : Reactor κ π ν}
      (hc : r.conn? id = some c) (hfd : c.fd? = some fd)
      (hown : ∀ id', fdOf id' r.os.journal = some fd ↔ id' = id) (hs : Service r id c sends r') :
      Change r r'
  | parted (id : Nat) : Change r (part id r)
  | told (cb : Callback) : Change r (remark (.callback cb) r).2

abbrev Changes : Reactor κ π ν → Reactor κ π ν → Prop := Relation.ReflTransGen Change

theorem wake_change (r : Reactor κ π ν) : Change r (wake r).2 :=
  .apart (wake_conns r) ((wake_still r).journal.mono fun _ he ↦ he.chore.impersonal)

theorem Relisten.change (h : Relisten r r') : Change r r' := by
  obtain ⟨os, listener, rfl, hj⟩ := h
  exact .apart rfl (hj.mono fun _ he ↦ he.chore.impersonal)

theorem Repool.change (h : Repool r r') : Change r r' := by
  obtain ⟨os, pool, rfl, hj⟩ := h
  exact .apart rfl (hj.mono fun _ he ↦ he.impersonal)

theorem Stir.changes (h : Stir r r') : Changes r r' := by
  cases h with
  | called id c op hc =>
    rw [callConn_run hc]
    have hact := actAll_still (c.perform op).2.2
      (remark (.called id c op) (r.setConn id (c.perform op).2.1)).2
    refine .tail (.single (.called id c op hc)) (.apart (actAll_conns _ _) ?_)
    exact hact.journal.mono fun _ he ↦ he.chore.impersonal
  | wake => exact .single (wake_change r)
  | cancel =>
    have hc : Change r { r with cancelled := true } := .apart rfl (.refl _)
    exact .tail (.single hc) (wake_change _)
  | clock => exact .single (.apart rfl (.single rfl))
  | answered q a _ => exact .single (.apart rfl (.single rfl))

theorem request_changes (q : Request) (r : Reactor κ π ν) : Changes r (request q r).2 := by
  have hs := request_stirs q r
  generalize (request q r).2 = r' at hs ⊢
  induction hs with
  | refl => exact .refl
  | tail _ hs ih => exact ih.trans hs.changes

omit [Kernel κ] in
theorem Accounted.fdOf_iff (hacc : Accounted r) (hl : Ledger r none) {id : Nat} {c : Conn} {fd : Fd}
    (hc : r.conn? id = some c) (hfd : c.fd? = some fd) (id' : Nat) :
    fdOf id' r.os.journal = some fd ↔ id' = id := by
  have hown : r.owned none (.conn id) = some fd := owned_of_fd? hc hfd
  rw [hacc.fd]
  constructor
  · intro hfd'
    exact Owner.conn.inj (hl.apart _ _ fd hfd' hown)
  · rintro rfl
    exact hown

theorem Service.change {id : Nat} {c : Conn} {sends : Bool} (h : Service r id c sends r')
    (hacc : Accounted r) (hl : Ledger r none) (hh : Holding r none) (hc : r.conn? id = some c)
    (hlive : id ∈ r.live) : Change r r' := by
  obtain ⟨fd, hfd⟩ := hh.fd?_of_live hlive hc
  exact .served hc hfd (hacc.fdOf_iff hl hc hfd) h

theorem Deed.changes {first : Task π ν} (h : Deed first r r') (hacc : Accounted r)
    (hl : Ledger r first.token?) (hh : Holding r first.token?)
    (hlive : ∀ id ∈ first.subjects, id ∈ r.live) : Changes r r' := by
  cases h with
  | nothing => exact .refl
  | aside m hm => exact .single (.apart rfl (.single (by cases m <;> first | rfl | cases hm)))
  | request q => exact request_changes q r
  | wake => exact .single (wake_change r)
  | settled events =>
    have hs := settleWaker_still events r
    have hj := hs.journal.mono fun _ he ↦ he.chore.impersonal
    exact .single (.apart (settleWaker_conns events r) hj)
  | clock => exact .single (.apart rfl (.single rfl))
  | repooled h => exact .single h.change
  | enrolled t peer d now => exact .single (.enrolled t peer d now)
  | served hfirst hc hs =>
    subst hfirst
    exact .single (hs.change hacc hl hh hc (hlive _ List.mem_cons_self))
  | told hfirst hc hs cb _ _ =>
    subst hfirst
    exact .tail (.single (hs.change hacc hl hh hc (hlive _ List.mem_cons_self))) (.told cb)
  | @ended id why _ => exact .tail (.single (.parted id)) (.told (why.callback id))
  | relistened h => exact .single h.change

end Reactor

namespace Moment

open Reactor

variable [Kernel κ] {P : Policy π ν} {outside : Phase π ν → Prop} {m m' : Moment κ π ν}

theorem Step.changes {n : Nat} (h : Step P outside m m') (ha : Agrees n m) (hs : Settled m)
    (hf : Fresh m'.journal) (hacc : Accounted m.reactor) : Changes m.reactor m'.reactor := by
  have hl := ha.sound.ledger (h.fresh hf)
  cases h with
  | kernel r phase k => exact .single (.apart rfl (.refl _))
  | listener r phase text =>
    exact .single (relisten_opening (Sockets.listenOn_opening text) r).change
  | request r phase q _ => exact request_changes q r
  | setUp hr => exact .single hr.relisten.change
  | memory r app => exact .single (.apart rfl (.refl _))
  | start => exact .refl
  | wake => exact .refl
  | fail => exact .refl
  | cleanup => exact .refl
  | task r first rest =>
    obtain ⟨app, hd⟩ := advance_deed (P := P) first r
    have happ : Still (fun _ ↦ False) r { r with app } := .app r app
    have hchange : Change r { r with app } := .apart rfl (.refl _)
    exact .head hchange (hd.changes (hacc.same rfl (.refl _)) (hl.still happ fun _ he ↦ he.elim)
      (ha.sound.holding.still happ) fun id hid ↦ hs.alive id (List.mem_append_left _ hid))

theorem Occurs.changing {motive : Reactor κ π ν → Prop} {b : Builder} (h : Occurs P outside b m)
    (hf : Fresh m.journal)
    (empty : ∀ r : Reactor κ π ν, r.conns = #[] → Adds (·.isImpersonal) [] r.os.journal → motive r)
    (change : ∀ r r' : Reactor κ π ν, Change r r' → motive r → motive r') : motive m.reactor := by
  -- The motive is kept along every step, as a step is some changes, one after another.
  refine h.step_induction (motive := fun m ↦ Fresh m.journal → motive m.reactor) ?_ ?_ hf
  · intro app os r os' hb hj _
    obtain ⟨hconns, hsetup⟩ := built_bare hb hj
    exact empty r hconns (hsetup.mono fun _ he ↦ (Entry.chore_of_isSetup he).impersonal)
  · intro m m' ho hs hm hf
    have hf₀ := hs.fresh hf
    have hc := hs.changes ho.agrees ho.settled hf (ho.accounted hf₀)
    generalize m'.reactor = r' at hc
    induction hc with
    | refl => exact hm hf₀
    | tail _ hc ih => exact change _ _ hc ih

end Moment

end PollReactor
