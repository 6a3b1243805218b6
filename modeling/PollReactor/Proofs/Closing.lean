import PollReactor.Proofs.Eviction
import PollReactor.Proofs.Marks
import PollReactor.Proofs.Parting

namespace PollReactor

open Event (ofReport)
open Journal (Adds Fresh Returned asked)
open Relation (ReflTransGen)

variable {κ π ν : Type}

theorem Entry.asks_of_isImpersonal {e : Entry (Mark ν)} (h : e.isImpersonal) (id : Nat)
    (immediate : Bool) : e.asks id immediate = false := by
  cases e with
  | sys c a => rfl
  | remark m => cases m <;> first | rfl | cases h

theorem Journal.asked_impersonal {j j' : Journal ν} (h : Adds (·.isImpersonal) j j') (id : Nat)
    (immediate : Bool) : asked id immediate j' = asked id immediate j := by
  obtain ⟨new, rfl, hn⟩ := h
  have h0 : new.any (·.asks id immediate) = false := by
    apply List.any_eq_false.2
    intro e he
    rw [Entry.asks_of_isImpersonal (hn e he)]
    nofun
  rw [asked, List.any_append, h0, Bool.false_or]
  rfl

section

variable [Kernel κ] {c c' : Conn}

theorem Conn.Alters.closes (h : c.Alters κ (ν := ν) c') :
    (c'.isConnected → c.isConnected) ∧ (c.closePending → c'.closePending) := by
  cases h with
  | kept | hungUp => exact ⟨fun h ↦ h, fun h ↦ h⟩
  | called op => exact ⟨(c.perform_announced op).connected, (c.perform_announced op).closing⟩
  | received o =>
    obtain ⟨⟨input, now, h⟩, -⟩ := c.receive_spec o
    rw [h]
    exact ⟨fun h ↦ h, fun h ↦ h⟩
  | transmitted o =>
    obtain ⟨⟨output, high, now, h⟩, -⟩ := c.transmit_spec o
    rw [h]
    exact ⟨fun h ↦ h, fun h ↦ h⟩
  | alerted o =>
    obtain ⟨⟨urgent, now, h⟩, -⟩ := c.receiveUrgent_spec o
    rw [h]
    exact ⟨fun h ↦ h, fun h ↦ h⟩
  | parted => exact ⟨nofun, fun h ↦ h⟩

end

namespace Reactor

/-- A connection that was asked to close at once is shut down, and one that was asked to close
behind its output is to do so. -/
structure Apprised (r : Reactor κ π ν) : Prop where
  shut : ∀ id c, r.conn? id = some c → asked id true r.os.journal → c.isConnected = false
  closing : ∀ id c, r.conn? id = some c → asked id false r.os.journal → c.closePending
  known : ∀ id immediate, asked id immediate r.os.journal → (r.conn? id).isSome

variable [Kernel κ] {r r' : Reactor κ π ν} {id : Nat} {immediate : Bool}

theorem Change.asked (h : Change r r') (ha : asked id immediate r'.os.journal) :
    asked id immediate r.os.journal ∨ ∃ c op, r.conn? id = some c ∧ op.closes immediate ∧
      r'.conn? id = some (c.perform op).2.1 := by
  have hold (hj : Adds (·.isImpersonal) r.os.journal r'.os.journal) :=
    Journal.asked_impersonal hj id immediate
  cases h with
  | apart _ hj => exact .inl (hold hj ▸ ha)
  | called id' c op hc =>
    replace ha : (_ || asked id immediate r.os.journal) = true := ha
    rcases Bool.or_eq_true_iff.1 ha with ha | ha
    · obtain ⟨rfl, hop⟩ := of_decide_eq_true ha
      exact .inr ⟨c, op, hc, hop, (conn?_setConn hc _ id').trans (if_pos rfl)⟩
    · exact .inl ha
  | enrolled => exact .inl ha
  | served hc _ _ hs =>
    rw [Journal.asked_unasked ((hs.still hc).journal.mono fun _ he ↦ he.inert.2)] at ha
    exact .inl ha
  | parted id' =>
    obtain ⟨os, pool, conns, he, -, -, hj⟩ := part_spec id' r
    rw [he] at ha
    rw [Journal.asked_unasked (hj.mono fun _ he ↦ (Entry.inert_of_isSetup he).2)] at ha
    exact .inl ha
  | told cb => exact .inl ha

theorem Change.apprised (h : Change r r') (ha : Apprised r) : Apprised r' := by
  refine ⟨fun id c' hc' hask ↦ ?_, fun id c' hc' hask ↦ ?_, fun id immediate hask ↦ ?_⟩
  · obtain hask | ⟨c, op, hc, hop, hc''⟩ := h.asked hask
    · obtain ⟨c, hc⟩ := Option.isSome_iff_exists.1 (ha.known id true hask)
      obtain ⟨c'', hc'', halt⟩ := h.alters hc
      obtain rfl := Option.some.inj (hc'.symm.trans hc'')
      exact Bool.eq_false_iff.2 fun hcon ↦
        Bool.eq_false_iff.1 (ha.shut id c hc hask) (halt.closes.1 hcon)
    · obtain rfl := Option.some.inj (hc'.symm.trans hc'')
      exact (c.perform_closes hop).2
  · obtain hask | ⟨c, op, hc, hop, hc''⟩ := h.asked hask
    · obtain ⟨c, hc⟩ := Option.isSome_iff_exists.1 (ha.known id false hask)
      obtain ⟨c'', hc'', halt⟩ := h.alters hc
      obtain rfl := Option.some.inj (hc'.symm.trans hc'')
      exact halt.closes.2 (ha.closing id c hc hask)
    · obtain rfl := Option.some.inj (hc'.symm.trans hc'')
      exact (c.perform_closes hop).2
  · obtain hask | ⟨c, op, -, -, hc''⟩ := h.asked hask
    · obtain ⟨c, hc⟩ := Option.isSome_iff_exists.1 (ha.known id immediate hask)
      obtain ⟨c', hc', -⟩ := h.alters hc
      rw [hc']
      rfl
    · rw [hc'']
      rfl

omit [Kernel κ] in
theorem apprised_of_empty (h : Adds (·.isImpersonal) [] r.os.journal) : Apprised r := by
  have hnone (id : Nat) (immediate : Bool) : asked id immediate r.os.journal = false :=
    Journal.asked_impersonal h id immediate
  refine ⟨fun id _ _ ha ↦ ?_, fun id _ _ ha ↦ ?_, fun id immediate ha ↦ ?_⟩
  all_goals
    rw [hnone] at ha
    cases ha

end Reactor

theorem Moment.Occurs.apprised [Kernel κ] {P : Policy π ν} {outside : Phase π ν → Prop}
    {b : Builder} {m : Moment κ π ν} (h : Occurs P outside b m) (hf : Fresh m.journal) :
    m.reactor.Apprised :=
  h.changing hf (fun _ _ hj ↦ Reactor.apprised_of_empty hj) fun _ _ ↦ Reactor.Change.apprised

def Task.isProceed : Task π ν → Bool
  | proceed => true
  | _ => false

theorem Task.not_proceed_of_errand {t : Task π ν} (h : t.isErrand) : t.isProceed = false := by
  cases t <;> first | rfl | cases h

namespace Reactor

variable [Kernel κ] {P : Policy π ν} {r : Reactor κ π ν} {first : Task π ν} {id : Nat}

theorem advance_goes (h : first.isProceed = false) (hk : r.pool.Kept) :
    (∃ ts, (advance P first r).2 = .go ts ∧ ∀ t ∈ ts, t.isProceed = false) ∨
      (advance P first r).2 = .only [] ∧ ¬ Returned (advance P first r).1.os.journal := by
  have herrand (h : first.isErrand) :
      (∃ ts, (advance P first r).2 = .go ts ∧ ∀ t ∈ ts, t.isProceed = false) ∨
        (advance P first r).2 = .only [] ∧ ¬ Returned (advance P first r).1.os.journal := by
    refine (advance_errand (P := P) h hk).imp_left ?_
    rintro ⟨ts, hgo, hts⟩
    exact ⟨ts, hgo, fun t ht ↦ Task.not_proceed_of_errand (hts t ht)⟩
  cases first with
  | serveAll events watched =>
    refine .inl ⟨_, rfl, fun t ht ↦ ?_⟩
    obtain ⟨x, event, rfl⟩ := mem_serves ht
    rfl
  | serve x event now =>
    exact .inl ⟨_, rfl, fun t ht ↦ Task.not_proceed_of_errand (attend_errands x event now r t ht)⟩
  | proceed => cases h
  | closeListener => exact .inl ⟨[], rfl, List.forall_mem_nil _⟩
  | _ => exact herrand rfl

theorem subjects_advance {c : Conn} {ts : List (Task π ν)} (hid : id ∈ first.subjects)
    (hc : r.conn? id = some c) (hs : c.isConnected = false)
    (hgo : (advance P first r).2 = .go ts) :
    id ∈ ts.flatMap Task.subjects ∨ ∃ why, first = .finalize id why := by
  cases first with
  | serveAll events watched =>
    refine .inl ?_
    cases hgo
    rw [subjects_serves]
    exact hid
  | serve x event now =>
    refine .inl ?_
    have hts : (attend P x event now r).2 = ts := Next.go.inj hgo
    rw [← hts, attend_follows]
    exact hid
  | check id' =>
    obtain rfl := List.mem_singleton.1 hid
    simp only [advance, hc, hs] at hgo
    cases hgo
    exact .inl List.mem_cons_self
  | finalize id' why =>
    obtain rfl := List.mem_singleton.1 hid
    exact .inr ⟨why, rfl⟩
  | _ => cases hid

theorem advance_spares (hrun : first = .proceed → r.cancelled = false)
    (hserve : ∀ x event now, first = .serve x event now → x.id = id →
      (attend P x event now r).2 = [.check id])
    (hcheck : first = .check id → ∀ c, r.conn? id = some c → c.isConnected) (why : Teardown) :
    .finalize id why ∉ (advance P first r).2.tasks := by
  have hadv := advance_advanced (P := P) first r
  generalize advance P first r = out at hadv ⊢
  intro hmem
  cases hadv with
  | done | vacant | raised | waits => cases hmem
  | welcomed | met | heard => cases List.mem_singleton.1 hmem
  | shared events watched now =>
    obtain ⟨x, event, he⟩ := mem_serves hmem
    cases he
  | attended x event now =>
    replace hmem : .finalize id why ∈ (attend P x event now r).2 := hmem
    by_cases hid : x.id = id
    · rw [hserve x event now rfl hid] at hmem
      cases List.mem_singleton.1 hmem
    · have hsubject : id ∈ (attend P x event now r).2.flatMap Task.subjects :=
        List.mem_flatMap.2 ⟨_, hmem, List.mem_singleton_self id⟩
      rw [attend_follows] at hsubject
      exact hid (List.mem_singleton.1 hsubject).symm
  | @dropped id' c hc hs =>
    obtain ⟨rfl, -⟩ := Task.finalize.inj (List.mem_singleton.1 hmem)
    cases hs.symm.trans (hcheck rfl c hc)
  | cleared hx => cases hx.symm.trans (hrun rfl)

theorem attend_last (x : Watched) (event : Event) (now : Nat) (r : Reactor κ π ν) :
    ∃ ts t, (attend P x event now r).2 = ts ++ [t] ∧ t.subjects = [x.id] := by
  have hafter (sends : Bool) : ∃ ts t, afterService (π := π) (ν := ν) x.id sends = ts ++ [t] ∧
      t.subjects = [x.id] := by
    cases sends with
    | false => exact ⟨[], .check x.id, rfl, rfl⟩
    | true => exact ⟨[.hasten x.id], .check x.id, rfl, rfl⟩
  have ha := attend_aftermath (P := P) x event now r
  generalize (attend P x event now r).2 = ts at ha ⊢
  cases ha with
  | ended why => exact ⟨[], _, rfl, rfl⟩
  | silent sends => exact hafter sends
  | told script sends =>
    obtain ⟨ts, t, hts, ht⟩ := hafter sends
    exact ⟨_ :: ts, t, congrArg (_ :: ·) hts, ht⟩

end Reactor

namespace Moment

open Reactor

variable [Kernel κ] {P : Policy π ν} {outside : Phase π ν → Prop} {b : Builder}
  {m m₁ m₂ m' : Moment κ π ν} {id : Nat} {rest : List (Task π ν)}

/-- Ahead of the tasks `rest`, and in the same turn, the connection will be looked at. -/
def Ahead (id : Nat) (rest : List (Task π ν)) (m : Moment κ π ν) : Prop :=
  ∃ ts, m.phase.tasks = ts ++ rest ∧ id ∈ ts.flatMap Task.subjects ∧
    ∀ t ∈ ts, t.isProceed = false

/-- The connection was ended, and heard of that once. -/
def Gone (id : Nat) (m : Moment κ π ν) : Prop :=
  id ∉ m.reactor.live ∧ Journal.farewells id m.journal = 1

def Passes (P : Policy π ν) (outside : Phase π ν → Prop) (rest : List (Task π ν))
    (m m' : Moment κ π ν) : Prop :=
  (∃ first ts, m.phase.tasks = first :: (ts ++ rest)) ∧ Turns P outside m m'

omit [Kernel κ] in
theorem Ahead.isBusy (h : Ahead id rest m) : m.phase.isBusy := by
  obtain ⟨ts, htasks, hid, -⟩ := h
  cases hphase : m.phase with
  | busy => rfl
  | _ =>
    rw [hphase] at htasks
    obtain ⟨rfl, -⟩ := List.append_eq_nil_iff.1 htasks.symm
    cases hid

theorem Occurs.gone (h : Occurs P outside b m) (hc : (m.reactor.conn? id).isSome)
    (hid : id ∉ m.reactor.live) : Gone id m := by
  obtain ⟨c, hc⟩ := Option.isSome_iff_exists.1 hc
  have htold := h.settled.told
  refine ⟨hid, (htold.farewells id).trans ?_⟩
  rw [if_neg hid, htold.admissions, if_pos (conn?_bounds hc)]

theorem Gone.turns (hg : Gone id m) (h : Occurs P outside b m)
    (hs : ReflTransGen (Turns P outside) m m') : Gone id m' := by
  have htold := (h.turns hs).settled.told
  have hle : 1 ≤ Journal.farewells id m'.journal := by
    obtain ⟨new, hnew, -⟩ := grows_of_turns hs
    rw [hnew, ← hg.2]
    exact Journal.farewells_le_append id new _
  have hfarewells : Journal.farewells id m'.journal = _ := htold.farewells id
  split_ifs at hfarewells with hid
  · omega
  · refine ⟨hid, ?_⟩
    have hadmissions := htold.admissions id
    split_ifs at hadmissions <;> omega

theorem gone_of_ended {r : Reactor κ π ν} {why : Teardown}
    (h : Occurs P outside b ⟨r, .busy (.finalize id why) rest⟩) :
    Gone id (tasked P ⟨r, .busy (.finalize id why) rest⟩) := by
  have hlive : id ∈ r.live := h.settled.alive id List.mem_cons_self
  obtain ⟨c, -, -, hc, -⟩ := h.agrees.sound.holding.live hlive
  obtain ⟨os, pool, conns, -, -, hconn, -⟩ := part_spec id r
  refine h.tasked.gone ?_ ?_
  · show ((part id r).conn? id).isSome
    rw [hconn, if_pos rfl, hc]
    rfl
  · show id ∉ (part id r).live
    rw [part_live]
    simp

theorem gone_of_finalize {why : Teardown} (h : Occurs P outside b m)
    (hm : m.phase = .busy (.finalize id why) rest) (hs : ReflTransGen (Turns P outside) m m') :
    m'.phase = .busy (.finalize id why) rest ∨ Gone id m' := by
  induction hs with
  | refl => exact .inl hm
  | @tail m₁ m₂ hpath hs ih =>
    have hocc := h.turns hpath
    rcases ih with hm | hg
    · obtain ⟨hb, hs⟩ := hs
      cases hs with
      | kernel | listener | request => exact .inl hm
      | task r first rest' =>
        cases hm
        exact .inr (gone_of_ended hocc)
      | _ => cases hb
    · exact .inr (hg.turns hocc (.single hs))

theorem Ahead.turns (h : Ahead id rest m) (ho : Occurs P outside b m) (hf : Fresh m.journal)
    (ha : asked id true m.journal) (hs : Turns P outside m m') (hr : Returned m'.journal) :
    Ahead id rest m' ∨ Gone id m' := by
  obtain ⟨hb, hs⟩ := hs
  cases hs with
  | kernel | listener | request => exact .inl h
  | task r first rest' =>
    obtain ⟨ts, htasks, hid, hts⟩ := h
    cases ts with
    | nil => cases hid
    | cons t ts =>
      cases htasks
      obtain ⟨ht, hts⟩ := List.forall_mem_cons.1 hts
      obtain ⟨new, hgo, hnew⟩ | ⟨-, hraised⟩ :=
        advance_goes (P := P) ht ho.agrees.sound.holding.kept
      · have hahead (hid : id ∈ (new ++ ts).flatMap Task.subjects) : Ahead id rest
            ⟨(advance P first r).1, (advance P first r).2.phase (ts ++ rest)⟩ := by
          refine ⟨new ++ ts, ?_, hid, List.forall_mem_append.2 ⟨hnew, hts⟩⟩
          rw [hgo, List.append_assoc]
          exact Phase.tasks_ofTasks _
        rw [List.flatMap_append] at hahead
        rw [List.flatMap_cons, List.mem_append] at hid
        rcases hid with hid | hid
        · have hlive : id ∈ r.live := ho.settled.alive id (List.mem_append_left _ hid)
          obtain ⟨c, -, -, hc, -⟩ := ho.agrees.sound.holding.live hlive
          have hshut := (ho.apprised hf).shut id c hc ha
          rcases subjects_advance hid hc hshut hgo with hid | ⟨why, rfl⟩
          · exact .inl (hahead (List.mem_append_left _ hid))
          · exact .inr (gone_of_ended ho)
        · exact .inl (hahead (List.mem_append_right _ hid))
      · exact absurd hr hraised
  | _ => cases hb

theorem ahead_of_turns (h : Ahead id rest m) (ho : Occurs P outside b m)
    (ha : asked id true m.journal) (hs : ReflTransGen (Turns P outside) m m')
    (hf : Fresh m'.journal) (hr : Returned m'.journal) : Ahead id rest m' ∨ Gone id m' := by
  induction hs with
  | refl => exact .inl h
  | @tail m₁ m₂ hpath hs ih =>
    have hf₁ := hs.2.fresh hf
    have hocc := ho.turns hpath
    rcases ih hf₁ (hs.2.returned hr) with h | hg
    · exact h.turns hocc hf₁ (Journal.asked_adds (grows_of_turns hpath) ha) hs hr
    · exact .inr (hg.turns hocc (.single hs))

/-- The last task ahead of the tasks `rest` is about the connection. -/
def Awaits (id : Nat) (rest : List (Task π ν)) (m : Moment κ π ν) : Prop :=
  ∃ ts t, m.phase.tasks = ts ++ t :: rest ∧ t.subjects = [id] ∧
    ∀ t' ∈ ts ++ [t], t'.isProceed = false

omit [Kernel κ] in
theorem Awaits.ahead (h : Awaits id rest m) : Ahead id rest m := by
  obtain ⟨ts, t, htasks, ht, hts⟩ := h
  refine ⟨ts ++ [t], by rw [htasks, List.append_assoc]; rfl, ?_, hts⟩
  rw [List.flatMap_append, List.mem_append]
  exact .inr (List.mem_flatMap.2 ⟨t, List.mem_singleton_self t, ht ▸ List.mem_singleton_self id⟩)

theorem Awaits.turns (h : Awaits id rest m) (ho : Occurs P outside b m) (hs : Turns P outside m m')
    (hr : Returned m'.journal) : m'.phase.tasks = rest ∨ Awaits id rest m' ∨ Gone id m' := by
  obtain ⟨hb, hs⟩ := hs
  cases hs with
  | kernel | listener | request => exact .inr (.inl h)
  | task r first rest' =>
    obtain ⟨ts, t, htasks, ht, hts⟩ := h
    have hawaits (new new' : List (Task π ν)) (t : Task π ν)
        (hgo : (advance P first r).2 = .go new) (hrest : new ++ rest' = new' ++ t :: rest)
        (ht : t.subjects = [id]) (hnew : ∀ t' ∈ new' ++ [t], t'.isProceed = false) :
        Awaits id rest ⟨(advance P first r).1, (advance P first r).2.phase rest'⟩ := by
      refine ⟨new', t, ?_, ht, hnew⟩
      rw [hgo]
      exact (Phase.tasks_ofTasks _).trans hrest
    cases ts with
    | cons t' ts =>
      cases htasks
      obtain ⟨ht', hts⟩ := List.forall_mem_cons.1 hts
      obtain ⟨new, hgo, hnew⟩ | ⟨-, hraised⟩ :=
        advance_goes (P := P) ht' ho.agrees.sound.holding.kept
      · refine .inr (.inl (hawaits new (new ++ ts) t hgo (List.append_assoc new ts _).symm ht ?_))
        rw [List.append_assoc]
        exact List.forall_mem_append.2 ⟨hnew, hts⟩
      · exact absurd hr hraised
    | nil =>
      cases htasks
      have hone {t' : Task π ν} (h : t'.isProceed = false) :
          ∀ t ∈ [] ++ [t'], t.isProceed = false := List.forall_mem_singleton.2 h
      cases first with
      | serveAll events watched =>
        obtain ⟨x, rfl, rfl⟩ := List.map_eq_singleton_iff.1 ht
        exact .inr (.inl (hawaits _ [] _ rfl rfl rfl (hone rfl)))
      | serve x event now =>
        obtain ⟨rfl⟩ := List.singleton_inj.1 ht
        obtain ⟨ts, t, hlast, ht⟩ := attend_last (P := P) x event now r
        refine .inr (.inl (hawaits (attend P x event now r).2 ts t rfl ?_ ht ?_))
        · rw [hlast, List.append_assoc]
          rfl
        · rw [← hlast]
          exact fun t' ht' ↦ Task.not_proceed_of_errand (attend_errands x event now r t' ht')
      | check id' =>
        obtain rfl := List.singleton_inj.1 ht
        have hlive : id' ∈ r.live := ho.settled.alive id' List.mem_cons_self
        obtain ⟨c, -, -, hc, -⟩ := ho.agrees.sound.holding.live hlive
        by_cases hcon : c.isConnected
        · refine .inl ?_
          have hgo : (advance P (.check id') r).2 = .go [] := by
            simp only [advance, hc, if_pos hcon]
          rw [hgo]
          exact Phase.tasks_ofTasks _
        · have hgo : (advance P (.check id') r).2 = .go [.finalize id' .closed] := by
            simp only [advance, hc, if_neg hcon]
          exact .inr (.inl (hawaits _ [] _ hgo rfl rfl (hone rfl)))
      | finalize id' why =>
        obtain rfl := List.singleton_inj.1 ht
        exact .inr (.inr (gone_of_ended ho))
      | _ => cases ht
  | _ => cases hb

theorem ahead_of_passes {x : Watched} {event : Event} {now : Nat} (ho : Occurs P outside b m)
    (hm : m.phase = .busy (.serve x event now) rest)
    (hs : ReflTransGen (Passes P outside rest) m m') (hr : Returned m'.journal) :
    m'.phase.tasks = rest ∨ Awaits x.id rest m' ∨ Gone x.id m' := by
  induction hs with
  | refl =>
    refine .inr (.inl ⟨[], .serve x event now, ?_, rfl, List.forall_mem_singleton.2 rfl⟩)
    rw [hm]
    rfl
  | @tail m₁ m₂ hpath hs ih =>
    have hocc := ho.turns (ReflTransGen.mono (fun _ _ ↦ And.right) _ _ hpath)
    obtain ⟨⟨first, ts, htasks⟩, hs⟩ := hs
    rcases ih (hs.2.returned hr) with hover | h | hg
    · have hlen := congrArg List.length (hover.symm.trans htasks)
      simp at hlen
      omega
    · exact h.turns hocc hs hr
    · exact .inr (.inr (hg.turns hocc (.single hs)))

/-- The connection is live, and is not to be ended. -/
structure Safe (id : Nat) (m : Moment κ π ν) : Prop where
  live : id ∈ m.reactor.live
  tasks : ∀ why, .finalize id why ∉ m.phase.tasks

/-- The reactor was not cancelled, or has not come to see to it. -/
def Forbears (m : Moment κ π ν) : Prop := m.reactor.cancelled = false ∨ .proceed ∈ m.phase.tasks

theorem Step.cancelled (hs : Step P outside m m') (hb : m.phase.isBusy)
    (h : m.reactor.cancelled) : m'.reactor.cancelled := by
  cases hs with
  | kernel | listener => exact h
  | request r phase q => exact request_cancelled q h
  | task r first rest =>
    obtain ⟨app, hd⟩ := advance_deed (P := P) first r
    exact hd.cancelled h
  | _ => cases hb

theorem Forbears.turns (h : Forbears m') (hk : m.reactor.pool.Kept) (hs : Turns P outside m m') :
    Forbears m := by
  rcases h with h | h
  · refine .inl (Bool.eq_false_iff.2 fun hx ↦ ?_)
    cases h.symm.trans (hs.2.cancelled hs.1 hx)
  · obtain ⟨hb, hs⟩ := hs
    cases hs with
    | kernel | listener | request => exact .inr h
    | task r first rest' =>
      refine .inr ?_
      -- The end of the pass is ahead until it is come to.
      cases hfirst : first.isProceed with
      | true =>
        cases first with
        | proceed => exact List.mem_cons_self
        | _ => cases hfirst
      | false =>
        refine List.mem_cons_of_mem first ?_
        obtain ⟨ts, hgo, hts⟩ | ⟨honly, -⟩ := advance_goes (P := P) hfirst hk
        · rw [hgo, Next.phase, Phase.tasks_ofTasks] at h
          refine (List.mem_append.1 h).resolve_left fun hmem ↦ ?_
          cases hts _ hmem
        · rw [honly] at h
          cases h
    | _ => cases hb

theorem forbears_of_turns (ho : Occurs P outside b m) (hs : ReflTransGen (Turns P outside) m m')
    (h : Forbears m') : Forbears m := by
  induction hs with
  | refl => exact h
  | @tail m₁ m₂ hpath hs ih => exact ih (h.turns (ho.turns hpath).agrees.sound.holding.kept hs)

theorem Forbears.run {r : Reactor κ π ν} (h : Forbears (tasked P ⟨r, .busy .proceed rest⟩)) :
    r.cancelled = false := by
  refine Bool.eq_false_iff.2 fun hx ↦ ?_
  have htasked : tasked P ⟨r, .busy .proceed rest⟩ =
      ⟨r, .ofTasks (r.live.map (.finalize · .closed))⟩ := by
    simp only [tasked, advance, if_pos hx]
    rfl
  rw [htasked, Forbears, Phase.tasks_ofTasks] at h
  rcases h with h | h
  · cases hx.symm.trans h
  · obtain ⟨id, -, he⟩ := List.mem_map.1 h
    cases he

theorem Safe.turns (h : Safe id m) (ho : Occurs P outside b m) (hs : Turns P outside m m')
    (hforbears : Forbears m') (hask : asked id true m.journal = false)
    (hserve : ∀ x event now rest, m.phase = .busy (.serve x event now) rest → m' = tasked P m →
      x.id = id → (attend P x event now m.reactor).2 = [.check id]) : Safe id m' := by
  obtain ⟨hb, hs⟩ := hs
  cases hs with
  | kernel | listener => exact ⟨h.live, h.tasks⟩
  | request r phase q =>
    refine ⟨?_, h.tasks⟩
    rw [(request_still q r).live]
    exact h.live
  | task r first rest' =>
    have hspared (why : Teardown) : .finalize id why ∉ (advance P first r).2.tasks := by
      refine advance_spares ?_ ?_ ?_ why
      · rintro rfl
        exact hforbears.run
      · rintro x event now rfl hid
        exact hserve x event now rest' rfl rfl hid
      · rintro - c hc
        -- A connection that is not connected any more was closed by a call.
        refine (ho.frank.candid id h.live c hc).resolve_right fun ha ↦ ?_
        cases hask.symm.trans ha
    refine ⟨?_, fun why hmem ↦ ?_⟩
    · cases advance_turnover (P := P) first r with
      | quiet live => exact live ▸ h.live
      | told cb ht hid live => exact live ▸ h.live
      | admitted fd d live => exact live ▸ List.mem_append_left _ h.live
      | ended id' why hfirst live =>
        refine live ▸ List.mem_filter.2 ⟨h.live, decide_eq_true fun he ↦ h.tasks why ?_⟩
        rw [he, hfirst]
        exact List.mem_cons_self
    · rcases List.mem_append.1 (Next.tasks_phase _ hmem) with hmem | hmem
      · exact hspared why hmem
      · exact h.tasks why (List.mem_cons_of_mem first hmem)
  | _ => cases hb

variable {m₀ : Moment κ π ν} {w : Wait} {reported : List UInt16} {x : Watched} {event : Event}
  {now : Nat} {fd : Fd}

theorem Comes.rests (h : Occurs P outside b m₀) (hw : m₀.phase = .waiting w)
    (hf : Fresh m.journal) (hfd : m₀.reactor.fd? x.id = some fd)
    (hp : Comes P outside w reported m₀ x event now m) (hword : w.list.word reported fd = 0)
    (hl : ∀ c, m.reactor.conn? x.id = some c → ¬ (c.closePending ∧ c.output.isEmpty))
    (hi : ¬ m.Overdue x.id now) : (attend P x event now m.reactor).2 = [.check x.id] := by
  have hf₀ : Fresh m₀.journal := (grows_of_turns hp.reached).fresh hf
  obtain ⟨c, fd', hc, hfd', hlast⟩ := Comes.known h hw hf hp
  obtain ⟨hnone, hh⟩ := Comes.silent h hw hf₀ hfd hp hword
  have ha := attend_attendance (P := P) hc hfd' event now
  generalize attend P x event now m.reactor = out at ha ⊢
  cases ha with
  | leaves hl' => exact absurd hl' (hl c hc)
  | transfers _ way hw => exact absurd hw (hnone way)
  | hangs _ _ hh' => cases hh.symm.trans hh'
  | idles hl' _ _ hi' =>
    exact absurd ⟨c, c.lastActivity, hc, hl', hlast, (c.isIdle_iff now _).1 hi'⟩ hi
  | rests => rfl

theorem safe_of_turns (h : Occurs P outside b m₀) (hw : m₀.phase = .waiting w)
    (hf : Fresh m'.journal) (hid : id ∈ m₀.reactor.live) (hfd : m₀.reactor.fd? id = some fd)
    (hword : w.list.word reported fd = 0) (hforbears : Forbears m')
    (hask : asked id true m'.journal = false)
    (hrest : ∀ x event now m, x.id = id → Comes P outside w reported m₀ x event now m →
      ReflTransGen (Turns P outside) (tasked P m) m' → ¬ m.Overdue id now ∧
        ∀ c, m.reactor.conn? id = some c → ¬ (c.closePending ∧ c.output.isEmpty))
    (hm : Answered P outside w reported m₀ m) (hpath : ReflTransGen (Turns P outside) m m') :
    Safe id m := by
  -- The path to the end is carried along: what is not asked for by then never was before.
  induction hm with
  | refl =>
    refine ⟨hid, fun why hmem ↦ ?_⟩
    rw [opened, Phase.tasks_ofTasks, turnTasks] at hmem
    split_ifs at hmem <;> simp at hmem
  | @tail m₁ m₂ hm₁ hs ih =>
    have hocc := (h.answered hw reported).turns hm₁
    have hf₁ : Fresh m₁.journal := (grows_of_turns (.head hs hpath)).fresh hf
    have hfor := forbears_of_turns (hocc.turns (.single hs)) hpath hforbears
    refine (ih (.head hs hpath)).turns hocc hs hfor ?_ fun x event now rest hserve he hid' ↦ ?_
    · refine Bool.eq_false_iff.2 fun ha ↦ ?_
      cases hask.symm.trans (Journal.asked_adds (grows_of_turns (.head hs hpath)) ha)
    · have hp : Comes P outside w reported m₀ x event now m₁ :=
        place_of_turns (h.answered hw reported).agrees hm₁ hserve
      obtain ⟨hi, hl⟩ := hrest x event now m₁ hid' hp (he ▸ hpath)
      subst hid'
      exact Comes.rests h hw hf₁ hfd hp hword hl hi

theorem tasked_of_closing (hs : m.reactor.Apprised) (ho : Occurs P outside b m)
    (hm : m.phase = .busy (.serve x event now) rest) (ha : asked x.id false m.journal)
    (hq : ∀ c, m.reactor.conn? x.id = some c → c.output.isEmpty) :
    (tasked P m).phase = .busy (.finalize x.id .closed) rest := by
  have hlive : x.id ∈ m.reactor.live := ho.settled.alive x.id (by
    rw [hm]
    exact List.mem_cons_self)
  obtain ⟨c, -, -, hc, -⟩ := ho.agrees.sound.holding.live hlive
  have hattend : attend P x event now m.reactor = (m.reactor, [.finalize x.id .closed]) := by
    unfold attend
    simp only [hc, if_pos (And.intro (hs.closing x.id c hc ha) (hq c hc))]
  unfold tasked
  rw [hm]
  simp only [advance, hattend]
  rfl

omit [Kernel κ] in
theorem ahead_opened {events : List Event} {r : Reactor κ π ν}
    (h : id ∈ w.watched.map (·.id)) : Ahead id [.proceed] (opened w events r) := by
  refine ⟨(if isReported events listenerToken then r.listener.toList.map .accept else []) ++
    [.settle events, .serveAll events w.watched], ?_, ?_, ?_⟩
  · refine (Phase.tasks_ofTasks _).trans ?_
    rw [List.append_assoc]
    rfl
  · rw [List.flatMap_append, List.mem_append]
    exact .inr (List.mem_flatMap.2 ⟨_, List.mem_cons_of_mem _ List.mem_cons_self, h⟩)
  · refine List.forall_mem_append.2 ⟨?_, ?_⟩
    · split_ifs
      · exact List.forall_mem_map.2 fun _ _ ↦ rfl
      · exact List.forall_mem_nil _
    · exact List.forall_mem_cons.2 ⟨rfl, List.forall_mem_singleton.2 rfl⟩

/-- What the turn behind the wait `w` at `m` makes of the requests to close. -/
structure HonoursTurn (P : Policy π ν) (outside : Phase π ν → Prop) (w : Wait)
    (reported : List UInt16) (m : Moment κ π ν) : Prop where
  ends : Answered P outside w reported m ⟨(resume P w (.ok reported) m.reactor).2,
    .ofProgress (resume P w (.ok reported) m.reactor).1⟩
  immediate : ∀ id ∈ m.reactor.live, asked id true m.journal → ∀ m',
    Answered P outside w reported m m' → Fresh m'.journal → Returned m'.journal →
      Ahead id [.proceed] m' ∨ Gone id m'
  graceful : ∀ id ∈ m.reactor.live, ∀ m', Answered P outside w reported m m' →
    m'.phase.isBusy = false → Fresh m'.journal → Returned m'.journal →
      ∃ x event now m₁, x.id = id ∧ Comes P outside w reported m x event now m₁ ∧
        ReflTransGen (Turns P outside) (tasked P m₁) m' ∧ (asked id false m₁.journal →
          (∀ c, m₁.reactor.conn? id = some c → c.output.isEmpty) → Gone id m')
  /-- One that nobody closes, of which nothing is reported and which is not idle for too long goes
  on, unless the reactor is cancelled and has come to see to that. -/
  spared : ∀ id ∈ m.reactor.live, ∀ fd, m.reactor.fd? id = some fd →
    w.list.word reported fd = 0 → ∀ m', Answered P outside w reported m m' → Fresh m'.journal →
      Forbears m' → asked id true m'.journal = false →
        (∀ x event now m₁, x.id = id → Comes P outside w reported m x event now m₁ →
          ReflTransGen (Turns P outside) (tasked P m₁) m' → ¬ m₁.Overdue id now ∧
            ∀ c, m₁.reactor.conn? id = some c → ¬ (c.closePending ∧ c.output.isEmpty)) →
          id ∈ m'.reactor.live

/-- What becomes of the requests to close that were made up to the moment `m`. -/
structure Honours (P : Policy π ν) (outside : Phase π ν → Prop) (m : Moment κ π ν) : Prop where
  shut : ∀ id c, m.reactor.conn? id = some c → asked id true m.journal → c.isConnected = false
  closing : ∀ id c, m.reactor.conn? id = some c → asked id false m.journal → c.closePending
  /-- A connection closed at once is ended with what is ahead of it. -/
  ahead : ∀ id rest, Ahead id rest m → asked id true m.journal → ∀ m',
    ReflTransGen (Turns P outside) m m' → Fresh m'.journal → Returned m'.journal →
      Ahead id rest m' ∨ Gone id m'
  /-- The pass over a connection ends it if it is closed at once before that pass is over. -/
  pass : ∀ x event now rest, m.phase = .busy (.serve x event now) rest → ∀ m₁,
    ReflTransGen (Passes P outside rest) m m₁ → m₁.phase.tasks ≠ rest →
      asked x.id true m₁.journal → ∀ m', ReflTransGen (Turns P outside) m₁ m' →
        Fresh m'.journal → Returned m'.journal → Ahead x.id rest m' ∨ Gone x.id m'
  /-- The pass over a connection ends it at once if it closes behind its output, and has none. -/
  graceful : ∀ x event now rest, m.phase = .busy (.serve x event now) rest →
    asked x.id false m.journal → (∀ c, m.reactor.conn? x.id = some c → c.output.isEmpty) →
      (tasked P m).phase = .busy (.finalize x.id .closed) rest ∧
        ∀ m', ReflTransGen (Turns P outside) (tasked P m) m' →
          m'.phase = .busy (.finalize x.id .closed) rest ∨ Gone x.id m'
  turn : ∀ w, m.phase = .waiting w → ∀ reported, HonoursTurn P outside w reported m

theorem Occurs.honours_turn (h : Occurs P outside b m) (hf : Fresh m.journal)
    (hw : m.phase = .waiting w) (reported : List UInt16) :
    HonoursTurn P outside w reported m := by
  have hopened := h.answered hw reported
  have hroutes := h.routes hf hw
  refine ⟨turns_of_works (resume_works w reported m.reactor), fun id hid ha m' hm' hf' hr' ↦ ?_,
    fun id hid m' hm' hend hf' hr' ↦ ?_,
    fun id hid fd hfd hword m' hm' hf' hfor hask hrest ↦ ?_⟩
  · rw [← hroutes.ids] at hid
    exact ahead_of_turns (ahead_opened hid) hopened ha hm' hf' hr'
  · obtain ⟨x, hx, rfl⟩ : ∃ x ∈ w.watched, x.id = id := by
      rw [← hroutes.ids] at hid
      exact List.mem_map.1 hid
    obtain ⟨m₁, event, now, hp, hpath⟩ := passed_of_turns hopened.agrees hm' hend hr' hx
    refine ⟨x, event, now, m₁, rfl, hp, hpath, fun ha hq ↦ ?_⟩
    have hocc := hopened.turns hp.reached
    obtain ⟨rest, hserve⟩ := hp.served
    have hf₁ : Fresh m₁.journal := (grows_of_turns ((turns_tasks 1 m₁).trans hpath)).fresh hf'
    have hphase := tasked_of_closing (hocc.apprised hf₁) hocc hserve ha hq
    refine (gone_of_finalize hocc.tasked hphase hpath).resolve_left fun he ↦ ?_
    rw [he] at hend
    cases hend
  · exact (safe_of_turns h hw hf' hid hfd hword hfor hask hrest hm' .refl).live

/-- Requests to close are honoured in one pass. A connection that was closed at once, whether in its
own pass, in that of another or between turns, is ended in the pass that it is in or else in the
next, and so is one that closes behind its output when its place comes and none is queued; each
hears of it once. A turn ends no connection of which nothing is reported, unless that is closed or
overdue, or all are ended. -/
theorem Occurs.close_honoured (h : Occurs P outside b m) (hf : Fresh m.journal) :
    Honours P outside m := by
  have happrised := h.apprised hf
  refine ⟨happrised.shut, happrised.closing,
    fun id rest hahead ha m' hm' hf' hr' ↦ ahead_of_turns hahead h ha hm' hf' hr',
    fun x event now rest hm m₁ hpass hnot ha m' hm' hf' hr' ↦ ?_,
    fun x event now rest hm ha hq ↦ ?_, fun w hw ↦ h.honours_turn hf hw⟩
  · have hocc := h.turns (ReflTransGen.mono (fun _ _ ↦ And.right) _ _ hpass)
    rcases ahead_of_passes h hm hpass ((grows_of_turns hm').returned hr') with hover | hawaits | hg
    · exact absurd hover hnot
    · exact ahead_of_turns hawaits.ahead hocc ha hm' hf' hr'
    · exact .inr (hg.turns hocc hm')
  · have hphase := tasked_of_closing happrised h hm ha hq
    exact ⟨hphase, fun m' hm' ↦ gone_of_finalize h.tasked hphase hm'⟩

end Moment

namespace Visit

open Simulation Moment

def dismissed : Moment World Unit Unit :=
  ⟨(Reactor.request (.conn 1 (.close true)) kept.reactor).2, kept.phase⟩

def dropped : Moment World Unit Unit := (tasked policy)^[7] (woken id [1, 0, 0] dismissed)

theorem dismissed_dropped : Occurs policy (fun _ ↦ True) builder dismissed ∧
    Fresh dismissed.journal ∧ ∃ w, dismissed.phase = .waiting w ∧ 1 ∈ dismissed.reactor.live ∧
      asked 1 true dismissed.journal ∧
        Answered policy (fun _ ↦ True) w [1, 0, 0] dismissed dropped ∧
          Fresh dropped.journal ∧ Returned dropped.journal ∧ Gone 1 dropped := by
  have ho : Occurs policy (fun _ ↦ True) builder dismissed :=
    (kept_occurs fun _ ↦ True).request trivial (.conn 1 (.close true))
  obtain ⟨w, hw⟩ : ∃ w, dismissed.phase = .waiting w := kept_waits
  have hopened : woken id [1, 0, 0] dismissed = opened w (ofReport .posix w.list [1, 0, 0])
      dismissed.reactor := by
    unfold woken
    rw [hw]
    rfl
  have hanswered : Answered policy (fun _ ↦ True) w [1, 0, 0] dismissed dropped := by
    rw [Answered, ← hopened]
    exact turns_tasks 7 _
  have hf : Fresh dismissed.journal := by decide +kernel
  have hf' : Fresh dropped.journal := by decide +kernel
  have hr' : Returned dropped.journal := by decide +kernel
  have hlive : 1 ∈ dismissed.reactor.live := by decide +kernel
  have ha : asked 1 true dismissed.journal := by decide +kernel
  have hend : dropped.phase.isBusy = false := by decide +kernel
  have hturn := ((ho.close_honoured hf).turn w hw [1, 0, 0]).immediate 1 hlive ha dropped hanswered
    hf' hr'
  refine ⟨ho, hf, w, hw, hlive, ha, hanswered, hf', hr', hturn.resolve_left fun hahead ↦ ?_⟩
  cases hend.symm.trans hahead.isBusy

end Visit

end PollReactor
