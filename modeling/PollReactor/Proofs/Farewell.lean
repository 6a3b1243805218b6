import PollReactor.Proofs.Agreement
import PollReactor.Proofs.Turnover

namespace PollReactor

open Journal (Adds IsOpen Returned)
open Relation

variable {κ π ν : Type}

namespace Entry

def admits (id : Nat) : Entry (Mark ν) → Bool
  | .remark (.admitted id' ..) => id' = id
  | _ => false

def callback? : Entry (Mark ν) → Option Callback
  | .remark (.callback cb) => some cb
  | _ => none

def parts (id : Nat) (e : Entry (Mark ν)) : Bool :=
  e.callback?.any fun cb ↦ cb.isTerminal && cb.id = id

theorem admits_of_isQuiet {e : Entry (Mark ν)} (h : e.isQuiet) (id : Nat) :
    e.admits id = false := by
  cases e with
  | sys => rfl
  | remark m => cases m <;> first | rfl | cases h

theorem callback?_of_isQuiet {e : Entry (Mark ν)} (h : e.isQuiet) : e.callback? = none := by
  cases e with
  | sys => rfl
  | remark m => cases m <;> first | rfl | cases h

theorem parts_of_isQuiet {e : Entry (Mark ν)} (h : e.isQuiet) (id : Nat) : e.parts id = false := by
  rw [parts, callback?_of_isQuiet h]
  rfl

end Entry

namespace Journal

def admissions (id : Nat) (j : Journal ν) : Nat := j.countP (·.admits id)

/-- How often the connection was told of its end. -/
def farewells (id : Nat) (j : Journal ν) : Nat := j.countP (·.parts id)

def Discreet : Journal ν → Prop
  | [] => True
  | e :: j => (∀ cb, e.callback? = some cb → farewells cb.id j = 0) ∧ Discreet j

variable {j j' : Journal ν}

theorem admissions_quiet (h : Adds (·.isQuiet) j j') (id : Nat) :
    admissions id j' = admissions id j := by
  obtain ⟨new, rfl, hn⟩ := h
  have h0 : new.countP (·.admits id) = 0 := by
    apply List.countP_eq_zero.2
    intro e he
    rw [Entry.admits_of_isQuiet (hn e he)]
    nofun
  rw [admissions, List.countP_append, h0, Nat.zero_add]
  rfl

theorem farewells_quiet (h : Adds (·.isQuiet) j j') (id : Nat) :
    farewells id j' = farewells id j := by
  obtain ⟨new, rfl, hn⟩ := h
  have h0 : new.countP (·.parts id) = 0 := by
    apply List.countP_eq_zero.2
    intro e he
    rw [Entry.parts_of_isQuiet (hn e he)]
    nofun
  rw [farewells, List.countP_append, h0, Nat.zero_add]
  rfl

theorem farewells_callback (cb : Callback) (id : Nat) (j : Journal ν) :
    farewells id (.remark (.callback cb) :: j) =
      farewells id j + if cb.isTerminal ∧ cb.id = id then 1 else 0 := by
  rw [farewells, List.countP_cons]
  simp [Entry.parts, Entry.callback?, farewells]

theorem Discreet.quiet (h : Discreet j) (hq : Adds (·.isQuiet) j j') : Discreet j' := by
  obtain ⟨new, rfl, hn⟩ := hq
  induction new with
  | nil => exact h
  | cons e new ih =>
    refine ⟨?_, ih fun e he ↦ hn e (List.mem_cons_of_mem _ he)⟩
    intro cb hcb
    rw [Entry.callback?_of_isQuiet (hn e List.mem_cons_self)] at hcb
    cases hcb

theorem farewells_le_append (id : Nat) (new j : Journal ν) :
    farewells id j ≤ farewells id (new ++ j) := by
  rw [farewells, farewells, List.countP_append]
  exact Nat.le_add_left _ _

theorem Discreet.of_append {new : Journal ν} (h : Discreet (new ++ j)) : Discreet j := by
  induction new with
  | nil => exact h
  | cons e new ih => exact ih h.2

theorem Discreet.behind {later earlier : Journal ν} {cb cb' : Callback}
    (h : Discreet (later ++ .remark (.callback cb) :: earlier)) (ht : cb.isTerminal)
    (hcb' : .remark (.callback cb') ∈ later) : cb'.id ≠ cb.id := by
  obtain ⟨new, old, rfl⟩ := List.append_of_mem hcb'
  rw [List.append_assoc] at h
  have h0 : farewells cb'.id (old ++ .remark (.callback cb) :: earlier) = 0 :=
    h.of_append.1 cb' rfl
  intro he
  have hle := farewells_le_append cb'.id old (.remark (.callback cb) :: earlier)
  rw [farewells_callback, if_pos ⟨ht, he.symm⟩, h0] at hle
  omega

end Journal

open Journal (admissions farewells Discreet)

namespace Reactor

variable {r r' : Reactor κ π ν}

structure Told (r : Reactor κ π ν) : Prop where
  admissions : ∀ id, admissions id r.os.journal = if 0 < id ∧ id ≤ r.conns.size then 1 else 0
  farewells : ∀ id,
    farewells id r.os.journal = if id ∈ r.live then 0 else Journal.admissions id r.os.journal
  discreet : Discreet r.os.journal

theorem Told.quiet (h : Told r) (hl : r'.live = r.live) (hn : r'.conns.size = r.conns.size)
    (hj : Adds (·.isQuiet) r.os.journal r'.os.journal) : Told r' where
  admissions id := by rw [Journal.admissions_quiet hj, hn, h.admissions]
  farewells id := by
    rw [Journal.farewells_quiet hj, Journal.admissions_quiet hj, hl, h.farewells]
  discreet := h.discreet.quiet hj

theorem Told.callback (h : Told r) (cb : Callback) (hid : cb.id ∈ r.live)
    (hl : r'.live = if cb.isTerminal then r.live.filter (· ≠ cb.id) else r.live)
    (hn : r'.conns.size = r.conns.size) (hb : 0 < cb.id ∧ cb.id ≤ r.conns.size)
    (hj : r'.os.journal = .remark (.callback cb) :: r.os.journal) : Told r' := by
  have ha (id : Nat) : Journal.admissions id r'.os.journal =
      Journal.admissions id r.os.journal := by
    rw [hj]
    exact List.countP_cons_of_neg nofun
  have h1 := h.admissions cb.id
  rw [if_pos hb] at h1
  refine ⟨?_, ?_, ?_⟩
  · intro id
    rw [ha, hn, h.admissions]
  · intro id
    rw [ha, hj, Journal.farewells_callback, h.farewells, hl]
    by_cases he : cb.id = id
    · subst he
      rw [if_pos hid, h1]
      by_cases ht : cb.isTerminal <;> simp [ht, hid]
    · by_cases ht : cb.isTerminal <;> simp [ht, he, Ne.symm he]
  · rw [hj]
    refine ⟨?_, h.discreet⟩
    intro cb' hcb
    obtain rfl := Option.some.inj hcb
    rw [h.farewells, if_pos hid]

theorem Told.admitted (h : Told r) {fd : Option Fd} {d : Draft}
    (hl : r'.live = r.live ++ [r.conns.size + 1])
    (hn : r'.conns.size = r.conns.size + 1)
    (hj : r'.os.journal = .remark (.admitted (r.conns.size + 1) fd d) :: r.os.journal) :
    Told r' := by
  have ha (id : Nat) : Journal.admissions id r'.os.journal =
      Journal.admissions id r.os.journal + if r.conns.size + 1 = id then 1 else 0 := by
    rw [hj, Journal.admissions, List.countP_cons]
    simp [Entry.admits, Journal.admissions]
  have hf (id : Nat) : Journal.farewells id r'.os.journal =
      Journal.farewells id r.os.journal := by
    rw [hj]
    exact List.countP_cons_of_neg nofun
  refine ⟨?_, ?_, ?_⟩
  · intro id
    rw [ha, hn, h.admissions]
    split_ifs <;> omega
  · intro id
    rw [hf, ha, hl, h.farewells]
    by_cases hid : id ∈ r.live
    · simp [hid]
    · by_cases he : id = r.conns.size + 1
      · have h1 := h.admissions id
        rw [if_neg (by omega)] at h1
        subst he
        simp [hid, h1]
      · simp [hid, he, Ne.symm he]
  · rw [hj]
    exact ⟨nofun, h.discreet⟩

theorem Holding.bounds {hand : Option (Token Stream)} (h : Holding r hand) {id : Nat}
    (hid : id ∈ r.live) : 0 < id ∧ id ≤ r.conns.size := by
  obtain ⟨c, -, -, hc, -⟩ := h.live hid
  exact conn?_bounds hc

theorem Told.turnover [Kernel κ] (h : Told r) {hand : Option (Token Stream)} (hh : Holding r hand)
    {first : Task π ν} (hs : ∀ id ∈ first.subjects, id ∈ r.live) (ht : Turnover first r r') :
    Told r' := by
  cases ht with
  | quiet hl hn hj => exact h.quiet hl hn hj
  | told cb ht hid hl hn j hj journal =>
    have h1 : Told { r with os.journal := j } := h.quiet rfl rfl hj
    have hid := hs cb.id hid
    refine h1.callback cb hid ?_ hn (hh.bounds hid) journal
    rw [ht]
    exact hl
  | admitted fd d hl hn j hj journal =>
    have h1 : Told { r with os.journal := j } := h.quiet rfl rfl hj
    exact h1.admitted hl hn journal
  | ended id why hfirst hl hn j hj journal =>
    have h1 : Told { r with os.journal := j } := h.quiet rfl rfl hj
    have hid : id ∈ r.live := hs id (by rw [hfirst]; exact List.mem_cons_self)
    have he : (why.callback id).id = id ∧ (why.callback id).isTerminal := by
      cases why <;> exact ⟨rfl, rfl⟩
    refine h1.callback (why.callback id) (by rw [he.1]; exact hid) ?_ hn
      (by rw [he.1]; exact hh.bounds hid) journal
    rw [if_pos he.2, he.1]
    exact hl

end Reactor

namespace Moment

open Reactor

variable [Kernel κ] {P : Policy π ν} {outside : Phase π ν → Prop} {m m' : Moment κ π ν}

structure Settled (m : Moment κ π ν) : Prop where
  ahead : m.phase.subjects.Nodup
  alive : ∀ id ∈ m.phase.subjects, id ∈ m.reactor.live
  told : m.reactor.Told

omit [Kernel κ] in
theorem Settled.still (h : Settled m) {r : Reactor κ π ν} {C : Entry (Mark ν) → Prop}
    (hs : Still C m.reactor r) (hC : ∀ e, C e → e.isQuiet) : Settled ⟨r, m.phase⟩ where
  ahead := h.ahead
  alive id hid := hs.live ▸ h.alive id hid
  told := h.told.quiet hs.live hs.size (hs.journal.mono hC)

omit [Kernel κ] in
theorem Settled.relisten (h : Settled m) {r : Reactor κ π ν} (hs : Relisten m.reactor r) :
    Settled ⟨r, m.phase⟩ := by
  have hj := hs.journal.mono fun _ he ↦ he.chore.quiet
  obtain ⟨os, listener, rfl, -⟩ := hs
  exact ⟨h.ahead, h.alive, h.told.quiet rfl rfl hj⟩

omit [Kernel κ] in
theorem Settled.turn (h : Settled m) {phase : Phase π ν}
    (hs : phase.subjects.Sublist m.reactor.live) (hn : m.reactor.live.Nodup) :
    Settled ⟨m.reactor, phase⟩ :=
  ⟨hs.nodup hn, fun _ hid ↦ hs.subset hid, h.told⟩

omit [Kernel κ] in
theorem turnTasks_subjects (w : Wait) (events : List Event) (r : Reactor κ π ν) :
    (Phase.ofTasks (turnTasks w events r)).subjects = w.watched.map (·.id) := by
  have hrest : (.settle events :: .serveAll events w.watched :: [.proceed] :
      List (Task π ν)).flatMap Task.subjects = w.watched.map (·.id) :=
    List.append_nil _
  rw [Phase.subjects_ofTasks]
  unfold turnTasks
  split_ifs
  · cases r.listener <;> exact hrest
  · exact hrest

theorem Step.settled {n : Nat} (h : Step P outside m m') (ha : Agrees n m) (hs : Settled m) :
    Settled m' := by
  have hh := ha.sound.holding
  have hnil (r : Reactor κ π ν) : ([] : List Nat).Sublist r.live := List.nil_sublist _
  cases h with
  | kernel r phase k =>
    exact hs.still (C := fun _ ↦ False) (.kernel r k) fun _ h ↦ h.elim
  | listener r phase text => exact hs.relisten (relisten_opening (Sockets.listenOn_opening text) r)
  | request r phase q _ => exact hs.still (request_still q r) fun _ he ↦ he.quiet
  | setUp hr => exact hs.relisten hr.relisten
  | memory r app => exact hs.still (C := fun _ ↦ False) (.app r app) fun _ h ↦ h.elim
  | start r _ => exact hs.turn (hnil r) hh.nodup
  | wake r w reported =>
    refine ⟨?_, ?_, hs.told⟩
    all_goals
      dsimp only
      rw [turnTasks_subjects]
    · exact hs.ahead
    · exact hs.alive
  | fail r w => exact hs.turn (hnil r) hh.nodup
  | cleanup r =>
    have hsub : (Phase.ofTasks (r.cleanupTasks (π := π) (ν := ν))).subjects = r.live := by
      rw [Phase.subjects_ofTasks, cleanupTasks, List.flatMap_append, subjects_finalizeAll]
      exact List.append_nil _
    exact hs.turn (hsub ▸ .refl r.live) hh.nodup
  | task r first rest =>
    have halive : ∀ id ∈ first.subjects ++ rest.flatMap Task.subjects, id ∈ r.live := hs.alive
    have ht := advance_turnover (P := P) first r
    have htold := hs.told.turnover hh (fun id hid ↦ halive id (List.mem_append_left _ hid)) ht
    obtain ⟨hn, hsub⟩ := (advance_follows (P := P) first r).phase hs.ahead halive hh.nodup
    refine ⟨hn, ?_, htold⟩
    intro id hid
    cases ht with
    | quiet hl => exact hl ▸ hsub id hid
    | told cb ht hid' hl => exact hl ▸ hsub id hid
    | admitted fd d hl => exact hl ▸ List.mem_append_left _ (hsub id hid)
    -- Each connection is ahead once at most, so that nothing behind is about the one that goes.
    | ended id' why hfirst hl =>
      subst hfirst
      rw [hl, List.mem_filter]
      refine ⟨hsub id hid, decide_eq_true ?_⟩
      intro he
      have hrest : id ∈ rest.flatMap Task.subjects := hid
      exact (List.nodup_cons.1 hs.ahead).1 (he ▸ hrest)

omit [Kernel κ] in
theorem told_of_empty {r : Reactor κ π ν} (hconns : r.conns = #[])
    (hj : Adds (·.isQuiet) [] r.os.journal) : Told r := by
  have h : Told (ν := ν) { r with os := ⟨r.os.kernel, []⟩ } := by
    refine ⟨?_, ?_, trivial⟩
    · intro id
      show 0 = if 0 < id ∧ id ≤ r.conns.size then 1 else 0
      rw [hconns, if_neg fun h : 0 < id ∧ id ≤ #[].size ↦ absurd h.2 (Nat.not_le.2 h.1)]
    · intro id
      show 0 = if id ∈ r.live then 0 else 0
      split_ifs <;> rfl
  exact h.quiet rfl rfl hj

theorem built_settled {b : Builder} {app : π} {os os' : Os κ (Mark ν)} {r : Reactor κ π ν}
    (h : b.build app os = (.ok r, os')) (hj : os.journal = []) : Settled ⟨r, .idle⟩ := by
  obtain ⟨hconns, hsetup⟩ := built_bare h hj
  have hquiet := hsetup.mono fun _ he ↦ (Entry.chore_of_isSetup he).quiet
  exact ⟨.nil, nofun, told_of_empty hconns hquiet⟩

theorem Occurs.settled {b : Builder} (h : Occurs P outside b m) : Settled m :=
  h.step_induction (fun _ _ _ _ hb hj ↦ built_settled hb hj)
    fun _ _ ho hs hset ↦ hs.settled ho.agrees hset

end Moment

namespace Reactor

variable [Kernel κ] {P : Policy π ν}

theorem runScript_live {α : Type} (script : Script ν α) (r : Reactor κ π ν) :
    (runScript script r).2.live = r.live := by
  induction script generalizing r with
  | done a => rfl
  | ask q next ih => exact (ih _ _).trans (request_still q r).live
  | say v next ih => exact ih _

theorem notify_spec (cb : Callback) (r : Reactor κ π ν) : match notify P cb r with
    | (.ok (), r') => r'.live = r.live
    | (.error _, r') => ¬ Returned r'.os.journal := by
  have he : notify P cb r =
      concluded (runScript (P.heard cb r.app) (remark (.callback cb) r).2) :=
    consult_run (P.heard cb) (remark (.callback cb) r).2
  have hl := runScript_live (P.heard cb r.app) (remark (κ := κ) (.callback cb) r).2
  rw [he]
  generalize runScript (P.heard cb r.app) (remark (.callback cb) r).2 = out at hl ⊢
  rcases out with ⟨⟨p | ⟨⟩, app⟩, r'⟩
  · exact fun h ↦ by cases h _ List.mem_cons_self
  · exact hl

theorem finalizeAll_spec (ids : List Nat) (r : Reactor κ π ν) : match finalizeAll P ids r with
    | (.ok (), r') => r'.live = r.live.filter (· ∉ ids)
    | (.error _, r') => ¬ Returned r'.os.journal := by
  induction ids generalizing r with
  | nil => exact (List.filter_eq_self.2 fun _ _ ↦ rfl).symm
  | cons id ids ih =>
    have he : finalizeAll P (id :: ids) r =
        andThen (fun _ ↦ finalizeAll P ids) (notify P (.closed id) (part id r)) := by
      show (finalize P id .closed >>= fun _ ↦ finalizeAll P ids) r = _
      rw [pass_bind]
      rfl
    have hn := notify_spec (P := P) (.closed id) (part id r)
    rw [he]
    generalize notify P (.closed id) (part id r) = out at hn ⊢
    rcases out with ⟨p | ⟨⟩, r₁⟩
    · exact hn
    · have ih := ih r₁
      show match finalizeAll P ids r₁ with
        | (.ok (), r') => r'.live = r.live.filter (· ∉ id :: ids)
        | (.error _, r') => ¬ Returned r'.os.journal
      generalize finalizeAll P ids r₁ = out at ih ⊢
      rcases out with ⟨p | ⟨⟩, r₂⟩
      · exact ih
      · dsimp only at hn ih ⊢
        rw [ih, hn, part_live, List.filter_filter]
        apply List.filter_congr
        intro id' _
        simp [Bool.and_comm]

theorem finalizeAll_live {r r' : Reactor κ π ν}
    (h : finalizeAll P r.live r = (.ok (), r')) : r'.live = [] := by
  have hs := finalizeAll_spec (P := P) r.live r
  rw [h] at hs
  refine hs.trans (List.filter_eq_nil_iff.2 ?_)
  intro id hid
  simp [hid]

theorem proceed_live {r : Reactor κ π ν} (h : (proceed P r).1 = .ended (.ok ())) :
    (proceed P r).2.live = [] := by
  rw [proceed_run] at h ⊢
  split_ifs at h ⊢
  · rcases hf : finalizeAll P r.live r with ⟨p | ⟨⟩, r'⟩
    · rw [hf] at h
      cases h
    · exact finalizeAll_live hf

end Reactor

namespace Moment

open Reactor

variable [Kernel κ] {P : Policy π ν} {outside : Phase π ν → Prop} {m m' : Moment κ π ν}

/-- A run that ends well, or a clean-up in which callbacks return. -/
inductive Closes (P : Policy π ν) : Moment κ π ν → Moment κ π ν → Prop where
  | start (r : Reactor κ π ν) (h : (Reactor.start P r).1 = .ended (.ok ())) :
      Closes P ⟨r, .idle⟩ ⟨(Reactor.start P r).2, .idle⟩
  | resume (r : Reactor κ π ν) (w : Wait) (report : Except Errno (List UInt16))
      (h : (Reactor.resume P w report r).1 = .ended (.ok ())) :
      Closes P ⟨r, .waiting w⟩ ⟨(Reactor.resume P w report r).2, .idle⟩
  | cleanup (r : Reactor κ π ν) (h : Returned (Reactor.cleanup P r).2.os.journal) :
      Closes P ⟨r, .idle⟩ ⟨(Reactor.cleanup P r).2, .idle⟩

theorem Closes.act (h : Closes P m m') : Act P outside m m' := by
  cases h with
  | start r h =>
    have ha : Act P outside ⟨r, .idle⟩ _ := .start r
    rw [h] at ha
    exact ha
  | resume r w report h =>
    have ha : Act P outside ⟨r, .waiting w⟩ _ := .resume r w report
    rw [h] at ha
    exact ha
  | cleanup r => exact .cleanup r

theorem Closes.live (h : Closes P m m') : m'.reactor.live = [] := by
  cases h with
  | start r h =>
    have he : Reactor.start P r =
      (ite (r.listener.isNone = true) _ _ : ReactorM κ π ν Progress) r := rfl
    show (Reactor.start P r).2.live = []
    rw [he] at h ⊢
    split_ifs at h ⊢
    · cases h
    · exact proceed_live h
  | resume r w report h =>
    show (Reactor.resume P w report r).2.live = []
    unfold Reactor.resume at h ⊢
    rcases report with e | reported
    · dsimp only at h
      split_ifs at h
      · cases h
      · cases h
    · simp only [bind_run] at h ⊢
      generalize (turn P w (Event.ofReport .posix w.list reported)).run r = out at h ⊢
      rcases out with ⟨p | ⟨⟩, r'⟩
      · cases h
      · exact proceed_live h
  | cleanup r h =>
    have hs := finalizeAll_spec (P := P) r.live r
    have he : (closeConnections P).run r = finalizeAll P r.live r := rfl
    show (Reactor.cleanup P r).2.live = []
    replace h : Returned (Reactor.cleanup P r).2.os.journal := h
    unfold Reactor.cleanup at h ⊢
    rw [bind_run, he] at h ⊢
    rcases hf : finalizeAll P r.live r with ⟨p | ⟨⟩, r'⟩
    · rw [hf] at h hs
      exact absurd h hs
    · obtain ⟨os, listener, hr, -⟩ := closeListener_relisten r'
      have hl : r'.live = [] := finalizeAll_live hf
      show (closeListener r').2.live = []
      rw [hr]
      exact hl

/-- A connection, live at `m`, is gone when its last callback begins at `m'`. -/
structure Leaves (P : Policy π ν) (cb : Callback) (m m' : Moment κ π ν) : Prop where
  begins : ∃ rest, m'.phase = .busy (.hear (P.heard cb m'.reactor.app)) rest
  socket : ∃ c t fd a, m.reactor.conn? cb.id = some c ∧ c.socket = some t ∧ t.value.fd = some fd ∧
    m'.journal = .remark (.callback cb) :: .sys (.close fd) a :: m.journal ∧
    ¬ IsOpen fd m'.journal ∧ t.slot ∈ m'.reactor.pool.free ∧
    m'.reactor.pool.slots[t.slot]? = some (some .empty)
  detached : ∃ c, m'.reactor.conn? cb.id = some c ∧ c.socket = none
  unlisted : cb.id ∈ m.reactor.live ∧ cb.id ∉ m'.reactor.live
  count : (Reactor.request .count m'.reactor).1 + 1 = (Reactor.request .count m.reactor).1
  broadcast : ∀ bs, (Reactor.request (.broadcast bs) m'.reactor).2.conn? cb.id =
    m'.reactor.conn? cb.id

theorem finalize_leaves {id : Nat} {why : Teardown} {rest : List (Task π ν)} {r : Reactor κ π ν}
    {cb : Callback} (hcb : cb = why.callback id) (hh : Holding r none) (hid : id ∈ r.live) :
    Leaves P cb ⟨r, .busy (.finalize id why) rest⟩
      ⟨(advance P (.finalize id why) r).1, (advance P (.finalize id why) r).2.phase rest⟩ := by
  obtain ⟨c, t, fd, hc, ht, hfd, hp⟩ := hh.live hid
  obtain ⟨hpool, hslot, -⟩ := hh.out (.conn id) t.place hp
  have hpart := part_of_some hc ht hfd
  rw [Pool.release_eq (t := { t with value := .empty }) hpool hslot] at hpart
  have he : cb.id = id := by rw [hcb]; cases why <;> rfl
  have hadv : advance P (.finalize id why) r =
      ((remark (.callback cb) (part id r)).2, .go [.hear (P.heard cb (part id r).app)]) := by
    rw [hcb]
    rfl
  have hconn : (part id r).conn? id = some { c with socket := none } := by
    rw [hpart]
    exact (conn?_setConn hc _ id).trans (if_pos rfl)
  have hlive : (part id r).live = r.live.filter (· ≠ id) := part_live id r
  have hgone : id ∉ (part id r).live := by
    rw [hlive, List.mem_filter]
    simp
  rw [hadv]
  refine ⟨⟨rest, rfl⟩, ⟨c, t, fd, (Os.call (.close fd) r.os).1, he ▸ hc, ht, hfd, ?_, ?_, ?_, ?_⟩,
    ⟨{ c with socket := none }, ?_, rfl⟩, ⟨he ▸ hid, ?_⟩, ?_, ?_⟩
  · show .remark (.callback cb) :: (part id r).os.journal = _
    rw [hpart]
    rfl
  · rintro (h | h | ⟨-, h⟩)
    · cases h
    · cases h
    · rw [hpart] at h
      exact (Journal.isOpen_close.1 h).1 rfl
  · show t.slot ∈ (part id r).pool.free
    rw [hpart]
    exact List.mem_cons_self
  · show (part id r).pool.slots[t.slot]? = _
    rw [hpart]
    exact Pool.getElem?_parked.2 (by
      rw [if_pos rfl]
      exact ⟨(Array.getElem?_eq_some_iff.1 hslot).1, rfl⟩)
  · rw [he]
    exact hconn
  · rw [he]
    exact hgone
  · show (part id r).live.length + 1 = r.live.length
    rw [hlive]
    exact length_filter_ne hh.nodup hid
  · intro bs
    rw [he]
    exact writeAll_conn? bs hgone _

theorem Step.leaves {n : Nat} (h : Step P outside m m') (ha : Agrees n m) (hs : Settled m)
    {cb : Callback} {new : Journal ν} (hj : m'.journal = new ++ m.journal)
    (hcb : .remark (.callback cb) ∈ new) (ht : cb.isTerminal) : Leaves P cb m m' := by
  have hquiet (hq : Adds (·.isQuiet) m.journal m'.journal) : Leaves P cb m m' := by
    cases hq.of_append hj _ hcb
  cases h with
  | kernel => exact hquiet (.refl _)
  | listener r phase text =>
    have hr := relisten_opening (Sockets.listenOn_opening (κ := κ) (ν := ν) text) r
    exact hquiet (hr.journal.mono fun _ he ↦ he.chore.quiet)
  | request r phase q _ => exact hquiet ((request_still q r).journal.mono fun _ he ↦ he.quiet)
  | setUp hr => exact hquiet (hr.relisten.journal.mono fun _ he ↦ he.chore.quiet)
  | memory => exact hquiet (.refl _)
  | start => exact hquiet (.refl _)
  | wake => exact hquiet (.refl _)
  | fail => exact hquiet (.refl _)
  | cleanup => exact hquiet (.refl _)
  | task r first rest =>
    -- A task begins one callback at most, and writes that down last.
    have hlast {e : Entry (Mark ν)} {j : Journal ν} (hq : Adds (·.isQuiet) r.os.journal j)
        (he : (advance P first r).1.os.journal = e :: j) : e = .remark (.callback cb) := by
      obtain ⟨old, rfl, hold⟩ := hq
      obtain rfl : new = e :: old := List.append_cancel_right (hj.symm.trans he)
      rcases List.mem_cons.1 hcb with hcb | hcb
      · exact hcb.symm
      · cases hold _ hcb
    have hto := advance_turnover (P := P) first r
    cases hto with
    | quiet _ _ hq => exact hquiet hq
    | told cb' ht' _ _ _ _ hq journal =>
      cases hlast hq journal
      cases ht.symm.trans ht'
    | admitted _ _ _ _ _ hq journal => cases hlast hq journal
    | ended id why hfirst _ _ _ hq journal =>
      subst hfirst
      cases hlast hq journal
      exact finalize_leaves rfl ha.sound.holding (hs.alive id List.mem_cons_self)

/-- Every connection is told of its end at most once, and exactly once when a run has ended well or
a clean-up is over. It is gone by then, and nothing is told of it afterwards. -/
theorem Occurs.farewell {b : Builder} (h : Occurs P outside b m) :
    (∀ id, m.journal.admissions id ≤ 1 ∧ m.journal.farewells id ≤ m.journal.admissions id) ∧
    (∀ m' m'', Closes P m m' → ReflTransGen (Act P outside) m' m'' →
      ∀ id, m'.journal.admissions id = 1 → m''.journal.farewells id = 1) ∧
    (∀ m' cb new, Step P outside m m' → m'.journal = new ++ m.journal →
      .remark (.callback cb) ∈ new → cb.isTerminal → Leaves P cb m m') ∧
    ∀ later earlier cb, m.journal = later ++ .remark (.callback cb) :: earlier → cb.isTerminal →
      ∀ cb', .remark (.callback cb') ∈ later → cb'.id ≠ cb.id := by
  have hmost {m : Moment κ π ν} (h : Occurs P outside b m) (id : Nat) :
      m.journal.admissions id ≤ 1 ∧ m.journal.farewells id ≤ m.journal.admissions id := by
    have hs := h.settled.told
    have ha := hs.admissions id
    have hf := hs.farewells id
    constructor
    · show admissions id m.reactor.os.journal ≤ 1
      rw [ha]
      split_ifs <;> omega
    · show farewells id m.reactor.os.journal ≤ admissions id m.reactor.os.journal
      rw [hf]
      split_ifs <;> omega
  refine ⟨hmost h, ?_, fun m' cb new hs hj hcb ht ↦ hs.leaves h.agrees h.settled hj hcb ht, ?_⟩
  · intro m' m'' hc hs id hid
    have h' : Occurs P outside b m' := h.acts (.single hc.act)
    have h'' : Occurs P outside b m'' := h'.acts hs
    have hone : m'.journal.farewells id = 1 := by
      have hf := h'.settled.told.farewells id
      rw [hc.live] at hf
      exact hf.trans hid
    obtain ⟨new, hnew, -⟩ := (acts_grow hs).journal
    have hle := Journal.farewells_le_append id new m'.journal
    have hup := hmost h'' id
    rw [show new ++ m'.journal = m''.journal from hnew.symm] at hle
    have hle : 1 ≤ m''.journal.farewells id := hone ▸ hle
    omega
  · intro later earlier cb hj ht cb' hcb'
    have hd : Discreet m.journal := h.settled.told.discreet
    rw [hj] at hd
    exact hd.behind ht hcb'

end Moment

theorem Visit.left_farewell : Moment.Occurs policy (fun _ ↦ True) builder rested ∧
    Moment.Closes policy rested left ∧ left.journal.admissions 1 = 1 ∧
    left.journal.farewells 1 = 1 := by
  have ho := rested_occurs fun _ ↦ True
  have hc : Moment.Closes policy rested left := .cleanup kept.reactor (by decide +kernel)
  have ha : left.journal.admissions 1 = 1 := by decide +kernel
  exact ⟨ho, hc, ha, ho.farewell.2.1 left left hc .refl 1 ha⟩

end PollReactor
