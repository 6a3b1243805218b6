import PollReactor.Settings.Tree

namespace PollReactor.Settings

open Store (asUnsigned)

def keys : List String := ["max_connections", "idle_limit_ms", "buffer_capacity"]

theorem isKey_of_mem {key : String} (h : key ∈ keys) : IsKey key := by
  have hall : ∀ key ∈ keys, IsKey key := by decide
  exact hall key h

section

variable {σ : Type} [Store σ]

def isMalformed (v : Store.Value σ) : Bool := !(asUnsigned v).isOk

/-- The value that a path leads to. -/
def valueAt? (s : σ) (path : String) : Option (Store.Value σ) :=
  match Store.find s path with
  | .ok value? => value?
  | .error _ => none

def named? (s : σ) (name key : String) : Option (Store.Value σ) :=
  if name = "" then none else valueAt? s s!"{name}.{key}"

/-- The value under the name, or else the one at the bare key. -/
def decisive? (s : σ) (name key : String) : Option (Store.Value σ) :=
  (named? s name key).or (valueAt? s key)

/-- The value that decides if a malformed one under the name is passed over. -/
def heeded? (s : σ) (name key : String) : Option (Store.Value σ) :=
  ((named? s name key).filter fun v ↦ !isMalformed v).or (valueAt? s key)

/-- The setting is the number that the value is read as, or its default if there is no value. -/
def Gives (value? : Option (Store.Value σ)) (default n : Nat) : Prop :=
  value? = none ∧ n = default ∨ ∃ v, value? = some v ∧ asUnsigned v = .ok n

/-- What comes of reading settings of which these values decide: an error if one of them is
malformed, and otherwise what they say. -/
structure Honours (value? : String → Option (Store.Value σ)) (out : Except Refusal Settings) :
    Prop where
  refused_iff : (∃ e, out = .error e) ↔ ∃ key ∈ keys, ∃ v, value? key = some v ∧ isMalformed v
  blame : ∀ e, out = .error e → ∃ key ∈ keys, ∃ v reason,
    value? key = some v ∧ asUnsigned v = .error reason ∧ e = .malformed reason key
  maxConnections : ∀ s, out = .ok s →
    Gives (value? "max_connections") defaultMaxConnections s.maxConnections
  bufferCapacity : ∀ s, out = .ok s →
    Gives (value? "buffer_capacity") defaultBufferCapacity s.bufferCapacity
  idleLimit : ∀ s, out = .ok s →
    ∃ ms, Gives (value? "idle_limit_ms") 0 ms ∧ s.idleLimit = if ms = 0 then none else some ms

theorem isMalformed_iff {v : Store.Value σ} :
    isMalformed v ↔ ∃ reason, asUnsigned v = .error reason := by
  unfold isMalformed
  cases asUnsigned v <;> simp [Except.isOk, Except.toBool]

theorem Gives.not_malformed {value? : Option (Store.Value σ)} {default n : Nat}
    (h : Gives value? default n) {v : Store.Value σ} (hv : value? = some v) :
    isMalformed v = false := by
  obtain ⟨h, -⟩ | ⟨v', h, hn⟩ := h
  · simp [h] at hv
  · obtain rfl : v' = v := by simpa [h] using hv
    simp [isMalformed, hn, Except.isOk, Except.toBool]

variable {s : σ} {name key : String}

theorem lookup_eq_found {path : String} {n : Nat} :
    lookup s path = .found n ↔ ∃ v, valueAt? s path = some v ∧ asUnsigned v = .ok n := by
  unfold lookup valueAt?
  rcases Store.find s path with _ | _ | v
  · simp
  · simp
  · cases hn : asUnsigned v <;> simp [hn]

theorem malformed_of_not_found {path : String} (h : ∀ n, lookup s path ≠ .found n)
    {v : Store.Value σ} (hv : valueAt? s path = some v) : isMalformed v := by
  cases hn : asUnsigned v with
  | ok n => exact absurd (lookup_eq_found.2 ⟨v, hv, hn⟩) (h n)
  | error reason => exact isMalformed_iff.2 ⟨reason, hn⟩

theorem heeded_of_named {v : Store.Value σ} {n : Nat} (hv : named? s name key = some v)
    (hn : asUnsigned v = .ok n) : heeded? s name key = some v := by
  simp [heeded?, hv, isMalformed, hn, Except.isOk, Except.toBool]

theorem heeded_of_unread (h : ∀ v, named? s name key = some v → isMalformed v) :
    heeded? s name key = valueAt? s key := by
  unfold heeded?
  cases hv : named? s name key with
  | none => rfl
  | some v => simp [Option.filter, h v hv]

inductive Answered (value? : Option (Store.Value σ)) (key : String) :
    Except Refusal (Option Nat) → Prop where
  | absent (h : value? = none) : Answered value? key (.ok none)
  | given {v : Store.Value σ} {n : Nat} (h : value? = some v) (hn : asUnsigned v = .ok n) :
      Answered value? key (.ok (some n))
  | refused {v : Store.Value σ} {reason : String} (h : value? = some v)
      (hr : asUnsigned v = .error reason) : Answered value? key (.error (.malformed reason key))

theorem lookup_answered (hk : IsKey key) (s : σ) :
    Answered (valueAt? s key) key (optional (lookup s key)) := by
  obtain ⟨value?, hv⟩ := Store.find_key hk s
  unfold lookup valueAt?
  rw [hv]
  cases value? with
  | none => exact .absent rfl
  | some v =>
    dsimp only
    cases hn : asUnsigned v with
    | ok n => exact .given rfl hn
    | error reason => exact .refused rfl hn

theorem optional_answered (hk : IsKey key) (s : σ) (name : String) :
    Answered (heeded? s name key) key (optional (lookupNamed s name key)) := by
  unfold lookupNamed
  by_cases h0 : name = ""
  · have hu : heeded? s name key = valueAt? s key := heeded_of_unread (by simp [named?, h0])
    rw [if_pos h0, hu]
    exact lookup_answered hk s
  · have hn : named? s name key = valueAt? s s!"{name}.{key}" := if_neg h0
    rw [if_neg h0]
    cases hl : lookup s s!"{name}.{key}" with
    | found n =>
      obtain ⟨v, hv, hv'⟩ := lookup_eq_found.1 hl
      exact .given (heeded_of_named (hn.trans hv) hv') hv'
    | missing | refused =>
      have hu : heeded? s name key = valueAt? s key :=
        heeded_of_unread fun v hv ↦ malformed_of_not_found (by simp [hl]) (hn.symm.trans hv)
      rw [hu]
      exact lookup_answered hk s

theorem Answered.gives {value? : Option (Store.Value σ)} {answer : Option Nat}
    (h : Answered value? key (.ok answer)) (default : Nat) :
    Gives value? default (answer.getD default) := by
  cases h with
  | absent h => exact .inl ⟨h, rfl⟩
  | given h hn => exact .inr ⟨_, h, hn⟩

variable {value? : String → Option (Store.Value σ)}

theorem Honours.refused {e : Refusal} (h : Answered (value? key) key (.error e))
    (hk : key ∈ keys) : Honours value? (.error e) := by
  cases h with
  | @refused v reason h hr =>
    have hb : isMalformed v := isMalformed_iff.2 ⟨reason, hr⟩
    refine ⟨⟨fun _ ↦ ⟨key, hk, v, h, hb⟩, fun _ ↦ ⟨_, rfl⟩⟩, ?_, nofun, nofun, nofun⟩
    rintro e ⟨⟩
    exact ⟨key, hk, v, reason, h, hr, rfl⟩

theorem Honours.congr {value'? : String → Option (Store.Value σ)} {out : Except Refusal Settings}
    (h : Honours value? out) (he : ∀ key ∈ keys, value? key = value'? key) :
    Honours value'? out where
  refused_iff := by
    rw [h.refused_iff]
    refine exists_congr fun key ↦ and_congr_right fun hk ↦ ?_
    rw [he key hk]
  blame e hout := by
    obtain ⟨key, hk, hv⟩ := h.blame e hout
    rw [he key hk] at hv
    exact ⟨key, hk, hv⟩
  maxConnections s hs := by
    rw [← he _ (by simp [keys])]
    exact h.maxConnections s hs
  bufferCapacity s hs := by
    rw [← he _ (by simp [keys])]
    exact h.bufferCapacity s hs
  idleLimit s hs := by
    rw [← he _ (by simp [keys])]
    exact h.idleLimit s hs

theorem Honours.settled {s : Settings} {ms : Nat}
    (hc : Gives (value? "max_connections") defaultMaxConnections s.maxConnections)
    (hb : Gives (value? "buffer_capacity") defaultBufferCapacity s.bufferCapacity)
    (hi : Gives (value? "idle_limit_ms") 0 ms)
    (hs : s.idleLimit = if ms = 0 then none else some ms) : Honours value? (.ok s) := by
  refine ⟨⟨nofun, ?_⟩, nofun, ?_, ?_, ?_⟩
  · rintro ⟨key, hk, v, hv, hm⟩
    have hgives : ∃ default n, Gives (value? key) default n := by
      simp only [keys, List.mem_cons, List.not_mem_nil, or_false] at hk
      rcases hk with rfl | rfl | rfl
      · exact ⟨_, _, hc⟩
      · exact ⟨_, _, hi⟩
      · exact ⟨_, _, hb⟩
    obtain ⟨default, n, hg⟩ := hgives
    rw [hg.not_malformed hv] at hm
    cases hm
  · rintro s ⟨⟩
    exact hc
  · rintro s ⟨⟩
    exact hb
  · rintro s ⟨⟩
    exact ⟨ms, hi, hs⟩

theorem filter_limit (limit : Option Nat) : limit.filter (· ≠ 0) =
    if limit.getD 0 = 0 then none else some (limit.getD 0) := by
  cases limit with
  | none => rfl
  | some ms => by_cases h : ms = 0 <;> simp [Option.filter, h]

theorem read_heeds (s : σ) (name : String) : Honours (heeded? s name) (read s name) := by
  have h (key : String) (hk : key ∈ keys) := optional_answered (isKey_of_mem hk) s name
  have hc := h "max_connections" (by simp [keys])
  have hi := h "idle_limit_ms" (by simp [keys])
  have hb := h "buffer_capacity" (by simp [keys])
  unfold read
  generalize optional (lookupNamed s name "max_connections") = c at hc
  generalize optional (lookupNamed s name "idle_limit_ms") = i at hi
  generalize optional (lookupNamed s name "buffer_capacity") = b at hb
  rcases c with e | c
  · exact .refused hc (by simp [keys])
  rcases i with e | i
  · exact .refused hi (by simp [keys])
  rcases b with e | b
  · exact .refused hb (by simp [keys])
  exact .settled (hc.gives _) (hb.gives _) (hi.gives 0) (filter_limit i)

theorem heeded_eq (h : ∀ v, named? s name key = some v → isMalformed v = false) :
    heeded? s name key = decisive? s name key := by
  unfold heeded? decisive?
  cases hv : named? s name key with
  | none => rfl
  | some v => simp [Option.filter, h v hv]

/-- Every setting is what its value says, and a value that cannot be read is an error. A malformed
value under the name is passed over, as if there were none. -/
theorem read_honours (s : σ) (name : String) :
    Honours (heeded? s name) (read s name) ∧
    ((∀ key ∈ keys, ∀ v, named? s name key = some v → isMalformed v = false) →
      Honours (decisive? s name) (read s name)) := by
  have h := read_heeds s name
  exact ⟨h, fun hn ↦ h.congr fun key hk ↦ heeded_eq (hn key hk)⟩

end

def shared : Tree :=
  [("idle_limit_ms", .ofInt 0), ("chat", .table [("max_connections", .text "2")]),
    ("max_connections", .text "many")]

theorem shared_honoured :
    (∀ key ∈ keys, ∀ v, named? shared "chat" key = some v → isMalformed v = false) ∧
    Honours (decisive? shared "chat") (read shared "chat") ∧
    read shared "chat" = .ok ⟨2, none, 4096⟩ := by
  have h : ∀ key ∈ keys, ∀ v, named? shared "chat" key = some v → isMalformed v = false := by
    have hb : keys.all fun key ↦ (named? shared "chat" key).all fun v ↦ !isMalformed v := by
      decide +kernel
    simpa [Option.all_eq_true] using hb
  exact ⟨h, (read_honours shared "chat").2 h, by rfl⟩

/-- Any number of a word can be a capacity. -/
example : read (σ := Tree) [("buffer_capacity", .ofInt 6148914691236517206)] "" =
    .ok { bufferCapacity := 6148914691236517206 } := by rfl

def misspelt : Tree := [("chat", .table [("max_connections", .text "many")])]

theorem read_misspelt : ¬ Honours (decisive? misspelt "chat") (read misspelt "chat") := by
  intro h
  have hv : (decisive? misspelt "chat" "max_connections").any isMalformed := by decide +kernel
  obtain ⟨v, hv, hm⟩ := (Option.any_eq_true _ _).1 hv
  obtain ⟨e, hr⟩ := h.refused_iff.2 ⟨"max_connections", by simp [keys], v, hv, hm⟩
  have hok : read misspelt "chat" = .ok {} := by rfl
  cases hok.symm.trans hr

end PollReactor.Settings
