import Mathlib.Data.List.TakeWhile
import PollReactor.Connection.Transfer
import PollReactor.Proofs.Consumption

namespace PollReactor

open Channel (lineFeed dropCarriageReturn)

/-- A line at the front of the stream `s`, for which `taken` is cut off. A line feed among the first
`most` bytes ends it and is cut off too; if there is none, the line is `most` bytes long. -/
structure CutsOff (most : Nat) (s line taken rest : Bytes) : Prop where
  parts : taken ++ rest = s
  clean : lineFeed ∉ line
  ends : line.length < most ∧ taken = line ++ [lineFeed] ∨ line.length = most ∧ taken = line

namespace CutsOff

variable {most : Nat} {s line taken rest : Bytes}

theorem append (h : CutsOff most s line taken rest) (t : Bytes) :
    CutsOff most (s ++ t) line taken (rest ++ t) where
  parts := by rw [← List.append_assoc, h.parts]
  clean := h.clean
  ends := h.ends

theorem line_eq (h : CutsOff most s line taken rest) :
    line = (s.take most).takeWhile (· != lineFeed) := by
  obtain ⟨rfl, hc, hends⟩ := h
  have hall : ∀ b ∈ line, (b != lineFeed) = true := by
    intro b hb
    rw [bne_iff_ne]
    rintro rfl
    exact hc hb
  rcases hends with ⟨hlen, rfl⟩ | ⟨rfl, rfl⟩
  · obtain ⟨k, hk⟩ : ∃ k, most - line.length = k + 1 := ⟨most - line.length - 1, by omega⟩
    rw [List.append_assoc, List.take_append, List.take_of_length_le (by omega), hk,
      List.takeWhile_append_of_pos hall]
    simp
  · rw [List.take_left]
    exact (List.takeWhile_eq_self_iff.2 hall).symm

theorem unique {line' taken' rest' : Bytes} (h : CutsOff most s line taken rest)
    (h' : CutsOff most s line' taken' rest') : line = line' ∧ taken = taken' ∧ rest = rest' := by
  obtain rfl : line = line' := h.line_eq.trans h'.line_eq.symm
  obtain rfl : taken = taken' := by
    rcases h.ends with ⟨hlt, ht⟩ | ⟨he, ht⟩ <;> rcases h'.ends with ⟨hlt', ht'⟩ | ⟨he', ht'⟩
    · rw [ht, ht']
    · omega
    · omega
    · rw [ht, ht']
  exact ⟨rfl, rfl, List.append_cancel_left (h.parts.trans h'.parts.symm)⟩

theorem taken_ne_nil (hmost : 0 < most) (h : CutsOff most s line taken rest) : taken ≠ [] := by
  rcases h.ends with ⟨-, rfl⟩ | ⟨hlen, rfl⟩
  · simp
  · rw [← List.length_pos_iff]
    omega

theorem in_reach (h : CutsOff most s line taken rest) :
    lineFeed ∈ s.take most ∨ most ≤ s.length := by
  obtain ⟨rfl, -, ⟨hlen, rfl⟩ | ⟨rfl, rfl⟩⟩ := h
  · refine .inl (List.mem_take_iff_getElem.2 ⟨line.length, ?_, ?_⟩)
    · simp only [List.length_append, List.length_singleton]
      omega
    · simp
  · exact .inr (by simp)

end CutsOff

/-- A line that was read, and the bytes that were cut off for it. -/
structure LineRead where
  text : String
  taken : Bytes

/-- Lines cut off from a stream one after the other, and what is left of it. -/
inductive Framed (most : Nat) : Bytes → List LineRead → Bytes → Prop where
  | rest (s : Bytes) : Framed most s [] s
  | line {s line taken rest last : Bytes} {ls : List LineRead}
      (h : CutsOff most s line taken rest) (hl : Framed most rest ls last) :
      Framed most s (⟨Text.Utf8.decode (dropCarriageReturn line), taken⟩ :: ls) last

/-- No line can be cut off from the stream any more. -/
def Exhausted (most : Nat) (s : Bytes) : Prop :=
  ∀ line taken rest, ¬ CutsOff most s line taken rest

theorem Framed.unique {most : Nat} {s last last' : Bytes} {ls ls' : List LineRead}
    (h : Framed most s ls last) (h' : Framed most s ls' last') (hlast : Exhausted most last)
    (hlast' : Exhausted most last') : ls = ls' ∧ last = last' := by
  induction h generalizing ls' with
  | rest s =>
    cases h' with
    | rest => exact ⟨rfl, rfl⟩
    | line hcut _ => exact absurd hcut (hlast _ _ _)
  | line hcut _ ih =>
    cases h' with
    | rest => exact absurd hcut (hlast' _ _ _)
    | line hcut' hl' =>
      obtain ⟨rfl, rfl, rfl⟩ := hcut.unique hcut'
      obtain ⟨rfl, rfl⟩ := ih hl' hlast
      exact ⟨rfl, rfl⟩

namespace Channel

variable {ch : Channel} {most : Nat}

theorem takeLine_some {line : Bytes} (h : (ch.takeLine most).1 = some line) :
    ∃ taken, CutsOff most ch.input.toList line taken (ch.takeLine most).2.input.toList := by
  have hl := ch.takeLine_lined most
  generalize ch.takeLine most = out at h hl ⊢
  cases hl with
  | ended hlen hline hs =>
    cases h
    exact ⟨_, hs, hline, .inl ⟨hlen, rfl⟩⟩
  | long hlen hline hs =>
    cases h
    exact ⟨_, hs, hline, .inr ⟨hlen, rfl⟩⟩
  | missing => cases h

theorem takeLine_none (hmost : 0 < most) (h : (ch.takeLine most).1 = none) :
    (ch.takeLine most).2 = ch ∧ Exhausted most ch.input.toList := by
  unfold takeLine at h ⊢
  rw [if_neg (by omega)] at h ⊢
  cases hi : ch.input.peekUntil lineFeed most with
  | some i =>
    rw [hi] at h
    cases h
  | none =>
    rw [hi] at h
    dsimp only at h ⊢
    split_ifs at h with hlen
    rw [if_neg hlen]
    refine ⟨rfl, fun line taken rest hcut ↦ ?_⟩
    rw [Ring.peekUntil, Ring.peek_eq_take, List.findIdx?_eq_none_iff] at hi
    rcases hcut.in_reach with hfeed | hlong
    · cases hi lineFeed hfeed
    · rw [Ring.length_toList] at hlong
      exact hlen hlong

end Channel

def Conn.gains (c : Conn) (bs : Bytes) : Conn := { c with input := (c.input.write bs).2 }

def Conn.line? (c : Conn) (most : Nat) : Option String := (c.perform (.readLine most)).1

def Conn.pastLine (c : Conn) (most : Nat) : Conn := (c.perform (.readLine most)).2.1

/-- Lines of up to `most` bytes are read from a connection at any time while `arrivals` come in one
after the other, each of which fits. Whatever else happens to it in between leaves its input
alone. -/
inductive ReadsLines (most : Nat) :
    (c : Conn) → (arrivals : List Bytes) → List LineRead → (c' : Conn) → Prop where
  | done (c : Conn) : ReadsLines most c [] [] c
  | arrive {c c' : Conn} {bs : Bytes} {arrivals : List Bytes} {ls : List LineRead}
      (hfits : bs.length ≤ c.input.free)
      (h : ReadsLines most (c.gains bs) arrivals ls c') :
      ReadsLines most c (bs :: arrivals) ls c'
  | other {c c' c'' : Conn} {arrivals : List Bytes} {ls : List LineRead}
      (hinput : c'.input = c.input) (h : ReadsLines most c' arrivals ls c'') :
      ReadsLines most c arrivals ls c''
  | readLine {c c' : Conn} {text : String} {taken : Bytes} {arrivals : List Bytes}
      {ls : List LineRead} (hline : c.line? most = some text)
      (htaken : taken ++ (c.pastLine most).input.toList = c.input.toList)
      (h : ReadsLines most (c.pastLine most) arrivals ls c') :
      ReadsLines most c arrivals (⟨text, taken⟩ :: ls) c'
  | noLine {c c' : Conn} {arrivals : List Bytes} {ls : List LineRead}
      (hline : c.line? most = none) (h : ReadsLines most (c.pastLine most) arrivals ls c') :
      ReadsLines most c arrivals ls c'

namespace Conn

variable {most : Nat} {c : Conn}

theorem cutsOff_of_line {text : String} (h : c.line? most = some text) : ∃ line taken,
    text = Text.Utf8.decode (dropCarriageReturn line) ∧
      CutsOff most c.input.toList line taken (c.pastLine most).input.toList := by
  simp only [line?, perform, Channel.readLine, Option.map_eq_some_iff] at h
  obtain ⟨line, hl, rfl⟩ := h
  obtain ⟨taken, hcut⟩ := Channel.takeLine_some hl
  exact ⟨line, taken, rfl, hcut⟩

theorem cutsOff_of_taken {text : String} {taken : Bytes} (h : c.line? most = some text)
    (htaken : taken ++ (c.pastLine most).input.toList = c.input.toList) :
    ∃ line, text = Text.Utf8.decode (dropCarriageReturn line) ∧
      CutsOff most c.input.toList line taken (c.pastLine most).input.toList := by
  obtain ⟨line, taken', htext, hcut⟩ := cutsOff_of_line h
  obtain rfl : taken' = taken := List.append_cancel_right (hcut.parts.trans htaken.symm)
  exact ⟨line, htext, hcut⟩

theorem exhausted_of_noLine (hmost : 0 < most) (h : c.line? most = none) :
    (c.pastLine most).input = c.input ∧ Exhausted most c.input.toList := by
  simp only [line?, perform, Channel.readLine, Option.map_eq_none_iff] at h
  obtain ⟨hch, hs⟩ := Channel.takeLine_none hmost h
  exact ⟨congrArg Channel.input hch, hs⟩

end Conn

namespace ReadsLines

variable {most : Nat} {c c' : Conn} {arrivals : List Bytes} {ls : List LineRead}

theorem framed (hmost : 0 < most) (h : ReadsLines most c arrivals ls c') :
    Framed most (c.input.toList ++ arrivals.flatten) ls c'.input.toList := by
  induction h with
  | done c =>
    rw [List.flatten_nil, List.append_nil]
    exact .rest _
  | @arrive c c' bs arrivals ls hfits _ ih =>
    have hin : (c.gains bs).input.toList = c.input.toList ++ bs := by
      rw [Conn.gains, Ring.toList_write, Ring.write_fst, Nat.min_eq_left hfits, List.take_length]
    rw [List.flatten_cons, ← List.append_assoc, ← hin]
    exact ih
  | other hinput _ ih =>
    rw [← hinput]
    exact ih
  | readLine hline htaken _ ih =>
    obtain ⟨line, rfl, hcut⟩ := Conn.cutsOff_of_taken hline htaken
    -- What is still to arrive goes behind the line and changes nothing about it.
    exact .line (hcut.append _) ih
  | noLine hline _ ih =>
    rw [← (Conn.exhausted_of_noLine hmost hline).1]
    exact ih

theorem trans {c'' : Conn} {arrivals' : List Bytes} {ls' : List LineRead}
    (h : ReadsLines most c arrivals ls c') (h' : ReadsLines most c' arrivals' ls' c'') :
    ReadsLines most c (arrivals ++ arrivals') (ls ++ ls') c'' := by
  induction h with
  | done c => exact h'
  | arrive hfits _ ih => exact .arrive hfits (ih h')
  | other hinput _ ih => exact .other hinput (ih h')
  | readLine hline htaken _ ih => exact .readLine hline htaken (ih h')
  | noLine hline _ ih => exact .noLine hline (ih h')

theorem finish (hmost : 0 < most) (c : Conn) : ∃ ls c', ReadsLines most c [] ls c' ∧
    c'.line? most = none := by
  induction hn : c.input.toList.length using Nat.strongRecOn generalizing c with
  | ind n ih =>
    cases hr : c.line? most with
    | none => exact ⟨[], c, .done c, hr⟩
    | some text =>
      obtain ⟨line, taken, -, hcut⟩ := Conn.cutsOff_of_line hr
      have hpos := List.length_pos_iff.2 (hcut.taken_ne_nil hmost)
      have hlen := congrArg List.length hcut.parts
      rw [List.length_append] at hlen
      obtain ⟨ls, c', h, hlast⟩ := ih _ (by omega) (c.pastLine most) rfl
      exact ⟨_, c', .readLine hr hcut.parts h, hlast⟩

end ReadsLines

theorem Conn.fillFrom_readsLines {σ : Type} (most : Nat) (c : Conn) (src : Source σ) (r : Ring)
    (moved : Nat) (s : σ) : ∃ arrivals, ReadsLines most { c with input := r } arrivals []
      { c with input := (r.fillFrom src moved s).2.1 } := by
  fun_induction Ring.fillFrom src r moved s with
  | case3 r moved s h bs hfits s' hp hb _ ih =>
    obtain ⟨arrivals, h⟩ := ih
    exact ⟨bs :: arrivals, .arrive (Nat.le_trans hfits r.vacant_le_free) h⟩
  | case4 r moved s h e s' hp he _ ih => exact ih
  | _ => exact ⟨[], .done _⟩

theorem Conn.receive_readsLines {κ μ : Type} [Kernel κ] (most : Nat) (c : Conn) (o : Os κ μ) :
    ∃ arrivals, ReadsLines most c arrivals [] (c.receive o).1.2 := by
  have hr := c.receive_receives o
  have hfill (fd : Fd) := c.fillFrom_readsLines most (.socket fd) c.input 0 o
  generalize c.receive o = out at hr ⊢
  cases hr with
  | unconnected | full => exact ⟨[], .done c⟩
  | @ended fd _ _ _ _ h | @blocked fd _ _ _ _ _ h | @failed fd _ _ _ _ _ h =>
    have hfill := hfill fd
    rw [h] at hfill
    exact hfill
  | @moved fd n input o' _ _ h =>
    have hfill := hfill fd
    rw [h] at hfill
    obtain ⟨arrivals, hfill⟩ := hfill
    have htouch : ReadsLines most { c with input } [] []
        { c with input, lastActivity := (sys .clock o').1 } := .other (by rfl) (.done _)
    refine ⟨arrivals, ?_⟩
    rw [← List.append_nil arrivals]
    exact hfill.trans htouch

/-- Two connections that are sent one stream can be read until there is no line any more. Then they
gave the same lines and hold the same bytes behind them. -/
theorem ReadsLines.framing {most : Nat} {c₁ c₂ c₁' c₂' : Conn} {arrivals₁ arrivals₂ : List Bytes}
    {ls₁ ls₂ : List LineRead} (hmost : 0 < most) (h₁ : ReadsLines most c₁ arrivals₁ ls₁ c₁')
    (h₂ : ReadsLines most c₂ arrivals₂ ls₂ c₂')
    (hs : c₁.input.toList ++ arrivals₁.flatten = c₂.input.toList ++ arrivals₂.flatten) :
    (∃ ls last, ReadsLines most c₁ arrivals₁ (ls₁ ++ ls) last ∧
      last.line? most = none) ∧
    (c₁'.line? most = none → c₂'.line? most = none →
      ls₁ = ls₂ ∧ c₁'.input.toList = c₂'.input.toList) := by
  constructor
  · obtain ⟨ls, last, h, hlast⟩ := finish hmost c₁'
    refine ⟨ls, last, ?_, hlast⟩
    simpa using h₁.trans h
  · intro hlast₁ hlast₂
    have hf := h₂.framed hmost
    rw [← hs] at hf
    exact (h₁.framed hmost).unique hf (Conn.exhausted_of_noLine hmost hlast₁).2
      (Conn.exhausted_of_noLine hmost hlast₂).2

def Conn.untouched (capacity : Nat) (h : 0 < capacity) : Conn :=
  .detached {
    readMarks := ⟨1, 2⟩
    writeMarks := ⟨1, 2⟩
    idleLimit := none
    input := .ofCapacity capacity h
    output := .ofCapacity capacity h
    outputHigh := false
    urgent := none
    closePending := false
    hungUp := false
    lastActivity := 0 }

/-- A stream that comes in pieces to a connection with room for four bytes, and at once to one with
room for eight. One piece ends between the carriage return and the line feed. -/
theorem ReadsLines.framing_pieces : ∃ c₁ c₂ ls₁ ls₂, 0 < 3 ∧
    ReadsLines 3 (.untouched 4 (by decide)) [[97, 13], [10, 98], [99, 100, 101]] ls₁ c₁ ∧
    ReadsLines 3 (.untouched 8 (by decide)) [[97, 13, 10, 98, 99, 100, 101]] ls₂ c₂ ∧
    c₁.line? 3 = none ∧ c₂.line? 3 = none ∧
    ls₁ = [⟨"a", [97, 13, 10]⟩, ⟨"bcd", [98, 99, 100]⟩] ∧ ls₁ = ls₂ ∧
    c₁.input.toList = c₂.input.toList := by
  have h₁ : ReadsLines 3 (.untouched 4 (by decide)) [[97, 13], [10, 98], [99, 100, 101]]
      [⟨"a", [97, 13, 10]⟩, ⟨"bcd", [98, 99, 100]⟩] _ :=
    .arrive (by decide) (.noLine (by decide +kernel)
      (.arrive (by decide +kernel) (.readLine (by decide +kernel) (by decide +kernel)
        (.arrive (by decide +kernel) (.readLine (by decide +kernel) (by decide +kernel)
          (.done _))))))
  have h₂ : ReadsLines 3 (.untouched 8 (by decide)) [[97, 13, 10, 98, 99, 100, 101]]
      [⟨"a", [97, 13, 10]⟩, ⟨"bcd", [98, 99, 100]⟩] _ :=
    .arrive (by decide) (.readLine (by decide +kernel) (by decide +kernel)
      (.readLine (by decide +kernel) (by decide +kernel) (.done _)))
  have h := h₁.framing (by decide) h₂ (by decide)
  exact ⟨_, _, _, _, by decide, h₁, h₂, by decide +kernel, by decide +kernel, rfl,
    h.2 (by decide +kernel) (by decide +kernel)⟩

end PollReactor
