import PollReactor.Proofs.Framing

namespace PollReactor

open Channel (carriageReturn lineFeed lineEnd dropCarriageReturn)

def Bytes.IsAscii (bs : Bytes) : Prop := ∀ b ∈ bs, b.toNat < 0x80

theorem Bytes.IsAscii.mono {bs bs' : Bytes} (h : Bytes.IsAscii bs) (hs : bs' ⊆ bs) : IsAscii bs' :=
  fun b hb ↦ h b (hs hb)

namespace Text.Utf8

theorem encodeChar_ofNat {n : Nat} (h : n < 0x80) :
    String.utf8EncodeChar (Char.ofNat n) = [UInt8.ofNat n] := by
  have hn : (Char.ofNat n).val.toNat = n := by
    rw [Char.ofNat, dif_pos (.inl (by omega))]
    rfl
  simp only [String.utf8EncodeChar, hn]
  rw [if_pos (by omega)]

theorem decodeFrom_start {bs : Bytes} (h : bs.IsAscii) :
    decodeFrom .start bs = bs.map fun b ↦ Char.ofNat b.toNat := by
  induction bs with
  | nil => rfl
  | cons b bs ih =>
    have hb : b.toNat < 0x80 := h b List.mem_cons_self
    have hbs : Bytes.IsAscii bs := h.mono (List.subset_cons_self b bs)
    simp [decodeFrom, step, lead, hb, ih hbs]

theorem encode_decode {bs : Bytes} (h : bs.IsAscii) : encode (decode bs) = bs := by
  rw [encode, decode, String.toList_ofList, decodeFrom_start h]
  induction bs with
  | nil => rfl
  | cons b bs ih =>
    have hb : b.toNat < 0x80 := h b List.mem_cons_self
    have hbs : Bytes.IsAscii bs := h.mono (List.subset_cons_self b bs)
    rw [List.map_cons, List.flatMap_cons, encodeChar_ofNat hb, ih hbs, UInt8.ofNat_toNat]
    rfl

end Text.Utf8

namespace LineRead

variable (l : LineRead) (most : Nat) (found : Prop)

/-- What was cut off is the line with its terminator. It has one if a line feed was `found` among
the first `most` bytes, and is `most` bytes long if not. -/
def Terminated : Prop :=
  (found → l.taken = Text.Utf8.encode l.text ++ [lineFeed] ∨
    l.taken = Text.Utf8.encode l.text ++ lineEnd) ∧
  (¬ found → (Text.Utf8.encode l.text).length = most ∧ l.taken = Text.Utf8.encode l.text)

/-- What was cut off is a piece of a line and a carriage return. -/
def Shorn : Prop :=
  ¬ found ∧ (Text.Utf8.encode l.text).length + 1 = most ∧
    l.taken = Text.Utf8.encode l.text ++ [carriageReturn]

/-- Nothing but terminators is left out, unless what was cut off ends in a carriage return. -/
def Accounted : Prop :=
  (l.taken.getLast? ≠ some carriageReturn → l.Terminated most found) ∧
  (l.taken.getLast? = some carriageReturn → l.Shorn most found)

end LineRead

theorem Channel.dropCarriageReturn_cases (line : Bytes) :
    (∃ l, line = l ++ [carriageReturn] ∧ dropCarriageReturn line = l) ∨
    line.getLast? ≠ some carriageReturn ∧ dropCarriageReturn line = line := by
  unfold dropCarriageReturn
  split_ifs with h
  · obtain ⟨l, rfl⟩ := List.getLast?_eq_some_iff.1 h
    exact .inl ⟨l, rfl, List.dropLast_concat⟩
  · exact .inr ⟨h, rfl⟩

namespace CutsOff

variable {most : Nat} {s line taken rest : Bytes}

theorem found_iff (h : CutsOff most s line taken rest) :
    lineFeed ∈ s.take most ↔ lineFeed ∈ taken := by
  obtain ⟨rfl, -, ⟨hlen, rfl⟩ | ⟨rfl, rfl⟩⟩ := h
  · have hall : (line ++ [lineFeed]).length ≤ most := by
      rw [List.length_append]
      exact hlen
    rw [List.take_append, List.take_of_length_le hall]
    simp
  · rw [List.take_left]

theorem accounted (h : CutsOff most s line taken rest) (ha : Bytes.IsAscii s) :
    LineRead.Accounted ⟨Text.Utf8.decode (dropCarriageReturn line), taken⟩ most
      (lineFeed ∈ taken) := by
  have hline : line ⊆ s := by
    rw [← h.parts]
    rcases h.ends with ⟨-, rfl⟩ | ⟨-, rfl⟩ <;> simp
  have hencode {l : Bytes} (hl : l ⊆ line) : Text.Utf8.encode (Text.Utf8.decode l) = l :=
    Text.Utf8.encode_decode (ha.mono (List.Subset.trans hl hline))
  unfold LineRead.Accounted LineRead.Terminated LineRead.Shorn
  rcases h.ends with ⟨-, rfl⟩ | ⟨hlen, rfl⟩
  · refine ⟨fun _ ↦ ⟨fun _ ↦ ?_, fun hfeed ↦ absurd (by simp) hfeed⟩, fun hlast ↦ ?_⟩
    · rcases Channel.dropCarriageReturn_cases line with ⟨l, rfl, hdrop⟩ | ⟨-, hdrop⟩
      · rw [hdrop, hencode (List.subset_append_left l _)]
        exact .inr (List.append_assoc l _ _)
      · rw [hdrop, hencode (List.Subset.refl line)]
        exact .inl rfl
    · rw [List.getLast?_concat] at hlast
      cases hlast
  · rcases Channel.dropCarriageReturn_cases taken with ⟨l, rfl, hdrop⟩ | ⟨hlast, hdrop⟩
    · -- The piece loses its carriage return too, though no line feed follows.
      simp only [hdrop, hencode (List.subset_append_left l _)]
      refine ⟨fun hlast ↦ absurd List.getLast?_concat hlast, fun _ ↦ ⟨h.clean, ?_, trivial⟩⟩
      rwa [List.length_append] at hlen
    · simp only [hdrop, hencode (List.Subset.refl taken)]
      exact ⟨fun _ ↦ ⟨fun hfeed ↦ absurd hfeed h.clean, fun _ ↦ ⟨hlen, trivial⟩⟩,
        fun h ↦ absurd h hlast⟩

end CutsOff

namespace Framed

variable {most : Nat} {s last : Bytes} {ls : List LineRead}

theorem flatten (h : Framed most s ls last) : (ls.map (·.taken)).flatten ++ last = s := by
  induction h with
  | rest s => rfl
  | line hcut _ ih =>
    rw [List.map_cons, List.flatten_cons, List.append_assoc, ih]
    exact hcut.parts

theorem accounted (h : Framed most s ls last) (ha : Bytes.IsAscii s) :
    ∀ l ∈ ls, l.Accounted most (lineFeed ∈ l.taken) := by
  induction h with
  | rest s => nofun
  | @line s line taken rest last ls hcut _ ih =>
    have hrest : rest ⊆ s := by
      rw [← hcut.parts]
      exact List.subset_append_right taken rest
    rw [List.forall_mem_cons]
    exact ⟨hcut.accounted ha, ih (ha.mono hrest)⟩

end Framed

/-- From a stream of ASCII, reading lines leaves out their terminators and the carriage returns that
pieces of longer lines end in, and nothing else. -/
theorem ReadsLines.lines_accounted {most : Nat} {c c' : Conn} {arrivals : List Bytes}
    {ls : List LineRead} (hmost : 0 < most) (h : ReadsLines most c arrivals ls c')
    (ha : Bytes.IsAscii (c.input.toList ++ arrivals.flatten)) :
    (∀ l ∈ ls, l.Accounted most (lineFeed ∈ l.taken)) ∧
    (ls.map (·.taken)).flatten ++ c'.input.toList = c.input.toList ++ arrivals.flatten ∧
    ∀ l : LineRead, c'.line? most = some l.text →
      l.taken ++ (c'.pastLine most).input.toList = c'.input.toList →
      l.Accounted most (lineFeed ∈ c'.input.toList.take most) := by
  have hf := h.framed hmost
  refine ⟨hf.accounted ha, hf.flatten, ?_⟩
  rintro ⟨text, taken⟩ hline htaken
  dsimp only at hline htaken
  have hinput : c'.input.toList ⊆ c.input.toList ++ arrivals.flatten := by
    rw [← hf.flatten]
    exact List.subset_append_right _ _
  obtain ⟨line, rfl, hcut⟩ := Conn.cutsOff_of_taken hline htaken
  rw [hcut.found_iff]
  exact hcut.accounted (ha.mono hinput)

/-- A line, a piece of a longer one that ends in a carriage return, and its rest. -/
theorem ReadsLines.accounted_piece : ∃ c ls, 0 < 3 ∧
    ReadsLines 3 (.untouched 8 (by decide)) [[97, 13, 10, 98], [99, 13, 100, 10]] ls c ∧
    Bytes.IsAscii ((Conn.untouched 8 (by decide)).input.toList ++
      [[97, 13, 10, 98], [99, 13, 100, 10]].flatten) ∧
    ls = [⟨"a", [97, 13, 10]⟩, ⟨"bc", [98, 99, 13]⟩] ∧
    (∀ l ∈ ls, l.Accounted 3 (lineFeed ∈ l.taken)) ∧
    (ls.map (·.taken)).flatten ++ c.input.toList = [97, 13, 10, 98, 99, 13, 100, 10] ∧
    c.line? 3 = some "d" ∧
    LineRead.Accounted ⟨"d", [100, 10]⟩ 3 (lineFeed ∈ c.input.toList.take 3) := by
  have h : ReadsLines 3 (.untouched 8 (by decide)) [[97, 13, 10, 98], [99, 13, 100, 10]]
      [⟨"a", [97, 13, 10]⟩, ⟨"bc", [98, 99, 13]⟩] _ :=
    .arrive (by decide) (.readLine (by decide +kernel) (by decide +kernel)
      (.arrive (by decide +kernel) (.readLine (by decide +kernel) (by decide +kernel) (.done _))))
  have ha : Bytes.IsAscii ((Conn.untouched 8 (by decide)).input.toList ++
      [[97, 13, 10, 98], [99, 13, 100, 10]].flatten) := by
    unfold Bytes.IsAscii
    decide +kernel
  obtain ⟨hall, hstream, hnext⟩ := h.lines_accounted (by decide) ha
  exact ⟨_, _, by decide, h, ha, rfl, hall, hstream, by decide +kernel,
    hnext _ (by decide +kernel) (by decide +kernel)⟩

/-- A piece of a line that is cut off at the length allowed, behind a carriage return. -/
theorem ReadsLines.piece_shorn : ∃ (c : Conn) (l : LineRead), Bytes.IsAscii c.input.toList ∧
    c.line? 3 = some l.text ∧ l.taken ++ (c.pastLine 3).input.toList = c.input.toList ∧
    ¬ l.Terminated 3 (lineFeed ∈ c.input.toList.take 3) := by
  refine ⟨(Conn.untouched 8 (by decide)).gains [97, 98, 13], ⟨"ab", [97, 98, 13]⟩, ?_,
    by decide +kernel, by decide +kernel, fun h ↦ ?_⟩
  · unfold Bytes.IsAscii
    decide +kernel
  · obtain ⟨hlen, -⟩ := h.2 (by decide +kernel)
    exact absurd hlen (by decide +kernel)

end PollReactor
