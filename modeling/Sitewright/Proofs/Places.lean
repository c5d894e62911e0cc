import Sitewright.Text.Location

/-!
Places that point into a text. A byte offset on the border of a character is the size of what stands before it
(`StandsAt`, `StandsFrom`), so that the character range of a span on such borders selects what stands there.
-/

namespace Sitewright

/-- A range that lies in a text. -/
structure CharRange.Inside (range : CharRange) (t : Text) : Prop where
  ordered : range.start ≤ range.stop
  bounded : range.stop ≤ t.length

namespace Text

variable {rest t : Text}

/-- `part` stands in the text from a byte offset on. -/
def StandsAt (t part : Text) (start : Nat) : Prop :=
  ∃ before after, t = before ++ part ++ after ∧ byteSize before = start

/-- The text goes on with `rest` from a byte offset on. -/
def StandsFrom (t rest : Text) (start : Nat) : Prop :=
  ∃ before, t = before ++ rest ∧ byteSize before = start

theorem byteSize_pos (h : t ≠ []) : 0 < byteSize t := by
  obtain ⟨c, rest, rfl⟩ := List.exists_cons_of_ne_nil h
  rw [byteSize_cons]
  exact Nat.add_pos_left c.utf8Size_pos _

theorem charOffset_append (before after : Text) : charOffset (before ++ after) (byteSize before) = before.length := by
  induction before with
  | nil => cases after <;> rfl
  | cons c before ih =>
    obtain ⟨n, hn⟩ := Nat.exists_eq_add_of_lt c.utf8Size_pos
    have hsize : byteSize (c :: before) = n + byteSize before + 1 := by
      rw [byteSize_cons]
      omega
    rw [List.cons_append, hsize, charOffset, ← hsize, byteSize_cons, Nat.add_sub_cancel_left, ih, List.length_cons]

theorem charOffset_le_length (t : Text) (byte : Nat) : t.charOffset byte ≤ t.length := by
  induction t generalizing byte with
  | nil => exact Nat.le_refl 0
  | cons c rest ih =>
    cases byte with
    | zero => exact Nat.zero_le _
    | succ byte => exact Nat.succ_le_succ (ih _)

theorem inside_charRange (t : Text) (span : ByteSpan) : (t.charRange span).Inside t :=
  ⟨Nat.le_max_right _ _, Nat.max_le.mpr ⟨charOffset_le_length t _, charOffset_le_length t _⟩⟩

theorem slice_append (before part after : Text) :
    (before ++ part ++ after).slice ⟨before.length, before.length + part.length⟩ = part := by
  rw [slice, ← List.length_append, List.take_left, List.drop_left]

theorem charRange_append (before part after : Text) :
    (before ++ part ++ after).charRange ⟨byteSize before, byteSize before + byteSize part⟩ =
      ⟨before.length, before.length + part.length⟩ := by
  have hstart : (before ++ part ++ after).charOffset (byteSize before) = before.length := by
    rw [List.append_assoc]
    exact charOffset_append before (part ++ after)
  have hstop : (before ++ part ++ after).charOffset (byteSize before + byteSize part) =
      before.length + part.length := by
    rw [← byteSize_append, charOffset_append, List.length_append]
  rw [charRange, hstart, hstop, Nat.max_eq_left (Nat.le_add_right _ _)]

theorem StandsAt.slice_charRange {t part : Text} {start : Nat} (h : t.StandsAt part start) :
    t.slice (t.charRange ⟨start, start + byteSize part⟩) = part := by
  obtain ⟨before, after, rfl, rfl⟩ := h
  rw [charRange_append, slice_append]

/-- A part of what stands somewhere stands there, too. -/
theorem StandsAt.part {t whole part : Text} {start offset : Nat} (h : t.StandsAt whole start)
    (hpart : whole.StandsAt part offset) : t.StandsAt part (start + offset) := by
  obtain ⟨before, after, rfl, rfl⟩ := h
  obtain ⟨before', after', rfl, rfl⟩ := hpart
  exact ⟨before ++ before', after' ++ after, by simp only [List.append_assoc], byteSize_append _ _⟩

theorem standsFrom_zero (t : Text) : t.StandsFrom t 0 :=
  ⟨[], rfl, rfl⟩

theorem StandsFrom.standsAt {t text part rest : Text} {start : Nat} (h : t.StandsFrom text start)
    (htext : text = part ++ rest) : t.StandsAt part start := by
  obtain ⟨before, rfl, rfl⟩ := h
  exact ⟨before, rest, by rw [htext, List.append_assoc], rfl⟩

/-- The place after a part is its place and its size. -/
theorem StandsFrom.advance {t text part rest : Text} {start stop : Nat} (h : t.StandsFrom text start)
    (htext : text = part ++ rest) (hstop : stop = start + byteSize part) : t.StandsFrom rest stop := by
  obtain ⟨before, rfl, rfl⟩ := h
  exact ⟨before ++ part, by rw [htext, List.append_assoc], by rw [hstop, byteSize_append]⟩

theorem StandsFrom.tail {c : Char} {start : Nat} (h : t.StandsFrom (c :: rest) start) :
    t.StandsFrom rest (start + c.utf8Size) :=
  h.advance (List.singleton_append (x := c)).symm (by simp)

/-- What a range selects in a part is selected in the whole by the range moved there. -/
theorem slice_shift (before part after : Text) {range : CharRange} (h : range.stop ≤ part.length) :
    (before ++ part ++ after).slice (range.shift before.length) = part.slice range := by
  have htake : (before ++ part ++ after).take (range.stop + before.length) = before ++ part.take range.stop := by
    rw [List.append_assoc, Nat.add_comm, List.take_length_add_append, List.take_append_of_le_length h]
  rw [slice, CharRange.shift, htake, Nat.add_comm, List.drop_length_add_append, slice]

theorem inside_shift (before part after : Text) {range : CharRange} (h : range.Inside part) :
    (range.shift before.length).Inside (before ++ part ++ after) := by
  obtain ⟨hordered, hbounded⟩ := h
  constructor
  · simp only [CharRange.shift]
    omega
  · simp only [CharRange.shift, List.length_append]
    omega

/-! ## Borders of characters -/

/-- A byte offset on the border of a character. -/
def IsBorder (t : Text) (offset : Nat) : Prop :=
  ∃ rest, t.StandsFrom rest offset

theorem StandsFrom.isBorder {start : Nat} (h : t.StandsFrom rest start) : t.IsBorder start :=
  ⟨rest, h⟩

theorem StandsFrom.add_byteSize {start : Nat} (h : t.StandsFrom rest start) :
    start + byteSize rest = byteSize t := by
  obtain ⟨before, rfl, rfl⟩ := h
  exact (byteSize_append before rest).symm

theorem IsBorder.le {offset : Nat} (h : t.IsBorder offset) : offset ≤ byteSize t := by
  obtain ⟨rest, hrest⟩ := h
  exact hrest.add_byteSize ▸ Nat.le_add_right offset _

theorem isBorder_byteSize (t : Text) : t.IsBorder (byteSize t) :=
  ⟨[], t, (List.append_nil t).symm, rfl⟩

/-- What is left from a later place on is shorter. -/
theorem StandsFrom.le_of_suffix {t text rest : Text} {start stop : Nat} (h : t.StandsFrom text start)
    (hrest : t.StandsFrom rest stop) (hsuffix : rest <:+ text) : start ≤ stop := by
  obtain ⟨taken, rfl⟩ := hsuffix
  have hstart := h.add_byteSize
  have hstop := hrest.add_byteSize
  rw [byteSize_append] at hstart
  omega

theorem StandsFrom.suffix {start : Nat} (h : t.StandsFrom rest start) : rest <:+ t := by
  obtain ⟨before, rfl, -⟩ := h
  exact List.suffix_append _ _

/-- What is left from a later place on leaves out a character. -/
theorem StandsFrom.suffix_of_lt {t rest after : Text} {c : Char} {start stop : Nat} (h : t.StandsFrom (c :: rest) start)
    (hafter : t.StandsFrom after stop) (hlt : start < stop) : after <:+ rest := by
  rcases List.suffix_or_suffix_of_suffix hafter.suffix h.suffix with hsuffix | hsuffix
  · rcases List.suffix_cons_iff.mp hsuffix with rfl | hsuffix
    · exact absurd (hafter.le_of_suffix h (List.suffix_refl _)) (Nat.not_le.mpr hlt)
    · exact hsuffix
  · exact absurd (hafter.le_of_suffix h hsuffix) (Nat.not_le.mpr hlt)

/-! ## Back to bytes -/

theorem charOffset_byteOffset (t : Text) (offset : Nat) : t.charOffset (t.byteOffset offset) = min offset t.length := by
  have hsplit := charOffset_append (t.take offset) (t.drop offset)
  rwa [List.take_append_drop, List.length_take] at hsplit

theorem byteOffset_add {t part : Text} {offset : Nat} (h : part <+: t.drop offset) :
    t.byteOffset (offset + part.length) = t.byteOffset offset + byteSize part := by
  rw [byteOffset, byteOffset, List.take_add, byteSize_append, ← List.prefix_iff_eq_take.mp h]

theorem prefix_drop_add {a b : Text} {offset : Nat} (h : a ++ b <+: t.drop offset) :
    b <+: t.drop (offset + a.length) := by
  obtain ⟨rest, hrest⟩ := h
  exact ⟨rest, by rw [← List.drop_drop, ← hrest, List.append_assoc, List.drop_left]⟩

theorem charRange_byteSpan {range : CharRange} (h : range.Inside t) : t.charRange (t.byteSpan range) = range := by
  rw [charRange, byteSpan, charOffset_byteOffset, charOffset_byteOffset, Nat.min_eq_left h.bounded,
    Nat.min_eq_left (Nat.le_trans h.ordered h.bounded), Nat.max_eq_left h.ordered]

end Text

/-! ## Spans -/

namespace ByteSpan

/-- The span lies between two offsets. -/
structure Between (span : ByteSpan) (start stop : Nat) : Prop where
  start : start ≤ span.start
  stop : span.stop ≤ stop

/-- The span is that of `part` where it stands in the text. -/
structure Selects (span : ByteSpan) (t part : Text) : Prop where
  stands : t.StandsAt part span.start
  stop : span.stop = span.start + Text.byteSize part

variable {span : ByteSpan} {t part : Text}

theorem Selects.slice_charRange (h : span.Selects t part) : t.slice (t.charRange span) = part := by
  have hspan : span = ⟨span.start, span.start + Text.byteSize part⟩ := by rw [← h.stop]
  rw [hspan]
  exact h.stands.slice_charRange

/-- A span in a part of the text, moved to where the part stands. -/
theorem Selects.shift {whole : Text} {start : Nat} (h : span.Selects whole part) (hwhole : t.StandsAt whole start) :
    (span.shift start).Selects t part := by
  constructor
  · rw [ByteSpan.shift, Nat.add_comm]
    exact hwhole.part h.stands
  · simp only [ByteSpan.shift, h.stop]
    omega

/-- A span that lies in the text and begins and ends on borders of characters. -/
structure Fits (span : ByteSpan) (t : Text) : Prop where
  ordered : span.start ≤ span.stop
  bounded : span.stop ≤ Text.byteSize t
  start : t.IsBorder span.start
  stop : t.IsBorder span.stop

theorem fits_of_isBorder {start stop : Nat} (h : start ≤ stop) (hstart : t.IsBorder start) (hstop : t.IsBorder stop) :
    Fits ⟨start, stop⟩ t :=
  ⟨h, hstop.le, hstart, hstop⟩

theorem fits_whole (t : Text) : Fits ⟨0, Text.byteSize t⟩ t :=
  fits_of_isBorder (Nat.zero_le _) t.standsFrom_zero.isBorder t.isBorder_byteSize

theorem Selects.fits (h : span.Selects t part) : span.Fits t := by
  obtain ⟨before, after, htext, hbefore⟩ := h.stands
  have hstart : t.StandsFrom (part ++ after) span.start := ⟨before, by rw [htext, List.append_assoc], hbefore⟩
  exact fits_of_isBorder (h.stop ▸ Nat.le_add_right _ _) hstart.isBorder (hstart.advance rfl h.stop).isBorder

end ByteSpan

end Sitewright
