import Sitewright.Text.Basic

/-!
The order of texts: by the first characters that differ, and a text comes before those that begin with
it. By code points this is also the order of the bytes in UTF-8.
-/

namespace Sitewright.Text

def before : Text → Text → Bool
  | _, [] => false
  | [], _ :: _ => true
  | a :: s, b :: t => decide (a.toNat < b.toNat) || (decide (a = b) && before s t)

@[simp] theorem before_nil (t : Text) : before t [] = false := by
  cases t <;> rfl

@[simp] theorem nil_before_cons (c : Char) (t : Text) : before [] (c :: t) = true := rfl

theorem before_cons {a b : Char} {s t : Text} :
    before (a :: s) (b :: t) = true ↔ a.toNat < b.toNat ∨ (a = b ∧ before s t = true) := by
  simp [before]

theorem before_irrefl (t : Text) : before t t = false := by
  induction t with
  | nil => rfl
  | cons c t ih => simp [before, ih]

theorem before_trans {s t u : Text} (hst : before s t = true) (htu : before t u = true) :
    before s u = true := by
  induction s generalizing t u with
  | nil =>
    cases u with
    | nil => simp at htu
    | cons c u => rfl
  | cons a s ih =>
    cases t with
    | nil => simp at hst
    | cons b t =>
      cases u with
      | nil => simp at htu
      | cons c u =>
        rw [before_cons] at *
        rcases hst with h | ⟨rfl, h⟩
        · rcases htu with h' | ⟨rfl, _⟩
          · exact .inl (Nat.lt_trans h h')
          · exact .inl h
        · rcases htu with h' | ⟨rfl, h'⟩
          · exact .inl h'
          · exact .inr ⟨rfl, ih h h'⟩

/-- Of two different texts one comes before the other. -/
theorem before_of_not_before_of_ne {s t : Text} (h : before s t = false) (hne : s ≠ t) :
    before t s = true := by
  induction s generalizing t with
  | nil =>
    cases t with
    | nil => exact absurd rfl hne
    | cons b t => simp at h
  | cons a s ih =>
    cases t with
    | nil => rfl
    | cons b t =>
      rw [before_cons]
      rcases Nat.lt_trichotomy a.toNat b.toNat with lt | eq | gt
      · simp [before, lt] at h
      · have hab : a = b := Char.toNat_inj.mp eq
        subst hab
        refine .inr ⟨rfl, ih ?_ fun e => hne (by rw [e])⟩
        simpa [before] using h
      · exact .inl gt

end Sitewright.Text
