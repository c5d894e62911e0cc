import Mathlib.Data.List.Infix
import Sitewright.Text.Basic

/-!
Cutting texts at a character and at a phrase. What stands before the first occurrence has none, and it is
found again when the parts are put together, if occurrences of the phrase cannot overlap.
-/

namespace Sitewright.Text

variable {c : Char} {phrase t before after : Text}

/-! ## At a character -/

theorem splitOnce_append (h : c ∉ before) : splitOnce c (before ++ c :: after) = some (before, after) := by
  induction before with
  | nil => rw [List.nil_append, splitOnce, if_pos rfl]
  | cons d before ih =>
    rw [List.mem_cons, not_or] at h
    rw [List.cons_append, splitOnce, if_neg (Ne.symm h.1), ih h.2]
    rfl

theorem splitOnce_eq_some (h : splitOnce c t = some (before, after)) :
    t = before ++ c :: after ∧ c ∉ before := by
  induction t generalizing before with
  | nil => cases h
  | cons d rest ih =>
    rw [splitOnce] at h
    split at h
    next hd =>
      cases h
      exact ⟨by rw [hd, List.nil_append], List.not_mem_nil⟩
    next hd =>
      obtain ⟨⟨first, second⟩, hrest, heq⟩ := Option.map_eq_some_iff.mp h
      cases heq
      obtain ⟨rfl, hfirst⟩ := ih hrest
      exact ⟨rfl, List.not_mem_cons_of_ne_of_not_mem (Ne.symm hd) hfirst⟩

theorem splitOnce_eq_none (h : splitOnce c t = none) : c ∉ t := by
  induction t with
  | nil => exact List.not_mem_nil
  | cons d rest ih =>
    rw [splitOnce] at h
    split at h
    next => cases h
    next hd => exact List.not_mem_cons_of_ne_of_not_mem (Ne.symm hd) (ih (Option.map_eq_none_iff.mp h))

/-! ## At a phrase -/

theorem cut_cons_eq_none {rest : Text} :
    cut phrase (c :: rest) = none ↔ ¬phrase <+: c :: rest ∧ cut phrase rest = none := by
  rw [cut]
  cases hfound : phrase.isPrefixOf? (c :: rest) with
  | some after =>
    have hstart := List.isPrefixOf?_eq_some_iff_append_eq.mp hfound
    simp only [reduceCtorEq, false_iff, not_and]
    exact fun hnot => absurd ⟨after, hstart⟩ hnot
  | none =>
    have hnot : ¬phrase <+: c :: rest := by
      rintro ⟨after, hafter⟩
      rw [List.isPrefixOf?_eq_some_iff_append_eq.mpr hafter] at hfound
      cases hfound
    simp [hnot]

theorem cut_eq_some (h : cut phrase t = some (before, after)) : t = before ++ phrase ++ after := by
  induction t generalizing before with
  | nil =>
    rw [cut] at h
    split at h
    next hphrase =>
      cases h
      rw [hphrase]
      rfl
    next => cases h
  | cons d rest ih =>
    rw [cut] at h
    split at h
    next tail hfound =>
      cases h
      exact (List.isPrefixOf?_eq_some_iff_append_eq.mp hfound).symm
    next =>
      obtain ⟨⟨first, second⟩, hrest, heq⟩ := Option.map_eq_some_iff.mp h
      cases heq
      rw [ih hrest]
      rfl

/-- The phrase begins nowhere before its first occurrence. -/
theorem not_prefix_drop_of_cut (h : cut phrase t = some (before, after)) {i : Nat} (hi : i < before.length) :
    ¬phrase <+: t.drop i := by
  induction t generalizing before i with
  | nil =>
    rw [cut] at h
    split at h
    next =>
      cases h
      cases hi
    next => cases h
  | cons d rest ih =>
    rw [cut] at h
    split at h
    next =>
      cases h
      cases hi
    next hfound =>
      obtain ⟨⟨first, second⟩, hrest, heq⟩ := Option.map_eq_some_iff.mp h
      cases heq
      cases i with
      | zero =>
        rintro ⟨tail, htail⟩
        rw [List.drop_zero] at htail
        rw [List.isPrefixOf?_eq_some_iff_append_eq.mpr htail] at hfound
        cases hfound
      | succ i => exact ih hrest (Nat.lt_of_succ_lt_succ hi)

theorem cut_eq_none_iff (hphrase : phrase ≠ []) : cut phrase t = none ↔ ¬phrase <:+: t := by
  induction t with
  | nil => simp [cut, hphrase]
  | cons c rest ih => rw [cut_cons_eq_none, ih, List.infix_cons_iff, not_or]

/-- The phrase does not occur before its first occurrence. -/
theorem cut_before_eq_none (hphrase : phrase ≠ []) (h : cut phrase t = some (before, after)) :
    cut phrase before = none := by
  rw [cut_eq_none_iff hphrase]
  rintro ⟨start, rest, hbefore⟩
  have hlength : start.length < before.length := by
    have hpos := List.length_pos_iff.mpr hphrase
    simp only [← hbefore, List.length_append]
    omega
  exact not_prefix_drop_of_cut h hlength ⟨rest ++ phrase ++ after, by simp [cut_eq_some h, ← hbefore]⟩

/-- A phrase whose last character stands only at its end is found again where it was put. -/
theorem cut_append {body : Text} (hphrase : phrase = body ++ [c]) (hlast : c ∉ body)
    (h : cut phrase before = none) : cut phrase (before ++ phrase ++ after) = some (before, after) := by
  induction before with
  | nil =>
    have hfound : phrase.isPrefixOf? (phrase ++ after) = some after :=
      List.isPrefixOf?_eq_some_iff_append_eq.mpr rfl
    rw [List.nil_append]
    cases hall : phrase ++ after with
    | nil => simp [hphrase] at hall
    | cons d rest => rw [cut, ← hall, hfound]
  | cons d before ih =>
    obtain ⟨hnot, hbefore⟩ := cut_cons_eq_none.mp h
    have hmissing : phrase.isPrefixOf? (d :: before ++ phrase ++ after) = none := by
      by_contra hfound
      obtain ⟨tail, htail⟩ := Option.ne_none_iff_exists'.mp hfound
      rw [List.isPrefixOf?_eq_some_iff_append_eq, List.append_assoc] at htail
      rcases List.append_eq_append_iff.mp htail with ⟨gap, hgap, -⟩ | ⟨q, hq, hrest⟩
      · exact hnot ⟨gap, hgap.symm⟩
      · -- the occurrence would end in the phrase, before the end of the phrase
        have hne : q ≠ [] := by
          rintro rfl
          exact hnot ⟨[], by rw [List.append_nil, hq, List.append_nil]⟩
        have hmem : c ∈ q := by
          have hend : q.getLast? = some c := by
            rw [← List.getLast?_append_of_ne_nil (d :: before) hne, ← hq, hphrase, List.getLast?_concat]
          exact List.mem_of_getLast? hend
        have hlength : q.length ≤ body.length := by
          have hsize := congrArg List.length (hq.symm.trans hphrase)
          simp only [List.length_append, List.length_cons, List.length_nil] at hsize
          omega
        have hbody : body <+: phrase ++ after := ⟨[c] ++ after, by rw [hphrase, List.append_assoc]⟩
        have hstart : q <+: body := List.prefix_of_prefix_length_le ⟨tail, hrest.symm⟩ hbody hlength
        exact hlast (hstart.subset hmem)
    rw [List.cons_append, List.cons_append, cut, ← List.cons_append, ← List.cons_append, hmissing,
      ih hbefore]
    rfl

end Sitewright.Text
