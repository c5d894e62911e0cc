import Mathlib.Data.List.Chain
import Sitewright.Text.Blank

/-!
Trimmed and squeezed texts. A text is its trimmed part between blanks; it is trimmed if it neither begins
nor ends with a blank. A trimmed text is a row of words with blanks between them, and squeezing puts a
single space for those blanks.
-/

namespace Sitewright

variable {c : Char}

theorem ne_of_isBlank {d : Char} (h : isBlank c = true) (hd : isBlank d = false) : c ≠ d := by
  rintro rfl
  rw [h] at hd
  cases hd

/-! ## Letters and digits -/

theorem isUpper_iff : c.isUpper = true ↔ 65 ≤ c.toNat ∧ c.toNat ≤ 90 :=
  decide_eq_true_iff

theorem isLower_iff : c.isLower = true ↔ 97 ≤ c.toNat ∧ c.toNat ≤ 122 := by
  show (decide (c.val ≥ 'a'.val) && decide (c.val ≤ 'z'.val)) = true ↔ _
  rw [Bool.and_eq_true, decide_eq_true_eq, decide_eq_true_eq]
  exact Iff.rfl

theorem isDigit_iff : c.isDigit = true ↔ 48 ≤ c.toNat ∧ c.toNat ≤ 57 := by
  show (decide (c.val ≥ '0'.val) && decide (c.val ≤ '9'.val)) = true ↔ _
  rw [Bool.and_eq_true, decide_eq_true_eq, decide_eq_true_eq]
  exact Iff.rfl

theorem isAlpha_of_isLower (h : c.isLower = true) : c.isAlpha = true := by
  show (c.isUpper || c.isLower) = true
  rw [h, Bool.or_true]

theorem isAlphanum_of_isAlpha (h : c.isAlpha = true) : c.isAlphanum = true := by
  show (c.isAlpha || c.isDigit) = true
  rw [h, Bool.true_or]

/-- Letters and digits are not blank. -/
theorem isAlphanum_of_isBlank (h : isBlank c = true) : c.isAlphanum = false := by
  simp only [isBlank, blankRanges, List.any_cons, List.any_nil, Bool.or_false, Bool.or_eq_true,
    Bool.and_eq_true, decide_eq_true_eq] at h
  show (c.isUpper || c.isLower || c.isDigit) = false
  rw [Bool.or_eq_false_iff, Bool.or_eq_false_iff, Bool.eq_false_iff, Bool.eq_false_iff, Bool.eq_false_iff,
    ne_eq, ne_eq, ne_eq, isUpper_iff, isLower_iff, isDigit_iff]
  omega

namespace Text

variable {t : Text}
variable {c : Char} {w : Text}

theorem allBlank_append (a b : Text) : allBlank (a ++ b) = (allBlank a && allBlank b) :=
  List.all_append

/-! ## Joining -/

theorem join_singleton (separator piece : Text) : join separator [piece] = piece :=
  List.intercalate_singleton

theorem join_cons {pieces : List Text} (h : pieces ≠ []) (separator piece : Text) :
    join separator (piece :: pieces) = piece ++ separator ++ join separator pieces :=
  List.intercalate_cons_of_ne_nil h

theorem join_append {a b : List Text} (ha : a ≠ []) (hb : b ≠ []) (separator : Text) :
    join separator (a ++ b) = join separator a ++ separator ++ join separator b := by
  induction a with
  | nil => exact absurd rfl ha
  | cons first rest ih =>
    cases rest with
    | nil => rw [List.singleton_append, join_cons hb, join_singleton]
    | cons next others =>
      rw [List.cons_append, join_cons (by simp), ih (List.cons_ne_nil _ _), join_cons (List.cons_ne_nil _ _)]
      simp only [List.append_assoc]

theorem prefix_join (separator first : Text) (rest : List Text) : first <+: join separator (first :: rest) := by
  cases rest with
  | nil => exact ⟨[], by rw [List.append_nil, join_singleton]⟩
  | cons next others =>
    rw [join_cons (List.cons_ne_nil _ _)]
    exact (List.prefix_append _ _).trans (List.prefix_append _ _)

theorem infix_join_of_mem (separator : Text) {pieces : List Text} {piece : Text} (h : piece ∈ pieces) :
    piece <:+: join separator pieces := by
  obtain ⟨before, after, rfl⟩ := List.append_of_mem h
  have hprefix := (prefix_join separator piece after).isInfix
  by_cases hbefore : before = []
  · rw [hbefore, List.nil_append]
    exact hprefix
  · rw [join_append hbefore (List.cons_ne_nil _ _)]
    exact hprefix.trans (List.suffix_append _ _).isInfix

theorem mem_join {separator : Text} {pieces : List Text} (h : c ∈ join separator pieces) :
    c ∈ separator ∨ ∃ piece ∈ pieces, c ∈ piece := by
  induction pieces with
  | nil => cases h
  | cons first rest ih =>
    cases rest with
    | nil => exact .inr ⟨first, List.mem_cons_self, by rwa [join_singleton] at h⟩
    | cons next others =>
      rw [join_cons (List.cons_ne_nil _ _), List.mem_append, List.mem_append] at h
      rw [List.exists_mem_cons_iff]
      rcases h with (h | h) | h
      · exact .inr (.inl h)
      · exact .inl h
      · exact (ih h).imp_right .inr

/-! ## Trimming -/

/-- The text neither begins nor ends with a blank. -/
structure Trimmed (t : Text) : Prop where
  head : ∀ c ∈ t.head?, isBlank c = false
  last : ∀ c ∈ t.getLast?, isBlank c = false

theorem exists_trimStart (t : Text) : ∃ w, allBlank w = true ∧ t = w ++ trimStart t :=
  ⟨t.takeWhile isBlank, List.all_takeWhile, List.takeWhile_append_dropWhile.symm⟩

theorem reverse_trimEnd (t : Text) : (trimEnd t).reverse = trimStart t.reverse :=
  List.reverse_reverse _

theorem exists_trimEnd (t : Text) : ∃ w, allBlank w = true ∧ t = trimEnd t ++ w := by
  obtain ⟨w, hw, heq⟩ := exists_trimStart t.reverse
  refine ⟨w.reverse, by rwa [allBlank, List.all_reverse], ?_⟩
  rw [← reverse_trimEnd] at heq
  simpa using congrArg List.reverse heq

/-- A text is its trimmed part between blanks. -/
theorem exists_trim (t : Text) : ∃ w w', allBlank w = true ∧ allBlank w' = true ∧ t = w ++ trim t ++ w' := by
  obtain ⟨w, hw, hstart⟩ := exists_trimStart t
  obtain ⟨w', hw', hend⟩ := exists_trimEnd (trimStart t)
  exact ⟨w, w', hw, hw', by rw [List.append_assoc, trim, ← hend, ← hstart]⟩

theorem head?_trimStart (t : Text) : ∀ c ∈ (trimStart t).head?, isBlank c = false := by
  intro c hc
  have h := List.head?_dropWhile_not isBlank t
  rw [trimStart] at hc
  rw [hc] at h
  simpa using h

theorem getLast?_trimEnd (t : Text) : ∀ c ∈ (trimEnd t).getLast?, isBlank c = false := by
  intro c hc
  rw [← List.head?_reverse, reverse_trimEnd] at hc
  exact head?_trimStart _ c hc

theorem trimStart_eq_self (h : ∀ c ∈ t.head?, isBlank c = false) : trimStart t = t := by
  cases t with
  | nil => rfl
  | cons c rest => exact List.dropWhile_cons_of_neg (by rw [h c rfl]; decide)

theorem trimEnd_eq_self (h : ∀ c ∈ t.getLast?, isBlank c = false) : trimEnd t = t := by
  rw [← List.reverse_inj, reverse_trimEnd]
  exact trimStart_eq_self (by rwa [List.head?_reverse])

theorem trimmed_trim (t : Text) : Trimmed (trim t) := by
  refine ⟨?_, getLast?_trimEnd _⟩
  intro c (hc : (trimEnd (trimStart t)).head? = some c)
  obtain ⟨w, -, heq⟩ := exists_trimEnd (trimStart t)
  refine head?_trimStart t c ?_
  rw [heq, List.head?_append, hc]
  rfl

theorem Trimmed.trim_eq (h : Trimmed t) : trim t = t := by
  rw [trim, trimStart_eq_self h.head, trimEnd_eq_self h.last]

theorem trimStart_append_left (hw : allBlank w = true) (t : Text) :
    trimStart (w ++ t) = trimStart t :=
  List.dropWhile_append_of_pos (by simpa [allBlank] using hw)

theorem trimStart_blank (hw : allBlank w = true) : trimStart w = [] := by
  have h := trimStart_append_left hw []
  rwa [List.append_nil] at h

theorem trimEnd_append_right (hw : allBlank w = true) (t : Text) : trimEnd (t ++ w) = trimEnd t := by
  rw [← List.reverse_inj, reverse_trimEnd, reverse_trimEnd, List.reverse_append]
  exact trimStart_append_left (by rwa [allBlank, List.all_reverse]) _

/-- Trimming takes away the blanks around a trimmed text. -/
theorem trim_append_left (hw : allBlank w = true) (t : Text) : trim (w ++ t) = trim t := by
  rw [trim, trimStart_append_left hw, trim]

theorem trim_append_right (hw : allBlank w = true) (t : Text) : trim (t ++ w) = trim t := by
  rw [trim, trim, trimStart, List.dropWhile_append]
  split
  next hnil =>
    rw [List.isEmpty_iff] at hnil
    rw [trimStart, hnil]
    exact congrArg trimEnd (trimStart_blank hw)
  next => exact trimEnd_append_right hw _

theorem Trimmed.trim_pad (h : Trimmed t) {w' : Text} (hw : allBlank w = true) (hw' : allBlank w' = true) :
    trim (w ++ t ++ w') = t := by
  cases t with
  | nil =>
    rw [List.append_nil, trim, trimStart_blank (by rw [allBlank_append, hw, hw']; rfl)]
    rfl
  | cons c rest =>
    have hstart : trimStart (c :: rest ++ w') = c :: rest ++ w' := by
      refine trimStart_eq_self fun d hd => ?_
      cases hd
      exact h.head c rfl
    rw [List.append_assoc, trim, trimStart_append_left hw, hstart, trimEnd_append_right hw',
      trimEnd_eq_self h.last]

/-! ## Words -/

theorem splitWhen_eq_splitOnP (p : Char → Bool) (t : Text) : splitWhen p t = t.splitOnP p := by
  induction t with
  | nil => rfl
  | cons c rest ih =>
    rw [splitWhen, List.splitOnP_cons_eq_if_modifyHead, ih]
    cases hrest : rest.splitOnP p with
    | nil => exact absurd hrest (List.splitOnP_ne_nil p rest)
    | cons piece pieces => rfl

theorem split_eq_splitOn (mark : Char) (t : Text) : split mark t = t.splitOn mark :=
  splitWhen_eq_splitOnP _ t

theorem join_split (mark : Char) (t : Text) : join [mark] (split mark t) = t := by
  rw [split_eq_splitOn]
  exact List.intercalate_splitOn mark

/-- A word is not empty and has no blanks. -/
structure IsWord (w : Text) : Prop where
  ne_nil : w ≠ []
  solid : ∀ c ∈ w, isBlank c = false

theorem isWord_of_all (hne : w ≠ []) (h : w.all (!isBlank ·) = true) : IsWord w :=
  ⟨hne, fun c hc => by simpa using List.all_eq_true.mp h c hc⟩

theorem words_append_blank (hc : isBlank c = true) (x y : Text) : words (x ++ c :: y) = words x ++ words y := by
  simp only [words, splitWhen_eq_splitOnP, List.splitOnP_append_cons x y hc, List.filter_append]

theorem IsWord.words_eq (h : IsWord w) : words w = [w] := by
  simp [words, splitWhen_eq_splitOnP, List.splitOnP_eq_singleton h.solid, h.ne_nil]

theorem words_blanks_append (hw : allBlank w = true) (t : Text) : words (w ++ t) = words t := by
  induction w with
  | nil => rfl
  | cons c rest ih =>
    simp only [allBlank, List.all_cons, Bool.and_eq_true] at hw
    have h := words_append_blank hw.1 [] (rest ++ t)
    exact h.trans (ih hw.2)

theorem words_append_blanks (hw : allBlank w = true) (t : Text) : words (t ++ w) = words t := by
  cases w with
  | nil => rw [List.append_nil]
  | cons c rest =>
    simp only [allBlank, List.all_cons, Bool.and_eq_true] at hw
    have hrest := words_blanks_append hw.2 []
    rw [List.append_nil] at hrest
    rw [words_append_blank hw.1, hrest]
    exact List.append_nil _

theorem IsWord.trimmed (h : IsWord w) : Trimmed w :=
  ⟨fun c hc => h.solid c (List.mem_of_mem_head? hc), fun c hc => h.solid c (List.mem_of_getLast? hc)⟩

/-- A trimmed text is empty, one word, or a word, blanks, and a trimmed text. -/
theorem Trimmed.cases (h : Trimmed t) :
    t = [] ∨ IsWord t ∨ ∃ u c w rest, IsWord u ∧ isBlank c = true ∧ allBlank w = true ∧ rest ≠ [] ∧
      Trimmed rest ∧ t = u ++ c :: (w ++ rest) := by
  by_cases hnil : t = []
  · exact .inl hnil
  refine .inr ?_
  have hsplit : t = t.takeWhile (!isBlank ·) ++ t.dropWhile (!isBlank ·) :=
    List.takeWhile_append_dropWhile.symm
  have hword : IsWord (t.takeWhile (!isBlank ·)) := by
    constructor
    · intro hempty
      obtain ⟨c, rest, rfl⟩ := List.exists_cons_of_ne_nil hnil
      have hc := h.head c rfl
      simp [hc] at hempty
    · intro c hc
      simpa using List.all_eq_true.mp List.all_takeWhile c hc
  cases hdrop : t.dropWhile (!isBlank ·) with
  | nil =>
    rw [hdrop, List.append_nil] at hsplit
    exact .inl (hsplit ▸ hword)
  | cons c after =>
    have hc : isBlank c = true := by
      have hhead := List.head?_dropWhile_not (!isBlank ·) t
      rw [hdrop] at hhead
      simpa using hhead
    obtain ⟨w, hw, hafter⟩ := exists_trimStart after
    have hlast : t.getLast? = (c :: (w ++ trimStart after)).getLast? := by
      rw [hsplit, hdrop, ← hafter, List.getLast?_append_of_ne_nil _ (List.cons_ne_nil _ _)]
    -- what follows the blanks is not empty, for the text does not end with a blank
    have hrest : trimStart after ≠ [] := by
      intro hempty
      rw [hempty, List.append_nil] at hlast
      obtain ⟨d, hd⟩ := List.getLast?_isSome.mpr (List.cons_ne_nil c w) |> Option.isSome_iff_exists.mp
      have hblank : isBlank d = true := by
        rcases List.mem_cons.mp (List.mem_of_getLast? hd) with rfl | hmem
        · exact hc
        · exact List.all_eq_true.mp hw d hmem
      rw [h.last d (hlast.trans hd)] at hblank
      cases hblank
    refine .inr ⟨_, c, w, trimStart after, hword, hc, hw, hrest, ⟨head?_trimStart after, ?_⟩, ?_⟩
    · intro d hd
      refine h.last d ?_
      rw [hlast, ← List.cons_append, List.getLast?_append_of_ne_nil _ hrest]
      exact hd
    · rw [← hafter, ← hdrop]
      exact hsplit

/-- Induction along the words of a trimmed text. -/
theorem Trimmed.byWords {P : Text → Prop} (nil : P []) (word : ∀ u, IsWord u → P u)
    (more : ∀ u c w rest, IsWord u → isBlank c = true → allBlank w = true → rest ≠ [] → Trimmed rest →
      P rest → P (u ++ c :: (w ++ rest)))
    (h : Trimmed t) : P t := by
  induction hlength : t.length using Nat.strongRecOn generalizing t with
  | ind length ih =>
    rcases h.cases with rfl | hword | ⟨u, c, w, rest, hu, hc, hw, hne, hrest, rfl⟩
    · exact nil
    · exact word t hword
    · refine more u c w rest hu hc hw hne hrest (ih rest.length ?_ hrest rfl)
      simp only [List.length_append, List.length_cons] at hlength
      omega

/-! ## Squeezing -/

theorem words_ne_nil (h : Trimmed t) (hne : t ≠ []) : words t ≠ [] := by
  rcases h.cases with rfl | hword | ⟨u, c, w, rest, hu, hc, -, -, -, rfl⟩
  · exact absurd rfl hne
  · rw [hword.words_eq]
    exact List.cons_ne_nil _ _
  · rw [words_append_blank hc, hu.words_eq]
    exact List.cons_ne_nil _ _

theorem IsWord.squeeze_eq (h : IsWord w) : squeeze w = w := by
  rw [squeeze, h.words_eq, join_singleton]

theorem squeeze_append {u rest : Text} (hu : IsWord u) (hc : isBlank c = true)
    (hw : allBlank w = true) (hrest : Trimmed rest) (hne : rest ≠ []) :
    squeeze (u ++ c :: (w ++ rest)) = u ++ ' ' :: squeeze rest := by
  rw [squeeze, words_append_blank hc, words_blanks_append hw, hu.words_eq, squeeze]
  obtain ⟨first, others, hwords⟩ := List.exists_cons_of_ne_nil (words_ne_nil hrest hne)
  rw [hwords, List.singleton_append, join_cons (List.cons_ne_nil _ _), List.append_assoc]
  rfl

theorem head?_squeeze (h : Trimmed t) : (squeeze t).head? = t.head? := by
  rcases h.cases with rfl | hword | ⟨u, c, w, rest, hu, hc, hw, hne, hrest, rfl⟩
  · rfl
  · rw [hword.squeeze_eq]
  · rw [squeeze_append hu hc hw hrest hne, List.head?_append_of_ne_nil _ hu.ne_nil,
      List.head?_append_of_ne_nil _ hu.ne_nil]

theorem squeeze_ne_nil (h : Trimmed t) (hne : t ≠ []) : squeeze t ≠ [] := by
  intro hnil
  have hhead := head?_squeeze h
  rw [hnil, List.head?_nil] at hhead
  exact hne (List.head?_eq_none_iff.mp hhead.symm)

theorem trimmed_squeeze (h : Trimmed t) : Trimmed (squeeze t) := by
  refine ⟨fun c hc => h.head c (head?_squeeze h ▸ hc), ?_⟩
  refine h.byWords (P := fun t => ∀ c ∈ (squeeze t).getLast?, isBlank c = false) ?_ ?_ ?_
  · intro c hc
    cases hc
  · intro u hu c hc
    rw [hu.squeeze_eq] at hc
    exact hu.solid c (List.mem_of_getLast? hc)
  · intro u c w rest hu hc hw hne hrest ih d hd
    refine ih d ?_
    rw [squeeze_append hu hc hw hrest hne, ← List.singleton_append, ← List.append_assoc,
      List.getLast?_append_of_ne_nil _ (squeeze_ne_nil hrest hne)] at hd
    exact hd

theorem squeeze_squeeze (h : Trimmed t) : squeeze (squeeze t) = squeeze t := by
  refine h.byWords (P := fun t => squeeze (squeeze t) = squeeze t) rfl ?_ ?_
  · intro u hu
    rw [hu.squeeze_eq, hu.squeeze_eq]
  · intro u c w rest hu hc hw hne hrest ih
    rw [squeeze_append hu hc hw hrest hne]
    have h := squeeze_append hu (by decide : isBlank ' ' = true) (rfl : allBlank [] = true)
      (trimmed_squeeze hrest) (squeeze_ne_nil hrest hne)
    rw [List.nil_append, ih] at h
    exact h

theorem squeeze_trim (t : Text) : squeeze (trim t) = squeeze t := by
  obtain ⟨w, w', hw, hw', heq⟩ := exists_trim t
  have hwords : words t = words (trim t) := by
    rw [heq, words_append_blanks hw', words_blanks_append hw, (trimmed_trim t).trim_pad hw hw']
  rw [squeeze, squeeze, hwords]

theorem trimmed_of_squeeze_eq (h : squeeze t = t) : Trimmed t := by
  rw [← h, ← squeeze_trim]
  exact trimmed_squeeze (trimmed_trim t)

/-! ## Single spaces -/

/-- Every blank is a space, and no two stand together. -/
structure Spaced (t : Text) : Prop where
  space : ∀ c ∈ t, isBlank c = true → c = ' '
  apart : t.IsChain fun c d => isBlank c = false ∨ isBlank d = false

theorem Spaced.infix {part : Text} (h : Spaced t) (hpart : part <:+: t) : Spaced part :=
  ⟨fun c hc => h.space c (hpart.subset hc), h.apart.infix hpart⟩

theorem spaced_append {a b : Text} (ha : Spaced a) (hb : Spaced b)
    (h : ∀ c ∈ a.getLast?, ∀ d ∈ b.head?, isBlank c = false ∨ isBlank d = false) : Spaced (a ++ b) := by
  refine ⟨fun c hc => ?_, List.isChain_append.mpr ⟨ha.apart, hb.apart, h⟩⟩
  rcases List.mem_append.mp hc with hc | hc
  · exact ha.space c hc
  · exact hb.space c hc

theorem spaced_singleton (h : isBlank c = true → c = ' ') : Spaced [c] :=
  ⟨fun d hd => by rwa [List.mem_singleton.mp hd], .singleton c⟩

theorem IsWord.spaced (h : IsWord w) : Spaced w := by
  have hsolid := h.solid
  constructor
  · intro c hc hblank
    rw [hsolid c hc] at hblank
    cases hblank
  · clear h
    induction w with
    | nil => exact .nil
    | cons c rest ih =>
      rw [List.forall_mem_cons] at hsolid
      exact (ih hsolid.2).cons fun d _ => .inl hsolid.1

theorem spaced_squeeze (h : Trimmed t) : Spaced (squeeze t) := by
  refine h.byWords (P := fun t => Spaced (squeeze t)) ?_ ?_ ?_
  · exact ⟨fun c hc => (List.not_mem_nil hc).elim, .nil⟩
  · intro u hu
    rw [hu.squeeze_eq]
    exact hu.spaced
  · intro u c w rest hu hc hw hne hrest ih
    rw [squeeze_append hu hc hw hrest hne, ← List.singleton_append]
    have hspace : Spaced ([' '] ++ squeeze rest) :=
      spaced_append (spaced_singleton fun _ => rfl) ih
        fun _ _ d hd => .inr ((trimmed_squeeze hrest).head d hd)
    exact spaced_append hu.spaced hspace fun d hd _ _ => .inl (hu.trimmed.last d hd)

theorem squeeze_eq_self (h : Trimmed t) (hspaced : Spaced t) : squeeze t = t := by
  revert hspaced
  refine h.byWords (P := fun t => Spaced t → squeeze t = t) (fun _ => rfl) ?_ ?_
  · exact fun u hu _ => hu.squeeze_eq
  · intro u c w rest hu hc hw hne hrest ih hspaced
    have hafter : Spaced (c :: (w ++ rest)) := hspaced.infix (List.suffix_append u _).isInfix
    -- a second blank would stand beside the first
    have hnil : w = [] := by
      cases w with
      | nil => rfl
      | cons d others =>
        simp only [allBlank, List.all_cons, Bool.and_eq_true] at hw
        rcases hafter.apart.rel_head? (rfl : d ∈ (d :: others ++ rest).head?) with hblank | hblank
        · rw [hc] at hblank
          cases hblank
        · rw [hw.1] at hblank
          cases hblank
    obtain rfl := hafter.space c List.mem_cons_self hc
    subst hnil
    have hspacedRest : Spaced rest := hafter.infix (List.suffix_cons _ rest).isInfix
    rw [squeeze_append hu hc hw hrest hne, ih hspacedRest]
    rfl

end Text

end Sitewright
