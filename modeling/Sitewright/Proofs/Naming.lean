import Mathlib.Computability.Language
import Sitewright.Naming
import Sitewright.Proofs.Cuts
import Sitewright.Proofs.Text

/-!
Names and their grammars. Component names and page paths are slugs with slashes between them, so neither has a character
that keys or markup give a meaning of their own, and properties are words. The tests say what a name must not have and the grammars how names are
made, and they give the same names. What may follow the first character of a slug solves an equation (`slugRests_eq`), to
which the test answers character by character; paths are read through their segments (`mem_path_iff`).
-/

open scoped Computability

namespace Sitewright.Naming

variable {p : Char → Prop} {L : Language Char} {c mark : Char} {t value : Text}

/-! ## Characters -/

/-- What component names and page paths are made of. -/
def isPathLetter (c : Char) : Bool :=
  isSlugLetter c || c == '-' || c == '/'

theorem slugLetters_of_isSlugWith {digitFirst : Bool} (h : isSlugWith digitFirst value = true)
    (hc : c ∈ value) : (isSlugLetter c || c == '-') = true := by
  cases value with
  | nil => cases h
  | cons first rest =>
    rw [isSlugWith, Bool.and_eq_true] at h
    exact List.all_eq_true.mp h.2 c hc

theorem isPathLetter_of_split {digitFirst : Bool}
    (h : (Text.split '/' value).all (isSlugWith digitFirst) = true) (hc : c ∈ value) : isPathLetter c = true := by
  rw [← Text.join_split '/' value] at hc
  rcases Text.mem_join hc with hslash | ⟨piece, hpiece, hmem⟩
  · rw [List.mem_singleton.mp hslash]
    rfl
  · rw [isPathLetter, slugLetters_of_isSlugWith (List.all_eq_true.mp h piece hpiece) hmem, Bool.true_or]

/-- A component name has path letters only, and the first is no slash. -/
theorem of_isComponentName {name : Text} (h : isComponentName name = true) :
    (∀ c ∈ name, isPathLetter c = true) ∧ ∃ first rest, name = first :: rest ∧ first ≠ '/' := by
  rw [isComponentName, Bool.and_eq_true] at h
  refine ⟨fun c hc => isPathLetter_of_split h.2 hc, ?_⟩
  cases name with
  | nil => cases h.1
  | cons first rest =>
    refine ⟨first, rest, rfl, ?_⟩
    -- a slash in front leaves an empty segment before it
    rintro rfl
    cases h.2

theorem isPagePath_cases : isPagePath value = true ↔
    value = ['/'] ∨ ∃ rest, value = '/' :: rest ∧ ∀ s ∈ Text.split '/' rest, isSafeSlug s = true := by
  unfold isPagePath
  rw [Bool.or_eq_true, beq_iff_eq]
  split
  next rest => simp
  next hslash => simpa using fun rest heq => (hslash rest heq).elim

/-- A page path is a slash and then path letters only. -/
theorem of_isPagePath {path : Text} (h : isPagePath path = true) :
    ∃ rest, path = '/' :: rest ∧ ∀ c ∈ rest, isPathLetter c = true := by
  rcases isPagePath_cases.mp h with rfl | ⟨rest, rfl, hrest⟩
  · exact ⟨[], rfl, List.forall_mem_nil _⟩
  · exact ⟨rest, rfl, fun c hc => isPathLetter_of_split (List.all_eq_true.mpr hrest) hc⟩

/-- A property is a word that begins with a letter and is not reserved. -/
theorem exists_of_isPropertyName {name : Text} (h : isPropertyName name = true) :
    ∃ first rest, name = first :: rest ∧ first.isLower = true ∧ (∀ c ∈ rest, isSlugLetter c = true ∨ c = '_') ∧
      name ∉ reservedProperties := by
  cases name with
  | nil => cases h
  | cons first rest =>
    simp only [isPropertyName, Bool.and_eq_true, List.all_cons, List.all_eq_true, Bool.or_eq_true, beq_iff_eq] at h
    exact ⟨first, rest, rfl, h.1.1.1.1, h.1.2.2, by simpa using h.2⟩

theorem not_mem_of_pathLetters (h : ∀ c ∈ value, isPathLetter c = true) (hc : isPathLetter c = false) :
    c ∉ value :=
  fun hmem => Bool.false_ne_true (hc.symm.trans (h c hmem))

/-! ## Grammars -/

/-- The texts of one character for which `p` holds. -/
def oneOf (p : Char → Prop) : Language Char :=
  {w | ∃ c, p c ∧ w = [c]}

/-- `[a-z]`. -/
def IsSmall (c : Char) : Prop :=
  'a' ≤ c ∧ c ≤ 'z'

/-- `[a-z0-9]`. -/
def IsSmallOrDigit (c : Char) : Prop :=
  IsSmall c ∨ '0' ≤ c ∧ c ≤ '9'

/-- `[a-z0-9]*(m[a-z0-9]+)*` for a mark `m`: what may follow the first character of a slug. -/
def slugRests (mark : Char) : Language Char :=
  (oneOf IsSmallOrDigit)∗ * (oneOf (· = mark) * (oneOf IsSmallOrDigit * (oneOf IsSmallOrDigit)∗))∗

/-- Slugs whose first character is one for which `p` holds. -/
def slugs (p : Char → Prop) (mark : Char) : Language Char :=
  oneOf p * slugRests mark

/-- `[a-z][a-z0-9]*(-[a-z0-9]+)*`. -/
def safeSlugs : Language Char :=
  slugs IsSmall '-'

/-- `[a-z0-9]+(-[a-z0-9]+)*`. -/
def segments : Language Char :=
  slugs IsSmallOrDigit '-'

/-- `L(/L)*`. -/
def slashed (L : Language Char) : Language Char :=
  L * (oneOf (· = '/') * L)∗

/-- `S(/S)*`, where `S` are the segments. -/
def componentNames : Language Char :=
  slashed segments

/-- `/` or `(/T)+`, where `T` are the safe slugs. -/
def pagePaths : Language Char :=
  oneOf (· = '/') + oneOf (· = '/') * safeSlugs * (oneOf (· = '/') * safeSlugs)∗

/-- `[a-z][a-z0-9]*(_[a-z0-9]+)*`. -/
def propertyWords : Language Char :=
  slugs IsSmall '_'

theorem cons_mem_oneOf_mul : c :: t ∈ oneOf p * L ↔ p c ∧ t ∈ L := by
  constructor
  · rintro ⟨_, ⟨d, hd, rfl⟩, u, hu, h⟩
    obtain ⟨rfl, rfl⟩ := List.cons.inj h
    exact ⟨hd, hu⟩
  · rintro ⟨hc, ht⟩
    exact Language.mem_mul.mpr ⟨[c], ⟨c, hc, rfl⟩, t, ht, rfl⟩

theorem nil_notMem_oneOf_mul : [] ∉ oneOf p * L := by
  rintro ⟨_, ⟨c, -, rfl⟩, u, -, h⟩
  cases h

theorem isSmall_iff : IsSmall c ↔ c.isLower = true := by
  rw [isLower_iff]
  exact Iff.rfl

theorem isSmallOrDigit_iff : IsSmallOrDigit c ↔ isSlugLetter c = true := by
  rw [IsSmallOrDigit, isSmall_iff, isSlugLetter, Bool.or_eq_true, isDigit_iff]
  exact Iff.rfl

/-! ## Slugs -/

/-- What follows a character of a slug is nothing, or goes on with a letter or digit, at once or after a mark. -/
theorem slugRests_eq (mark : Char) :
    slugRests mark = 1 + (slugs IsSmallOrDigit mark + oneOf (· = mark) * slugs IsSmallOrDigit mark) := by
  unfold slugs slugRests
  generalize oneOf IsSmallOrDigit = a, oneOf (· = mark) = m
  have hwords : (m * (a * a∗))∗ = 1 + m * (a * (a∗ * (m * (a * a∗))∗)) := by
    simpa only [mul_assoc] using (Language.one_add_self_mul_kstar_eq_kstar (m * (a * a∗))).symm
  generalize (m * (a * a∗))∗ = w at hwords ⊢
  calc a∗ * w
    _ = (1 + a * a∗) * w := by rw [Language.one_add_self_mul_kstar_eq_kstar]
    _ = w + a * (a∗ * w) := by rw [add_mul, one_mul, mul_assoc]
    _ = 1 + m * (a * (a∗ * w)) + a * (a∗ * w) := by rw [← hwords]
    _ = 1 + (a * (a∗ * w) + m * (a * (a∗ * w))) := by rw [add_assoc, add_comm (m * _)]

theorem mem_slugRests : t ∈ slugRests mark ↔
    t = [] ∨ t ∈ slugs IsSmallOrDigit mark ∨ t ∈ oneOf (· = mark) * slugs IsSmallOrDigit mark := by
  rw [slugRests_eq]
  exact Iff.rfl

variable (hmark : isSlugLetter mark = false)
include hmark

/-- A slug is told by its first character and by what may follow one. -/
theorem mem_slugs_iff (hp : ∀ c, p c → IsSmallOrDigit c) :
    t ∈ slugs p mark ↔ (∃ c ∈ t.head?, p c) ∧ t ∈ slugRests mark := by
  rw [mem_slugRests, slugs, slugs]
  cases t with
  | nil => simp [nil_notMem_oneOf_mul]
  | cons c rest =>
    have hne (hc : p c) : c ≠ mark := by
      rintro rfl
      exact Bool.false_ne_true (hmark.symm.trans (isSmallOrDigit_iff.mp (hp c hc)))
    simp only [cons_mem_oneOf_mul]
    grind

theorem mem_slugRests_iff : t ∈ slugRests mark ↔
    Text.endsWith mark t = false ∧ Text.holds [mark, mark] t = false ∧
      (t.all fun c => isSlugLetter c || c == mark) = true := by
  induction t with
  | nil => simp [mem_slugRests, Text.endsWith, Text.holds, Text.cut]
  | cons c rest ih =>
    have hholds : Text.holds [mark, mark] (c :: rest) = false ↔
        ¬(mark = c ∧ [mark] <+: rest) ∧ Text.holds [mark, mark] rest = false := by
      simp only [Text.holds, Option.isSome_eq_false_iff, Option.isNone_iff_eq_none, Text.cut_cons_eq_none,
        List.cons_prefix_cons]
    rw [mem_slugRests, slugs, cons_mem_oneOf_mul, cons_mem_oneOf_mul, ← slugs, mem_slugs_iff hmark fun _ => id, ih,
      hholds, isSmallOrDigit_iff, List.all_cons]
    -- a mark asks for a letter after it, so the next character decides
    cases rest with
    | nil => grind [Text.endsWith, Text.holds, Text.cut]
    | cons d u =>
      have hends : Text.endsWith mark (c :: d :: u) = Text.endsWith mark (d :: u) := by
        rw [Text.endsWith, Text.endsWith, List.getLast?_cons_cons]
      have hnext : (∃ e ∈ (d :: u).head?, IsSmallOrDigit e) ↔ isSlugLetter d = true := by simp [isSmallOrDigit_iff]
      grind

omit hmark

theorem isSlugWith_iff {digitFirst : Bool} (hp : ∀ c, p c ↔ (c.isLower || (digitFirst && c.isDigit)) = true) :
    isSlugWith digitFirst t = true ↔ t ∈ slugs p '-' := by
  have hslug (c : Char) (hc : p c) : IsSmallOrDigit c := by
    rw [isSmallOrDigit_iff, isSlugLetter]
    grind
  rw [mem_slugs_iff rfl hslug, mem_slugRests_iff rfl]
  cases t with
  | nil => simp [isSlugWith]
  | cons first rest => simp [isSlugWith, hp, and_assoc]

theorem isSafeSlug_iff : isSafeSlug t = true ↔ t ∈ safeSlugs :=
  isSlugWith_iff fun c => by simp [isSmall_iff]

theorem isSegment_iff : isSlugWith true t = true ↔ t ∈ segments :=
  isSlugWith_iff fun c => by simp [isSmallOrDigit_iff, isSlugLetter]

theorem isPropertyName_iff : isPropertyName t = true ↔ t ∈ propertyWords ∧ t ∉ reservedProperties := by
  rw [propertyWords, mem_slugs_iff rfl fun c hc => .inl hc, mem_slugRests_iff rfl]
  cases t with
  | nil => simp [isPropertyName]
  | cons first rest => simp [isPropertyName, isSmall_iff, and_assoc]

/-! ## Paths -/

theorem join_mem_slashed {pieces : List Text} (hne : pieces ≠ []) (h : ∀ s ∈ pieces, s ∈ L) :
    Text.join ['/'] pieces ∈ slashed L := by
  induction pieces with
  | nil => exact absurd rfl hne
  | cons s rest ih =>
    rw [List.forall_mem_cons] at h
    rw [slashed, ← Language.one_add_self_mul_kstar_eq_kstar]
    cases rest with
    | nil => exact Language.mem_mul.mpr ⟨s, h.1, [], .inl rfl, by rw [List.append_nil, Text.join_singleton]⟩
    | cons next others =>
      rw [Text.join_cons (List.cons_ne_nil _ _), List.append_assoc, mul_assoc]
      exact Language.append_mem_mul h.1 (.inr (cons_mem_oneOf_mul.mpr ⟨rfl, ih (List.cons_ne_nil _ _) h.2⟩))

/-- Texts with slashes between them are told by their segments. -/
theorem mem_slashed_iff (hL : ∀ s ∈ L, '/' ∉ s) : t ∈ slashed L ↔ ∀ s ∈ Text.split '/' t, s ∈ L := by
  constructor
  · rw [slashed, Language.mem_mul, Text.split_eq_splitOn]
    rintro ⟨s, hs, _, ⟨pieces, rfl, hpieces⟩, rfl⟩
    induction pieces generalizing s with
    | nil =>
      rw [List.flatten_nil, List.append_nil, List.splitOn_eq_singleton (hL s hs)]
      exact List.forall_mem_singleton.mpr hs
    | cons piece rest ih =>
      rw [List.forall_mem_cons] at hpieces
      obtain ⟨⟨_, ⟨_, rfl, rfl⟩, next, hnext, rfl⟩, hrest⟩ := hpieces
      rw [List.flatten_cons]
      exact (List.splitOn_append_cons_self_of_not_mem (hL s hs) _).symm ▸
        List.forall_mem_cons.mpr ⟨hs, ih next hnext hrest⟩
  · intro h
    have hne : Text.split '/' t ≠ [] := Text.split_eq_splitOn '/' t ▸ List.splitOn_ne_nil _ _
    exact Text.join_split '/' t ▸ join_mem_slashed hne h

theorem slash_notMem {digitFirst : Bool} (h : isSlugWith digitFirst t = true) : '/' ∉ t :=
  fun hmem => absurd (slugLetters_of_isSlugWith h hmem) (by decide)

theorem mem_componentNames : t ∈ componentNames ↔ ∀ s ∈ Text.split '/' t, s ∈ segments :=
  mem_slashed_iff fun _ hs => slash_notMem (isSegment_iff.mpr hs)

theorem isComponentName_iff : isComponentName t = true ↔ t ∈ componentNames := by
  rw [mem_componentNames, isComponentName, Bool.and_eq_true, List.all_eq_true]
  simp only [isSegment_iff]
  constructor
  · exact And.right
  · intro h
    refine ⟨bne_iff_ne.mpr ?_, h⟩
    rintro rfl
    exact absurd (isSegment_iff.mpr (h [] List.mem_cons_self)) Bool.false_ne_true

theorem mem_pagePaths : t ∈ pagePaths ↔ t = ['/'] ∨ ∃ rest, t = '/' :: rest ∧ rest ∈ slashed safeSlugs := by
  rw [pagePaths, mul_assoc, ← slashed, Language.mem_add]
  refine or_congr ⟨?_, fun h => ⟨'/', rfl, h⟩⟩ ?_
  · rintro ⟨_, rfl, h⟩
    exact h
  · cases t with
    | nil => simp [nil_notMem_oneOf_mul]
    | cons c rest => simp [cons_mem_oneOf_mul]

theorem isPagePath_iff : isPagePath t = true ↔ t ∈ pagePaths := by
  simp only [isPagePath_cases, mem_pagePaths, isSafeSlug_iff,
    mem_slashed_iff fun s hs => slash_notMem (isSafeSlug_iff.mpr hs)]

/-- **The tests accept exactly the grammars.** So no component name is a page path, and both split at their slashes into
accepted segments only. Joined again these give the name or path that was split, and any of them joined anew are accepted
too. A page path has nothing before its first slash, and `/` has no segments. -/
theorem names_match_grammars (v : Text) :
    (isSafeSlug v = true ↔ v ∈ safeSlugs) ∧
    (isComponentName v = true ↔ v ∈ componentNames) ∧
    (isPagePath v = true ↔ v ∈ pagePaths) ∧
    (isPropertyName v = true ↔ v ∈ propertyWords ∧ v ∉ reservedProperties) ∧
    ¬(isComponentName v = true ∧ isPagePath v = true) ∧
    (isComponentName v = true → Text.join ['/'] (Text.split '/' v) = v ∧
      (∀ s ∈ Text.split '/' v, s ∈ segments) ∧
      ∀ parts ≠ [], parts ⊆ Text.split '/' v → isComponentName (Text.join ['/'] parts) = true) ∧
    (isPagePath v = true → Text.join ['/'] (Text.split '/' v) = v ∧
      (v = ['/'] ∨ ∃ below, Text.split '/' v = [] :: below ∧ (∀ s ∈ below, s ∈ safeSlugs) ∧
        ∀ parts ≠ [], parts ⊆ below → isPagePath (Text.join ['/'] ([] :: parts)) = true)) := by
  refine ⟨isSafeSlug_iff, isComponentName_iff, isPagePath_iff, isPropertyName_iff, ?_, fun hname => ?_, fun hpath => ?_⟩
  · rintro ⟨hname, hpath⟩
    obtain ⟨-, first, rest, rfl, hslash⟩ := of_isComponentName hname
    obtain ⟨tail, heq, -⟩ := of_isPagePath hpath
    exact hslash (List.cons.inj heq).1
  · have hsegments := mem_componentNames.mp (isComponentName_iff.mp hname)
    refine ⟨Text.join_split '/' v, hsegments, fun parts hne hparts => ?_⟩
    exact isComponentName_iff.mpr (join_mem_slashed hne fun s hs => hsegments s (hparts hs))
  · refine ⟨Text.join_split '/' v, (isPagePath_cases.mp hpath).imp_right ?_⟩
    rintro ⟨rest, rfl, hslugs⟩
    simp only [isSafeSlug_iff] at hslugs
    refine ⟨_, rfl, hslugs, fun parts hne hparts => ?_⟩
    rw [Text.join_cons hne, isPagePath_iff, mem_pagePaths]
    exact .inr ⟨_, rfl, join_mem_slashed hne fun s hs => hslugs s (hparts hs)⟩

theorem names_match_grammars_nested :
    isComponentName "layout/2col".toList = true ∧ isPagePath "/blog/first-post".toList = true ∧
    "layout/2col".toList ∈ componentNames ∧ "/blog/first-post".toList ∈ pagePaths ∧
    isComponentName "2col/layout".toList = true := by
  have hname : isComponentName "layout/2col".toList = true := rfl
  have hpath : isPagePath "/blog/first-post".toList = true := rfl
  obtain ⟨-, hnames, -, -, -, hparts, -⟩ := names_match_grammars "layout/2col".toList
  refine ⟨hname, hpath, hnames.mp hname, (names_match_grammars _).2.2.1.mp hpath, ?_⟩
  exact (hparts hname).2.2 ["2col".toList, "layout".toList] (List.cons_ne_nil _ _) (by decide)

end Sitewright.Naming
