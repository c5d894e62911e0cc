import Sitewright.Proofs.Style.Provenance
import Sitewright.Style.Build

/-!
What heads and declarations say. A head with selectors is split into trimmed selectors that are not empty;
a head without meaning has a problem; and a declaration stands only where a selector or an at-rule
encloses it. Inside parents, the selectors of a head make at least one selector.
-/

namespace Sitewright.Style

variable {context : Context} {fragment : Fragment} {text : Text}
variable {tokens : List Text}

/-! ## Selector lists -/

theorem splitSelectors_ne_nil (depth : Nat) (quote : Option Char) (read text : Text) :
    splitSelectors depth quote read text ≠ [] := by
  fun_induction splitSelectors depth quote read text <;> simp_all

theorem trimmed_of_mem_splitSelectors (depth : Nat) (quote : Option Char) (read text : Text) :
    ∀ selector ∈ splitSelectors depth quote read text, Text.Trimmed selector := by
  fun_induction splitSelectors depth quote read text with
  | case1 depth quote read =>
    intro selector hmem
    rw [List.mem_singleton.mp hmem]
    exact Text.trimmed_trim _
  | case6 depth read c rest _ _ _ _ ih =>
    intro selector hmem
    rcases List.mem_cons.mp hmem with rfl | hmem
    · exact Text.trimmed_trim _
    · exact ih selector hmem
  | _ => assumption

theorem trimmed_of_mem_selectorList {selector : Text} (h : selector ∈ selectorList text) :
    Text.Trimmed selector :=
  trimmed_of_mem_splitSelectors 0 none [] text selector h

/-! ## Heads -/

/-- What a head can say, with what is found in it: a query, a shorthand, a block at the top level, selectors, or nothing. -/
inductive Says (context : Context) (fragment : Fragment) (text : Text) : Head × Findings → Prop
  | query (hat : text.head? = some '@') (hname : (splitAtRule text).1 = "media".toList)
      (hquery : (splitAtRule text).2 ≠ []) :
    Says context fragment text (.media (splitAtRule text).2, variableFindings fragment)
  | shorthand (hat : text.head? = some '@') (hnone : (splitAtRule text).2 = [])
      (hglobal : Naming.isGlobalName ('$' :: (splitAtRule text).1) = true) :
    Says context fragment text (.media ('$' :: (splitAtRule text).1),
      ⟨[⟨⟨text, Fragment.range fragment⟩, '$' :: (splitAtRule text).1⟩], []⟩)
  | block (hat : text.head? = some '@') (htop : context.atTop = true) :
    Says context fragment text (.atRule, variableFindings fragment)
  | selectors (hat : text.head? ≠ some '@') (hsolid : [] ∉ selectorList text)
      (hparent : (∃ selector ∈ selectorList text, '&' ∈ selector) → context.hasParent = true) :
    Says context fragment text (.style (selectorList text), .none)
  | dangling (hat : text.head? ≠ some '@') (hsolid : [] ∉ selectorList text) :
    Says context fragment text (.style (selectorList text), .problem .danglingParent (Fragment.range fragment))
  | nothing (problem : Problem) :
    Says context fragment text (.transparent, .problem problem (Fragment.range fragment))

theorem says_readAtRule (hat : text.head? = some '@') : Says context fragment text (readAtRule context fragment text) := by
  have hblock (name : Text) : Says context fragment text (readBlockAtRule context fragment name) := by
    rw [readBlockAtRule]
    split
    next htop => exact .block hat htop
    next => exact .nothing _
  simp only [readAtRule]
  split
  next hmedia =>
    split
    · exact .nothing _
    next hquery => exact .query hat hmedia hquery
  next =>
    split
    · exact hblock _
    next hnone =>
      split
      next hglobal => exact .shorthand hat (Decidable.not_not.mp hnone) hglobal
      next =>
        split
        · exact hblock _
        · split <;> exact .nothing _

theorem says_readSelectors (hat : text.head? ≠ some '@') :
    Says context fragment text (readSelectors context fragment text) := by
  simp only [readSelectors]
  split
  · exact .nothing _
  next hempty =>
    have hsolid : [] ∉ selectorList text := fun hmem => hempty (List.any_eq_true.mpr ⟨[], hmem, rfl⟩)
    split
    · exact .dangling hat hsolid
    next hdangling =>
      refine .selectors hat hsolid ?_
      rintro ⟨selector, hmem, hparent⟩
      simp only [Bool.and_eq_true, Bool.not_eq_true', not_and, Bool.not_eq_false] at hdangling
      exact hdangling (List.any_eq_true.mpr ⟨selector, hmem, by simpa using hparent⟩)

theorem readHead_of_at (h : text.head? = some '@') :
    readHead context fragment text = readAtRule context fragment text := by
  obtain ⟨rest, rfl⟩ := List.head?_eq_some_iff.mp h
  rfl

theorem readHead_of_ne_at (h : text.head? ≠ some '@') :
    readHead context fragment text = readSelectors context fragment text := by
  unfold readHead
  split
  · exact absurd rfl h
  · rfl

theorem says_readHead (context : Context) (fragment : Fragment) (text : Text) :
    Says context fragment text (readHead context fragment text) := by
  by_cases hat : text.head? = some '@'
  · exact readHead_of_at hat ▸ says_readAtRule hat
  · exact readHead_of_ne_at hat ▸ says_readSelectors hat

/-- A head without meaning has a problem. -/
theorem problems_of_transparent (h : (readHead context fragment text).1 = .transparent) :
    (readHead context fragment text).2.problems ≠ [] := by
  have hsays := says_readHead context fragment text
  generalize readHead context fragment text = said at h hsays ⊢
  cases hsays with
  | nothing => exact List.cons_ne_nil _ _
  | query | shorthand | block | selectors | dangling => cases h

theorem of_readHead_style (h : (readHead context fragment text).1 = .style tokens) :
    text.head? ≠ some '@' ∧ tokens = selectorList text ∧ [] ∉ tokens ∧
      ((readHead context fragment text).2.problems = [] → (∃ token ∈ tokens, '&' ∈ token) →
        context.hasParent = true) := by
  have hsays := says_readHead context fragment text
  generalize readHead context fragment text = said at h hsays ⊢
  cases hsays with
  | selectors hat hsolid hparent =>
    cases h
    exact ⟨hat, rfl, hsolid, fun _ => hparent⟩
  | dangling hat hsolid =>
    cases h
    exact ⟨hat, rfl, hsolid, fun hnil => absurd hnil (List.cons_ne_nil _ _)⟩
  | query | shorthand | block | nothing => cases h

/-- What a head says, its place in the source aside. -/
def headOf (context : Context) (text : Text) : Head :=
  (readHead context [] text).1

theorem readHead_fst (context : Context) (fragment : Fragment) (text : Text) :
    (readHead context fragment text).1 = headOf context text := by
  rw [headOf]
  by_cases hat : text.head? = some '@'
  · rw [readHead_of_at hat, readHead_of_at hat]
    simp only [readAtRule, readBlockAtRule, apply_ite Prod.fst]
  · rw [readHead_of_ne_at hat, readHead_of_ne_at hat]
    simp only [readSelectors, apply_ite Prod.fst]

/-- Whether a block is at the top level is all that a head depends on. -/
theorem headOf_congr {other : Context} (h : context.atTop = other.atTop) (text : Text) :
    headOf context text = headOf other text := by
  rw [headOf, headOf]
  by_cases hat : text.head? = some '@'
  · rw [readHead_of_at hat, readHead_of_at hat]
    simp only [readAtRule, readBlockAtRule, h]
  · rw [readHead_of_ne_at hat, readHead_of_ne_at hat]
    simp only [readSelectors, apply_ite Prod.fst, ite_self]

theorem wellFormed_variableFindings (fragment : Fragment) :
    WellFormed (variableFindings fragment).problems := by
  intro problem hproblem
  obtain ⟨findings, hfindings, hproblem⟩ := List.mem_flatMap.mp hproblem
  obtain ⟨marks, -, rfl⟩ := List.mem_map.mp hfindings
  simp only [variableFinding] at hproblem
  split at hproblem
  · cases hproblem
  · split at hproblem <;>
    · rw [List.mem_singleton.mp hproblem]
      exact (by decide : StyleCategory.logical ≠ .malformed)

/-- A head with a meaning is not malformed. -/
theorem wellFormed_readHead (h : (readHead context fragment text).1 ≠ .transparent) :
    WellFormed (readHead context fragment text).2.problems := by
  have hsays := says_readHead context fragment text
  generalize readHead context fragment text = said at h hsays ⊢
  cases hsays with
  | query | block => exact wellFormed_variableFindings fragment
  | shorthand | selectors => exact fun problem hproblem => (List.not_mem_nil hproblem).elim
  | dangling => exact List.forall_mem_singleton.mpr (by decide : StyleCategory.logical ≠ .malformed)
  | nothing => exact absurd rfl h

/-! ## Declarations -/

theorem of_readDeclaration {declaration : Declaration} {findings : Findings}
    (h : readDeclaration context fragment = (some declaration, findings)) :
    ∃ before after, Fragment.splitColon fragment = some (before, after) ∧
      declaration.property = Text.trim (Fragment.text before) ∧
      declaration.value = Fragment.text (Fragment.trimEnd (Fragment.trimStart after)) ∧
      declaration.property ≠ [] ∧ declaration.property.any isBlank = false ∧ declaration.value ≠ [] ∧
      context.atTop = false ∧ context.hasSelector = true ∧ declaration.range = Fragment.range fragment ∧
      findings = variableFindings (Fragment.trimEnd (Fragment.trimStart after)) := by
  simp only [readDeclaration] at h
  split at h
  · cases h
  next before after hsplit =>
    split at h
    · cases h
    next hproperty =>
      split at h
      · cases h
      next hvalue =>
        split at h
        · cases h
        next htop =>
          split at h
          next hselector =>
            cases h
            rw [not_or] at hproperty
            exact ⟨before, after, hsplit, rfl, rfl, hproperty.1, by simpa using hproperty.2, hvalue,
              by simpa using htop, hselector, rfl, rfl⟩
          next => cases h

theorem splitColon_of_text {x y : Text} (h : Fragment.text fragment = x ++ ':' :: y) (hx : ':' ∉ x) :
    ∃ before after, Fragment.splitColon fragment = some (before, after) ∧ Fragment.text before = x ∧
      Fragment.text after = y := by
  induction x generalizing fragment with
  | nil =>
    obtain ⟨mark, rest, rfl, hmark, hrest⟩ := List.map_eq_cons_iff.mp h
    exact ⟨[], rest, by rw [Fragment.splitColon, if_pos hmark], rfl, hrest⟩
  | cons c x ih =>
    rw [List.mem_cons, not_or] at hx
    obtain ⟨mark, rest, rfl, hmark, hrest⟩ := List.map_eq_cons_iff.mp h
    obtain ⟨before, after, hsplit, hbefore, hafter⟩ := ih hrest hx.2
    refine ⟨mark :: before, after, ?_, ?_, hafter⟩
    · rw [Fragment.splitColon, if_neg (by rw [hmark]; exact fun heq => hx.1 heq.symm), hsplit]
      rfl
    · rw [Fragment.text, List.map_cons, hmark]
      exact congrArg _ hbefore

theorem text_of_splitColon {before after : Fragment}
    (h : Fragment.splitColon fragment = some (before, after)) :
    Fragment.text fragment = Fragment.text before ++ ':' :: Fragment.text after ∧
      ':' ∉ Fragment.text before := by
  induction fragment generalizing before with
  | nil => cases h
  | cons mark rest ih =>
    rw [Fragment.splitColon] at h
    split at h
    next hmark =>
      cases h
      refine ⟨?_, List.not_mem_nil⟩
      rw [Fragment.text, List.map_cons, hmark]
      rfl
    next hmark =>
      obtain ⟨⟨first, second⟩, hrest, heq⟩ := Option.map_eq_some_iff.mp h
      cases heq
      obtain ⟨htext, hcolon⟩ := ih hrest
      refine ⟨congrArg (mark.1 :: ·) htext, ?_⟩
      rw [Fragment.text, List.map_cons, List.mem_cons, not_or]
      exact ⟨fun heq => hmark heq.symm, hcolon⟩

/-! ## Selectors inside parents -/

theorem replace_eq_self {c : Char} {substitute t : Text} (h : c ∉ t) : Text.replace c substitute t = t := by
  rw [Text.replace]
  induction t with
  | nil => rfl
  | cons d rest ih =>
    rw [List.mem_cons, not_or] at h
    rw [List.flatMap_cons, if_neg (fun heq => h.1 heq.symm), ih h.2]
    rfl

theorem replace_ne_nil {c : Char} {substitute t : Text} (hsubstitute : substitute ≠ []) (h : c ∈ t) :
    Text.replace c substitute t ≠ [] := by
  intro hnil
  rw [Text.replace, List.flatMap_eq_nil_iff] at hnil
  have hc := hnil c h
  rw [if_pos rfl] at hc
  exact hsubstitute hc

theorem mem_combine {parents : List Text} {selector : Text} :
    selector ∈ combine parents tokens ↔
      selector ≠ [] ∧ ∃ token ∈ tokens, selector ∈ expandSelector parents token := by
  rw [combine, List.mem_eraseDups, List.mem_filter, List.mem_flatMap, decide_eq_true_eq, and_comm]

/-- A selector inside parents makes at least one. -/
theorem combine_ne_nil {parents : List Text} (hparents : [] ∉ parents) (htokens : tokens ≠ [])
    (hempty : [] ∉ tokens) (htrimmed : ∀ token ∈ tokens, Text.Trimmed token)
    (hdangling : (∃ token ∈ tokens, '&' ∈ token) → parents ≠ []) : combine parents tokens ≠ [] := by
  obtain ⟨token, hmem⟩ := List.exists_mem_of_ne_nil tokens htokens
  have hne : token ≠ [] := fun heq => hempty (heq ▸ hmem)
  have hmade : ∃ selector ∈ expandSelector parents token, selector ≠ [] := by
    rw [expandSelector]
    split
    · exact ⟨token, List.mem_singleton.mpr rfl, hne⟩
    · split
      next hnil =>
        have hnot : '&' ∉ token := fun hparent => hdangling ⟨token, hmem, hparent⟩ hnil
        refine ⟨_, List.mem_singleton.mpr rfl, ?_⟩
        rw [replace_eq_self hnot, (htrimmed token hmem).trim_eq]
        exact hne
      next hparents' =>
        obtain ⟨parent, hparent⟩ := List.exists_mem_of_ne_nil parents hparents'
        split
        next hcontains =>
          refine ⟨_, List.mem_map_of_mem hparent, replace_ne_nil (fun heq => hparents (heq ▸ hparent)) ?_⟩
          simpa using hcontains
        next => exact ⟨_, List.mem_map_of_mem hparent, List.append_ne_nil_of_right_ne_nil _ (List.cons_ne_nil _ _)⟩
  obtain ⟨selector, hselector, hne⟩ := hmade
  exact List.ne_nil_of_mem (mem_combine.mpr ⟨hne, token, hmem, hselector⟩)

theorem nil_not_mem_combine (parents tokens : List Text) : [] ∉ combine parents tokens :=
  fun h => (mem_combine.mp h).1 rfl

end Sitewright.Style
