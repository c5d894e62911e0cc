import Sitewright.Proofs.Style.Flatten
import Sitewright.Proofs.Style.Layout

/-!
Selector lists distribute over nesting. What stands inside `A, B` is flattened to the rules that it is
flattened to inside `A` and inside `B`, and each of them has the selectors that it has there
(`nesting_distributes`). No selector is empty, so parents are lost neither in a selector list nor on the way
down; only a list without parents has another meaning, and it is reached in an at-rule alone.
-/

namespace Sitewright

/-- The trees of a forest and all trees inside them, in document order. -/
def Forest.subtrees {α : Type} : Forest α → List (α × Forest α)
  | .nil => []
  | .cons label below after => (label, below) :: (subtrees below ++ subtrees after)

theorem Forest.preorder_of_mem_subtrees {α : Type} {forest below : Forest α} {label : α}
    (h : (label, below) ∈ forest.subtrees) : label :: below.preorder ⊆ forest.preorder := by
  induction forest with
  | nil => cases h
  | cons first inside after ihinside ihafter =>
    rw [Forest.subtrees, List.mem_cons, List.mem_append] at h
    rw [Forest.preorder]
    rcases h with heq | h | h
    · cases heq
      exact List.cons_subset_cons _ (List.subset_append_left _ _)
    · exact List.Subset.trans (ihinside h)
        (List.Subset.trans (List.subset_append_left _ _) (List.subset_cons_self _ _))
    · exact List.Subset.trans (ihafter h)
        (List.Subset.trans (List.subset_append_right _ _) (List.subset_cons_self _ _))

namespace Style

variable {left parents right tokens : List Text}

/-! ## Flat rules side by side -/

/-- A flat rule without its selectors. -/
def FlatRule.frame (rule : FlatRule) : Option Text × Option Nat × List Declaration :=
  (rule.media, rule.group, rule.declarations)

/-- Three lists of flat rules that differ in selectors alone. Each rule of the first list has the selectors of
the rules in its place in the other two. -/
structure Unites (whole left right : List FlatRule) : Prop where
  asLeft : whole.map FlatRule.frame = left.map FlatRule.frame
  asRight : whole.map FlatRule.frame = right.map FlatRule.frame
  selectors : ∀ rule inLeft inRight, (rule, inLeft, inRight) ∈ whole.zip (left.zip right) →
    ∀ selector, selector ∈ rule.selectors ↔ selector ∈ inLeft.selectors ∨ selector ∈ inRight.selectors

namespace Unites

theorem refl (rules : List FlatRule) : Unites rules rules rules := by
  refine ⟨rfl, rfl, fun rule inLeft inRight hmem selector => ?_⟩
  have hsame : inLeft = rule ∧ inRight = rule := by
    induction rules with
    | nil => cases hmem
    | cons first rest ih =>
      rw [List.zip_cons_cons, List.zip_cons_cons, List.mem_cons] at hmem
      rcases hmem with heq | hmem
      · cases heq
        exact ⟨rfl, rfl⟩
      · exact ih hmem
  rw [hsame.1, hsame.2, or_self]

variable {whole left right whole' left' right' : List FlatRule}

theorem append (h : Unites whole left right) (h' : Unites whole' left' right') :
    Unites (whole ++ whole') (left ++ left') (right ++ right') := by
  have hleft : whole.length = left.length := by
    simpa only [List.length_map] using congrArg List.length h.asLeft
  have hright : whole.length = right.length := by
    simpa only [List.length_map] using congrArg List.length h.asRight
  refine ⟨?_, ?_, fun rule inLeft inRight hmem => ?_⟩
  · rw [List.map_append, List.map_append, h.asLeft, h'.asLeft]
  · rw [List.map_append, List.map_append, h.asRight, h'.asRight]
  · rw [List.zip_append (hleft.symm.trans hright), List.zip_append, List.mem_append] at hmem
    · rcases hmem with hmem | hmem
      · exact h.selectors _ _ _ hmem
      · exact h'.selectors _ _ _ hmem
    · rw [List.length_zip, ← hleft, ← hright, Nat.min_self]

end Unites

/-! ## Parents in a list -/

/-- The first of three lists has what the other two have. There are selectors in both, and none is empty. -/
structure Joined (whole left right : List Text) : Prop where
  mem : ∀ selector, selector ∈ whole ↔ selector ∈ left ∨ selector ∈ right
  left_ne_nil : left ≠ []
  right_ne_nil : right ≠ []
  solid : [] ∉ whole

namespace Joined

variable {whole left right : List Text}

theorem whole_ne_nil (h : Joined whole left right) : whole ≠ [] := by
  obtain ⟨selector, hselector⟩ := List.exists_mem_of_ne_nil left h.left_ne_nil
  exact List.ne_nil_of_mem ((h.mem selector).mpr (.inl hselector))

theorem solid_left (h : Joined whole left right) : [] ∉ left :=
  fun hmem => h.solid ((h.mem []).mpr (.inl hmem))

theorem solid_right (h : Joined whole left right) : [] ∉ right :=
  fun hmem => h.solid ((h.mem []).mpr (.inr hmem))

end Joined

theorem joined_append (hleft : left ≠ []) (hright : right ≠ []) (hleftSolid : [] ∉ left)
    (hrightSolid : [] ∉ right) : Joined (left ++ right) left right :=
  ⟨fun _ => List.mem_append, hleft, hright, fun hmem => (List.mem_append.mp hmem).elim hleftSolid hrightSolid⟩

/-- Selectors in one list are expanded each by itself. -/
theorem joined_combine_append {first second : List Text} (hfirst : combine parents first ≠ [])
    (hsecond : combine parents second ≠ []) :
    Joined (combine parents (first ++ second)) (combine parents first) (combine parents second) := by
  refine ⟨fun selector => ?_, hfirst, hsecond, nil_not_mem_combine _ _⟩
  simp only [mem_combine, List.mem_append, or_and_right, exists_or, and_or_left]

/-- The selector that a token makes inside one parent, unless it is a placeholder. -/
def insideParent (token parent : Text) : Text :=
  if token.contains '&' then Text.replace '&' parent token else parent ++ ' ' :: token

theorem expandSelector_of_parents (h : parents ≠ []) (token : Text) :
    expandSelector parents token =
      if token.head? = some '%' then [token] else parents.map (insideParent token) := by
  rw [expandSelector, if_neg h]
  split
  · rfl
  · rw [← apply_ite (fun f => List.map f parents)]
    refine congrArg (List.map · parents) (funext fun parent => ?_)
    rw [insideParent]
    split <;> rfl

/-- Where there are parents, each of them makes its own selectors. -/
theorem mem_expandSelector_of_joined {whole : List Text} (h : Joined whole left right) (token selector : Text) :
    selector ∈ expandSelector whole token ↔
      selector ∈ expandSelector left token ∨ selector ∈ expandSelector right token := by
  rw [expandSelector_of_parents h.whole_ne_nil, expandSelector_of_parents h.left_ne_nil,
    expandSelector_of_parents h.right_ne_nil]
  split
  · rw [or_self]
  · simp only [List.mem_map, h.mem, or_and_right, exists_or]

/-- The selectors of a rule that has some: none is empty, and none has blanks around it. -/
structure Listed (tokens : List Text) : Prop where
  ne_nil : tokens ≠ []
  solid : [] ∉ tokens
  trimmed : ∀ token ∈ tokens, Text.Trimmed token

theorem Listed.combine_ne_nil (h : Listed tokens) (hparents : parents ≠ [])
    (hsolid : [] ∉ parents) : combine parents tokens ≠ [] :=
  Style.combine_ne_nil hsolid h.ne_nil h.solid h.trimmed fun _ => hparents

theorem Joined.combine {whole : List Text} (h : Joined whole left right) (htokens : Listed tokens) :
    Joined (combine whole tokens) (combine left tokens) (combine right tokens) := by
  refine ⟨fun selector => ?_, htokens.combine_ne_nil h.left_ne_nil h.solid_left,
    htokens.combine_ne_nil h.right_ne_nil h.solid_right, nil_not_mem_combine _ _⟩
  simp only [mem_combine, mem_expandSelector_of_joined h, and_or_left, exists_or]

/-! ## Flattening -/

section

variable {whole left right : List Text}

theorem unites_emit (h : Joined whole left right) (media : Option Text) (group : Option Nat) (rule : Rule) :
    Unites (emit whole media group rule) (emit left media group rule) (emit right media group rule) := by
  simp only [emit, h.whole_ne_nil, h.left_ne_nil, h.right_ne_nil, or_false]
  split
  · exact Unites.refl []
  · refine ⟨rfl, rfl, fun rule inLeft inRight hmem => ?_⟩
    obtain ⟨rfl, rfl, rfl⟩ : _ ∧ _ ∧ _ := by simpa using hmem
    exact h.mem

/-- Flattening under parents, one case for each kind of head. An at-rule begins anew without parents, so there
is nothing that could differ. -/
theorem unites_flatten (h : Joined whole left right) {forest : Forest (Nat × Rule)}
    (hforest : ∀ entry ∈ forest.preorder, ∀ tokens, entry.2.head = .style tokens → Listed tokens)
    (media : Option Text) (group : Option Nat) :
    Unites (flatten whole media group forest) (flatten left media group forest)
      (flatten right media group forest) := by
  induction forest generalizing whole left right media group with
  | nil => exact Unites.refl []
  | cons entry below after ihbelow ihafter =>
    obtain ⟨id, rule⟩ := entry
    rw [Forest.preorder, List.forall_mem_cons, List.forall_mem_append] at hforest
    obtain ⟨hrule, hbelow, hafter⟩ := hforest
    simp only [flatten]
    refine Unites.append ?_ (ihafter h hafter media group)
    cases hhead : rule.head with
    | style tokens =>
      have hjoined := h.combine (hrule tokens hhead)
      exact (unites_emit hjoined media group rule).append (ihbelow hjoined hbelow media group)
    | media key => exact (unites_emit h (some key) group rule).append (ihbelow h hbelow (some key) group)
    | transparent => exact (unites_emit h media group rule).append (ihbelow h hbelow media group)
    | atRule => exact Unites.refl _

end

/-- The selectors of a rule as it was read. -/
theorem Sheet.listed_of_mem_preorder {source : Text} {entry : Nat × Rule}
    (hentry : entry ∈ (Sheet.parse source).rules.preorder) (hhead : entry.2.head = .style tokens) :
    Listed tokens := by
  obtain ⟨top, hrules, hread, -⟩ := Sheet.read_parse source
  rw [hrules, ← map_placedRules .top] at hentry
  obtain ⟨⟨context, entry⟩, hplaced, rfl⟩ := List.mem_map.mp hentry
  obtain ⟨fragment, -, -, -, hheadRead, -⟩ :=
    (forall_placedRules_of_within hread 1 _ hplaced).opened.exists_fragment (by rw [hhead]; exact Head.noConfusion)
  obtain ⟨-, rfl, hsolid, -⟩ := of_readHead_style (hheadRead.symm.trans hhead)
  exact ⟨splitSelectors_ne_nil _ _ _ _, hsolid, fun token => trimmed_of_mem_selectorList⟩

/-- **Selector lists distribute over nesting.** A rule of a sheet, with everything inside it, is flattened under
parents `left ++ right` to the rules that it is flattened to under `left` and under `right`, each with the
selectors of both. Neither does it matter whether selectors stand in one list or each has a rule with the same
body. Lists of selectors that were combined have neither empty nor repeated selectors. -/
theorem nesting_distributes {source : Text} {entry : Nat × Rule} {below : Forest (Nat × Rule)}
    (hsubtree : (entry, below) ∈ (Sheet.parse source).rules.subtrees) {left right : List Text} (hleft : left ≠ [])
    (hright : right ≠ []) (hleftSolid : [] ∉ left) (hrightSolid : [] ∉ right) (media : Option Text)
    (group : Option Nat) :
    Unites (flatten (left ++ right) media group (.tree entry below))
        (flatten left media group (.tree entry below)) (flatten right media group (.tree entry below)) ∧
      (∀ parents first second, combine parents first ≠ [] → combine parents second ≠ [] →
        let styled (tokens : List Text) : Nat × Rule := (entry.1, { entry.2 with head := .style tokens })
        Unites (flatten parents media group (.tree (styled (first ++ second)) below))
          (flatten parents media group (.tree (styled first) below))
          (flatten parents media group (.tree (styled second) below))) ∧
      ∀ parents tokens, (combine parents tokens).Nodup ∧ [] ∉ combine parents tokens := by
  have hlisted : ∀ other ∈ entry :: below.preorder, ∀ tokens, other.2.head = .style tokens → Listed tokens :=
    fun other hother _ => Sheet.listed_of_mem_preorder (Forest.preorder_of_mem_subtrees hsubtree hother)
  refine ⟨?_, ?_, fun parents tokens => ⟨nodup_eraseDups _, nil_not_mem_combine parents tokens⟩⟩
  · refine unites_flatten (joined_append hleft hright hleftSolid hrightSolid) ?_ media group
    simpa only [Forest.tree, Forest.preorder, List.append_nil] using hlisted
  · intro parents first second hfirst hsecond
    have hjoined := joined_combine_append hfirst hsecond
    have hbelow := unites_flatten hjoined (List.forall_mem_cons.mp hlisted).2 media group
    simp only [Forest.tree, flatten, List.append_nil]
    exact (unites_emit hjoined media group _).append hbelow

/-- A rule with all kinds of selectors inside another one, and a media rule inside it. -/
def thicket : Text :=
  ".a \x7b &:b, %c, d&, e \x7b f: g; @sm \x7b h: i \x7d \x7d \x7d".toList

/-- The inner rule of the thicket. -/
def thicketRule : Nat × Rule :=
  (2, ⟨.style (["&:b", "%c", "d&", "e"].map String.toList), "&:b, %c, d&, e".toList, ⟨5, 19⟩,
    [⟨"f".toList, "g".toList, ⟨22, 26⟩⟩]⟩)

/-- What stands inside the inner rule of the thicket. -/
def thicketBelow : Forest (Nat × Rule) :=
  .tree (3, ⟨.media "$sm".toList, "@sm".toList, ⟨28, 31⟩, [⟨"h".toList, "i".toList, ⟨34, 38⟩⟩]⟩) .nil

/-- The inner rule of the thicket under two parents has the selectors that each of them makes, and a
placeholder once. -/
theorem nesting_distributes_in_thicket :
    (thicketRule, thicketBelow) ∈ (Sheet.parse thicket).rules.subtrees ∧
      (let flat (parents : List String) := flatten (parents.map String.toList) none none (.tree thicketRule thicketBelow)
      Unites (flat ([".u"] ++ [".v"])) (flat [".u"]) (flat [".v"]) ∧
        (flat [".u", ".v"]).map (fun rule => rule.selectors.map String.ofList) =
          List.replicate 2 [".u:b", ".v:b", "%c", "d.u", "d.v", ".u e", ".v e"]) := by
  have hsubtree : (thicketRule, thicketBelow) ∈ (Sheet.parse thicket).rules.subtrees := by decide +kernel
  have hunites := (nesting_distributes hsubtree (List.cons_ne_nil ".u".toList []) (List.cons_ne_nil ".v".toList [])
    (by decide) (by decide) none none).1
  exact ⟨hsubtree, hunites, by decide +kernel⟩

end Style

end Sitewright
