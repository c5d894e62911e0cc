import Sitewright.Proofs.Expression.Names
import Sitewright.Proofs.Template.Growth
import Sitewright.Proofs.Template.Tags
import Sitewright.Template.Render

/-!
The expressions of a template. Rendering evaluates those in texts, in the attributes that it writes or
passes on, and in conditions; the analysis lists their globals. The two decide separately which attributes
to look into, and there are three places that rendering looks into and the analysis passes over: an
attribute with a tag in its name, a property of an include with the name `markdown`, and a condition with
`{{` in it. At all others the globals are listed (`lists_or_overlooked`), and at these three there is a
problem to report (`overlooked_eq_nil`).
-/

namespace Sitewright.Template

open Markup

variable {attr : Attribute} {element : Element} {expression : Expression} {name : Text} {template : Template}

/-! ## What rendering evaluates -/

/-- The names in the tags of a text. -/
def tagExpressions (text : Text) : List Expression :=
  (scanTags text).tags.filterMap fun tag => tag.expression.toOption

/-- Whether rendering puts values in place of the tags of an attribute. -/
def interpolates (element : Element) (attr : Attribute) : Bool :=
  if element.name = "include".toList then
    !includeAttributes.contains attr.name && Naming.isPropertyName attr.name
  else if element.name = "outlet".toList then false
  else if element.name = "inject".toList || element.name = "style".toList then false
  else !unwrittenAttributes.contains attr.name && !Naming.looksLikeDirective attr.name

/-- The expressions that rendering evaluates in an attribute. -/
def attributeExpressions (element : Element) (attr : Attribute) : List Expression :=
  match attr.value, attr.valueSpan with
  | some value, some _ => if interpolates element attr then tagExpressions value else []
  | _, _ => []

/-- The expression of the condition of an element. -/
def conditionExpressions (element : Element) : List Expression :=
  match element.attribute? "if".toList with
  | some attr => (Expression.parse attr.valueOrEmpty).toOption.toList
  | none => []

/-- The expressions that rendering evaluates in the opening tag of an element. -/
def elementExpressions (element : Element) : List Expression :=
  element.attributes.flatMap (attributeExpressions element) ++ conditionExpressions element

/-- The expressions that rendering evaluates at a node in an element named `parent`. -/
def nodeExpressions (parent : Option Text) (node : Node) : List Expression :=
  match node.kind with
  | .text text => if parent = some "script".toList then [] else tagExpressions text
  | .element element => elementExpressions element
  | .comment _ => []
  | .declaration _ => []

/-- The expressions that rendering evaluates in a template. -/
def expressions (template : Template) : List Expression :=
  (placedNodes none (visible template.document.forest)).flatMap fun (parent, _, node) =>
    nodeExpressions parent node

/-! ## What the analysis passes over -/

/-- Whether the analysis does not look for tags in the value of an attribute that rendering interpolates. -/
def passesOver (attr : Attribute) : Bool :=
  hasTag attr.name || attr.name == "markdown".toList

/-- The expressions of an element that rendering evaluates and the analysis passes over. -/
def overlookedExpressions (element : Element) : List Expression :=
  (element.attributes.filter passesOver).flatMap (attributeExpressions element)
    ++ if (element.attribute? "if".toList).any fun attr => hasTag attr.valueOrEmpty then
        conditionExpressions element
      else []

/-- The expressions of a template that rendering evaluates and the analysis passes over. -/
def overlooked (template : Template) : List Expression :=
  (placedNodes none (visible template.document.forest)).flatMap fun (_, _, node) =>
    (node.element?.map overlookedExpressions).getD []

/-- The globals in what the analysis passes over. -/
def overlookedGlobals (template : Template) : List Text :=
  template.overlooked.flatMap Expression.globals

/-! ## Small facts -/

theorem mem_tagExpressions {text : Text} :
    expression ∈ tagExpressions text ↔ ∃ tag ∈ (scanTags text).tags, tag.expression = .ok expression := by
  rw [tagExpressions, List.mem_filterMap]
  refine exists_congr fun tag => and_congr_right fun _ => ?_
  cases tag.expression <;> simp [Except.toOption]

theorem mem_conditionExpressions :
    expression ∈ conditionExpressions element ↔ ∃ attr, element.attribute? "if".toList = some attr ∧
      Expression.parse attr.valueOrEmpty = .ok expression := by
  rw [conditionExpressions]
  cases element.attribute? "if".toList with
  | none => simp
  | some attr => cases hparse : Expression.parse attr.valueOrEmpty <;> simp [Except.toOption, hparse, eq_comm]

theorem mem_attributeExpressions (h : expression ∈ attributeExpressions element attr) :
    ∃ value span, attr.value = some value ∧ attr.valueSpan = some span ∧
      interpolates element attr = true ∧ expression ∈ tagExpressions value := by
  rw [attributeExpressions] at h
  split at h
  next value span hvalue hspan =>
    split at h
    next hinterpolates => exact ⟨value, span, hvalue, hspan, hinterpolates, h⟩
    next => cases h
  next => cases h

/-- What rendering evaluates has valid names only. -/
theorem wellNamed_of_mem_nodeExpressions {parent : Option Text} {node : Node}
    (h : expression ∈ nodeExpressions parent node) : expression.WellNamed := by
  have htag : ∀ text, expression ∈ tagExpressions text → expression.WellNamed := by
    intro text htext
    obtain ⟨tag, htag, hexpression⟩ := mem_tagExpressions.mp htext
    obtain ⟨name, hname, -⟩ := of_mem_tags htag hexpression
    exact Expression.wellNamed_of_parse (Expression.of_parseLookup hname).1
  rw [nodeExpressions] at h
  split at h
  next text _ =>
    split at h
    · cases h
    · exact htag text h
  next element _ =>
    rcases List.mem_append.mp h with h | h
    · obtain ⟨attr, -, h⟩ := List.mem_flatMap.mp h
      obtain ⟨value, _, -, -, -, h⟩ := mem_attributeExpressions h
      exact htag value h
    · obtain ⟨attr, -, hparse⟩ := mem_conditionExpressions.mp h
      exact Expression.wellNamed_of_parse hparse
  · cases h
  · cases h

theorem mem_expressions :
    expression ∈ template.expressions ↔
      ∃ parent id node, (parent, id, node) ∈ placedNodes none (visible template.document.forest) ∧
        expression ∈ nodeExpressions parent node := by
  rw [expressions, List.mem_flatMap]
  constructor
  · rintro ⟨⟨parent, id, node⟩, hplaced, h⟩
    exact ⟨parent, id, node, hplaced, h⟩
  · rintro ⟨parent, id, node, hplaced, h⟩
    exact ⟨(parent, id, node), hplaced, h⟩

/-! ## Attributes that both look into -/

theorem looksLikeDirective_of_isPropertyName (h : Naming.isPropertyName name = true) :
    Naming.looksLikeDirective name = false := by
  obtain ⟨first, rest, rfl, hfirst, hrest, -⟩ := Naming.exists_of_isPropertyName h
  unfold Naming.looksLikeDirective
  split
  next heq =>
    obtain ⟨-, rfl⟩ := List.cons.inj heq
    exact absurd (hrest '-' List.mem_cons_self) (by decide)
  next heq => exact absurd hfirst (by rw [(List.cons.inj heq).1]; decide)
  next heq => exact absurd hfirst (by rw [(List.cons.inj heq).1]; decide)
  next => rfl

/-- What rendering looks into and the analysis does not pass over, the analysis looks into. -/
theorem checkAttribute_of_interpolates (template : Template) (node : Node)
    (h : interpolates element attr = true) (hseen : passesOver attr = false)
    {value : Text} {span : ByteSpan} (hvalue : attr.value = some value) (hspan : attr.valueSpan = some span)
    (foreign : Bool) (analysis : Analysis) :
    ∃ before, checkAttribute template node element foreign attr analysis =
      checkTags template node value span.start before := by
  simp only [passesOver, Bool.or_eq_false_iff, beq_eq_false_iff_ne] at hseen
  obtain ⟨htag, hmarkdown⟩ := hseen
  have hdirective : Naming.looksLikeDirective attr.name = false := by
    rw [interpolates] at h
    split at h
    · simp only [Bool.and_eq_true] at h
      exact looksLikeDirective_of_isPropertyName h.2
    · split at h
      · cases h
      · split at h
        · cases h
        · simp only [Bool.and_eq_true, Bool.not_eq_true'] at h
          exact h.2
  have hif : attr.name ≠ "if".toList := by
    intro hname
    rw [interpolates, hname] at h
    split at h
    · exact absurd h (by decide)
    · split at h
      · cases h
      · split at h
        · cases h
        · exact absurd h (by decide)
  have hstructural : isStructural element.name attr.name = false := by
    rw [interpolates] at h
    split at h
    next hinclude =>
      have hnames : attr.name ≠ "component".toList ∧ attr.name ≠ "asset".toList := by
        constructor <;> intro hname <;> rw [hname] at h <;> exact absurd h (by decide)
      have hinject : ("include".toList == "inject".toList) = false := by decide
      have houtlet : ("include".toList == "outlet".toList) = false := by decide
      simp only [isStructural, hinclude, hinject, houtlet, beq_eq_false_iff_ne.mpr hnames.1,
        beq_eq_false_iff_ne.mpr hnames.2, Bool.or_self, Bool.and_false, Bool.false_and]
    next hinclude =>
      split at h
      · cases h
      next houtlet =>
        split at h
        · cases h
        next hrest =>
          simp only [Bool.or_eq_true, decide_eq_true_eq, not_or] at hrest
          simp only [isStructural, beq_eq_false_iff_ne.mpr hinclude, beq_eq_false_iff_ne.mpr houtlet,
            beq_eq_false_iff_ne.mpr hrest.1, Bool.false_and, Bool.or_self]
  simp only [checkAttribute, htag, hdirective, Bool.false_eq_true, if_false, checkValue, if_neg hif,
    if_neg hmarkdown, hstructural, hvalue, hspan]
  exact ⟨_, rfl⟩

/-! ## Listed globals -/

/-- The analysis lists a global. -/
def Analysis.Lists (analysis : Analysis) (name : Text) : Prop :=
  ∃ reference ∈ analysis.globals, reference.global = name

theorem Analysis.Lists.grows {before after : Analysis} (h : before.Lists name)
    (hgrows : before.Grows after) : after.Lists name := by
  obtain ⟨reference, hmem, hname⟩ := h
  exact ⟨reference, hgrows.globals.subset hmem, hname⟩

theorem lists_checkTags (template : Template) (node : Node) {text : Text} (base : Nat)
    (h : expression ∈ tagExpressions text) (hname : name ∈ expression.globals) (analysis : Analysis) :
    (checkTags template node text base analysis).Lists name := by
  obtain ⟨tag, htag, hexpression⟩ := mem_tagExpressions.mp h
  obtain ⟨_, hlookup, -⟩ := of_mem_tags htag hexpression
  have hglobal : expression = .global name := by
    have hkind := (Expression.of_parseLookup hlookup).2
    cases expression with
    | global other => rw [List.mem_singleton.mp hname]
    | property other => cases hname
    | literal _ | bool _ | not _ | and _ _ | or _ _ | equal _ _ | notEqual _ _ => cases hkind
  subst hglobal
  have hlists (start : Analysis) :
      ((scanTags text).tags.foldl (checkTag template node base) start).Lists name := by
    obtain ⟨before, hgrows⟩ := Analysis.Extends.exists_round
      (fun _ htag analysis => extends_checkTag template node analysis False.elim htag) htag start
    refine Analysis.Lists.grows ?_ hgrows
    refine ⟨⟨⟨name, template.range node (tag.expressionSpan.shift base)⟩, name⟩, ?_, rfl⟩
    simp only [checkTag, hexpression]
    exact List.mem_append_right _ List.mem_cons_self
  exact hlists _

theorem lists_checkCondition (template : Template) (node : Node) (htag : hasTag attr.valueOrEmpty = false)
    (h : Expression.parse attr.valueOrEmpty = .ok expression)
    (hname : name ∈ expression.globals) (analysis : Analysis) :
    (checkCondition template node attr analysis).Lists name := by
  have hblank : Text.allBlank attr.valueOrEmpty = false := by
    rw [← Bool.not_eq_true]
    exact fun hblank => Expression.parse_ne_ok_of_allBlank hblank expression h
  refine ⟨⟨⟨name, template.range node attr.valueOrNameSpan⟩, name⟩, ?_, rfl⟩
  simp only [checkCondition, hblank, htag, Bool.false_eq_true, if_false, h]
  refine List.mem_append_right _ (List.mem_map_of_mem (f := fun name : Text =>
    (⟨⟨name, template.range node attr.valueOrNameSpan⟩, name⟩ : GlobalReference)) ?_)
  exact NameSet.mem_ofList.mpr hname

theorem checkAttribute_if (template : Template) (node : Node) (element : Element)
    (hname : attr.name = "if".toList) (foreign : Bool) (analysis : Analysis) :
    ∃ before, checkAttribute template node element foreign attr analysis =
      checkCondition template node attr before := by
  have htag : hasTag "if".toList = false := by decide
  have hdirective : Naming.looksLikeDirective "if".toList = false := by decide
  simp only [checkAttribute, hname, htag, hdirective, Bool.false_eq_true, if_false, checkValue, if_true]
  exact ⟨_, rfl⟩

theorem of_attribute? (h : element.attribute? name = some attr) : attr ∈ element.attributes ∧ attr.name = name := by
  refine ⟨List.mem_of_find?_eq_some h, ?_⟩
  have hname := List.find?_some h
  exact beq_iff_eq.mp hname

/-- The visit of an attribute of a visited element reaches the analysis of the template. -/
theorem exists_checkAttribute_of_placed {parent : Option Text} {id : Nat}
    {node : Node} (hplaced : (parent, id, node) ∈ placedNodes none (visible template.document.forest))
    (hkind : node.kind = .element element) (hattr : attr ∈ element.attributes) :
    ∃ foreign before, (checkAttribute template node element foreign attr before).Grows template.analysis := by
  obtain ⟨below, foreign, before, hgrows⟩ := exists_checkNode hplaced
  simp only [checkNode, hkind] at hgrows
  obtain ⟨first, hfirst⟩ :=
    exists_checkAttribute template node before (foreign || isForeign element) hattr []
  exact ⟨_, first, (hfirst.trans (extends_checkNamed template node _ False.elim parent).grows).trans hgrows⟩

/-- **The globals of an expression that rendering evaluates are listed, or the expression is one that the
analysis passes over.** -/
theorem lists_or_overlooked (h : expression ∈ template.expressions) :
    expression ∈ template.overlooked ∨ ∀ name ∈ expression.globals, template.analysis.Lists name := by
  obtain ⟨parent, id, node, hplaced, h⟩ := mem_expressions.mp h
  have hoverlooked : ∀ element, node.kind = .element element →
      expression ∈ overlookedExpressions element → expression ∈ template.overlooked := by
    intro element hkind hmem
    refine List.mem_flatMap.mpr ⟨(parent, id, node), hplaced, ?_⟩
    simpa only [Node.element?, hkind, Option.map_some, Option.getD_some] using hmem
  rw [nodeExpressions] at h
  split at h
  next text hkind =>
    split at h
    · cases h
    next hparent =>
      right
      intro name hname
      obtain ⟨below, foreign, before, hgrows⟩ := exists_checkNode hplaced
      simp only [checkNode, hkind, if_neg hparent] at hgrows
      exact (lists_checkTags template node _ h hname before).grows hgrows
  next element hkind =>
    rcases List.mem_append.mp h with h | h
    · obtain ⟨attr, hattr, h⟩ := List.mem_flatMap.mp h
      cases hseen : passesOver attr with
      | true =>
        left
        refine hoverlooked element hkind (List.mem_append_left _ ?_)
        exact List.mem_flatMap.mpr ⟨attr, List.mem_filter.mpr ⟨hattr, hseen⟩, h⟩
      | false =>
        right
        intro name hname
        obtain ⟨value, span, hvalue, hspan, hinterpolates, h⟩ := mem_attributeExpressions h
        obtain ⟨foreign, before, hgrows⟩ := exists_checkAttribute_of_placed hplaced hkind hattr
        obtain ⟨first, hfirst⟩ :=
          checkAttribute_of_interpolates template node hinterpolates hseen hvalue hspan foreign before
        rw [hfirst] at hgrows
        exact (lists_checkTags template node _ h hname first).grows hgrows
    · obtain ⟨attr, hattr, hparse⟩ := mem_conditionExpressions.mp h
      cases htag : hasTag attr.valueOrEmpty with
      | true =>
        left
        refine hoverlooked element hkind (List.mem_append_right _ ?_)
        simpa only [hattr, Option.any_some, htag, if_true] using h
      | false =>
        right
        intro name hname
        obtain ⟨hmem, hif⟩ := of_attribute? hattr
        obtain ⟨foreign, before, hgrows⟩ := exists_checkAttribute_of_placed hplaced hkind hmem
        obtain ⟨first, hfirst⟩ := checkAttribute_if template node element hif foreign before
        rw [hfirst] at hgrows
        exact (lists_checkCondition template node htag hparse hname first).grows hgrows
  · cases h
  · cases h

/-! ## Problems at what is passed over -/

theorem reported_ne_nil_of_grows {before after : Analysis} (hgrows : before.Grows after)
    (h : before.diagnostics.reported ≠ []) : after.diagnostics.reported ≠ [] := by
  intro hnil
  exact h (List.prefix_nil.mp (hnil ▸ hgrows.reported))

theorem reported_report_ne_nil (analysis : Analysis) (problem : Problem) (range : CharRange) :
    (analysis.report problem range).diagnostics.reported ≠ [] :=
  List.append_ne_nil_of_right_ne_nil _ (List.cons_ne_nil _ _)

/-- An attribute with a value that the analysis passes over has a problem. -/
theorem reported_checkAttribute_of_passesOver (template : Template) (node : Node) (element : Element)
    (h : passesOver attr = true) (hvalue : attr.value.isSome = true) (foreign : Bool) (analysis : Analysis) :
    (checkAttribute template node element foreign attr analysis).diagnostics.reported ≠ [] := by
  rw [passesOver, Bool.or_eq_true, beq_iff_eq] at h
  by_cases htag : hasTag attr.name = true
  · simp only [checkAttribute, htag, if_true]
    exact reported_report_ne_nil _ _ _
  · have hname := h.resolve_left htag
    have hdirective : Naming.looksLikeDirective "markdown".toList = false := by decide
    have hif : "markdown".toList ≠ "if".toList := by decide
    have htag' : hasTag "markdown".toList = false := by decide
    simp only [checkAttribute, hname, htag', hdirective, Bool.false_eq_true, if_false, checkValue,
      if_neg hif, if_true, hvalue, Analysis.reportIf]
    exact reported_report_ne_nil _ _ _

/-- A condition that the analysis passes over has a problem. -/
theorem reported_checkCondition_of_hasTag (template : Template) (node : Node)
    (h : hasTag attr.valueOrEmpty = true) (analysis : Analysis) :
    (checkCondition template node attr analysis).diagnostics.reported ≠ [] := by
  simp only [checkCondition, h, if_true]
  split
  · exact reported_report_ne_nil _ _ _
  · exact reported_report_ne_nil _ _ _

/-- In a template without problems of its own nothing is passed over. -/
theorem overlooked_eq_nil (h : template.analysis.diagnostics.reported = []) : template.overlooked = [] := by
  rw [List.eq_nil_iff_forall_not_mem]
  intro expression hmem
  obtain ⟨⟨parent, id, node⟩, hplaced, hmem⟩ := List.mem_flatMap.mp hmem
  cases hkind : node.kind with
  | text _ | comment _ | declaration _ =>
    simp only [Node.element?, hkind, Option.map_none, Option.getD_none] at hmem
    cases hmem
  | element element =>
    simp only [Node.element?, hkind, Option.map_some, Option.getD_some] at hmem
    rcases List.mem_append.mp hmem with hmem | hmem
    · obtain ⟨attr, hattr, hmem⟩ := List.mem_flatMap.mp hmem
      obtain ⟨hattr, hseen⟩ := List.mem_filter.mp hattr
      obtain ⟨value, _, hvalue, -⟩ := mem_attributeExpressions hmem
      obtain ⟨foreign, before, hgrows⟩ := exists_checkAttribute_of_placed hplaced hkind hattr
      have hreported := reported_checkAttribute_of_passesOver template node element hseen
        (by rw [hvalue]; rfl) foreign before
      exact reported_ne_nil_of_grows hgrows hreported h
    · split at hmem
      next htag =>
        obtain ⟨attr, hattr, -⟩ := mem_conditionExpressions.mp hmem
        rw [hattr, Option.any_some] at htag
        obtain ⟨hattr, hif⟩ := of_attribute? hattr
        obtain ⟨foreign, before, hgrows⟩ := exists_checkAttribute_of_placed hplaced hkind hattr
        obtain ⟨first, hfirst⟩ := checkAttribute_if template node element hif foreign before
        rw [hfirst] at hgrows
        have hreported := reported_checkCondition_of_hasTag template node htag first
        exact reported_ne_nil_of_grows hgrows hreported h
      next => cases hmem

end Sitewright.Template
