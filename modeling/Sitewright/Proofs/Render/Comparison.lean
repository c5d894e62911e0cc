import Mathlib.Data.List.Basic
import Sitewright.Proofs.Render.Content
import Sitewright.Proofs.Render.Expansion
import Sitewright.Proofs.Render.Visible
import Sitewright.Proofs.Template.References

/-!
Two renderings side by side.

A frame reads the environment, the key of its own template, and of globals, components and assets only
those that its template names; and every problem that it adds is one that it meets. So a frame is rendered
in two sites at once, each node with both of its outputs: they have the same problems, all of them good if
those that frames meet are, and the same markup where the sites agree on environment and key, or where the
template has neither comments nor directives (`Site.matches_renderFrame`). What sites have in common
(`Site.renderFrame_congr`) and where problems come from (`Site.all_diagnostics`) are special cases.
-/

namespace Sitewright

open Markup Template

/-! ## Outputs -/

/-- Two outputs with the same problems, and with the same markup if `Same` holds. -/
structure Output.Alike (Same : Prop) (a b : Output) : Prop where
  reports : a.reports = b.reports
  html : Same → a.html = b.html

/-- Outputs that are alike and have good problems only. -/
structure Output.Matches (Good : Record → Prop) (Same : Prop) (a b : Output) : Prop
    extends Output.Alike Same a b where
  good : ∀ record ∈ a.reports, Good record

namespace Output.Matches

variable {Good : Record → Prop} {Same : Prop} {a b : Output}

theorem of_eq (h : a = b) (hgood : ∀ record ∈ a.reports, Good record) : Matches Good Same a b := by
  subst h
  exact ⟨⟨rfl, fun _ => rfl⟩, hgood⟩

theorem eq (h : Matches Good True a b) : a = b := by
  show Output.mk a.html a.reports = Output.mk b.html b.reports
  rw [h.html trivial, h.reports]

theorem weaken (h : Matches Good True a b) : Matches Good Same a b :=
  of_eq h.eq h.good

theorem ofText (html : Text) : Matches Good Same (.ofText html) (.ofText html) := by
  refine of_eq rfl fun record hrecord => ?_
  cases hrecord

theorem empty : Matches Good Same .empty .empty :=
  ofText []

theorem ofRecord {record : Record} (h : Good record) :
    Matches Good Same (.ofRecord record) (.ofRecord record) := by
  refine of_eq rfl fun other hother => ?_
  rw [List.mem_singleton.mp hother]
  exact h

theorem append {c d : Output} (h : Matches Good Same a b) (h' : Matches Good Same c d) :
    Matches Good Same (a ++ c) (b ++ d) := by
  refine ⟨⟨congrArg₂ (· ++ ·) h.reports h'.reports,
    fun hsame => congrArg₂ (· ++ ·) (h.html hsame) (h'.html hsame)⟩, fun record hrecord => ?_⟩
  exact (List.mem_append.mp hrecord).elim (h.good record) (h'.good record)

theorem concat {α : Type} {items : List α} {f g : α → Output}
    (h : ∀ item ∈ items, Matches Good Same (f item) (g item)) :
    Matches Good Same (.concat (items.map f)) (.concat (items.map g)) := by
  induction items with
  | nil => exact empty
  | cons item items ih =>
    have hitems := ih fun other hother => h other (List.mem_cons_of_mem item hother)
    exact (h item List.mem_cons_self).append hitems

end Output.Matches

/-! ## Uniform templates -/

/-- Whether a node is written alike in both environments: it is no comment and has no directive. -/
def Markup.Node.isUniform (node : Node) : Bool :=
  match node.kind with
  | .comment _ => false
  | .element element => element.attributes.all fun attr => !Naming.looksLikeDirective attr.name
  | .text _ | .declaration _ => true

/-- Whether a template has neither comments nor directives. -/
def Template.isUniform (template : Template) : Bool :=
  template.document.nodes.all fun entry => entry.2.isUniform

/-- Nothing leaves an element without directives. -/
theorem leaving_of_isUniform {node : Node} {element : Element} (hkind : node.kind = .element element)
    (h : node.isUniform = true) : Directive.declaring element ++ Directive.moving element = [] := by
  simp only [Node.isUniform, hkind, List.all_eq_true, Bool.not_eq_true'] at h
  refine List.eq_nil_iff_forall_not_mem.mpr fun entry hentry => ?_
  obtain ⟨hmem, hdirective⟩ := List.mem_filter.mp (Directive.mem_directives_of_leaving hentry)
  rw [h entry.1 (List.fst_mem_of_mem_zipIdx hmem)] at hdirective
  cases hdirective

namespace Frame

/-! ## Opening tags -/

section

variable {frame : Frame} {site : Site} {id : Nat} {element : Element} {node : Node}

/-- An attribute that leaves the markup takes no problems with it. -/
theorem reports_renderAttribute {removed : List Nat} {entry : Attribute × Nat}
    (h : entry.2 ∈ removed → Naming.looksLikeDirective entry.1.name = true) :
    (frame.renderAttribute site node removed entry).reports =
      (frame.renderAttribute site node [] entry).reports := by
  by_cases hdirective : Naming.looksLikeDirective entry.1.name = true
  · rw [renderAttribute_of_directive hdirective, renderAttribute_of_directive hdirective]
    split <;> split <;> rfl
  · have hremoved : removed.contains entry.2 = false := by simpa using mt h hdirective
    rw [renderAttribute, renderAttribute, hremoved]
    rfl

theorem binding?_eq (site : Site) (h : (id, element) ∈ frame.compiled.template.elements) :
    frame.binding? site id =
      if site.environment = .development ∨ Directive.declaring element ++ Directive.moving element = [] then
        none
      else some (Directive.binding id element) := by
  rw [binding?, frame.compiled.bindings_eq]
  cases site.environment with
  | development => rfl
  | production => simp [Template.find?_bindings h]

/-- So an opening tag has the problems of all attributes, in either environment. -/
theorem reports_openingTag (h : (id, element) ∈ frame.compiled.template.elements) (site : Site) (node : Node) :
    (frame.openingTag site id node element).reports =
      (Output.concat (element.attributes.zipIdx.map (frame.renderAttribute site node []))).reports := by
  have hremoved : ∀ entry ∈ element.attributes.zipIdx,
      entry.2 ∈ ((frame.binding? site id).map Directive.Binding.removed).getD [] →
        Naming.looksLikeDirective entry.1.name = true := by
    intro entry hentry hindex
    rw [binding?_eq site h] at hindex
    split at hindex
    · cases hindex
    · obtain ⟨other, hother, heq⟩ := Directive.mem_removed_binding.mp hindex
      obtain ⟨hmem, hdirective⟩ := List.mem_filter.mp (Directive.mem_directives_of_leaving hother)
      exact Directive.eq_of_mem_zipIdx hmem hentry heq ▸ hdirective
  have hattributes : Output.Matches (fun _ => True) False
      (.concat (element.attributes.zipIdx.map (frame.renderAttribute site node
        (((frame.binding? site id).map Directive.Binding.removed).getD []))))
      (.concat (element.attributes.zipIdx.map (frame.renderAttribute site node []))) :=
    .concat fun entry hentry =>
      ⟨⟨reports_renderAttribute (hremoved entry hentry), False.elim⟩, fun _ _ => trivial⟩
  rw [← hattributes.reports]
  exact List.append_nil _

end

/-! ## Values -/

/-- Two sites have the same for all that the template of a frame names, all problems that the frame meets
are good, and if `Same` holds they write it in the same way. -/
structure Compares (Good : Record → Prop) (Same : Prop) (site other : Site) (frame : Frame) : Prop where
  globals : ∀ expression ∈ frame.compiled.template.expressions, ∀ name ∈ expression.globals,
    site.globals.get? name = other.globals.get? name
  components : ∀ name ∈ frame.compiled.template.componentNames,
    site.components.get? name = other.components.get? name
  assets : ∀ path ∈ frame.compiled.template.assetPaths, site.assets.contains path = other.assets.contains path
  meets : ∀ record, frame.Meets site record → Good record
  same : Same → site.environment = other.environment ∧
    site.key frame.compiled.template.id = other.key frame.compiled.template.id ∨
    frame.compiled.template.isUniform = true

/-- The template of a frame has some expressions. -/
def Evaluates (frame : Frame) (expressions : List Expression) : Prop :=
  ∀ expression ∈ expressions, expression ∈ frame.compiled.template.expressions

/-- The template of a frame has the conditions of the outermost elements of a forest. -/
def EvaluatesRoots {α : Type} (frame : Frame) (forest : Forest (Node × α)) : Prop :=
  ∀ label ∈ forest.roots, ∀ element, label.1.kind = .element element →
    frame.Evaluates (conditionExpressions element)

section

variable {Good : Record → Prop} {Same : Prop} {site other : Site} {frame : Frame}
  (h : frame.Compares Good Same site other)
variable {text : Text} {element : Element} {condition attr : Attribute}

include h

theorem evaluateTag_eq (hsub : frame.Evaluates (tagExpressions text)) {tag : Tag}
    (htag : tag ∈ (scanTags text).tags) : frame.evaluateTag site tag = frame.evaluateTag other tag := by
  rw [evaluateTag, evaluateTag]
  cases hexpression : tag.expression with
  | ok expression =>
    have hmem := hsub expression (mem_tagExpressions.mpr ⟨tag, htag, hexpression⟩)
    exact Expression.evaluate_congr (h.globals expression hmem) fun _ _ => rfl
  | error error => rfl

theorem matches_interpolate (hsub : frame.Evaluates (tagExpressions text)) (node : Node)
    (base : Nat) (goal : Interpolation) : (frame.interpolate site node text base goal).Matches Good True
      (frame.interpolate other node text base goal) := by
  refine .of_eq ?_ fun record hrecord => ?_
  · have hpieces : ∀ piece ∈ (scanTags text).pieces,
        frame.evaluateTag site piece.2 = frame.evaluateTag other piece.2 :=
      fun piece hpiece => evaluateTag_eq h hsub (List.mem_map_of_mem hpiece)
    simp only [interpolate, TagScan.substitute]
    congr 1
    · congr 1
      refine List.flatMap_congr fun piece hpiece => ?_
      rw [hpieces piece hpiece]
    · refine List.flatMap_congr fun tag htag => ?_
      rw [evaluateTag_eq h hsub htag]
  · obtain ⟨tag, htag, hrecord⟩ := List.mem_flatMap.mp hrecord
    obtain ⟨name, hname, rfl⟩ := List.mem_map.mp hrecord
    rw [evaluateTag] at hname
    cases hexpression : tag.expression with
    | error error =>
      rw [hexpression] at hname
      cases hname
    | ok expression =>
      rw [hexpression] at hname
      have hmem := hsub expression (mem_tagExpressions.mpr ⟨tag, htag, hexpression⟩)
      exact h.meets _ (.tag node _ name ⟨expression, hmem, hname⟩)

/-! ### Conditions -/

theorem evaluateCondition_eq (hsub : frame.Evaluates (conditionExpressions element))
    (hcondition : element.attribute? "if".toList = some condition) :
    frame.evaluateCondition site condition = frame.evaluateCondition other condition := by
  rw [evaluateCondition, evaluateCondition]
  cases hparse : Expression.parse condition.valueOrEmpty with
  | ok expression =>
    have hmem := hsub expression (mem_conditionExpressions.mpr ⟨condition, hcondition, hparse⟩)
    exact Expression.evaluate_congr (h.globals expression hmem) fun _ _ => rfl
  | error error => rfl

theorem good_conditionReports (hsub : frame.Evaluates (conditionExpressions element))
    (hcondition : element.attribute? "if".toList = some condition) (node : Node) :
    ∀ record ∈ frame.conditionReports site node condition, Good record := by
  intro record hrecord
  obtain ⟨name, hname, rfl⟩ := List.mem_map.mp hrecord
  rw [evaluateCondition] at hname
  cases hparse : Expression.parse condition.valueOrEmpty with
  | error error =>
    rw [hparse] at hname
    cases hname
  | ok expression =>
    rw [hparse] at hname
    have hmem := hsub expression (mem_conditionExpressions.mpr ⟨condition, hcondition, hparse⟩)
    exact h.meets _ (.condition node _ name ⟨expression, hmem, hname⟩)

theorem matches_guarded (hsub : frame.Evaluates (conditionExpressions element)) (node : Node)
    {a b : Output} (hab : a.Matches Good Same b) :
    (frame.guarded site node element a).Matches Good Same (frame.guarded other node element b) := by
  rw [guarded, guarded]
  cases hcondition : element.attribute? "if".toList with
  | none => exact hab
  | some condition =>
    simp only [holds, conditionReports, ← evaluateCondition_eq h hsub hcondition]
    refine ⟨⟨congrArg (· ++ _) hab.reports, fun hsame => ?_⟩, fun record hrecord => ?_⟩
    · simp only [hab.html hsame]
    · exact (List.mem_append.mp hrecord).elim (hab.good record)
        (good_conditionReports h hsub hcondition node record)

/-! ### Attributes -/

/-- The text of an attribute that is interpolated. -/
theorem matches_interpolate_value (hsub : frame.Evaluates (elementExpressions element))
    (hattr : attr ∈ element.attributes) {value : Text} {span : ByteSpan} (hvalue : attr.value = some value)
    (hspan : attr.valueSpan = some span) (hinterpolates : interpolates element attr = true) (node : Node)
    (goal : Interpolation) : (frame.interpolate site node value span.start goal).Matches Good True
      (frame.interpolate other node value span.start goal) := by
  refine matches_interpolate h (fun expression hmem => hsub expression ?_) node span.start goal
  refine List.mem_append_left _ (List.mem_flatMap.mpr ⟨attr, hattr, ?_⟩)
  simpa only [attributeExpressions, hvalue, hspan, hinterpolates, if_true] using hmem

theorem matches_renderAttribute (hsub : frame.Evaluates (elementExpressions element))
    (hplain : ∀ attr, interpolates element attr =
      (!unwrittenAttributes.contains attr.name && !Naming.looksLikeDirective attr.name))
    (node : Node) (removed : List Nat) {entry : Attribute × Nat} (hentry : entry ∈ element.attributes.zipIdx) :
    (frame.renderAttribute site node removed entry).Matches Good True
      (frame.renderAttribute other node removed entry) := by
  rw [renderAttribute, renderAttribute]
  split
  · exact .empty
  · next hwritten =>
    simp only [Bool.or_eq_true, not_or, Bool.not_eq_true] at hwritten
    refine .append (.ofText _) ?_
    rw [renderValue, renderValue]
    split
    · next value span hvalue hspan =>
      split
      · exact .ofText _
      · next hdirective =>
        have hinterpolates : interpolates element entry.1 = true := by
          rw [hplain, hwritten.1, Bool.eq_false_iff.mpr hdirective]
          rfl
        have hinner := matches_interpolate_value h hsub (List.fst_mem_of_mem_zipIdx hentry) hvalue hspan
          hinterpolates node .attributeValue
        exact ⟨⟨hinner.reports, fun hsame =>
          congrArg (fun html => "=\"".toList ++ html ++ ['"']) (hinner.html hsame)⟩, hinner.good⟩
    · exact .empty

theorem matches_openingTag (hsub : frame.Evaluates (elementExpressions element))
    (hplain : ∀ attr, interpolates element attr =
      (!unwrittenAttributes.contains attr.name && !Naming.looksLikeDirective attr.name)) {id : Nat} {node : Node}
    (hmem : (id, node) ∈ frame.compiled.template.document.nodes) (hkind : node.kind = .element element) :
    (frame.openingTag site id node element).Matches Good Same
      (frame.openingTag other id node element) := by
  have helement : (id, element) ∈ frame.compiled.template.elements :=
    Template.mem_elements.mpr ⟨node, hmem, by rw [Node.element?, hkind]⟩
  have hattributes (removed : List Nat) :
      (Output.concat (element.attributes.zipIdx.map (frame.renderAttribute site node removed))).Matches Good True
        (Output.concat (element.attributes.zipIdx.map (frame.renderAttribute other node removed))) :=
    .concat fun entry hentry => matches_renderAttribute h hsub hplain node removed hentry
  refine ⟨⟨?_, fun hsame => ?_⟩, ?_⟩
  · rw [reports_openingTag helement, reports_openingTag helement, (hattributes []).reports]
  · rcases h.same hsame with ⟨henvironment, hkey⟩ | huniform
    · have hbinding : frame.binding? site id = frame.binding? other id := by
        rw [binding?, binding?, henvironment]
      rw [openingTag, openingTag, hbinding, hkey]
      exact congrArg (· ++ _) (congrArg (_ ++ ·) ((hattributes _).html trivial))
    · have hleaving := leaving_of_isUniform hkind (List.all_eq_true.mp huniform _ hmem)
      rw [openingTag, openingTag, binding?_eq site helement, binding?_eq other helement,
        if_pos (.inr hleaving), if_pos (.inr hleaving)]
      exact congrArg (· ++ _) (congrArg (_ ++ ·) ((hattributes []).html trivial))
  · rw [reports_openingTag helement]
    exact (hattributes []).good

/-! ### Includes -/

theorem collectProperties_eq (hsub : frame.Evaluates (elementExpressions element))
    (hname : element.name = "include".toList) (node : Node) :
    frame.collectProperties site node element = frame.collectProperties other node element ∧
      ∀ record ∈ (frame.collectProperties site node element).2, Good record := by
  have hvalue : ∀ attr ∈ element.attributes,
      ¬(includeAttributes.contains attr.name || !Naming.isPropertyName attr.name) = true →
        ∀ value span, attr.value = some value → attr.valueSpan = some span →
          (frame.interpolate site node value span.start .property).Matches Good True
            (frame.interpolate other node value span.start .property) := by
    intro attr hattr hpasses value span hvalue hspan
    simp only [Bool.or_eq_true, not_or, Bool.not_eq_true, Bool.not_eq_false'] at hpasses
    refine matches_interpolate_value h hsub hattr hvalue hspan ?_ node .property
    rw [interpolates, if_pos hname, hpasses.1, hpasses.2]
    rfl
  rw [collectProperties, collectProperties]
  constructor
  · refine List.foldl_ext _ _ _ fun state attr hattr => ?_
    obtain ⟨properties, reports⟩ := state
    simp only
    split
    · rfl
    · next hpasses =>
      split
      · next value span hsome hspan => rw [(hvalue attr hattr hpasses value span hsome hspan).eq]
      · rfl
  · refine List.foldlRecOn (motive := fun state : Table Text Text × List Record =>
      ∀ record ∈ state.2, Good record) element.attributes _ ?_ ?_
    · intro record hrecord
      cases hrecord
    · intro state hstate attr hattr
      simp only
      split
      · exact hstate
      · next hpasses =>
        intro record hrecord
        refine (List.mem_append.mp hrecord).elim (hstate record) fun hrecord => ?_
        split at hrecord
        · next value span hsome hspan => exact (hvalue attr hattr hpasses value span hsome hspan).good _ hrecord
        · cases hrecord

theorem collectInject_eq {α : Type} {component : Compiled} {name : Text} {content : Content α} {node : Node}
    {inner : List α} (hsub : frame.Evaluates (conditionExpressions element)) :
    frame.collectInject site component name content node element inner =
        frame.collectInject other component name content node element inner ∧
      ((∀ record ∈ content.reports, Good record) →
        ∀ record ∈ (frame.collectInject site component name content node element inner).reports,
          Good record) := by
  have hcondition : (element.attribute? "if".toList).all (frame.holds site) =
        (element.attribute? "if".toList).all (frame.holds other) ∧
      (element.attribute? "if".toList).map (frame.conditionReports site node) =
        (element.attribute? "if".toList).map (frame.conditionReports other node) ∧
      ∀ record ∈ ((element.attribute? "if".toList).map (frame.conditionReports site node)).getD [],
        Good record := by
    cases hif : element.attribute? "if".toList with
    | none => exact ⟨rfl, rfl, fun record hrecord => by cases hrecord⟩
    | some condition =>
      simp only [Option.all_some, Option.map_some, holds, conditionReports, ← evaluateCondition_eq h hsub hif]
      exact ⟨trivial, trivial, good_conditionReports h hsub hif node⟩
  obtain ⟨hholds, hreports, hgood⟩ := hcondition
  simp only [collectInject, ← hholds, ← hreports]
  refine ⟨trivial, fun hcontent => ?_⟩
  have hboth := fun record hrecord =>
    (List.mem_append.mp hrecord).elim (hcontent record) (hgood record)
  split
  · exact hcontent
  · split
    · exact hboth
    · split
      · intro record hrecord
        refine (List.mem_append.mp hrecord).elim (hboth record) fun hrecord => ?_
        rw [List.mem_singleton.mp hrecord]
        exact h.meets _ (.outlet node element name _)
      · exact hboth

/-- The content of an include is collected alike, for the conditions of the nodes in it have values in
both sites. -/
theorem collect_eq {α : Type} {inner : Forest (Node × α)} (hsub : frame.EvaluatesRoots inner)
    (component : Compiled) (name : Text) (node : Node) (element : Element) :
    frame.collect site component name node element inner =
        frame.collect other component name node element inner ∧
      ∀ record ∈ (frame.collect site component name node element inner).reports, Good record := by
  have hstep : ∀ tree ∈ inner.trees, ∀ content : Content α,
      frame.collectNode site component name content tree =
          frame.collectNode other component name content tree ∧
        ((∀ record ∈ content.reports, Good record) →
          ∀ record ∈ (frame.collectNode site component name content tree).reports, Good record) := by
    rintro ⟨⟨child, item⟩, below⟩ htree content
    simp only [collectNode]
    split
    · next injected hkind =>
      split
      · exact collectInject_eq h (hsub _ (Forest.mem_roots_of_mem_trees htree) injected hkind)
      · exact ⟨rfl, id⟩
    · exact ⟨rfl, id⟩
    · exact ⟨rfl, id⟩
    · exact ⟨rfl, id⟩
  have hfold : inner.trees.foldl (frame.collectNode site component name) ⟨∅, [], false, []⟩ =
      inner.trees.foldl (frame.collectNode other component name) ⟨∅, [], false, []⟩ :=
    List.foldl_ext _ _ _ fun content tree htree => (hstep tree htree content).1
  have hgood : ∀ record ∈ (inner.trees.foldl (frame.collectNode site component name)
      ⟨∅, [], false, []⟩).reports, Good record := by
    refine List.foldlRecOn (motive := fun content : Content α => ∀ record ∈ content.reports, Good record)
      inner.trees _ ?_ fun content hcontent tree htree => (hstep tree htree content).2 hcontent
    intro record hrecord
    cases hrecord
  simp only [collect, ← hfold]
  refine ⟨trivial, ?_⟩
  split
  · exact hgood
  · split
    · exact hgood
    · intro record hrecord
      refine (List.mem_append.mp hrecord).elim (hgood record) fun hrecord => ?_
      rw [List.mem_singleton.mp hrecord]
      exact h.meets _ (.mainOutlet node element name)

end

/-! ## Nodes with two outputs -/

/-- The frame with other content for its outlets. -/
def withSlots (frame : Frame) (slots : Table Text Output) : Frame :=
  { frame with slots }

/-- The nodes with the first of their outputs. -/
def former (pairs : Forest (Node × Output × Output)) : Forest (Node × Output) :=
  pairs.map (Prod.map id Prod.fst)

/-- The nodes with the second of their outputs. -/
def latter (pairs : Forest (Node × Output × Output)) : Forest (Node × Output) :=
  pairs.map (Prod.map id Prod.snd)

section

variable (Good : Record → Prop) (Same : Prop)

/-- The two outputs of every node match. -/
def PairsMatch (pairs : Forest (Node × Output × Output)) : Prop :=
  ∀ label ∈ pairs.preorder, label.2.1.Matches Good Same label.2.2

/-- Content for the same outlets that matches for each. -/
def SlotsMatch (slots slots' : Table Text Output) : Prop :=
  ∀ name, Option.Rel (Output.Matches Good Same) (slots.get? name) (slots'.get? name)

/-- Frames that a frame opens, with content that matches, are expanded to outputs that match. -/
def ExpandsMatch (site : Site) (frame : Frame) (expand expand' : Frame → Output) : Prop :=
  ∀ next slots, frame.Opens site next → SlotsMatch Good Same next.slots slots →
    (expand next).Matches Good Same (expand' (next.withSlots slots))

end

variable {Good : Record → Prop} {Same : Prop} {site other : Site} {frame : Frame} {slots : Table Text Output}
variable {pairs : Forest (Node × Output × Output)} {expand expand' : Frame → Output}
variable {element : Element} {node : Node}

theorem matches_outputBelow (hpairs : PairsMatch Good Same pairs) :
    (outputBelow (former pairs)).Matches Good Same (outputBelow (latter pairs)) := by
  simp only [outputBelow, former, latter, Forest.roots_map, List.map_map]
  exact .concat fun label hlabel => hpairs label (Forest.mem_preorder_of_mem_roots hlabel)

theorem matches_renderOutlet (hpairs : PairsMatch Good Same pairs)
    (hslots : SlotsMatch Good Same frame.slots slots) :
    (frame.renderOutlet element (former pairs)).Matches Good Same
      ((frame.withSlots slots).renderOutlet element (latter pairs)) := by
  have hcontent := hslots (Template.outletName (element.attribute? "name".toList))
  simp only [renderOutlet, withSlots]
  generalize frame.slots.get? _ = content at hcontent ⊢
  generalize slots.get? _ = content' at hcontent ⊢
  cases hcontent with
  | some hmatches => exact hmatches
  | none => exact matches_outputBelow hpairs

theorem slotsMatch_collect (hpairs : PairsMatch Good Same pairs) (component : Compiled) (name : Text) :
    SlotsMatch Good Same
      ((frame.collect site component name node element (former pairs)).slots.map fun _ => .concat)
      ((frame.collect site component name node element (latter pairs)).slots.map fun _ => .concat) := by
  intro outlet
  simp only [former, latter, collect_map, Content.map, Table.get?_map, Option.map_map]
  cases hget : (frame.collect site component name node element pairs).slots.get? outlet with
  | none => exact .none
  | some items =>
    have hitems : ∀ pair ∈ items, pair.1.Matches Good Same pair.2 :=
      collect_slots_forall (fun label hlabel => hpairs label hlabel) hget
    exact .some (.concat hitems)

theorem interpolates_of_plain (hinclude : element.name ≠ "include".toList)
    (houtlet : element.name ≠ "outlet".toList)
    (hrest : ¬ (element.name = "inject".toList || element.name = "style".toList) = true) (attr : Attribute) :
    interpolates element attr =
      (!unwrittenAttributes.contains attr.name && !Naming.looksLikeDirective attr.name) := by
  rw [interpolates, if_neg hinclude, if_neg houtlet, if_neg hrest]

section

variable (h : frame.Compares Good Same site other)
  (hexpand : frame.ExpandsMatch Good Same site expand expand')

include h hexpand

theorem matches_renderInclude (hincludes : frame.compiled.template.Includes node element)
    (hsub : frame.Evaluates (elementExpressions element))
    (hchildren : frame.EvaluatesRoots pairs) (hpairs : PairsMatch Good Same pairs) :
    (frame.renderInclude site expand node element (former pairs)).Matches Good Same
      (frame.renderInclude other expand' node element (latter pairs)) := by
  rw [renderInclude, renderInclude]
  split
  · next attr hattr =>
    simp only [renderComponent]
    split
    · exact .empty
    · next hvalid =>
      simp only [Bool.not_eq_true', Bool.not_eq_false] at hvalid
      have hname := hincludes.mem_componentNames hattr hvalid
      split
      · next hchain =>
        exact .ofRecord (h.meets _ (.refused (.circular hincludes hattr hvalid (by simpa using hchain))))
      · next hchain =>
        simp only [List.contains_eq_mem, decide_eq_true_eq] at hchain
        rw [← h.components _ hname]
        cases hget : site.components.get? attr.valueOrEmpty with
        | none => exact .ofRecord (h.meets _ (.refused (.unknownComponent hincludes hattr hvalid hget)))
        | some component =>
          obtain ⟨hproperties, hgood⟩ := collectProperties_eq h hsub hincludes.name node
          obtain ⟨hcontent, hgood'⟩ := collect_eq h hchildren component attr.valueOrEmpty node element
          simp only [← hproperties]
          have hlatter : frame.collect other component attr.valueOrEmpty node element (latter pairs) =
              frame.collect site component attr.valueOrEmpty node element (latter pairs) := by
            rw [latter, collect_map, collect_map, hcontent]
          have hreports : (frame.collect site component attr.valueOrEmpty node element (latter pairs)).reports =
              (frame.collect site component attr.valueOrEmpty node element (former pairs)).reports := by
            rw [latter, former, collect_map, collect_map]
            rfl
          rw [hlatter, hreports]
          refine .append (.of_eq rfl fun record hrecord => ?_) (hexpand _ _
            ⟨attr.valueOrEmpty, hname, hchain, hget, rfl⟩ (slotsMatch_collect hpairs component _))
          refine (List.mem_append.mp hrecord).elim (hgood record) fun hrecord => ?_
          rw [former, collect_map] at hrecord
          exact hgood' record hrecord
  · next hcomponent =>
    split
    · next attr hattr =>
      rw [renderAsset, renderAsset]
      by_cases hpath : Naming.isAssetPath attr.valueOrEmpty = true
      · rw [← h.assets _ (hincludes.mem_assetPaths hcomponent hattr hpath)]
        split
        · next hasset =>
          simp only [Bool.and_eq_true, Bool.not_eq_true'] at hasset
          exact .ofRecord (h.meets _ (.refused
            (.unknownAsset hincludes hcomponent hattr hpath hasset.2)))
        · exact .empty
      · simp only [hpath, Bool.false_and, Bool.false_eq_true, if_false]
        exact .empty
    · exact .empty

theorem matches_renderNode (hslots : SlotsMatch Good Same frame.slots slots) {parent : Option Text} {id : Nat}
    (hshows : frame.Shows parent id node)
    (hchildren : frame.EvaluatesRoots pairs) (hpairs : PairsMatch Good Same pairs) :
    (frame.renderNode site expand parent id node (former pairs)).Matches Good Same
      ((frame.withSlots slots).renderNode other expand' parent id node (latter pairs)) := by
  have hsub : frame.Evaluates (nodeExpressions parent node) := fun _ => hshows.mem_expressions
  have hmem := hshows.mem_preorder
  rw [frame.compiled.forest_eq] at hmem
  rw [renderNode, renderNode]
  split
  · next text hkind =>
    split
    · exact .ofText _
    · next hparent =>
      simp only [nodeExpressions, hkind, if_neg hparent] at hsub
      exact (matches_interpolate h hsub node _ .content).weaken
  · next text hkind =>
    -- a comment has no problems, and there is none in a uniform template
    refine ⟨⟨?_, fun hsame => ?_⟩, ?_⟩
    · cases site.environment <;> cases other.environment <;> rfl
    · rcases h.same hsame with ⟨henvironment, -⟩ | huniform
      · rw [henvironment]
      · have hcomment := List.all_eq_true.mp huniform _ hmem
        simp only [Node.isUniform, hkind, Bool.false_eq_true] at hcomment
    · cases site.environment <;> (intro record hrecord; cases hrecord)
  · exact .ofText _
  · next element hkind =>
    simp only [nodeExpressions, hkind] at hsub
    refine matches_guarded h (fun expression hmem => hsub expression (List.mem_append_right _ hmem)) node ?_
    rw [renderUnguarded, renderUnguarded]
    split
    · next hname =>
      exact matches_renderInclude h hexpand ⟨⟨id, hmem⟩, hkind, hname⟩ hsub hchildren hpairs
    · next hinclude =>
      split
      · exact matches_renderOutlet hpairs hslots
      · next houtlet =>
        split
        · exact .empty
        · next hrest =>
          have htag := matches_openingTag h hsub (interpolates_of_plain hinclude houtlet hrest) hmem hkind
          rw [renderPlain, renderPlain]
          split
          · exact htag
          · exact (htag.append (matches_outputBelow hpairs)).append (.ofText _)

/-- A forest is rendered in both sites at once. -/
theorem exists_pairs (hslots : SlotsMatch Good Same frame.slots slots) (parent : Option Text)
    {forest : Forest (Nat × Node)}
    (hsub : ∀ place id node, (place, id, node) ∈ placedNodes parent forest → frame.Shows place id node) :
    ∃ pairs, PairsMatch Good Same pairs ∧ frame.renderForest site expand parent forest = former pairs ∧
      (frame.withSlots slots).renderForest other expand' parent forest = latter pairs := by
  induction forest generalizing parent with
  | nil =>
    have hnone : PairsMatch Good Same .nil := fun label hlabel => by cases hlabel
    exact ⟨.nil, hnone, rfl, rfl⟩
  | cons entry below after ihbelow ihafter =>
    obtain ⟨number, node⟩ := entry
    simp only [placedNodes, List.mem_cons, List.mem_append] at hsub
    obtain ⟨inner, hinner, hformer, hlatter⟩ :=
      ihbelow node.name? fun place id node hplaced => hsub place id node (.inr (.inl hplaced))
    obtain ⟨later, hlater, hformer', hlatter'⟩ :=
      ihafter parent fun place id node hplaced => hsub place id node (.inr (.inr hplaced))
    have hchildren : frame.EvaluatesRoots inner := by
      intro label hlabel element hkind expression hmem
      have hrendered : (label.1, label.2.1) ∈
          (frame.renderForest site expand node.name? below).roots := by
        rw [hformer, former, Forest.roots_map]
        exact List.mem_map_of_mem hlabel
      obtain ⟨_, hroot⟩ := exists_root_of_renderForest hrendered
      have hshows := hsub _ _ _ (.inr (.inl (mem_placedNodes_of_mem_roots hroot)))
      refine hshows.mem_expressions ?_
      simp only [nodeExpressions, hkind]
      exact List.mem_append_right _ hmem
    refine ⟨.cons (node, frame.renderNode site expand parent number node (former inner),
      (frame.withSlots slots).renderNode other expand' parent number node (latter inner)) inner later, ?_, ?_, ?_⟩
    · intro label hlabel
      simp only [Forest.preorder, List.mem_cons, List.mem_append] at hlabel
      rcases hlabel with rfl | hlabel | hlabel
      · exact matches_renderNode h hexpand hslots (hsub parent number node (.inl rfl)) hchildren hinner
      · exact hinner label hlabel
      · exact hlater label hlabel
    · simp only [renderForest, hformer, hformer']
      rfl
    · simp only [renderForest, hlatter, hlatter']
      rfl

theorem matches_render (hslots : SlotsMatch Good Same frame.slots slots) :
    (frame.render site expand).Matches Good Same ((frame.withSlots slots).render other expand') := by
  obtain ⟨pairs, hpairs, hformer, hlatter⟩ := exists_pairs h hexpand hslots none fun _ _ _ hplaced => hplaced
  rw [render_eq_visible, render_eq_visible, hformer]
  show Output.Matches Good Same _ (outputBelow
    ((frame.withSlots slots).renderForest other expand' none (visible frame.compiled.forest)))
  rw [hlatter]
  exact matches_outputBelow hpairs

end

end Frame

/-! ## Levels -/

namespace Site

variable {Good : Record → Prop} {Same : Prop} {site other : Site} {Within : Frame → Prop}

section

variable (hcompares : ∀ frame, Within frame → frame.Compares Good Same site other)
  (hopens : ∀ frame next, Within frame → frame.Opens site next → Within next)

include hcompares hopens

/-- Levels that cover the components still to be opened give outputs that match. -/
theorem matches_expand {frame : Frame} {slots : Table Text Output} {levels levels' : Nat}
    (hframe : Within frame) (hslots : Frame.SlotsMatch Good Same frame.slots slots)
    (hlevels : site.spare frame.chain < levels) (hlevels' : other.spare frame.chain < levels') :
    (site.expand levels frame).Matches Good Same (other.expand levels' (frame.withSlots slots)) := by
  induction levels generalizing levels' frame slots with
  | zero => omega
  | succ levels ih =>
    cases levels' with
    | zero => omega
    | succ levels' =>
      refine Frame.matches_render (hcompares frame hframe) (fun next slots hnext hslots => ?_) hslots
      have hnext' : frame.Opens other next := by
        obtain ⟨name, hname, hchain, hget, hlast⟩ := hnext
        exact ⟨name, hname, hchain, (hcompares frame hframe).components name hname ▸ hget, hlast⟩
      have hlt := spare_lt_of_opens hnext
      have hlt' := spare_lt_of_opens hnext'
      exact ih (hopens frame next hframe hnext) hslots (by omega) (by omega)

/-- **Frames are rendered alike** in two sites that have the same for what templates name. -/
theorem matches_renderFrame {frame : Frame} (hframe : Within frame)
    (hslots : Frame.SlotsMatch Good Same frame.slots frame.slots) :
    (site.renderFrame frame).Matches Good Same (other.renderFrame frame) :=
  matches_expand hcompares hopens hframe hslots (Nat.lt_succ_of_le (site.spare_le_size _))
    (Nat.lt_succ_of_le (other.spare_le_size _))

end

/-! ### Sites that agree -/

/-- Two sites answer alike to all that a template reads. -/
structure Agrees (site other : Site) (template : Template) : Prop where
  globals : ∀ expression ∈ template.expressions, ∀ name ∈ expression.globals,
    site.globals.get? name = other.globals.get? name
  environment : site.environment = other.environment
  key : site.key template.id = other.key template.id
  components : ∀ name ∈ template.componentNames, site.components.get? name = other.components.get? name
  assets : ∀ path ∈ template.assetPaths, site.assets.contains path = other.assets.contains path

/-- Two sites agree on all frames with a property that passes from a frame to those it opens. -/
structure AgreeOn (site other : Site) (Within : Frame → Prop) : Prop where
  agrees : ∀ frame, Within frame → site.Agrees other frame.compiled.template
  opens : ∀ frame next, Within frame → frame.Opens site next → Within next

variable {frame : Frame}

theorem AgreeOn.refl (site : Site) : site.AgreeOn site fun _ => True :=
  ⟨fun _ _ => ⟨fun _ _ _ _ => rfl, rfl, rfl, fun _ _ => rfl, fun _ _ => rfl⟩, fun _ _ _ _ => trivial⟩

theorem AgreeOn.compares (h : site.AgreeOn other Within) (frame : Frame) (hframe : Within frame) :
    frame.Compares (fun _ => True) True site other := by
  have hagrees := h.agrees frame hframe
  exact ⟨hagrees.globals, hagrees.components, hagrees.assets, fun _ _ => trivial,
    fun _ => .inl ⟨hagrees.environment, hagrees.key⟩⟩

/-- Levels that cover the components still to be opened give the same output, in either site. -/
theorem expand_congr (h : site.AgreeOn other Within) {levels levels' : Nat}
    (hframe : Within frame) (hlevels : site.spare frame.chain < levels)
    (hlevels' : other.spare frame.chain < levels') :
    site.expand levels frame = other.expand levels' frame := by
  have hslots : Frame.SlotsMatch (fun _ => True) True frame.slots frame.slots := fun name => by
    cases frame.slots.get? name with
    | none => exact .none
    | some output => exact .some (.of_eq rfl fun _ _ => trivial)
  exact (matches_expand h.compares h.opens hframe hslots hlevels hlevels').eq

theorem renderFrame_congr (h : site.AgreeOn other Within) (hframe : Within frame) :
    site.renderFrame frame = other.renderFrame frame :=
  expand_congr h hframe (Nat.lt_succ_of_le (site.spare_le_size _)) (Nat.lt_succ_of_le (other.spare_le_size _))

/-- Below a chain, all levels are as good as one level less. -/
theorem expand_eq_renderFrame (h : site.spare frame.chain < site.components.size) :
    site.expand site.components.size frame = site.renderFrame frame :=
  expand_congr (AgreeOn.refl site) trivial h (Nat.lt_succ_of_lt h)

/-! ### Problems -/

/-- **Every record of a rendering is met at a node of one of its frames.** What holds of the outermost
frame, and passes from a frame to those it opens, holds of the frame that meets it. -/
theorem all_diagnostics (hopens : ∀ frame next, Within frame → frame.Opens site next → Within next)
    (hmeets : ∀ frame record, Within frame → frame.Meets site record → Good record)
    {template : Template} (htemplate : Within (Frame.outermost template)) :
    ∀ record ∈ (site.render template).diagnostics, Good record := by
  have hcompares (frame : Frame) (hframe : Within frame) : frame.Compares Good True site site :=
    ⟨fun _ _ _ _ => rfl, fun _ _ => rfl, fun _ _ => rfl, (hmeets frame · hframe), fun _ => .inl ⟨rfl, rfl⟩⟩
  intro record hrecord
  simp only [render, Output.finish, List.mem_eraseDups] at hrecord
  exact (matches_renderFrame hcompares hopens htemplate fun _ => .none).good record hrecord

end Site

end Sitewright
