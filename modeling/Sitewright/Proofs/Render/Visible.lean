import Sitewright.Proofs.Template.Expressions

/-!
Rendering shows nothing of what stands inside a `<style>`: with the visible part of a document it gives the
same output as with all of it (`Frame.render_eq_visible`). So whatever is said of a rendering node by node
needs to be said of visible nodes only, and these the analysis has visited.
-/

namespace Sitewright

open Markup Template

/-! ## Labels of the visible part -/

section

variable {α : Type} {node : α → Node}

theorem roots_visibleBy (forest : Forest α) : (visibleBy node forest).roots = forest.roots := by
  induction forest with
  | nil => rfl
  | cons label below after _ ih => simp only [visibleBy, Forest.roots, ih]

theorem trees_visibleBy (forest : Forest α) :
    (visibleBy node forest).trees = forest.trees.map fun tree =>
      (tree.1, if visitsBelow (node tree.1) then visibleBy node tree.2 else .nil) := by
  induction forest with
  | nil => rfl
  | cons label below after _ ih => simp only [visibleBy, Forest.trees, ih, List.map_cons]

end

namespace Frame

variable (site : Site) (frame : Frame)

/-! ## Includes -/

theorem collectNode_visible {α : Type} (component : Compiled) (name : Text) (content : Content α)
    (label : Node × α) (below : Forest (Node × α)) :
    frame.collectNode site component name content
        (label, if visitsBelow label.1 then visibleBy Prod.fst below else .nil) =
      frame.collectNode site component name content (label, below) := by
  obtain ⟨node, item⟩ := label
  simp only [collectNode]
  split
  next element hkind =>
    split
    next hname =>
      have hbelow : visitsBelow node = true := by
        rw [visitsBelow, hkind]
        simp only [hname]
        decide
      rw [if_pos hbelow, roots_visibleBy]
    next => rfl
  · rfl
  · rfl
  · rfl

theorem collect_visible {α : Type} (component : Compiled) (name : Text) (node : Node) (element : Element)
    (inner : Forest (Node × α)) :
    frame.collect site component name node element (visibleBy Prod.fst inner) =
      frame.collect site component name node element inner := by
  simp only [collect, trees_visibleBy, List.foldl_map, collectNode_visible]

/-! ## Nodes -/

theorem outputBelow_visible (inner : Forest (Node × Output)) :
    outputBelow (visibleBy Prod.fst inner) = outputBelow inner := by
  rw [outputBelow, outputBelow, roots_visibleBy]

variable (expand : Frame → Output)

theorem renderNode_visible (parent : Option Text) (id : Nat) (node : Node)
    (inner : Forest (Node × Output)) :
    frame.renderNode site expand parent id node (visibleBy Prod.fst inner) =
      frame.renderNode site expand parent id node inner := by
  simp only [renderNode, renderElement, renderUnguarded, renderInclude, renderComponent, renderOutlet,
    collect_visible, outputBelow_visible]

/-- A node that hides what is below it has its output without it. -/
theorem renderNode_of_not_visitsBelow {node : Node} (h : visitsBelow node = false)
    (parent : Option Text) (id : Nat) (inner inner' : Forest (Node × Output)) :
    frame.renderNode site expand parent id node inner =
      frame.renderNode site expand parent id node inner' := by
  rw [visitsBelow] at h
  simp only [renderNode]
  split at h
  next element hkind =>
    have hname : element.name = "style".toList := by simpa using h
    have hinclude : "style".toList ≠ "include".toList := by decide
    have houtlet : "style".toList ≠ "outlet".toList := by decide
    simp only [hkind, renderElement, renderUnguarded, hname, if_neg hinclude, if_neg houtlet,
      decide_true, Bool.or_true, if_true]
  next hkind =>
    split
    · rfl
    · rfl
    · rfl
    next element helement => exact absurd helement (hkind element)

theorem renderForest_visible (parent : Option Text) (forest : Forest (Nat × Node)) :
    frame.renderForest site expand parent (visible forest) =
      visibleBy Prod.fst (frame.renderForest site expand parent forest) := by
  induction forest generalizing parent with
  | nil => rfl
  | cons entry below after ihbelow ihafter =>
    obtain ⟨id, node⟩ := entry
    have hafter := ihafter parent
    simp only [visible] at hafter ihbelow
    simp only [visible, visibleBy, renderForest, hafter]
    cases hvisits : visitsBelow node with
    | true => simp only [if_true, ihbelow, renderNode_visible]
    | false =>
      simp only [Bool.false_eq_true, if_false, renderForest]
      rw [renderNode_of_not_visitsBelow site frame expand hvisits parent id .nil]

/-- Rendering shows the visible part of a document. -/
theorem render_eq_visible :
    frame.render site expand =
      outputBelow (frame.renderForest site expand none (visible frame.compiled.forest)) := by
  rw [renderForest_visible, outputBelow_visible, render]

variable {site frame expand} in
/-- The nodes of a rendered forest are those of the forest. -/
theorem exists_root_of_renderForest {parent : Option Text} {forest : Forest (Nat × Node)}
    {label : Node × Output} (h : label ∈ (frame.renderForest site expand parent forest).roots) :
    ∃ id, (id, label.1) ∈ forest.roots := by
  induction forest with
  | nil => cases h
  | cons entry below after _ ih =>
    obtain ⟨id, node⟩ := entry
    rcases List.mem_cons.mp h with rfl | h
    · exact ⟨id, List.mem_cons_self⟩
    · obtain ⟨id, hmem⟩ := ih h
      exact ⟨id, List.mem_cons_of_mem _ hmem⟩

end Frame

/-! ## Places -/

theorem mem_placedNodes_of_mem_roots {parent : Option Text} {forest : Forest (Nat × Node)}
    {entry : Nat × Node} (h : entry ∈ forest.roots) : (parent, entry) ∈ placedNodes parent forest := by
  induction forest with
  | nil => cases h
  | cons first below after _ ih =>
    obtain ⟨id, node⟩ := first
    simp only [placedNodes, List.mem_cons, List.mem_append]
    rcases List.mem_cons.mp h with rfl | h
    · exact .inl rfl
    · exact .inr (.inr (ih h))

namespace Frame

/-- A node of the visible part of the template of a frame, in an element named `parent`. -/
def Shows (frame : Frame) (parent : Option Text) (id : Nat) (node : Node) : Prop :=
  (parent, id, node) ∈ placedNodes none (visible frame.compiled.forest)

variable {frame : Frame} {parent : Option Text} {id : Nat} {node : Node}

theorem Shows.mem_preorder (h : frame.Shows parent id node) :
    (id, node) ∈ frame.compiled.forest.preorder :=
  mem_preorder_of_mem_visibleBy (mem_preorder_of_mem_placedNodes h)

theorem Shows.mem_expressions (h : frame.Shows parent id node) {expression : Expression}
    (hmem : expression ∈ nodeExpressions parent node) :
    expression ∈ frame.compiled.template.expressions := by
  rw [Shows, frame.compiled.forest_eq] at h
  exact Template.mem_expressions.mpr ⟨parent, id, node, h, hmem⟩

end Frame

end Sitewright
