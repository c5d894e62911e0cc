import Sitewright.Proofs.Lookup
import Sitewright.Template.Render

/-!
The content of an include. `Frame.collect` only moves items around: what it puts into the slots are items
of the forest it was given (`collect_slots_forall`), and it does the same to items as to what becomes of
them later (`collect_map`).
-/

namespace Sitewright

open Markup

/-! ## Labels of a forest -/

namespace Forest

variable {α β : Type}

theorem roots_map (f : α → β) (forest : Forest α) : (forest.map f).roots = forest.roots.map f := by
  induction forest with
  | nil => rfl
  | cons label below after _ ih => simp only [map, roots, ih, List.map_cons]

theorem trees_map (f : α → β) (forest : Forest α) :
    (forest.map f).trees = forest.trees.map fun tree => (f tree.1, tree.2.map f) := by
  induction forest with
  | nil => rfl
  | cons label below after _ ih => simp only [map, trees, ih, List.map_cons]

theorem mem_preorder_of_mem_roots {forest : Forest α} {label : α} (h : label ∈ forest.roots) :
    label ∈ forest.preorder := by
  induction forest with
  | nil => cases h
  | cons first below after _ ih =>
    simp only [preorder, List.mem_cons, List.mem_append]
    rcases List.mem_cons.mp h with rfl | h
    · exact .inl rfl
    · exact .inr (.inr (ih h))

theorem mem_roots_of_mem_trees {forest below : Forest α} {label : α}
    (h : (label, below) ∈ forest.trees) : label ∈ forest.roots := by
  induction forest with
  | nil => cases h
  | cons first under after _ ih =>
    rcases List.mem_cons.mp h with heq | h
    · cases heq
      exact List.mem_cons_self
    · exact List.mem_cons_of_mem _ (ih h)

theorem mem_preorder_of_mem_trees {forest below : Forest α} {label other : α}
    (h : (label, below) ∈ forest.trees) (hother : other = label ∨ other ∈ below.preorder) :
    other ∈ forest.preorder := by
  induction forest with
  | nil => cases h
  | cons first under after _ ih =>
    simp only [preorder, List.mem_cons, List.mem_append]
    rcases List.mem_cons.mp h with heq | h
    · cases heq
      exact hother.imp_right .inl
    · exact .inr (.inr (ih h))

end Forest

/-! ## Items -/

namespace Content

variable {α β : Type}

/-- The content with every item changed. -/
def map (f : α → β) (content : Content α) : Content β :=
  ⟨content.slots.map fun _ => List.map f, content.implicit.map f, content.hasImplicit, content.reports⟩

/-- Every item of the content has a property. -/
structure Forall (P : α → Prop) (content : Content α) : Prop where
  slots : ∀ name items, content.slots.get? name = some items → ∀ item ∈ items, P item
  implicit : ∀ item ∈ content.implicit, P item

theorem forall_nothing {P : α → Prop} : Forall P ⟨∅, [], false, []⟩ := by
  constructor
  · intro _ _ hget
    cases hget
  · intro _ hitem
    cases hitem

end Content

/-! ## Collecting -/

namespace Frame

variable {α β : Type} (site : Site) (frame : Frame) (component : Compiled) (name : Text)

theorem collectInject_map (f : α → β) (content : Content α) (node : Node) (element : Element)
    (inner : List α) :
    frame.collectInject site component name (content.map f) node element (inner.map f) =
      (frame.collectInject site component name content node element inner).map f := by
  simp only [collectInject, Content.map, Table.contains_map]
  split
  · rfl
  · split
    · rfl
    · split
      · rfl
      · simp only [Table.map_insert]

theorem collectNode_map (f : α → β) (content : Content α) (tree : (Node × α) × Forest (Node × α)) :
    frame.collectNode site component name (content.map f)
        (Prod.map id f tree.1, tree.2.map (Prod.map id f)) =
      (frame.collectNode site component name content tree).map f := by
  obtain ⟨⟨node, item⟩, inner⟩ := tree
  have hinner : (inner.map (Prod.map id f)).roots.map Prod.snd = (inner.roots.map Prod.snd).map f := by
    simp only [Forest.roots_map, List.map_map, Function.comp_def, Prod.map_snd]
  simp only [collectNode, Prod.map_apply, id_eq]
  split
  · split
    · rw [hinner, collectInject_map]
    · simp only [Content.map, List.map_append, List.map_cons, List.map_nil]
  · simp only [Content.map, List.map_append, List.map_cons, List.map_nil]
  · simp only [Content.map, List.map_append, List.map_cons, List.map_nil]
  · simp only [Content.map, List.map_append, List.map_cons, List.map_nil]

/-- Collecting does not look at items. -/
theorem collect_map (f : α → β) (node : Node) (element : Element) (inner : Forest (Node × α)) :
    frame.collect site component name node element (inner.map (Prod.map id f)) =
      (frame.collect site component name node element inner).map f := by
  have hfold : ∀ (trees : List ((Node × α) × Forest (Node × α))) (content : Content α),
      (trees.map fun tree => (Prod.map id f tree.1, tree.2.map (Prod.map id f))).foldl
          (frame.collectNode site component name) (content.map f) =
        (trees.foldl (frame.collectNode site component name) content).map f := by
    intro trees
    induction trees with
    | nil => exact fun _ => rfl
    | cons tree trees ih =>
      intro content
      rw [List.map_cons, List.foldl_cons, List.foldl_cons, collectNode_map, ih]
  have hstart : (⟨∅, [], false, []⟩ : Content β) = Content.map f ⟨∅, [], false, []⟩ := rfl
  simp only [collect, Forest.trees_map, hstart, hfold]
  generalize inner.trees.foldl (frame.collectNode site component name) ⟨∅, [], false, []⟩ = content
  simp only [Content.map, Table.contains_map]
  split
  · rfl
  · split
    · simp only [Table.map_insert]
    · rfl

variable {site frame component name} {P : α → Prop}

theorem forall_collectInject {content : Content α} (h : content.Forall P) {node : Node}
    {element : Element} {inner : List α} (hinner : ∀ item ∈ inner, P item) :
    (frame.collectInject site component name content node element inner).Forall P := by
  simp only [collectInject]
  split
  · exact h
  · split
    · exact ⟨h.slots, h.implicit⟩
    · split
      · exact ⟨h.slots, h.implicit⟩
      · refine ⟨?_, h.implicit⟩
        intro target items hget
        rw [Table.get?_insert] at hget
        split at hget
        · cases hget
          exact hinner
        · exact h.slots target items hget

theorem forall_collectNode {content : Content α} (h : content.Forall P)
    {tree : (Node × α) × Forest (Node × α)} (hitem : P tree.1.2)
    (hinner : ∀ label ∈ tree.2.roots, P label.2) :
    (frame.collectNode site component name content tree).Forall P := by
  obtain ⟨⟨node, item⟩, inner⟩ := tree
  have hplain : ∀ counts : Bool, Content.Forall P { content with
      implicit := content.implicit ++ [item], hasImplicit := content.hasImplicit || counts } := by
    intro counts
    refine ⟨h.slots, ?_⟩
    intro other hother
    rcases List.mem_append.mp hother with hother | hother
    · exact h.implicit other hother
    · rw [List.mem_singleton.mp hother]
      exact hitem
  simp only [collectNode]
  split
  · split
    · refine forall_collectInject h fun other hother => ?_
      obtain ⟨label, hlabel, rfl⟩ := List.mem_map.mp hother
      exact hinner label hlabel
    · exact hplain true
  · exact hplain false
  · exact hplain _
  · exact hplain true

/-- Slots hold items of the forest that was collected. -/
theorem collect_slots_forall {node : Node} {element : Element} {inner : Forest (Node × α)}
    (h : ∀ label ∈ inner.preorder, P label.2) {target : Text} {items : List α}
    (hget : (frame.collect site component name node element inner).slots.get? target = some items) :
    ∀ item ∈ items, P item := by
  have hcontent : Content.Forall P
      (inner.trees.foldl (frame.collectNode site component name) ⟨∅, [], false, []⟩) := by
    refine List.foldlRecOn inner.trees _ Content.forall_nothing fun content hcontent tree htree => ?_
    refine forall_collectNode hcontent (h _ (Forest.mem_preorder_of_mem_trees htree (.inl rfl))) ?_
    intro label hlabel
    exact h label (Forest.mem_preorder_of_mem_trees htree
      (.inr (Forest.mem_preorder_of_mem_roots hlabel)))
  simp only [collect] at hget
  split at hget
  · exact hcontent.slots target items hget
  · split at hget
    · rw [Table.get?_insert] at hget
      split at hget
      · cases hget
        exact hcontent.implicit
      · exact hcontent.slots target items hget
    · exact hcontent.slots target items hget

end Frame

end Sitewright
