import Sitewright.Proofs.Lookup
import Sitewright.Proofs.Template.Expressions
import Sitewright.Proofs.Template.Includes

/-!
Frames that open frames, and the problems that they meet. A frame opens only components that are not in
its chain, so with every frame opened there is one component less to open; `Site.spare` counts them.
-/

namespace Sitewright

open Markup Template

/-! ## What an include opens -/

namespace Frame

/-- The component that an include opens in a frame, under its name. -/
def opened? (site : Site) (frame : Frame) (element : Element) : Option (Text × Compiled) :=
  (element.attribute? "component".toList).bind fun attr =>
    let name := attr.valueOrEmpty
    if Naming.isComponentName name && !frame.chain.contains name then
      (site.components.get? name).map fun component => (name, component)
    else none

/-- The frame that an include makes for the component it opens. -/
def entered (site : Site) (frame : Frame) (component : Compiled) (name : Text) (node : Node)
    (element : Element) (inner : Forest (Node × Output)) : Frame :=
  ⟨component, (frame.collectProperties site node element).1,
    (frame.collect site component name node element inner).slots.map fun _ => .concat,
    frame.chain ++ [name]⟩

variable {site : Site} {frame next : Frame} {node : Node} {element : Element} {name : Text}
  {component : Compiled} {expand expand' : Frame → Output} {inner inner' : Forest (Node × Output)}

theorem opened?_eq_some :
    frame.opened? site element = some (name, component) ↔
      ∃ attr, element.attribute? "component".toList = some attr ∧ attr.valueOrEmpty = name ∧
        Naming.isComponentName name = true ∧ name ∉ frame.chain ∧
        site.components.get? name = some component := by
  simp only [opened?, Option.bind_eq_some_iff, Option.ite_none_right_eq_some, Bool.and_eq_true,
    Bool.not_eq_true', List.contains_eq_mem, decide_eq_false_iff_not, Option.map_eq_some_iff,
    Prod.mk.injEq]
  constructor
  · rintro ⟨attr, hattr, ⟨hvalid, hchain⟩, _, hget, rfl, rfl⟩
    exact ⟨attr, hattr, rfl, hvalid, hchain, hget⟩
  · rintro ⟨attr, hattr, rfl, hvalid, hchain, hget⟩
    exact ⟨attr, hattr, ⟨hvalid, hchain⟩, component, hget, rfl, rfl⟩

theorem renderInclude_of_opened (h : frame.opened? site element = some (name, component)) :
    frame.renderInclude site expand node element inner =
      ⟨[], (frame.collectProperties site node element).2
        ++ (frame.collect site component name node element inner).reports⟩
        ++ expand (frame.entered site component name node element inner) := by
  obtain ⟨attr, hattr, rfl, hvalid, hchain, hget⟩ := opened?_eq_some.mp h
  simp only [renderInclude, hattr, renderComponent, hvalid, Bool.not_true, Bool.false_eq_true,
    if_false, List.contains_eq_mem, hchain, decide_false, hget, entered]

/-- An include that opens nothing writes what it writes whatever the components are expanded to. -/
theorem renderInclude_of_not_opened (h : frame.opened? site element = none)
    (expand expand' : Frame → Output) (inner inner' : Forest (Node × Output)) :
    frame.renderInclude site expand node element inner =
      frame.renderInclude site expand' node element inner' := by
  cases hattr : element.attribute? "component".toList with
  | none => simp only [renderInclude, hattr]
  | some attr =>
    simp only [renderInclude, hattr, renderComponent]
    split
    · rfl
    · next hvalid =>
      split
      · rfl
      · next hchain =>
        cases hget : site.components.get? attr.valueOrEmpty with
        | none => rfl
        | some component =>
          simp only [Bool.not_eq_true', Bool.not_eq_false] at hvalid
          simp only [List.contains_eq_mem, decide_eq_true_eq] at hchain
          have hopened := opened?_eq_some.mpr ⟨attr, hattr, rfl, hvalid, hchain, hget⟩
          rw [h] at hopened
          cases hopened

/-- The frame opens `next`: the component of `next` is named by the template, registered, and not in the
chain, where it comes last in `next`. -/
def Opens (site : Site) (frame next : Frame) : Prop :=
  ∃ name ∈ frame.compiled.template.componentNames, name ∉ frame.chain ∧
    site.components.get? name = some next.compiled ∧ next.chain = frame.chain ++ [name]

end Frame

namespace Site

variable {frame : Frame}

/-- The number of components that can still be opened below a chain. -/
def spare (site : Site) (chain : List Text) : Nat :=
  site.components.keys.countP fun name => !chain.contains name

theorem spare_le_size (site : Site) (chain : List Text) : site.spare chain ≤ site.components.size := by
  have h : site.components.keys.length = site.components.size := List.length_map _
  exact h ▸ List.countP_le_length

theorem spare_append_lt {site : Site} {chain : List Text} {name : Text} {component : Compiled}
    (hget : site.components.get? name = some component) (hchain : name ∉ chain) :
    site.spare (chain ++ [name]) < site.spare chain := by
  refine countP_lt_countP ?_ (Table.mem_keys.mpr ⟨component, hget⟩) (by simp) (by simpa using hchain)
  intro other _ hother
  simp only [List.contains_eq_mem, List.mem_append, List.mem_singleton, not_or, Bool.not_eq_true',
    decide_eq_false_iff_not] at hother ⊢
  exact hother.1

theorem spare_lt_of_opens {site : Site} {next : Frame} (h : frame.Opens site next) :
    site.spare next.chain < site.spare frame.chain := by
  obtain ⟨name, -, hchain, hget, hnext⟩ := h
  rw [hnext]
  exact spare_append_lt hget hchain

end Site

/-! ## What a frame meets -/

namespace Frame

/-- The problems of includes that are refused in a frame. -/
inductive Refuses (site : Site) (frame : Frame) : Record → Prop
  | circular {node : Node} {element : Element} {attr : Attribute}
    (hincludes : frame.compiled.template.Includes node element)
    (hattr : element.attribute? "component".toList = some attr)
    (hvalid : Naming.isComponentName attr.valueOrEmpty = true)
    (hchain : attr.valueOrEmpty ∈ frame.chain) :
    Refuses site frame (frame.record node attr.valueOrNameSpan
      (.circularInclude (frame.chain ++ [attr.valueOrEmpty])))
  | unknownComponent {node : Node} {element : Element} {attr : Attribute}
    (hincludes : frame.compiled.template.Includes node element)
    (hattr : element.attribute? "component".toList = some attr)
    (hvalid : Naming.isComponentName attr.valueOrEmpty = true)
    (hget : site.components.get? attr.valueOrEmpty = none) :
    Refuses site frame (frame.record node attr.valueOrNameSpan (.unknownComponent attr.valueOrEmpty))
  | unknownAsset {node : Node} {element : Element} {attr : Attribute}
    (hincludes : frame.compiled.template.Includes node element)
    (hcomponent : element.attribute? "component".toList = none)
    (hattr : element.attribute? "asset".toList = some attr)
    (hvalid : Naming.isAssetPath attr.valueOrEmpty = true)
    (hasset : site.assets.contains attr.valueOrEmpty = false) :
    Refuses site frame (frame.record node attr.valueOrNameSpan (.unknownAsset attr.valueOrEmpty))

/-- An expression of the template of a frame finds no value for a name. -/
def Lacks (site : Site) (frame : Frame) (name : Text) : Prop :=
  ∃ expression ∈ frame.compiled.template.expressions,
    name ∈ (expression.evaluate (frame.scope site)).unresolved

/-- The problems that are met at the nodes of a frame. -/
inductive Meets (site : Site) (frame : Frame) : Record → Prop
  | tag (node : Node) (span : ByteSpan) (name : Text) (h : frame.Lacks site name) :
    Meets site frame (frame.record node span (.unresolvedTag name))
  | condition (node : Node) (span : ByteSpan) (name : Text) (h : frame.Lacks site name) :
    Meets site frame (frame.record node span (.unresolvedCondition name))
  | outlet (node : Node) (element : Element) (name target : Text) :
    Meets site frame (frame.tagRecord node element (.missingOutlet name target))
  | mainOutlet (node : Node) (element : Element) (name : Text) :
    Meets site frame (frame.tagRecord node element (.missingMainOutlet name))
  | refused {record : Record} (h : frame.Refuses site record) : Meets site frame record

end Frame

end Sitewright
