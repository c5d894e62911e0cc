import Sitewright.Template.Basic

/-!
The includes of a template, as its lists of components and assets have them and as rendering meets them
at the nodes of the document.
-/

namespace Sitewright

open Markup

namespace Template

theorem mem_componentNames {template : Template} {name : Text} :
    name ∈ template.componentNames ↔
      ∃ included ∈ template.includes, included.componentName? = some name := by
  rw [componentNames, List.mem_eraseDups, List.mem_filterMap]

theorem mem_assetPaths {template : Template} {path : Text} :
    path ∈ template.assetPaths ↔ ∃ included ∈ template.includes, included.assetPath? = some path := by
  rw [assetPaths, List.mem_eraseDups, List.mem_filterMap]

/-- The node is an include of the template. -/
structure Includes (template : Template) (node : Node) (element : Element) : Prop where
  mem : ∃ id, (id, node) ∈ template.document.nodes
  kind : node.kind = .element element
  name : element.name = "include".toList

variable {template : Template} {node : Node} {element : Element} {attr : Attribute}

/-- The include as the template lists it. -/
theorem Includes.mem_includes (h : template.Includes node element) :
    ∃ id, ⟨id, template.includePart node element "component".toList,
      template.includePart node element "asset".toList⟩ ∈ template.includes := by
  obtain ⟨id, hmem⟩ := h.mem
  refine ⟨id, List.mem_filterMap.mpr ⟨(id, node), hmem, ?_⟩⟩
  simp only [include?, Node.element?, h.kind, h.name, if_true]

theorem Includes.mem_componentNames (h : template.Includes node element)
    (hattr : element.attribute? "component".toList = some attr)
    (hname : Naming.isComponentName attr.valueOrEmpty = true) :
    attr.valueOrEmpty ∈ template.componentNames := by
  obtain ⟨id, hmem⟩ := h.mem_includes
  refine Template.mem_componentNames.mpr ⟨_, hmem, ?_⟩
  simp only [Include.componentName?, includePart, hattr, Option.map_some, Option.bind_some, hname,
    if_true]

theorem Includes.mem_assetPaths (h : template.Includes node element)
    (hcomponent : element.attribute? "component".toList = none)
    (hattr : element.attribute? "asset".toList = some attr)
    (hpath : Naming.isAssetPath attr.valueOrEmpty = true) :
    attr.valueOrEmpty ∈ template.assetPaths := by
  obtain ⟨id, hmem⟩ := h.mem_includes
  refine Template.mem_assetPaths.mpr ⟨_, hmem, ?_⟩
  simp only [Include.assetPath?, includePart, hcomponent, hattr, Option.map_some, Option.map_none,
    Option.bind_some, hpath, if_true]

end Template

end Sitewright
