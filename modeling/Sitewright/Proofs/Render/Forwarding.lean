import Sitewright.Proofs.Markup.Canonical
import Sitewright.Proofs.Naming
import Sitewright.Proofs.Project.Preservation
import Sitewright.Proofs.Render.Termination
import Sitewright.Proofs.Template.Ranges

/-!
Components that hand their content on. A wrapper is nothing but an include around its outlet, so content
passes through any number of them as it is (`Project.Forwards.renderElement`): every slot on the way holds what the
first includer rendered, in its own frame.
-/

namespace Sitewright

open Markup Template

/-! ## The markup of wrappers -/

/-- The source of a component that only writes its content. -/
def outletSource : Text := "<outlet></outlet>".toList

/-- The source of a component that only hands its content on to another. -/
def wrapperSource (next : Text) : Text :=
  "<include component=\"".toList ++ next ++ "\"><outlet></outlet></include>".toList

namespace Markup

/-- An outlet by itself. -/
def outletForest : Forest BareNode := .tree (.element "outlet".toList []) .nil

/-- An include of a component around an outlet. -/
def wrapperForest (next : Text) : Forest BareNode :=
  .tree (.element "include".toList [("component".toList, some next)]) outletForest

theorem write_wrapperForest (next : Text) : write (wrapperForest next) = wrapperSource next := by
  have hrest : ['"'] ++ (['>'] ++ (outletSource ++ "</include>".toList)) =
      "\"><outlet></outlet></include>".toList := rfl
  calc write (wrapperForest next)
    _ = "<include component=\"".toList ++ (next ++ ['"'] ++ []) ++ ['>'] ++ outletSource
          ++ "</include>".toList ++ [] := rfl
    _ = "<include component=\"".toList ++ next
          ++ (['"'] ++ (['>'] ++ (outletSource ++ "</include>".toList))) := by
        simp only [List.append_assoc, List.append_nil]
    _ = wrapperSource next := congrArg ("<include component=\"".toList ++ next ++ ·) hrest

theorem read_outletForest (t : Text) (ht : EndsText t) : ReadsBack outletForest t :=
  read_tree (read_element ⟨rfl, List.all_eq_true.mp rfl, rfl⟩ rfl rfl rfl (read_write .nil)) (read_write .nil t ht)

theorem isCanonicalAttribute_component {next : Text} (h : Naming.isComponentName next = true) :
    isCanonicalAttribute ("component".toList, some next) = true := by
  obtain ⟨hletters, -⟩ := Naming.of_isComponentName h
  have hquote : next.contains '"' = false := by
    rw [List.contains_eq_mem, decide_eq_false_iff_not]
    exact Naming.not_mem_of_pathLetters hletters rfl
  have htag : hasTag next = false := by
    rw [hasTag, Text.holds, Option.isSome_eq_false_iff, Option.isNone_iff_eq_none, Option.eq_none_iff_forall_ne_some]
    rintro ⟨before, after⟩ hcut
    have hbrace : '{' ∈ next := by
      rw [Text.cut_eq_some hcut]
      exact List.mem_append_left _ (List.mem_append_right _ List.mem_cons_self)
    exact Naming.not_mem_of_pathLetters hletters rfl hbrace
  show (true && (!next.contains '"' && !hasTag next)) = true
  rw [hquote, htag]
  rfl

theorem parse_outletSource : parse outletSource = (place 0 outletForest, []) :=
  parse_of_read (read_outletForest [] rfl)

theorem parse_wrapperSource {next : Text} (h : Naming.isComponentName next = true) :
    parse (wrapperSource next) = (place 0 (wrapperForest next), []) := by
  have hattributes : [("component".toList, some next)].all isCanonicalAttribute = true := by
    rw [List.all_cons, isCanonicalAttribute_component h]
    rfl
  rw [← write_wrapperForest]
  refine parse_of_read (read_tree ?_ (read_write .nil [] rfl))
  exact read_element ⟨rfl, List.all_eq_true.mp rfl, rfl⟩ rfl rfl hattributes read_outletForest

end Markup

/-! ## The templates of wrappers -/

/-- An include of a component without any other attribute. -/
structure Markup.Element.OnlyIncludes (element : Element) (name : Text) : Prop where
  tag : element.name = "include".toList
  attributes : ∃ attr, element.attributes = [attr] ∧ attr.name = "component".toList ∧ attr.valueOrEmpty = name

section

variable (name : Text) {next : Text}

theorem forest_outlet :
    (Template.compile ⟨.component name, outletSource⟩).forest = (place 0 outletForest).number 1 := by
  simp only [Template.compile, Template.document, convert, Document.parse, parse_outletSource]
  rfl

theorem forest_wrapper (hnext : Naming.isComponentName next = true) :
    (Template.compile ⟨.component name, wrapperSource next⟩).forest = (place 0 (wrapperForest next)).number 1 := by
  simp only [Template.compile, Template.document, convert, Document.parse, parse_wrapperSource hnext]
  rfl

theorem place_wrapperForest (next : Text) :
    ∃ element span start, element.OnlyIncludes next ∧
      place 0 (wrapperForest next) = .tree ⟨.element element, span, false⟩ (place start outletForest) :=
  ⟨_, _, _, ⟨rfl, _, rfl, rfl, rfl⟩, rfl⟩

theorem main_mem_outlets_outlet :
    (Template.compile ⟨.component name, outletSource⟩).outlets.contains "main".toList = true := by
  rw [Compiled.outlets_eq, Template.analysis, ← Compiled.forest_eq, forest_outlet]
  exact NameSet.contains_iff.mpr (NameSet.mem_insert.mpr (.inl rfl))

theorem main_mem_outlets_wrapper (hnext : Naming.isComponentName next = true) :
    (Template.compile ⟨.component name, wrapperSource next⟩).outlets.contains "main".toList = true := by
  rw [Compiled.outlets_eq, Template.analysis, ← Compiled.forest_eq, forest_wrapper name hnext]
  exact NameSet.contains_iff.mpr (NameSet.mem_insert.mpr (.inl rfl))

end

/-! ## Content without injects -/

/-- Whether a node is no content: a comment or a blank. -/
def Markup.Node.isFiller (node : Node) : Bool :=
  match node.kind with
  | .comment _ => true
  | .text text => Text.allBlank text
  | _ => false

/-- Nodes that are content for `main` and for no other outlet. -/
structure OnlyMain (nodes : List Node) : Prop where
  plain : ∀ node ∈ nodes, node.isElement "inject".toList = false
  content : ∃ node ∈ nodes, node.isFiller = false

namespace Frame

variable {site : Site} {frame : Frame} {component : Compiled} {name : Text} {node : Node} {element : Element}
  {expand : Frame → Output}

section

variable {α : Type}

theorem collectNode_of_not_inject (content : Content α) {tree : (Node × α) × Forest (Node × α)}
    (h : tree.1.1.isElement "inject".toList = false) :
    frame.collectNode site component name content tree =
      { content with
        implicit := content.implicit ++ [tree.1.2]
        hasImplicit := content.hasImplicit || !tree.1.1.isFiller } := by
  obtain ⟨⟨node, item⟩, inner⟩ := tree
  cases hkind : node.kind with
  | element element =>
    have hname : element.name ≠ "inject".toList := by
      simpa [Node.isElement, Node.name?, Node.element?, hkind] using h
    simp only [collectNode, Node.isFiller, hkind, if_neg hname, Bool.not_false]
  | text _ | comment _ | declaration _ => simp only [collectNode, Node.isFiller, hkind, Bool.not_true, Bool.not_false]

theorem foldl_collectNode_of_not_inject (content : Content α) {inner : Forest (Node × α)}
    (h : ∀ label ∈ inner.roots, label.1.isElement "inject".toList = false) :
    inner.trees.foldl (frame.collectNode site component name) content =
      { content with
        implicit := content.implicit ++ inner.roots.map Prod.snd
        hasImplicit := content.hasImplicit || inner.roots.any fun label => !label.1.isFiller } := by
  induction inner generalizing content with
  | nil => simp only [Forest.trees, Forest.roots, List.foldl_nil, List.map_nil, List.append_nil, List.any_nil, Bool.or_false]
  | cons label below after _ ih =>
    rw [Forest.trees, List.foldl_cons, collectNode_of_not_inject content (h label List.mem_cons_self),
      ih _ fun other hother => h other (List.mem_cons_of_mem label hother)]
    simp only [Forest.roots, List.map_cons, List.any_cons, List.append_assoc, List.singleton_append, Bool.or_assoc]

theorem collect_of_onlyMain {inner : Forest (Node × α)} (h : OnlyMain (inner.roots.map Prod.fst))
    (hmain : component.outlets.contains "main".toList = true) :
    frame.collect site component name node element inner =
      ⟨(∅ : Table Text (List α)).insert "main".toList (inner.roots.map Prod.snd), inner.roots.map Prod.snd,
        true, []⟩ := by
  have hplain := List.forall_mem_map.mp h.plain
  have hany : (inner.roots.any fun label => !label.1.isFiller) = true := by simpa using h.content
  have hnew : (∅ : Table Text (List α)).contains "main".toList = false := rfl
  simp only [collect, foldl_collectNode_of_not_inject _ hplain, hany, hmain, hnew, Bool.or_true, Bool.not_true,
    Bool.false_or, Bool.false_eq_true, if_false, if_true, List.nil_append]

end

theorem collectProperties_of_onlyIncludes (h : element.OnlyIncludes name) :
    frame.collectProperties site node element = (∅, []) := by
  obtain ⟨attr, hattributes, hname, -⟩ := h.attributes
  have hcomponent : includeAttributes.contains attr.name = true := by
    rw [hname]
    rfl
  simp only [collectProperties, hattributes, List.foldl_cons, List.foldl_nil, hcomponent, Bool.true_or, if_true]

/-- An include of a component without any other attribute expands the component with the output of its
content for `main`. -/
theorem renderElement_of_onlyIncludes (h : element.OnlyIncludes name) (hvalid : Naming.isComponentName name = true)
    (hchain : name ∉ frame.chain) (hget : site.components.get? name = some component)
    (hmain : component.outlets.contains "main".toList = true) {inner : Forest (Node × Output)}
    (hinner : OnlyMain (inner.roots.map Prod.fst)) (id : Nat) :
    frame.renderElement site expand id node element inner =
      expand ⟨component, ∅, (∅ : Table Text Output).insert "main".toList (outputBelow inner),
        frame.chain ++ [name]⟩ := by
  obtain ⟨attr, hattributes, hname, hvalue⟩ := h.attributes
  have hif : element.attribute? "if".toList = none := by
    rw [Element.attribute?, hattributes, List.find?_cons, hname]
    rfl
  have hattr : element.attribute? "component".toList = some attr := by
    rw [Element.attribute?, hattributes, List.find?_cons, hname]
    rfl
  have hopened : frame.opened? site element = some (name, component) :=
    opened?_eq_some.mpr ⟨attr, hattr, hvalue, hvalid, hchain, hget⟩
  simp only [renderElement, guarded, hif, renderUnguarded, h.tag, if_true]
  rw [renderInclude_of_opened hopened, entered, collectProperties_of_onlyIncludes h,
    collect_of_onlyMain hinner hmain, Table.map_insert]
  rfl

theorem nodes_renderForest (parent : Option Text) (forest : Forest (Nat × Node)) :
    (frame.renderForest site expand parent forest).roots.map Prod.fst = forest.roots.map Prod.snd := by
  induction forest with
  | nil => rfl
  | cons entry below after _ ih => exact congrArg (entry.2 :: ·) ih

theorem outputBelow_tree (node : Node) (output : Output) (below : Forest (Node × Output)) :
    outputBelow (.tree (node, output) below) = output := by
  show (⟨output.html ++ [], output.reports ++ []⟩ : Output) = output
  rw [List.append_nil, List.append_nil]

/-- An outlet for which there is content is rendered to the content. -/
theorem outputBelow_outlet {output : Output} (h : frame.slots.get? "main".toList = some output)
    (parent : Option Text) (start number : Nat) :
    outputBelow (frame.renderForest site expand parent ((place start outletForest).number number)) = output := by
  have houtlet (element : Element) (helement : element.attribute? "name".toList = none) :
      frame.renderOutlet element .nil = output := by
    have hname : Template.outletName none = "main".toList := rfl
    rw [renderOutlet, helement, hname, h]
  exact (outputBelow_tree _ _ _).trans (houtlet ⟨"outlet".toList, [], false, _⟩ rfl)

theorem onlyMain_outlet (start number : Nat) :
    OnlyMain (((place start outletForest).number number).roots.map Prod.snd) := by
  refine ⟨fun node hnode => ?_, _, List.mem_singleton_self _, rfl⟩
  rw [List.mem_singleton.mp hnode]
  rfl

end Frame

/-! ## Chains of wrappers -/

namespace Project

variable {project : Project} {name next first source : Text} {rest : List Text} {frame : Frame} {node : Node}
  {element : Element} {inner : Forest (Node × Output)} {levels : Nat}

/-- Components of which each only hands its content on to the next, and the last one only writes it. -/
structure Forwards (project : Project) (names : List Text) : Prop where
  distinct : names.Nodup
  wrappers : names.IsChain fun name next => project.components.get? name = some (wrapperSource next)
  outlet : ∀ last ∈ names.getLast?, project.components.get? last = some outletSource

theorem Forwards.tail (h : project.Forwards (first :: next :: rest)) : project.Forwards (next :: rest) :=
  ⟨h.distinct.of_cons, (List.isChain_cons_cons.mp h.wrappers).2, fun last hlast => h.outlet last hlast⟩

theorem Forwards.isComponentName (h : project.Forwards (first :: rest)) (hcoherent : Coherent project) :
    Naming.isComponentName first = true := by
  cases rest with
  | nil => exact hcoherent.valid_component (h.outlet first rfl)
  | cons next rest => exact hcoherent.valid_component (List.isChain_cons_cons.mp h.wrappers).1

/-- Such an include is rendered to its component, with one component less to open. -/
theorem renderElement_of_source (hcoherent : Coherent project)
    (hsource : project.components.get? name = some source)
    (hmain : (Template.compile ⟨.component name, source⟩).outlets.contains "main".toList = true)
    (hincludes : element.OnlyIncludes name) (hinner : OnlyMain (inner.roots.map Prod.fst))
    (hnew : name ∉ frame.chain) (hlevels : project.site.spare frame.chain ≤ levels) (id : Nat) :
    ∃ below, project.site.spare (frame.chain ++ [name]) ≤ below ∧
      frame.renderElement project.site (project.site.expand levels) id node element inner =
        Frame.render project.site ⟨Template.compile ⟨.component name, source⟩, ∅,
          (∅ : Table Text Output).insert "main".toList (outputBelow inner), frame.chain ++ [name]⟩
          (project.site.expand below) := by
  have hget : project.site.components.get? name = some (Template.compile ⟨.component name, source⟩) := by
    rw [get?_site_components, template?, component?, hsource]
    rfl
  have hspare := Site.spare_append_lt hget hnew
  obtain ⟨below, rfl⟩ : ∃ below, levels = below + 1 := ⟨levels - 1, by omega⟩
  exact ⟨below, by omega, Frame.renderElement_of_onlyIncludes hincludes (hcoherent.valid_component hsource) hnew hget
    hmain hinner id⟩

/-- An include of the first of a chain of wrappers is rendered to its own content. -/
theorem Forwards.renderElement (h : project.Forwards (first :: rest)) (hcoherent : Coherent project)
    (hincludes : element.OnlyIncludes first) (hinner : OnlyMain (inner.roots.map Prod.fst))
    (hchain : ∀ name ∈ first :: rest, name ∉ frame.chain) (hlevels : project.site.spare frame.chain ≤ levels)
    (id : Nat) :
    frame.renderElement project.site (project.site.expand levels) id node element inner = outputBelow inner := by
  induction rest generalizing first frame node element inner levels id with
  | nil =>
    obtain ⟨below, -, hrender⟩ := renderElement_of_source hcoherent (h.outlet first rfl)
      (main_mem_outlets_outlet first) hincludes hinner (hchain first List.mem_cons_self) hlevels id
    rw [hrender, Frame.render, forest_outlet, Frame.outputBelow_outlet (Table.get?_insert_self _ _ _)]
  | cons next rest ih =>
    have hvalid := h.tail.isComponentName hcoherent
    obtain ⟨below, hbelow, hrender⟩ := renderElement_of_source hcoherent (List.isChain_cons_cons.mp h.wrappers).1
      (main_mem_outlets_wrapper first hvalid) hincludes hinner (hchain first List.mem_cons_self) hlevels id
    obtain ⟨element, span, start, hnext, hplace⟩ := place_wrapperForest next
    rw [hrender, Frame.render, forest_wrapper first hvalid, hplace]
    refine (Frame.outputBelow_tree _ _ _).trans ?_
    -- the content of the include in the wrapper is its outlet, which is rendered to the content for it
    refine (ih h.tail hnext ?_ ?_ hbelow 1).trans (Frame.outputBelow_outlet (Table.get?_insert_self _ _ _) _ _ _)
    · rw [Frame.nodes_renderForest]
      exact Frame.onlyMain_outlet start 2
    · intro name hname hmem
      rcases List.mem_append.mp hmem with hmem | hmem
      · exact hchain name (List.mem_cons_of_mem first hname) hmem
      · exact (List.nodup_cons.mp h.distinct).1 (List.mem_singleton.mp hmem ▸ hname)

end Project

/-! ## Content in place -/

/-- A place that includes a component with content for its `main` outlet only. -/
structure Place.Hands (place : Place) (name : Text) : Prop where
  element : ∃ element, place.node.kind = .element element ∧ element.OnlyIncludes name
  content : OnlyMain (place.below.roots.map Prod.snd)

namespace Project

theorem Forwards.outputAt {project : Project} {first : Text} {rest : List Text} {place : Place} {frame : Frame}
    (h : project.Forwards (first :: rest)) (hcoherent : Coherent project) (hplace : place.Hands first)
    (hchain : ∀ name ∈ first :: rest, name ∉ frame.chain) :
    frame.outputAt project.site place = .concat (place.children.map (frame.outputAt project.site)) := by
  obtain ⟨element, hkind, hincludes⟩ := hplace.element
  rw [Frame.outputAt, Frame.renderNode, hkind, Place.children, ← Frame.outputBelow_eq]
  refine h.renderElement hcoherent hincludes ?_ hchain (project.site.spare_le_size frame.chain) _
  rw [Frame.nodes_renderForest]
  exact hplace.content

/-- Content passes unchanged through any chain of components that only hand their content on. In a frame that
has none of them in its chain, an include of the first one, with no other attribute, no inject of its own and some
content, is rendered to what its children are rendered to in place; and the machine writes the same for the include
as for the children, with the same diagnostics. -/
theorem forwarded_content_unchanged (project : Project) (hreachable : project.Reachable) (first : Text)
    (rest : List Text) (hforwards : project.Forwards (first :: rest)) (place : Place) (hplace : place.Hands first) :
    (∀ frame : Frame, (∀ name ∈ first :: rest, name ∉ frame.chain) →
      frame.outputAt project.site place = .concat (place.children.map (frame.outputAt project.site))) ∧
    ∀ (layer : Layer) (outer : List Layer), (∀ name ∈ first :: rest, name ∉ layer.chain) →
      ∃ output, Writes project.site [.visit ⟨layer, outer, place⟩] output ∧
        Writes project.site (visits layer outer place.children) output := by
  have houtput {frame : Frame} (hchain : ∀ name ∈ first :: rest, name ∉ frame.chain) :=
    hforwards.outputAt hreachable.coherent hplace hchain
  refine ⟨fun frame => houtput, ?_⟩
  intro layer outer hchain
  obtain ⟨slots, hframe⟩ := Call.exists_frame_eq project.site ⟨layer, outer, place⟩
  have hentered : ∀ name ∈ first :: rest, name ∉ (layer.frame project.site outer).chain := by
    have heq : (layer.frame project.site outer).chain = layer.chain := congrArg Frame.chain hframe
    rwa [heq]
  refine ⟨_, Call.writes_visit ⟨layer, outer, place⟩, ?_⟩
  have hwrites : Writes project.site (visits layer outer place.children) _ :=
    .visits fun child _ => Call.writes_visit ⟨layer, outer, child⟩
  rwa [← houtput hentered] at hwrites

/-- Three components, of which the first two only hand their content on. -/
def nestedWrappers : Project :=
  Project.empty.run [.addComponent "frame".toList (wrapperSource "frame/border".toList),
    .addComponent "frame/border".toList (wrapperSource "core".toList), .addComponent "core".toList outletSource]

/-- An include of the outermost of them around a comment and a tag. -/
def wrappedTag : Place :=
  ⟨none, 1, ⟨.element ⟨"include".toList, [⟨"component".toList, some "frame".toList, ⟨9, 18⟩, some ⟨20, 25⟩⟩], false,
      ⟨27, 43⟩⟩, ⟨0, 53⟩, false⟩,
    .cons (2, ⟨.comment "-".toList, ⟨27, 35⟩, false⟩) .nil (.tree (3, ⟨.text "{{ g }}".toList, ⟨35, 43⟩, false⟩) .nil)⟩

theorem forwarded_content_unchanged_in_nestedWrappers :
    nestedWrappers.Reachable ∧
    nestedWrappers.Forwards ["frame".toList, "frame/border".toList, "core".toList] ∧
    wrappedTag.Hands "frame".toList ∧
    (Frame.outermost ⟨.page "/".toList, []⟩).outputAt nestedWrappers.site wrappedTag =
      .concat (wrappedTag.children.map ((Frame.outermost ⟨.page "/".toList, []⟩).outputAt nestedWrappers.site)) ∧
    ∃ output, Writes nestedWrappers.site [.visit ⟨Layer.outermost ⟨.page "/".toList, []⟩, [], wrappedTag⟩] output ∧
      Writes nestedWrappers.site (visits (Layer.outermost ⟨.page "/".toList, []⟩) [] wrappedTag.children) output := by
  have hreachable : nestedWrappers.Reachable := reachable_run_empty _
  have hforwards : nestedWrappers.Forwards ["frame".toList, "frame/border".toList, "core".toList] := by
    have houtlet : nestedWrappers.components.get? "core".toList = some outletSource := by decide +kernel
    refine ⟨by decide +kernel, by decide +kernel, ?_⟩
    intro last hlast
    rwa [← Option.some.inj hlast]
  have hhands : wrappedTag.Hands "frame".toList :=
    ⟨⟨_, rfl, rfl, _, rfl, rfl, rfl⟩, by decide +kernel, by decide +kernel⟩
  obtain ⟨hframe, hlayer⟩ := forwarded_content_unchanged nestedWrappers hreachable _ _ hforwards wrappedTag hhands
  exact ⟨hreachable, hforwards, hhands, hframe _ fun _ _ => List.not_mem_nil, hlayer _ [] fun _ _ => List.not_mem_nil⟩

end Project

end Sitewright
