import Sitewright.Proofs.Markup.Canonical
import Sitewright.Proofs.Project.History
import Sitewright.Proofs.Render.Structure

/-!
Pages that are rendered as they are written. In development a text without tags, a comment, a declaration
and an element that stands for itself are all written back, so the source of a canonical forest is its own
rendering (`Site.render_of_canonical`).
-/

namespace Sitewright

open Markup

variable {forest : Forest BareNode}

namespace Output

theorem ofText_append (a b : Text) : ofText a ++ ofText b = ofText (a ++ b) := rfl

theorem concat_ofText {α : Type} {items : List α} {f : α → Output} {g : α → Text}
    (h : ∀ item ∈ items, f item = ofText (g item)) : concat (items.map f) = ofText (items.flatMap g) := by
  induction items with
  | nil => rfl
  | cons item rest ih =>
    have hrest := ih fun other hother => h other (List.mem_cons_of_mem item hother)
    show f item ++ concat (rest.map f) = _
    rw [h item List.mem_cons_self, hrest]
    rfl

end Output

/-! ## Texts and attributes -/

theorem scanTags_of_not_hasTag {text : Text} (h : hasTag text = false) : scanTags text = ⟨[], text, none⟩ := by
  have hscanned := scanned_scanTags text
  generalize scanTags text = scan at hscanned ⊢
  cases hscanned with
  | plain => rfl
  | unclosed hopen | tag hopen => simp [hasTag, Text.holds, hopen] at h

theorem escapeQuotes_of_not_mem {text : Text} (h : '"' ∉ text) : escapeQuotes text = text := by
  have hsame : ∀ c ∈ text, (if c = '"' then "&quot;".toList else [c]) = [c] := by
    intro c hc
    refine if_neg ?_
    rintro rfl
    exact h hc
  rw [escapeQuotes, Text.replace, List.flatMap_congr hsame, List.flatMap_singleton']

/-- A canonical attribute is none of those that are not written. -/
theorem not_unwritten_of_canonical {attr : Text × Option Text} (h : isCanonicalAttribute attr = true) :
    attr.1 ∉ unwrittenAttributes := by
  simp only [isCanonicalAttribute, Bool.and_eq_true, bne_iff_ne] at h
  obtain ⟨⟨⟨-, hif⟩, hmarkdown⟩, -⟩ := h
  show attr.1 ∉ ["if".toList, "markdown".toList]
  simp only [List.mem_cons, List.not_mem_nil, or_false, not_or]
  exact ⟨hif, hmarkdown⟩

theorem exists_of_mem_placeAttributes {start : Nat} {attributes : List (Text × Option Text)} {attr : Attribute}
    (h : attr ∈ placeAttributes start attributes) :
    ∃ place, ∃ bare ∈ attributes, attr = placeAttribute place bare := by
  induction attributes generalizing start with
  | nil => cases h
  | cons bare rest ih =>
    rcases List.mem_cons.mp h with rfl | h
    · exact ⟨start, bare, List.mem_cons_self, rfl⟩
    · obtain ⟨place, other, hother, rfl⟩ := ih h
      exact ⟨place, other, List.mem_cons_of_mem bare hother, rfl⟩

/-! ## Elements that stand for themselves -/

section

variable {name : Text} {attributes : List (Text × Option Text)} {inner : ByteSpan} {start : Nat}

theorem attribute?_placeAttributes {other : Text} (h : ∀ attr ∈ attributes, attr.1 ≠ other) :
    Element.attribute? ⟨name, placeAttributes start attributes, false, inner⟩ other = none := by
  rw [Element.attribute?, List.find?_eq_none]
  intro attr hattr
  obtain ⟨place, bare, hbare, rfl⟩ := exists_of_mem_placeAttributes hattr
  have hname : (placeAttribute place bare).name = bare.1 := rfl
  simpa [hname] using h bare hbare

/-- A canonical element stands for itself. -/
theorem isPlainElement_of_canonical (hname : name ∉ placeholderElements)
    (h : attributes.all isCanonicalAttribute = true) :
    isPlainElement ⟨name, placeAttributes start attributes, false, inner⟩ = true := by
  have hnone : ∀ other ∈ unwrittenAttributes,
      Element.attribute? ⟨name, placeAttributes start attributes, false, inner⟩ other = none := by
    intro other hother
    refine attribute?_placeAttributes fun attr hattr heq => ?_
    exact not_unwritten_of_canonical (List.all_eq_true.mp h attr hattr) (heq ▸ hother)
  have hif := hnone "if".toList (by decide)
  have hmarkdown := hnone "markdown".toList (by decide)
  simp only [isPlainElement, Element.hasAttribute, hif, hmarkdown, List.contains_eq_mem, hname, decide_false,
    Option.isSome_none, Bool.not_false, Bool.and_self]

theorem not_mem_placeholderElements (h : name ∉ reservedElements) : name ∉ placeholderElements := by
  have hsubset : ∀ other ∈ placeholderElements, other ∈ reservedElements := by decide
  exact fun hmem => h (hsubset name hmem)

theorem not_mem_reserved_of_isVoid (h : isVoid name = true) : name ∉ reservedElements := by
  have hdisjoint : ∀ other ∈ voidElements, other ∉ reservedElements := by decide
  exact hdisjoint name (by simpa [isVoid] using h)

end

/-! ## Nodes -/

namespace Frame

variable {site : Site} {frame : Frame} {expand : Frame → Output} {number start : Nat} {node : Node}

theorem interpolate_of_not_hasTag {text : Text} (h : hasTag text = false) (base : Nat) (goal : Interpolation) :
    frame.interpolate site node text base goal = .ofText (goal.literal text) := by
  rw [interpolate, scanTags_of_not_hasTag h]
  rfl

theorem renderAttribute_of_canonical {attr : Text × Option Text} (h : isCanonicalAttribute attr = true)
    (place index : Nat) :
    frame.renderAttribute site node [] (placeAttribute place attr, index) = .ofText (attributeText attr) := by
  have hwritten : unwrittenAttributes.contains attr.1 = false := by
    simpa using not_unwritten_of_canonical h
  simp only [isCanonicalAttribute, Bool.and_eq_true] at h
  obtain ⟨name, value⟩ := attr
  simp only [renderAttribute, placeAttribute, hwritten, List.contains_nil, Bool.or_self, Bool.false_eq_true,
    if_false]
  cases value with
  | none => rfl
  | some value =>
    have hvalue : (!value.contains '"' && !hasTag value) = true := h.2
    rw [Bool.and_eq_true, Bool.not_eq_true', Bool.not_eq_true'] at hvalue
    have hescaped : escapeQuotes value = value := escapeQuotes_of_not_mem (by simpa using hvalue.1)
    simp only [renderValue, Option.map_some, interpolate_of_not_hasTag hvalue.2, Interpolation.literal, hescaped,
      ite_self]
    rfl

variable {name : Text} {attributes : List (Text × Option Text)} {inner : ByteSpan}

theorem concat_renderAttribute (h : attributes.all isCanonicalAttribute = true) :
    Output.concat ((placeAttributes start attributes).zipIdx.map (frame.renderAttribute site node [])) =
      .ofText (attributes.flatMap attributeText) := by
  have heach : ∀ entry ∈ (placeAttributes start attributes).zipIdx,
      frame.renderAttribute site node [] entry = .ofText (attributeText entry.1.bare) := by
    rintro ⟨attr, index⟩ hentry
    obtain ⟨place, bare, hbare, rfl⟩ := exists_of_mem_placeAttributes (List.fst_mem_of_mem_zipIdx hentry)
    exact renderAttribute_of_canonical (List.all_eq_true.mp h bare hbare) place index
  have hwritten : (placeAttributes start attributes).zipIdx.flatMap (fun entry => attributeText entry.1.bare) =
      attributes.flatMap attributeText :=
    calc (placeAttributes start attributes).zipIdx.flatMap (fun entry => attributeText entry.1.bare)
      _ = ((placeAttributes start attributes).zipIdx.map Prod.fst).flatMap fun attr => attributeText attr.bare := by
        rw [List.flatMap_map]
      _ = (placeAttributes start attributes).flatMap fun attr => attributeText attr.bare := by
        rw [List.zipIdx_map_fst]
      _ = ((placeAttributes start attributes).map Attribute.bare).flatMap attributeText := by
        rw [List.flatMap_map]
      _ = attributes.flatMap attributeText := by rw [map_placeAttributes]
  rw [Output.concat_ofText heach, hwritten]

/-- In development an opening tag is written as it was read. -/
theorem openingTag_of_canonical (hsite : site.environment = .development)
    (h : attributes.all isCanonicalAttribute = true) :
    frame.openingTag site number node ⟨name, placeAttributes start attributes, false, inner⟩ =
      .ofText (BareNode.element name attributes).opening := by
  have hbinding : frame.binding? site number = none := by rw [binding?, hsite]
  show _ = Output.ofText ('<' :: name ++ attributes.flatMap attributeText ++ ['>'])
  simp only [openingTag, hbinding, Option.map_none, Option.getD_none, concat_renderAttribute h,
    Output.ofText_append, List.nil_append]

/-- An element that is neither void nor `style` is written around what is written in it. -/
theorem renderElement_of_canonical (hsite : site.environment = .development) (hname : name ∉ placeholderElements)
    (hstyle : name ≠ "style".toList) (hvoid : isVoid name = false)
    (h : attributes.all isCanonicalAttribute = true) {below : Forest (Node × Output)} {content : Text}
    (hbelow : outputBelow below = .ofText content) :
    frame.renderElement site expand number node ⟨name, placeAttributes start attributes, false, inner⟩ below =
      .ofText ((BareNode.element name attributes).opening ++ content
        ++ (BareNode.element name attributes).closing) := by
  rw [renderElement_of_plain (isPlainElement_of_canonical hname h), if_neg hstyle, renderPlain, hvoid,
    if_neg Bool.false_ne_true, openingTag_of_canonical hsite h, hbelow, closing_eq _ hvoid]
  rfl

/-! ## Forests -/

theorem outputBelow_cons (label : Node × Output) (below after : Forest (Node × Output)) :
    outputBelow (.cons label below after) = label.2 ++ outputBelow after := rfl

/-- A node is written, then the nodes after it. -/
theorem outputBelow_renderForest_cons {parent : Option Text} {below after : Forest (Nat × Node)}
    {written later : Text}
    (hnode : frame.renderNode site expand parent number node (frame.renderForest site expand node.name? below) =
      .ofText written)
    (hafter : outputBelow (frame.renderForest site expand parent after) = .ofText later) :
    outputBelow (frame.renderForest site expand parent (.cons (number, node) below after)) =
      .ofText (written ++ later) := by
  rw [renderForest, outputBelow_cons]
  simp only [hnode, hafter]
  rfl

/-- The text of a script is written whatever it is. -/
theorem outputBelow_script (content : Text) {span : ByteSpan} :
    outputBelow (frame.renderForest site expand (some "script".toList)
      (.cons (number, ⟨.text content, span, false⟩) .nil .nil)) = .ofText content := by
  have hnode : frame.renderNode site expand (some "script".toList) number ⟨.text content, span, false⟩
      (frame.renderForest site expand none .nil) = .ofText content := by
    simp only [renderNode, if_true]
  rw [outputBelow_renderForest_cons hnode rfl, List.append_nil]

/-- What is written for a canonical forest is rendered for its nodes. -/
theorem outputBelow_of_canonical (hsite : site.environment = .development) {forest : Forest BareNode}
    (h : Canonical forest) {parent : Option Text} (hparent : parent ≠ some "script".toList)
    (start number : Nat) :
    outputBelow (frame.renderForest site expand parent ((place start forest).number number)) =
      .ofText (write forest) := by
  induction h generalizing parent start number with
  | nil => rfl
  | text hne hmarkup htag hnext hafter ih =>
    refine outputBelow_renderForest_cons ?_ (ih hparent _ _)
    rw [leaf_written rfl]
    simp only [BareNode.kind, renderNode, if_neg hparent, interpolate_of_not_hasTag htag]
    rfl
  | comment hend hafter ih =>
    refine outputBelow_renderForest_cons ?_ (ih hparent _ _)
    rw [leaf_written rfl]
    simp only [BareNode.kind, renderNode, hsite]
    rfl
  | declaration hend hdashes hafter ih =>
    refine outputBelow_renderForest_cons ?_ (ih hparent _ _)
    rw [leaf_written rfl]
    rfl
  | @void name attributes after hvoid hattributes hafter ih =>
    refine outputBelow_renderForest_cons ?_ (ih hparent _ _)
    have hreserved := not_mem_reserved_of_isVoid hvoid
    have hstyle : name ≠ "style".toList := fun heq => hreserved (heq ▸ by decide)
    have hplain := not_mem_placeholderElements hreserved
    have hclosing : (BareNode.element name attributes).closing = [] := if_pos hvoid
    rw [leaf_written hclosing]
    simp only [BareNode.kind, renderNode]
    rw [renderElement_of_plain (isPlainElement_of_canonical hplain hattributes), if_neg hstyle, renderPlain,
      if_pos hvoid, openingTag_of_canonical hsite hattributes]
  | @script attributes below after hattributes hbelow hafter ih =>
    refine outputBelow_renderForest_cons ?_ (ih hparent _ _)
    simp only [BareNode.kind, renderNode]
    refine renderElement_of_canonical hsite (by decide) (by decide) (by decide) hattributes ?_
    rcases hbelow with rfl | ⟨content, -, -, rfl⟩
    · rfl
    · rw [write_text]
      exact outputBelow_script content
  | @element name attributes below after hname hreserved hvoid hattributes hbelow hafter ihbelow ihafter =>
    refine outputBelow_renderForest_cons ?_ (ihafter hparent _ _)
    have hstyle : name ≠ "style".toList := fun heq => hreserved (heq ▸ by decide)
    have hscript : some name ≠ some "script".toList := fun heq => hreserved (Option.some.inj heq ▸ by decide)
    simp only [BareNode.kind, renderNode]
    exact renderElement_of_canonical hsite (not_mem_placeholderElements hreserved) hstyle hvoid hattributes
      (ihbelow hscript _ _)

end Frame

/-! ## Pages -/

/-- The elements of a canonical forest stand for themselves. -/
theorem isPlainForest_of_canonical (h : Canonical forest) (start number : Nat) :
    isPlainForest ((place start forest).number number) = true := by
  induction h generalizing start number with
  | nil => rfl
  | text hne hmarkup htag hnext hafter ih => exact isPlainForest_cons.mpr ⟨rfl, rfl, ih _ _⟩
  | comment hend hafter ih => exact isPlainForest_cons.mpr ⟨rfl, rfl, ih _ _⟩
  | declaration hend hdashes hafter ih => exact isPlainForest_cons.mpr ⟨rfl, rfl, ih _ _⟩
  | void hvoid hattributes hafter ih =>
    have hname := not_mem_placeholderElements (not_mem_reserved_of_isVoid hvoid)
    exact isPlainForest_cons.mpr ⟨isPlainElement_of_canonical hname hattributes, rfl, ih _ _⟩
  | script hattributes hbelow hafter ih =>
    refine isPlainForest_cons.mpr ⟨isPlainElement_of_canonical (by decide) hattributes, ?_, ih _ _⟩
    rcases hbelow with rfl | ⟨content, -, -, rfl⟩
    · rfl
    · rfl
  | element hname hreserved hvoid hattributes hbelow hafter ihbelow ihafter =>
    have hname := not_mem_placeholderElements hreserved
    exact isPlainForest_cons.mpr
      ⟨isPlainElement_of_canonical hname hattributes, ihbelow _ _, ihafter _ _⟩

theorem document_of_canonical (h : Canonical forest) {template : Template}
    (hsource : template.source = write forest) :
    template.document.forest = (place 0 forest).number 1 := by
  have hparse : (Document.parse template.source).1.forest = (place 0 forest).number 1 := by
    rw [hsource, Document.parse, parse_write h]
    rfl
  have hplain : template.isPlain = true := by
    rw [Template.isPlain, hparse]
    exact isPlainForest_of_canonical h 0 1
  rw [Template.document_of_plain hplain, hparse]

/-- In development the rendering of a canonical source is the source. -/
theorem Site.render_of_canonical {site : Site} (hsite : site.environment = .development)
    (h : Canonical forest) {template : Template}
    (hsource : template.source = write forest) : site.render template = ⟨write forest, []⟩ := by
  have hframe : site.renderFrame (Frame.outermost template) = .ofText (write forest) := by
    rw [renderFrame, Frame.render, (Frame.outermost template).compiled.forest_eq]
    have hdocument : (Frame.outermost template).compiled.template.document.forest = (place 0 forest).number 1 :=
      document_of_canonical h hsource
    rw [hdocument]
    exact Frame.outputBelow_of_canonical hsite h (by simp) 0 1
  rw [render, hframe]
  rfl

/-- **Canonical markup is read back and rendered as it is.** What is written for a canonical forest is read
as that forest, each node at its bytes, and without problems; and a page with that source renders to its
source in development, without problems. -/
theorem canonical_round_trip {forest : Forest BareNode} (h : Canonical forest) :
    Document.parse (write forest) =
        (.ofForest (Text.byteSize (write forest)) (place 0 forest), []) ∧
      (place 0 forest).map Node.bare = forest ∧
      ∀ (project : Project) (path : Text), project.environment = .development →
        project.page? path = some ⟨.page path, write forest⟩ →
        project.render path = .ok ⟨write forest, []⟩ := by
  refine ⟨?_, map_bare_place 0 forest, fun project path henvironment hpage => ?_⟩
  · rw [Document.parse, parse_write h]
  · rw [Project.render, hpage]
    exact congrArg Except.ok (Site.render_of_canonical henvironment h rfl)

/-- A forest with nodes of every kind. -/
def leaflet : Forest BareNode :=
  .cons (.declaration "doctype html".toList) .nil
    (.cons (.comment " a -- b ".toList) .nil
      (.cons (.element "p".toList [("class".toList, some "a > 'b'".toList), ("hidden".toList, none)])
        (.cons (.text "naïve \x7b x".toList) .nil
          (.cons (.element "br".toList []) .nil (.cons (.text "y".toList) .nil .nil)))
        (.cons (.element "script".toList [("defer".toList, none)])
          (.tree (.text "if (a < b) \x7b\x7b c() \x7d\x7d".toList) .nil) .nil)))

theorem canonical_leaflet : Canonical leaflet := by
  have hname : IsTagName "p".toList := ⟨by decide, List.all_eq_true.mp (by decide), by decide⟩
  have hlast : Canonical (.cons (.text "y".toList) .nil .nil) :=
    .text (by decide) (by decide) (by decide) (by decide) .nil
  have hbreak : Canonical (.cons (.element "br".toList []) .nil (.cons (.text "y".toList) .nil .nil)) :=
    .void (by decide) (by decide) hlast
  refine .declaration (by decide) (by decide) (.comment (by decide) (.element hname (by decide) (by decide)
    (by decide) (.text (by decide) (by decide) (by decide) (by decide) hbreak) ?_))
  exact .script (by decide) (.inr ⟨_, by decide, by decide, rfl⟩) .nil

/-- The forest is written, read back and rendered as it was written. -/
theorem canonical_round_trip_of_leaflet :
    Canonical leaflet ∧
      write leaflet = ("<!doctype html><!-- a -- b --><p class=\"a > 'b'\" hidden>naïve \x7b x<br>y</p>" ++
        "<script defer>if (a < b) \x7b\x7b c() \x7d\x7d</script>").toList ∧
      (Document.parse (write leaflet)).2 = [] ∧ (place 0 leaflet).map Node.bare = leaflet ∧
      (Project.empty.perform (.addPage "/".toList (write leaflet))).render "/".toList =
        .ok ⟨write leaflet, []⟩ := by
  obtain ⟨hparse, hbare, hrender⟩ := canonical_round_trip canonical_leaflet
  refine ⟨canonical_leaflet, by decide +kernel, by rw [hparse], hbare, ?_⟩
  exact hrender _ _ rfl (by decide +kernel)

end Sitewright
