import Sitewright.Proofs.Template.Growth

/-!
Where what a template reports stands in its source. The places of nodes are spans of what was read, those of tags and
conditions are taken from there, and those in a style are moved to where its content begins. So all ranges lie in the
source and select what they are the ranges of, as long as no node was made from Markdown.
-/

namespace Sitewright

/-- A part that was read off an attribute. If the attribute has a value, the range selects it. -/
structure CodePart.ReadFrom (source : Text) (attr : Markup.Attribute) (part : CodePart) : Prop where
  inside : part.range.Inside source
  text : part.text = attr.valueOrEmpty
  selects : attr.value.isSome = true → source.slice part.range = part.text

namespace Template

open Markup

variable {template : Template}

/-- No element of the source is marked `markdown`. -/
def HasNoMarkdown (source : Text) : Prop :=
  ∀ entry ∈ (Document.parse source).1.nodes, ∀ element ∈ entry.2.element?,
    element.hasAttribute "markdown".toList = false

instance (source : Text) : Decidable (HasNoMarkdown source) :=
  inferInstanceAs (Decidable (∀ entry ∈ (Document.parse source).1.nodes, ∀ element ∈ entry.2.element?,
    element.hasAttribute "markdown".toList = false))

theorem convert_of_hasNoMarkdown {source : Text} (h : HasNoMarkdown source) :
    convert source = ⟨(Document.parse source).1, (Document.parse source).2.map fun problem =>
      (Problem.markup problem.fault.message).located (Text.charRange source problem.span)⟩ := by
  have htargets : markdownTargets (Document.parse source).1 = [] := by
    refine List.filterMap_eq_nil_iff.mpr fun entry hentry => ?_
    simp only
    split
    next element helement => exact if_neg (Bool.eq_false_iff.mp (h entry hentry element helement))
    next => rfl
  simp only [convert, htargets, List.foldl_nil]

theorem allStand_document (h : HasNoMarkdown template.source) :
    AllStand template.source (template.document.forest.map Prod.snd) := by
  rw [Template.document, convert_of_hasNoMarkdown h]
  simp only [Document.parse, Document.ofForest, Forest.map_snd_number]
  exact allStand_parse template.source

theorem placed_analysis (h : HasNoMarkdown template.source) : template.analysis.Placed template.source := by
  refine (extends_visit template _ none false fun _ => allStand_document h).placed trivial ⟨?_, ?_, ?_⟩
  · rw [Analysis.start, Template.markupProblems, convert_of_hasNoMarkdown h]
    exact List.forall_mem_map.mpr fun problem _ => Text.inside_charRange template.source problem.span
  · exact fun _ hreference => (List.not_mem_nil hreference).elim
  · exact fun _ hreference => (List.not_mem_nil hreference).elim

theorem readFrom_includePart {node : Node} {element : Element}
    (hnode : node.Stands template.source) (helement : node.element? = some element) (name : Text) :
    Option.Rel (CodePart.ReadFrom template.source) (element.attribute? name)
      (template.includePart node element name) := by
  unfold includePart
  cases hattr : element.attribute? name with
  | none => exact .none
  | some attr =>
    have hstands := hnode.attributes helement attr (List.mem_of_find?_eq_some hattr)
    exact .some ⟨inside_range template node _, rfl, fun hvalue => slice_range hnode.1 (selects_value hstands hvalue)⟩

/-- Without Markdown, all ranges of a template lie in its source. Those of references in styles and of what includes
name select what is written there, and those of references in tags and conditions something with the global in it. -/
theorem ranges_point_into_source (template : Template) (h : HasNoMarkdown template.source) :
    (∀ diagnostic ∈ template.diagnostics.reported, diagnostic.range.Inside template.source) ∧
      (∀ reference ∈ template.analysis.globals, reference.Contained template.source) ∧
      (∀ reference ∈ template.analysis.styleGlobals, reference.Exact template.source) ∧
      ∀ included ∈ template.includes, ∃ node element, (included.node, node) ∈ template.document.nodes ∧
        node.element? = some element ∧
        Option.Rel (CodePart.ReadFrom template.source) (element.attribute? "component".toList) included.component ∧
        Option.Rel (CodePart.ReadFrom template.source) (element.attribute? "asset".toList) included.asset := by
  obtain ⟨hreported, hglobals, hstyleGlobals⟩ := placed_analysis h
  refine ⟨hreported, hglobals, hstyleGlobals, fun included hincluded => ?_⟩
  obtain ⟨⟨id, node⟩, hentry, hinclude⟩ := List.mem_filterMap.mp hincluded
  have hnode : node.Stands template.source := by
    refine stands_of_mem_preorder (allStand_document h) ?_
    rw [Forest.preorder_map]
    exact List.mem_map_of_mem hentry
  simp only [include?] at hinclude
  split at hinclude
  next => cases hinclude
  next element helement =>
    split at hinclude
    · cases hinclude
      exact ⟨node, element, hentry, helement, readFrom_includePart hnode helement _,
        readFrom_includePart hnode helement _⟩
    · cases hinclude

/-- A template with characters of more than one byte before all that it refers to. -/
def umlauts : Template :=
  ⟨.component "umlauts".toList,
    "ä<b if=\"$on\" title='ö \x7b\x7b $tip \x7d\x7d'>é\x7b\x7b\t$name\x7d\x7d</b>".toList ++
      "<style>/*ü*/a\x7bx:$tint\x7d@sm\x7b\x7d</style><include component=\"cárd\" asset/>".toList⟩

theorem ranges_point_into_source_of_umlauts :
    HasNoMarkdown umlauts.source ∧
      (umlauts.analysis.globals.map GlobalReference.global = ["$on", "$tip", "$name"].map String.toList ∧
        ∀ reference ∈ umlauts.analysis.globals, reference.global <:+: umlauts.source.slice reference.part.range) ∧
      (umlauts.analysis.styleGlobals.map GlobalReference.part =
          [⟨"$tint".toList, ⟨65, 70⟩⟩, ⟨"@sm".toList, ⟨71, 74⟩⟩] ∧
        ∀ reference ∈ umlauts.analysis.styleGlobals,
          umlauts.source.slice reference.part.range = reference.part.text) ∧
      (umlauts.diagnostics.size = 3 ∧
        ∀ diagnostic ∈ umlauts.diagnostics.reported, diagnostic.range.Inside umlauts.source) ∧
      umlauts.includes.map Include.component = [some ⟨"cárd".toList, ⟨104, 108⟩⟩] ∧
        ∀ included ∈ umlauts.includes, ∀ part ∈ included.component, ∃ attr, part.ReadFrom umlauts.source attr := by
  have hfacts : HasNoMarkdown umlauts.source ∧
      umlauts.analysis.globals.map GlobalReference.global = ["$on", "$tip", "$name"].map String.toList ∧
      umlauts.analysis.styleGlobals.map GlobalReference.part =
        [⟨"$tint".toList, ⟨65, 70⟩⟩, ⟨"@sm".toList, ⟨71, 74⟩⟩] ∧
      umlauts.diagnostics.size = 3 ∧
      umlauts.includes.map Include.component = [some ⟨"cárd".toList, ⟨104, 108⟩⟩] := by
    decide +kernel
  obtain ⟨hplain, hnames, hparts, hsize, hincludes⟩ := hfacts
  obtain ⟨hreported, hglobals, hstyleGlobals, hplaced⟩ := ranges_point_into_source umlauts hplain
  refine ⟨hplain, ⟨hnames, fun reference hreference => (hglobals reference hreference).contains⟩,
    ⟨hparts, fun reference hreference => (hstyleGlobals reference hreference).selects⟩, ⟨hsize, hreported⟩,
    hincludes, ?_⟩
  intro included hincluded part hpart
  obtain ⟨node, element, -, -, hcomponent, -⟩ := hplaced included hincluded
  rw [Option.mem_def.mp hpart] at hcomponent
  generalize element.attribute? "component".toList = attr? at hcomponent
  cases hcomponent with
  | some hread => exact ⟨_, hread⟩

end Template

end Sitewright
