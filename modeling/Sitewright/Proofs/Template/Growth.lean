import Mathlib.Data.List.Basic
import Sitewright.Proofs.Expression.Names
import Sitewright.Proofs.Markup.Spans
import Sitewright.Proofs.Style.Ranges
import Sitewright.Proofs.Template.Tags
import Sitewright.Template.Analysis

/-!
The analysis of a template only adds to what it has learned: problems and globals come after those that are there, and
the styles that it takes are sound and have their globals listed (`Grows`). What is new has its place in the source as
long as the nodes have theirs; one walk shows both (`Extends`). So whatever the visit of one attribute of one node reports
or lists is still there at the end, and it is enough to know that the visit takes place (`exists_checkNode`,
`exists_checkAttribute`).
-/

namespace Sitewright

/-- A reference whose range selects something with the global in it. -/
structure GlobalReference.Contained (source : Text) (reference : GlobalReference) : Prop where
  inside : reference.part.range.Inside source
  named : reference.part.text = reference.global
  contains : reference.global <:+: source.slice reference.part.range

theorem GlobalReference.Exact.shift {before sheet after : Text} {reference : GlobalReference}
    (h : reference.Exact sheet) :
    GlobalReference.Exact (before ++ sheet ++ after)
      ⟨⟨reference.part.text, reference.part.range.shift before.length⟩, reference.global⟩ where
  inside := Text.inside_shift before sheet after h.inside
  selects := (Text.slice_shift before sheet after h.inside.bounded).trans h.selects
  named := h.named
  written := h.written

namespace Template

open Markup

variable {node : Node} {place : Option Text}

/-- The style can be read in full, and does not mark a place for styles itself. -/
structure IsSoundStyle (text : Text) : Prop where
  wellFormed : (Style.Sheet.parse text).isMalformed = false
  unmarked : (Style.Sheet.parse text).placeholder? = none

/-- The analysis lists the globals of a style. -/
def Analysis.ListsStyle (analysis : Analysis) (text : Text) : Prop :=
  ∀ reference ∈ (Style.Sheet.parse text).references,
    ∃ listed ∈ analysis.styleGlobals, listed.global = reference.global

/-- Nothing that was reported or listed before is lost, and new styles are sound and have their globals listed. -/
structure Analysis.Grows (before after : Analysis) : Prop where
  reported : before.diagnostics.reported <+: after.diagnostics.reported
  globals : before.globals <+: after.globals
  styleGlobals : before.styleGlobals <+: after.styleGlobals
  styles : ∀ text ∈ after.styles, text ∈ before.styles ∨ IsSoundStyle text ∧ after.ListsStyle text

namespace Analysis.Grows

variable {a b c : Analysis}

theorem refl (analysis : Analysis) : analysis.Grows analysis :=
  ⟨List.prefix_refl _, List.prefix_refl _, List.prefix_refl _, fun _ hmem => .inl hmem⟩

theorem trans (h : a.Grows b) (h' : b.Grows c) : a.Grows c := by
  refine ⟨h.reported.trans h'.reported, h.globals.trans h'.globals, h.styleGlobals.trans h'.styleGlobals,
    fun text hmem => ?_⟩
  rcases h'.styles text hmem with hold | hnew
  · rcases h.styles text hold with hold | ⟨hsound, hlists⟩
    · exact .inl hold
    · refine .inr ⟨hsound, fun reference hreference => ?_⟩
      obtain ⟨listed, hlisted, heq⟩ := hlists reference hreference
      exact ⟨listed, h'.styleGlobals.subset hlisted, heq⟩
  · exact .inr hnew

end Analysis.Grows

/-- All that was reported and listed so far has its place in the source. -/
structure Analysis.Placed (source : Text) (analysis : Analysis) : Prop where
  reported : ∀ diagnostic ∈ analysis.diagnostics.reported, diagnostic.range.Inside source
  globals : ∀ reference ∈ analysis.globals, reference.Contained source
  styleGlobals : ∀ reference ∈ analysis.styleGlobals, reference.Exact source

/-- Nothing is lost, and if the nodes are `sited` what is new has its place in the source. -/
structure Analysis.Extends (sited : Prop) (source : Text) (before after : Analysis) : Prop where
  grows : before.Grows after
  placed : sited → before.Placed source → after.Placed source

variable {sited : Prop}

namespace Analysis.Extends

variable {source : Text} {a b c : Analysis}

theorem refl (analysis : Analysis) : analysis.Extends sited source analysis :=
  ⟨.refl analysis, fun _ h => h⟩

theorem trans (h : a.Extends sited source b) (h' : b.Extends sited source c) : a.Extends sited source c :=
  ⟨h.grows.trans h'.grows, fun hsited hplaced => h'.placed hsited (h.placed hsited hplaced)⟩

theorem report (analysis : Analysis) (problem : Problem) {range : CharRange} (h : sited → range.Inside source) :
    analysis.Extends sited source (analysis.report problem range) where
  grows := ⟨List.prefix_append _ _, List.prefix_refl _, List.prefix_refl _, fun _ hmem => .inl hmem⟩
  placed hsited hplaced :=
    ⟨List.forall_mem_append.mpr ⟨hplaced.reported, List.forall_mem_singleton.mpr (h hsited)⟩, hplaced.globals,
      hplaced.styleGlobals⟩

theorem reportIf (analysis : Analysis) (condition : Bool) (problem : Problem) {range : CharRange}
    (h : range.Inside source) : analysis.Extends sited source (analysis.reportIf condition problem range) := by
  rw [Analysis.reportIf]
  split
  · exact report analysis problem fun _ => h
  · exact refl analysis

theorem addGlobals (analysis : Analysis) {references : List GlobalReference}
    (h : sited → ∀ reference ∈ references, reference.Contained source) :
    analysis.Extends sited source { analysis with globals := analysis.globals ++ references } where
  grows := ⟨List.prefix_refl _, List.prefix_append _ _, List.prefix_refl _, fun _ hmem => .inl hmem⟩
  placed hsited hplaced :=
    ⟨hplaced.reported, List.forall_mem_append.mpr ⟨hplaced.globals, h hsited⟩, hplaced.styleGlobals⟩

section

variable {α : Type} {f : Analysis → α → Analysis} {items : List α}
variable (hf : ∀ item ∈ items, ∀ analysis : Analysis, analysis.Extends sited source (f analysis item))
include hf

theorem foldl (analysis : Analysis) : analysis.Extends sited source (items.foldl f analysis) := by
  induction items generalizing analysis with
  | nil => exact refl analysis
  | cons item items ih =>
    rw [List.forall_mem_cons] at hf
    exact (hf.1 analysis).trans (ih hf.2 _)

/-- What one round of a loop adds is there when the loop ends. -/
theorem exists_round {item : α} (hmem : item ∈ items) (analysis : Analysis) :
    ∃ before, (f before item).Grows (items.foldl f analysis) := by
  induction items generalizing analysis with
  | nil => cases hmem
  | cons first items ih =>
    rw [List.forall_mem_cons] at hf
    rcases List.mem_cons.mp hmem with rfl | hmem
    · exact ⟨analysis, (foldl hf.2 _).grows⟩
    · exact ih hf.2 hmem _

end

end Analysis.Extends

section

variable (template : Template) (node : Node) (analysis : Analysis)
variable {attr : Attribute} {below : Forest (Nat × Node)} {element : Element} {source : Text}

open Analysis (Extends)

theorem inside_range (span : ByteSpan) : (template.range node span).Inside template.source :=
  Text.inside_charRange template.source _

theorem extends_report (problem : Problem) (span : ByteSpan) :
    analysis.Extends sited template.source (analysis.report problem (template.range node span)) :=
  .report analysis problem fun _ => inside_range template node span

theorem extends_reportIf (condition : Bool) (problem : Problem) (span : ByteSpan) :
    analysis.Extends sited template.source (analysis.reportIf condition problem (template.range node span)) :=
  .reportIf analysis condition problem (inside_range template node span)

theorem slice_range {template : Template} {node : Node} (hnode : node.synthetic = false) {span : ByteSpan}
    {part : Text} (h : span.Selects template.source part) :
    template.source.slice (template.range node span) = part := by
  rw [Template.range, hnode]
  exact h.slice_charRange

/-! ## Tags and conditions -/

theorem extends_checkTag {text : Text} {base : Nat}
    (h : sited → node.synthetic = false ∧ template.source.StandsAt text base) {tag : Tag}
    (htag : tag ∈ (scanTags text).tags) :
    analysis.Extends sited template.source (checkTag template node base analysis tag) := by
  unfold checkTag
  split
  next name hread =>
    refine .addGlobals analysis fun hsited => ?_
    obtain ⟨hnode, htext⟩ := h hsited
    obtain ⟨written, hlookup, hselects⟩ := of_mem_tags htag hread
    refine List.forall_mem_singleton.mpr ⟨inside_range template node _, rfl, ?_⟩
    rw [slice_range hnode (hselects.shift htext)]
    exact Expression.infix_of_mem_globals (Expression.of_parseLookup hlookup).1 List.mem_cons_self
  next => exact .refl analysis
  next => exact extends_report template node analysis _ _

theorem extends_checkTags {text : Text} {base : Nat}
    (h : sited → node.synthetic = false ∧ template.source.StandsAt text base) :
    analysis.Extends sited template.source (checkTags template node text base analysis) := by
  simp only [checkTags]
  refine Extends.trans ?_ (.foldl (fun tag htag analysis => extends_checkTag template node analysis h htag) _)
  split
  · exact extends_report template node analysis _ _
  · exact .refl analysis

theorem selects_value (h : attr.Stands source) (hvalue : attr.value.isSome = true) :
    attr.valueOrNameSpan.Selects source attr.valueOrEmpty := by
  obtain ⟨name, value, nameSpan, valueSpan⟩ := attr
  cases h.value with
  | some hselects => exact hselects
  | none => cases hvalue

section

variable (h : sited → node.synthetic = false ∧ attr.Stands template.source)
include h

theorem extends_checkCondition :
    analysis.Extends sited template.source (checkCondition template node attr analysis) := by
  simp only [checkCondition]
  split
  next => exact extends_report template node analysis _ _
  next hblank =>
    split
    next => exact extends_report template node analysis _ _
    next =>
      split
      next expression hparse =>
        refine .addGlobals analysis fun hsited => ?_
        obtain ⟨hnode, hattr⟩ := h hsited
        -- an attribute without a value is blank, so the span here is never that of the name
        have hvalue : attr.value.isSome = true := by
          by_contra hnone
          simp [Attribute.valueOrEmpty, Option.not_isSome_iff_eq_none.mp hnone, Text.allBlank] at hblank
        refine List.forall_mem_map.mpr fun name hname => ⟨inside_range template node _, rfl, ?_⟩
        rw [slice_range hnode (selects_value hattr hvalue)]
        exact Expression.infix_of_mem_globals hparse (NameSet.mem_ofList.mp hname)
      next => exact extends_report template node analysis _ _

/-! ## Attributes -/

theorem extends_checkValue (element : Element) :
    analysis.Extends sited template.source (checkValue template node element attr analysis) := by
  unfold checkValue
  split
  next => exact extends_checkCondition template node analysis h
  next =>
    split
    next => exact extends_reportIf template node analysis _ _ _
    next =>
      split
      next => exact extends_reportIf template node analysis _ _ _
      next =>
        split
        next value span hvalue hspan =>
          refine extends_checkTags template node analysis fun hsited => ⟨(h hsited).1, ?_⟩
          have hselects := (h hsited).2.value
          rw [hvalue, hspan] at hselects
          cases hselects with
          | some hselects => exact hselects.stands
        next => exact .refl analysis

theorem extends_checkAttribute (element : Element) (foreign : Bool) :
    analysis.Extends sited template.source (checkAttribute template node element foreign attr analysis) := by
  simp only [checkAttribute, checkDirective]
  split
  · exact extends_report template node analysis _ _
  · split
    · refine Extends.trans ?_ (extends_reportIf template node _ _ _ _)
      split
      · exact extends_report template node analysis _ _
      · exact extends_reportIf template node analysis _ _ _
    · exact (extends_reportIf template node analysis _ _ _).trans (extends_checkValue template node _ h element)

end

theorem extends_checkAttributes (element : Element) (foreign : Bool) (seen : List Text) {attributes : List Attribute}
    (h : sited → node.synthetic = false ∧ ∀ attr ∈ attributes, attr.Stands template.source) :
    analysis.Extends sited template.source
      (checkAttributes template node element foreign seen attributes analysis) := by
  induction attributes generalizing seen analysis with
  | nil => exact .refl analysis
  | cons attr rest ih =>
    simp only [List.forall_mem_cons] at h
    rw [checkAttributes]
    exact ((extends_reportIf template node analysis _ _ _).trans
      (extends_checkAttribute template node _ (fun hsited => ⟨(h hsited).1, (h hsited).2.1⟩) element foreign)).trans
        (ih _ _ fun hsited => ⟨(h hsited).1, (h hsited).2.2⟩)

theorem exists_checkAttribute (foreign : Bool)
    {attributes : List Attribute} (hmem : attr ∈ attributes) (seen : List Text) :
    ∃ before, (checkAttribute template node element foreign attr before).Grows
      (checkAttributes template node element foreign seen attributes analysis) := by
  induction attributes generalizing seen analysis with
  | nil => cases hmem
  | cons first rest ih =>
    rw [checkAttributes]
    rcases List.mem_cons.mp hmem with rfl | hmem
    · exact ⟨_, (extends_checkAttributes template node _ element foreign _ False.elim).grows⟩
    · exact ih _ hmem _

/-! ## Elements with a meaning of their own -/

theorem extends_checkIncludeContent (targets : List Text) (content : Bool) (nodes : List (Nat × Node)) :
    analysis.Extends sited template.source (checkIncludeContent template targets content nodes analysis).2 := by
  induction nodes generalizing targets content analysis with
  | nil => exact .refl analysis
  | cons entry rest ih =>
    obtain ⟨_, node⟩ := entry
    rw [checkIncludeContent]
    split
    · split
      · exact (extends_reportIf template node analysis _ _ _).trans (ih _ _ _)
      · exact ih _ _ _
    · exact ih _ _ _
    · exact ih _ _ _
    · exact ih _ _ _

theorem extends_checkIncludeTarget (element : Element) :
    analysis.Extends sited template.source (checkIncludeTarget template node element analysis) := by
  have hmissing := @extends_reportIf sited template node analysis
    ((element.attribute? "component".toList).isNone && (element.attribute? "asset".toList).isNone)
    .missingIncludeTarget ⟨node.span.start, node.span.start + Text.byteSize element.name + 1⟩
  simp only [checkIncludeTarget]
  split
  next =>
    split
    next => exact hmissing
    next => exact hmissing.trans (extends_reportIf template node _ _ _ _)
  next =>
    refine Extends.trans (Extends.trans ?_ (extends_reportIf template node _ _ _ _))
      (extends_reportIf template node _ _ _ _)
    split
    next => exact hmissing
    next => exact hmissing.trans (extends_reportIf template node _ _ _ _)

theorem extends_checkInclude (element : Element) (below : Forest (Nat × Node)) :
    analysis.Extends sited template.source (checkInclude template node element below analysis) := by
  have hproperties : (checkIncludeTarget template node element analysis).Extends sited template.source
      (checkProperties template node element (checkIncludeTarget template node element analysis)) :=
    .foldl (fun _ _ analysis => extends_reportIf template node analysis _ _ _) _
  exact (((extends_checkIncludeTarget template node analysis element).trans hproperties).trans
    (extends_checkIncludeContent template _ [] false below.roots)).trans (extends_reportIf template node _ _ _ _)

theorem extends_checkInject (element : Element) (parent : Option Text) :
    analysis.Extends sited template.source (checkInject template node element parent analysis) := by
  refine (extends_reportIf template node analysis _ _ _).trans (.foldl (fun attr _ analysis => ?_) _)
  simp only
  split
  · exact extends_reportIf template node analysis _ _ _
  · exact extends_reportIf template node analysis _ _ _

theorem extends_checkOutletName (name : Text) {source : Text} {range : CharRange} (h : range.Inside source) :
    analysis.Extends sited source (checkOutletName name range analysis) := by
  rw [checkOutletName]
  split
  · exact .reportIf analysis _ _ h
  · exact (Extends.reportIf analysis (analysis.outlets.contains name) (.duplicateOutlet name) h).trans
      ⟨⟨List.prefix_refl _, List.prefix_refl _, List.prefix_refl _, fun _ => .inl⟩,
        fun _ hplaced => ⟨hplaced.reported, hplaced.globals, hplaced.styleGlobals⟩⟩

theorem extends_checkOutlet (element : Element) :
    analysis.Extends sited template.source (checkOutlet template node element analysis) := by
  simp only [checkOutlet]
  refine Extends.trans ?_ (.foldl (fun _ _ analysis => extends_reportIf template node analysis _ _ _) _)
  refine (extends_reportIf template node analysis _ _ _).trans (extends_checkOutletName _ _ ?_)
  split
  · exact inside_range template node _
  · exact inside_range template node _

/-! ## Styles -/

/-- The text of a style is its content, unless it is empty. -/
theorem selects_textBelow
    (hcontent : IsContent element (below.map Prod.snd)) (hbelow : AllStand source (below.map Prod.snd)) :
    textBelow below = [] ∨ element.content.Selects source (textBelow below) := by
  cases below with
  | nil => exact .inl rfl
  | cons entry inner after =>
    obtain ⟨_, node⟩ := entry
    rcases hcontent with hcontent | ⟨text, hcontent⟩
    · cases hcontent
    · obtain ⟨rfl, -, hafter⟩ := Forest.cons.inj hcontent
      cases after with
      | nil =>
        right
        have hselects := hbelow.1.2
        simpa [textBelow, Forest.roots] using hselects
      | cons _ _ _ => cases hafter

theorem mem_reported_of_mem_toList {κ : Type} [DecidableEq κ] [Category κ] {diagnostics : Diagnostics κ}
    {diagnostic : Diagnostic κ} (h : diagnostic ∈ diagnostics.toList) : diagnostic ∈ diagnostics.reported := by
  obtain ⟨category, -, honly⟩ := List.mem_flatMap.mp h
  exact List.mem_of_mem_filter honly

theorem extends_checkSheet {sheet : Text} {place : CharRange → CharRange}
    (h : sited → ∃ before after, source = before ++ sheet ++ after ∧ place = (·.shift before.length)) :
    analysis.Extends sited source (checkSheet sheet place analysis) := by
  obtain ⟨hreferences, hproblems, hstatements⟩ := Style.Sheet.sited_parse sheet
  have hplace {range : CharRange} (hrange : range.Inside sheet) (hsited : sited) : (place range).Inside source := by
    obtain ⟨before, after, rfl, rfl⟩ := h hsited
    exact Text.inside_shift before sheet after hrange
  have hreported := Extends.foldl (f := fun analysis problem =>
      analysis.report (.style problem.severity problem.message) (place problem.range))
    (fun problem hproblem analysis =>
      .report analysis _ (hplace (hproblems problem (mem_reported_of_mem_toList hproblem)))) analysis
  simp only [checkSheet]
  split
  next statement hstatement =>
    exact hreported.trans (.report _ _ (hplace (hstatements statement (List.mem_of_find?_eq_some hstatement))))
  next hunmarked =>
    refine hreported.trans ⟨⟨List.prefix_refl _, List.prefix_refl _, List.prefix_append _ _, fun style hmem => ?_⟩,
      fun hsited hplaced => ⟨hplaced.reported, hplaced.globals, List.forall_mem_append.mpr ⟨hplaced.styleGlobals, ?_⟩⟩⟩
    · split at hmem
      · exact .inl hmem
      next hwell =>
        rcases List.mem_append.mp hmem with hmem | hmem
        · exact .inl hmem
        · rw [List.mem_singleton.mp hmem]
          refine .inr ⟨⟨Bool.not_eq_true _ ▸ hwell, hunmarked⟩, fun reference hreference => ?_⟩
          exact ⟨_, List.mem_append_right _ (List.mem_map_of_mem hreference), rfl⟩
    · obtain ⟨before, after, rfl, rfl⟩ := h hsited
      exact List.forall_mem_map.mpr fun reference hreference => (hreferences reference hreference).shift

section

variable (h : sited → node.element? = some element ∧ AllStand template.source (.tree node (below.map Prod.snd)))
include h

theorem extends_checkStyle (hstyle : element.name = "style".toList) :
    analysis.Extends sited template.source (checkStyle template node element below analysis) := by
  simp only [checkStyle]
  split
  next => exact .refl analysis
  next hblank =>
    refine (extends_reportIf template node analysis _ _ _).trans (extends_checkSheet _ fun hsited => ?_)
    obtain ⟨helement, ⟨hnode, -⟩, hcontent, hbelow, -⟩ := h hsited
    have hcontent := hcontent element helement (by rw [hstyle]; decide)
    obtain hempty | ⟨⟨before, after, hsource, hstart⟩, -⟩ := selects_textBelow hcontent hbelow
    · rw [hempty] at hblank
      exact absurd rfl hblank
    · -- the content begins at the border of a character, so ranges move by characters and not by bytes
      have hoffset : (template.range node element.content).start = before.length := by
        simp only [Template.range, hnode, Bool.false_eq_true, if_false, Text.charRange]
        rw [hsource, ← hstart, List.append_assoc]
        exact Text.charOffset_append before _
      refine ⟨before, after, hsource, ?_⟩
      simp only [hnode, Bool.false_eq_true, if_false, hoffset]

theorem extends_checkNamed (parent : Option Text) :
    analysis.Extends sited template.source (checkNamed template node element below parent analysis) := by
  unfold checkNamed
  split
  · exact extends_checkInclude template node analysis element below
  split
  · exact extends_checkInject template node analysis element parent
  split
  · exact extends_checkOutlet template node analysis element
  split
  next hstyle => exact extends_checkStyle template node analysis h hstyle
  next => exact extends_reportIf template node analysis _ _ _

end

/-! ## Nodes -/

theorem extends_checkNode (h : sited → AllStand template.source (.tree node (below.map Prod.snd)))
    (parent : Option Text) (foreign : Bool) :
    analysis.Extends sited template.source (checkNode template node below parent foreign analysis) := by
  unfold checkNode
  split
  next => exact .refl analysis
  next text htext =>
    split
    · exact .refl analysis
    · refine extends_checkTags template node analysis fun hsited => ?_
      obtain ⟨hwritten, hkind⟩ := (h hsited).1
      rw [htext] at hkind
      exact ⟨hwritten, hkind.stands⟩
  next => exact extends_reportIf template node analysis _ _ _
  next element hkind =>
    have helement : node.element? = some element := by rw [Node.element?, hkind]
    refine Extends.trans (extends_checkAttributes template node analysis element _ [] fun hsited => ?_)
      (extends_checkNamed template node _ (fun hsited => ⟨helement, h hsited⟩) parent)
    exact ⟨(h hsited).1.1, (h hsited).1.attributes helement⟩

theorem extends_visit (parent : Option Text) (foreign : Bool) {forest : Forest (Nat × Node)}
    (h : sited → AllStand template.source (forest.map Prod.snd)) :
    analysis.Extends sited template.source (visit template parent foreign analysis forest) := by
  induction forest generalizing parent foreign analysis with
  | nil => exact .refl analysis
  | cons entry below after ihbelow ihafter =>
    obtain ⟨_, node⟩ := entry
    have hchecked := extends_checkNode template node analysis
      (fun hsited => ⟨(h hsited).1, (h hsited).2.1, (h hsited).2.2.1, trivial⟩) parent foreign
    rw [visit]
    refine Extends.trans ?_ (ihafter _ _ _ fun hsited => (h hsited).2.2.2)
    split
    · exact hchecked.trans (ihbelow _ _ _ fun hsited => (h hsited).2.2.1)
    · exact hchecked

/-- The styles of a template are sound, and their globals are listed. -/
theorem sound_and_listed_of_mem {style : Text} (h : style ∈ template.analysis.styles) :
    IsSoundStyle style ∧ template.analysis.ListsStyle style :=
  ((extends_visit template _ none false False.elim).grows.styles style h).resolve_left
    (List.not_mem_nil (a := style))

theorem isSoundStyle_of_mem {style : Text} (h : style ∈ template.analysis.styles) : IsSoundStyle style :=
  (sound_and_listed_of_mem template h).1

end

/-! ## Visited nodes -/

/-- The part of a forest that is visited: what stands inside a `<style>` is left out. -/
def visibleBy {α : Type} (node : α → Node) : Forest α → Forest α
  | .nil => .nil
  | .cons label below after =>
    .cons label (if visitsBelow (node label) then visibleBy node below else .nil) (visibleBy node after)

/-- The part of the nodes of a document that is visited. -/
def visible (forest : Forest (Nat × Node)) : Forest (Nat × Node) :=
  visibleBy Prod.snd forest

/-- The nodes of a forest, each after the name of the element it stands in. -/
def placedNodes (parent : Option Text) : Forest (Nat × Node) → List (Option Text × Nat × Node)
  | .nil => []
  | .cons (id, node) below after =>
    (parent, id, node) :: (placedNodes node.name? below ++ placedNodes parent after)

theorem mem_preorder_of_mem_placedNodes {parent : Option Text} {id : Nat}
    {forest : Forest (Nat × Node)} (h : (place, id, node) ∈ placedNodes parent forest) :
    (id, node) ∈ forest.preorder := by
  induction forest generalizing parent with
  | nil => cases h
  | cons entry below after ihbelow ihafter =>
    obtain ⟨other, first⟩ := entry
    simp only [placedNodes, List.mem_cons, List.mem_append] at h
    simp only [Forest.preorder, List.mem_cons, List.mem_append]
    rcases h with h | h | h
    · cases h
      exact .inl rfl
    · exact .inr (.inl (ihbelow h))
    · exact .inr (.inr (ihafter h))

theorem mem_preorder_of_mem_visibleBy {α : Type} {node : α → Node} {label : α} {forest : Forest α}
    (h : label ∈ (visibleBy node forest).preorder) : label ∈ forest.preorder := by
  induction forest with
  | nil => exact h
  | cons first below after ihbelow ihafter =>
    simp only [visibleBy, Forest.preorder, List.mem_cons, List.mem_append] at h ⊢
    rcases h with h | h | h
    · exact .inl h
    · split at h
      · exact .inr (.inl (ihbelow h))
      · cases h
    · exact .inr (.inr (ihafter h))

/-- What the visit of a node adds is there at the end. -/
theorem exists_checkNode_of_visit (template : Template) {parent : Option Text} {id : Nat}
    {forest : Forest (Nat × Node)}
    (h : (place, id, node) ∈ placedNodes parent (visible forest)) (foreign : Bool) (analysis : Analysis) :
    ∃ below foreign' before, (checkNode template node below place foreign' before).Grows
      (visit template parent foreign analysis forest) := by
  induction forest generalizing parent foreign analysis with
  | nil => cases h
  | cons entry below after ihbelow ihafter =>
    obtain ⟨other, first⟩ := entry
    simp only [visible, visibleBy, placedNodes, List.mem_cons, List.mem_append] at h
    rw [visit]
    rcases h with h | h | h
    · cases h
      refine ⟨below, foreign, analysis, Analysis.Grows.trans ?_ (extends_visit template _ _ _ False.elim).grows⟩
      split
      · exact (extends_visit template _ _ _ False.elim).grows
      · exact .refl _
    · split at h
      next hbelow =>
        obtain ⟨inner, foreign', before, hgrows⟩ :=
          ihbelow h (foreign || first.element?.any isForeign)
            (checkNode template first below parent foreign analysis)
        rw [if_pos hbelow]
        exact ⟨inner, foreign', before, hgrows.trans (extends_visit template _ _ _ False.elim).grows⟩
      next => cases h
    · exact ihafter h foreign _

theorem exists_checkNode {template : Template} {id : Nat}
    (h : (place, id, node) ∈ placedNodes none (visible template.document.forest)) :
    ∃ below foreign before, (checkNode template node below place foreign before).Grows template.analysis :=
  exists_checkNode_of_visit template h false _

end Template

end Sitewright
