import Sitewright.Proofs.Markup.Skeleton
import Sitewright.Proofs.Project.Script
import Sitewright.Proofs.Render.Tags

/-!
The structure of rendered markup. A page whose elements all stand for themselves is written node by node,
and the tags in what is written can be told from its source (`Compiled.tags`), provided that no literal
text ends in `<` or `</` where a value could go on a tag, and that no `script` loses its closing tag to a
slash (`isFencedForest`). So the elements and attributes that are read off the markup do not depend on
globals.
-/

namespace Sitewright

open Markup

/-! ## Pages that stand for themselves -/

/-- Elements that stand for something else. -/
def placeholderElements : List Text :=
  ["include", "outlet", "inject"].map String.toList

/-- Whether an element is always written as it stands. -/
def isPlainElement (element : Element) : Bool :=
  !placeholderElements.contains element.name && !element.hasAttribute "if".toList
    && !element.hasAttribute "markdown".toList

/-- Whether nothing is written for a forest, or what is written begins with markup or with a character
that is no part of a tag, whatever the values are. -/
def beginsFixed (environment : Environment) : Forest (Nat × Node) → Bool
  | .nil => true
  | .cons entry _ after =>
    match entry.2.kind with
    | .text text => text.head?.any fun c => c != '\x7b' && isSettling c
    | .comment _ =>
      match environment with
      | .development => true
      | .production => beginsFixed environment after
    | .declaration _ => true
    | .element element => element.name != "style".toList || beginsFixed environment after

/-- Whether the closing tag of an element is sure to be read, which a slash before the end of the opening
tag would prevent. -/
def isSurelyClosed (element : Element) : Bool :=
  element.attributes.all fun attr => attr.isValued || attr.name.getLast? != some '/'

/-- Whether no value decides what is markup in a forest below an element named `parent`. -/
def isFencedForest (environment : Environment) (parent : Option Text) : Forest (Nat × Node) → Bool
  | .nil => true
  | .cons entry below after =>
    (match entry.2.kind with
      | .text text => parent.any rawElements.contains || isFencedText text (beginsFixed environment after)
      | .element element => element.name != "script".toList || isSurelyClosed element
      | _ => true)
    && isFencedForest environment entry.2.name? below && isFencedForest environment parent after

/-- Whether all elements of a forest are written as they stand. -/
def isPlainForest (forest : Forest (Nat × Node)) : Bool :=
  forest.preorder.all fun entry => entry.2.element?.all isPlainElement

theorem isPlainForest_cons {entry : Nat × Node} {below after : Forest (Nat × Node)} :
    isPlainForest (.cons entry below after) = true ↔
      entry.2.element?.all isPlainElement = true ∧ isPlainForest below = true ∧ isPlainForest after = true := by
  simp only [isPlainForest, Forest.preorder, List.all_cons, List.all_append, Bool.and_eq_true]

/-- The tags that are written for a forest. -/
def Compiled.tags (compiled : Compiled) (environment : Environment) : Forest (Nat × Node) → List Shape
  | .nil => []
  | .cons entry below after =>
    (match entry.2.kind with
      | .element element =>
        if element.name = "style".toList then []
        else
          tagShape element.name (reread (compiled.attributeNames environment entry.1 element)) ::
            if isVoid element.name || rawElements.contains element.name then []
            else tags compiled environment below ++ [.closing element.name]
      | _ => [])
    ++ tags compiled environment after

/-! ## Elements -/

theorem html_outputBelow_cons (label : Node × Output) (inner after : Forest (Node × Output)) :
    (outputBelow (.cons label inner after)).html = label.2.html ++ (outputBelow after).html := rfl

theorem html_closingTag (element : Element) (t : Text) :
    (closingTag element).html ++ t = '<' :: '/' :: (element.name ++ '>' :: t) := by
  show '<' :: '/' :: element.name ++ ['>'] ++ t = _
  simp only [List.cons_append, List.append_assoc, List.nil_append]

theorem reread_closed {entries : List (Text × Bool)}
    (h : ∀ entry ∈ entries, entry.2 = false → entry.1.getLast? ≠ some '/') :
    (reread entries).2 = .closed := by
  induction entries with
  | nil => rfl
  | cons entry entries ih =>
    have hothers := ih fun other hother => h other (List.mem_cons_of_mem entry hother)
    rw [reread_cons fun hvalue hlast => absurd hlast (h entry List.mem_cons_self hvalue)]
    exact hothers

theorem reread_attributeNames {element : Element} (h : isSurelyClosed element = true) (compiled : Compiled)
    (environment : Environment) (id : Nat) :
    (reread (compiled.attributeNames environment id element)).2 = .closed := by
  refine reread_closed fun entry hentry hvalue => ?_
  rcases List.mem_append.mp hentry with hentry | hentry
  · obtain ⟨attr, hattr, rfl⟩ := List.mem_map.mp hentry
    obtain ⟨indexed, hindexed, rfl⟩ := List.mem_map.mp hattr
    have hmem := List.fst_mem_of_mem_zipIdx (List.mem_filter.mp hindexed).1
    have hclosed := List.all_eq_true.mp h indexed.1 hmem
    have hnone : indexed.1.isValued = false := hvalue
    rw [hnone, Bool.false_or] at hclosed
    exact bne_iff_ne.mp hclosed
  · -- generated attributes have values
    exfalso
    cases hbinding : compiled.binding? environment id with
    | none =>
      rw [hbinding] at hentry
      cases hentry
    | some binding =>
      rw [hbinding] at hentry
      obtain ⟨attr, hattr, rfl⟩ := List.mem_map.mp hentry
      rcases mem_generatedAttributes hattr with rfl | rfl
      · cases hvalue
      · cases hvalue

theorem eq_script_of_raw {name : Text} (hraw : rawElements.contains name = true)
    (hstyle : name ≠ "style".toList) : name = "script".toList := by
  have hname : name = "script".toList ∨ name = "style".toList := by simpa [rawElements] using hraw
  exact hname.resolve_right hstyle

namespace Frame

variable {site : Site} {frame : Frame} {expand : Frame → Output} {id : Nat} {node : Node}
  {element : Element}

theorem renderElement_of_plain (h : isPlainElement element = true) (inner : Forest (Node × Output)) :
    frame.renderElement site expand id node element inner =
      if element.name = "style".toList then .empty
      else frame.renderPlain site id node element (outputBelow inner) := by
  simp only [isPlainElement, Bool.and_eq_true, Bool.not_eq_true', placeholderElements, List.map_cons,
    List.map_nil, List.contains_cons, List.contains_nil, Bool.or_false, Bool.or_eq_false_iff,
    beq_eq_false_iff_ne, Element.hasAttribute, Option.isSome_eq_false_iff, Option.isNone_iff_eq_none] at h
  obtain ⟨⟨⟨hinclude, houtlet, hinject⟩, hif⟩, -⟩ := h
  rw [renderElement, guarded, hif]
  simp only [renderUnguarded, hinclude, houtlet, hinject, if_false, decide_false, Bool.false_or,
    decide_eq_true_eq]

section

variable (hkey : site.environment = .production → Text.IsBare (site.key frame.compiled.template.id))

include hkey

/-- An element with nodes in it. -/
theorem shapes_renderPlain (helement : element.IsSound) (hraw : rawElements.contains element.name = false)
    {inner : Output} {within : List Shape}
    (hinner : ∀ t, IsFence t → shapes (inner.html ++ t) = within ++ shapes t) (t : Text) :
    shapes ((frame.renderPlain site id node element inner).html ++ t) =
      tagShape element.name (reread (frame.compiled.attributeNames site.environment id element)) ::
        ((if isVoid element.name then [] else within ++ [.closing element.name]) ++ shapes t) := by
  have hwritten : ∀ attr ∈ frame.attributes site id node element, IsWritten attr :=
    isWritten_attributes helement hkey
  rw [renderPlain, ← map_nameOnly_attributes site frame id node element]
  split
  next =>
    rw [html_openingTag]
    simp only [List.cons_append, List.append_assoc, List.nil_append]
    exact shapes_tag helement.name hwritten hraw t
  next =>
    rw [Output.html_append, Output.html_append, html_openingTag, List.append_assoc, List.append_assoc,
      html_closingTag]
    simp only [List.cons_append, List.append_assoc, List.nil_append]
    rw [shapes_tag helement.name hwritten hraw, hinner _ (isFence_of_head? rfl (by decide)), shapes_closing helement.name]

/-- An element with text in it that is left as it is. -/
theorem shapes_renderPlain_raw (helement : element.IsSound) (hname : element.name = "script".toList)
    (hclosed : isSurelyClosed element = true) {inner : Output}
    (hinner : cutFolded ('<' :: '/' :: element.name) inner.html = none) (t : Text) :
    shapes ((frame.renderPlain site id node element inner).html ++ t) =
      tagShape element.name (reread (frame.compiled.attributeNames site.environment id element)) ::
        shapes t := by
  have hwritten : ∀ attr ∈ frame.attributes site id node element, IsWritten attr :=
    isWritten_attributes helement hkey
  have hvoid : isVoid element.name = false := by
    rw [hname]
    decide
  have hraw : rawElements.contains element.name = true := by
    rw [hname]
    decide
  have hread := reread_attributeNames hclosed frame.compiled site.environment id
  rw [← map_nameOnly_attributes site frame id node element] at hread ⊢
  rw [renderPlain, hvoid, if_neg Bool.false_ne_true, Output.html_append, Output.html_append, html_openingTag,
    List.append_assoc, List.append_assoc, html_closingTag]
  simp only [List.cons_append, List.append_assoc, List.nil_append]
  exact shapes_raw helement.name hwritten hraw hvoid hread hinner t

end

/-! ## Forests -/

/-- What is written after a text begins as its source says. -/
theorem isFence_renderForest {forest : Forest (Nat × Node)} {parent : Option Text}
    (hplain : isPlainForest forest = true) (hparent : parent ≠ some "script".toList)
    (h : beginsFixed site.environment forest = true) {t : Text} (ht : IsFence t) :
    IsFence ((outputBelow (frame.renderForest site expand parent forest)).html ++ t) := by
  induction forest with
  | nil => exact ht
  | cons entry below after _ ih =>
    obtain ⟨id, ⟨kind, span, synthetic⟩⟩ := entry
    obtain ⟨helement, -, hafter⟩ := isPlainForest_cons.mp hplain
    rw [renderForest, html_outputBelow_cons, List.append_assoc]
    have htag : isSettling '<' = true := by decide
    cases kind with
    | text text =>
      have hfirst : text.head?.any (fun c => c != '\x7b' && isSettling c) = true := h
      cases hhead : text.head? with
      | none =>
        rw [hhead] at hfirst
        cases hfirst
      | some c =>
        rw [hhead, Option.any_some, Bool.and_eq_true, bne_iff_ne] at hfirst
        simp only [renderNode, if_neg hparent]
        refine isFence_of_head? ?_ hfirst.2
        rw [List.head?_append, head?_interpolate hhead hfirst.1]
        rfl
    | comment text =>
      simp only [beginsFixed] at h
      simp only [renderNode]
      cases henvironment : site.environment with
      | development => exact isFence_of_head? rfl htag
      | production =>
        simp only [henvironment] at h
        exact ih hafter (henvironment ▸ h)
    | declaration text => exact isFence_of_head? rfl htag
    | element element =>
      simp only [renderNode]
      rw [renderElement_of_plain helement]
      by_cases hstyle : element.name = "style".toList
      · rw [if_pos hstyle]
        refine ih hafter ?_
        have hrest : (element.name != "style".toList || beginsFixed site.environment after) = true := h
        rwa [hstyle, bne_self_eq_false, Bool.false_or] at hrest
      · refine isFence_of_head? (c := '<') ?_ htag
        rw [if_neg hstyle, renderPlain]
        split
        next => rw [html_openingTag]; rfl
        next => rw [Output.html_append, Output.html_append, html_openingTag]; rfl

/-- The text in a `script` is written as it is. -/
theorem cutFolded_renderForest {name : Text} (hname : name = "script".toList)
    {below : Forest (Nat × Node)} (h : IsRawContent name (below.map Prod.snd)) :
    cutFolded ('<' :: '/' :: name)
      (outputBelow (frame.renderForest site expand (some name) below)).html = none := by
  cases below with
  | nil => exact if_neg (List.cons_ne_nil _ _)
  | cons entry inner after =>
    rcases h with hnil | ⟨node, content, htree, hkind, hcontent⟩
    · cases hnil
    · simp only [Forest.map, Forest.tree, Forest.cons.injEq] at htree
      obtain ⟨rfl, -, hafter⟩ := htree
      obtain rfl : after = .nil := by
        cases after with
        | nil => rfl
        | cons => cases hafter
      have hwritten : frame.renderNode site expand (some name) entry.1 entry.2
          (frame.renderForest site expand entry.2.name? inner) = .ofText content := by
        simp only [renderNode, hkind, if_pos (congrArg some hname)]
      rw [renderForest, html_outputBelow_cons]
      simp only [hwritten]
      rw [Output.html_ofText]
      exact (List.append_nil content).symm ▸ hcontent

/-- The tags in what is written for a forest are those that its nodes give. -/
theorem shapes_renderForest
    (hkey : site.environment = .production → Text.IsBare (site.key frame.compiled.template.id))
    {forest : Forest (Nat × Node)} {parent : Option Text} (hparent : parent.any rawElements.contains = false)
    (hsound : Sound (forest.map Prod.snd)) (hplain : isPlainForest forest = true)
    (hfenced : isFencedForest site.environment parent forest = true) {t : Text} (ht : IsFence t) :
    shapes ((outputBelow (frame.renderForest site expand parent forest)).html ++ t) =
      frame.compiled.tags site.environment forest ++ shapes t := by
  induction forest generalizing parent t with
  | nil => rfl
  | cons entry below after ihbelow ihafter =>
    obtain ⟨id, ⟨kind, span, synthetic⟩⟩ := entry
    obtain ⟨hplainNode, hplainBelow, hplainAfter⟩ := isPlainForest_cons.mp hplain
    rw [isFencedForest, Bool.and_eq_true, Bool.and_eq_true] at hfenced
    obtain ⟨⟨hfencedNode, hfencedBelow⟩, hfencedAfter⟩ := hfenced
    have hscript : parent ≠ some "script".toList := by
      rintro rfl
      exact absurd hparent (by decide)
    have hafter := ihafter hparent hsound.2 hplainAfter hfencedAfter ht
    rw [renderForest, html_outputBelow_cons, List.append_assoc]
    cases kind with
    | text text =>
      have htext : isFencedText text (beginsFixed site.environment after) = true := by
        simpa only [hparent, Bool.false_or] using hfencedNode
      simp only [renderNode, if_neg hscript]
      rw [shapes_interpolate hsound.1 htext fun hfixed => isFence_renderForest hplainAfter hscript hfixed ht]
      exact hafter
    | comment text =>
      simp only [renderNode]
      cases henvironment : site.environment with
      | development =>
        rw [henvironment] at hafter
        exact (shapes_comment hsound.1 _).trans hafter
      | production =>
        rw [henvironment] at hafter
        exact hafter
    | declaration text =>
      have hwritten (s : Text) : "<!".toList ++ text ++ ['>'] ++ s = '<' :: '!' :: (text ++ '>' :: s) := by
        show '<' :: '!' :: (text ++ ['>'] ++ s) = _
        rw [List.append_assoc]
        rfl
      simp only [renderNode, Output.html_ofText]
      rw [hwritten, shapes_declaration hsound.1]
      exact hafter
    | element element =>
      obtain ⟨helement, hcontent⟩ : element.IsSound ∧ if rawElements.contains element.name
        then IsRawContent element.name (below.map Prod.snd) else Sound (below.map Prod.snd) := hsound.1
      have hname : Node.name? ⟨.element element, span, synthetic⟩ = some element.name := rfl
      simp only [renderNode, Compiled.tags, hname]
      rw [renderElement_of_plain hplainNode]
      by_cases hstyle : element.name = "style".toList
      · rw [if_pos hstyle, if_pos hstyle]
        exact hafter
      · rw [if_neg hstyle, if_neg hstyle]
        by_cases hraw : rawElements.contains element.name = true
        · have hscript := eq_script_of_raw hraw hstyle
          have hclosed : isSurelyClosed element = true := by
            have hnode : (element.name != "script".toList || isSurelyClosed element) = true := hfencedNode
            rwa [hscript, bne_self_eq_false, Bool.false_or] at hnode
          rw [if_pos hraw] at hcontent
          rw [shapes_renderPlain_raw hkey helement hscript hclosed (cutFolded_renderForest hscript hcontent),
            hafter, hraw, Bool.or_true, if_pos rfl]
          rfl
        · have hnotRaw := Bool.eq_false_iff.mpr hraw
          rw [if_neg hraw] at hcontent
          have hbelow (s : Text) (hs : IsFence s) :=
            @ihbelow (some element.name) hnotRaw hcontent hplainBelow hfencedBelow s hs
          rw [shapes_renderPlain hkey helement hnotRaw hbelow, hafter, hnotRaw, Bool.or_false, List.cons_append,
            List.cons_append, List.append_assoc]

end Frame

/-! ## Pages -/

namespace Template

/-- Whether all elements of the source of a template are written as they stand. -/
def isPlain (template : Template) : Bool :=
  isPlainForest (Document.parse template.source).1.forest

/-- Whether no value decides what is markup in the output of a template. -/
def isFenced (template : Template) (environment : Environment) : Bool :=
  isFencedForest environment none (Document.parse template.source).1.forest

/-- The tags in the output of a template. -/
def tags (template : Template) (environment : Environment) : List Shape :=
  template.compile.tags environment template.document.forest

theorem document_of_plain {template : Template} (h : template.isPlain = true) :
    template.document = (Document.parse template.source).1 := by
  have htargets : markdownTargets (Document.parse template.source).1 = [] := by
    rw [markdownTargets, List.filterMap_eq_nil_iff]
    rintro ⟨id, node⟩ hentry
    have hplain := List.all_eq_true.mp h (id, node) hentry
    cases helement : node.element? with
    | none => simp only [helement]
    | some element =>
      simp only [helement, Option.all_some, isPlainElement, Bool.and_eq_true, Bool.not_eq_true'] at hplain
      simp only [helement, hplain.2, Bool.false_eq_true, if_false]
  simp only [document, convert]
  rw [htargets]
  rfl

end Template

/-- The tags in a rendered page are those that its source gives. -/
theorem Site.shapes_render {site : Site} {page : Template} (hplain : page.isPlain = true)
    (hfenced : page.isFenced site.environment = true)
    (hkey : site.environment = .production → Text.IsBare (site.key page.id)) :
    shapes (site.render page).html = page.tags site.environment := by
  have hdocument := Template.document_of_plain hplain
  have hsound : Sound (page.document.forest.map Prod.snd) := by
    rw [hdocument]
    show Sound (((Markup.parse page.source).1.number 1).map Prod.snd)
    rw [Forest.map_snd_number]
    exact sound_parse page.source
  rw [Template.isPlain, ← hdocument] at hplain
  rw [Template.isFenced, ← hdocument] at hfenced
  have hshapes := @Frame.shapes_renderForest site (.outermost page) (site.expand site.components.size) hkey
    page.document.forest none rfl hsound hplain hfenced [] isFence_nil
  rw [List.append_nil, shapes_nil, List.append_nil] at hshapes
  exact hshapes

namespace Project

/-- The project with another table of globals. -/
def withGlobals (project : Project) (globals : Table Text Text) : Project :=
  { project with globals := globals }

/-- **Values do not make markup.** If all elements of a page are written as they stand and no value
decides what is markup, then with any two tables of globals the page is rendered, the tags in the markup
are those that its source gives, and the same elements with the same attributes are read off it, nested in
the same way and in the same order. -/
theorem structure_unaffected (project : Project) {path : Text} {page : Template}
    (hpage : project.page? path = some page) (hplain : page.isPlain = true)
    (hfenced : page.isFenced project.environment = true) (globals globals' : Table Text Text) :
    ∃ first second : Rendering,
      (project.withGlobals globals).render path = .ok first ∧
      (project.withGlobals globals').render path = .ok second ∧
      shapes first.html = page.tags project.environment ∧
      shapes second.html = page.tags project.environment ∧
      (Document.parse first.html).1.skeleton = (Document.parse second.html).1.skeleton ∧
      (Document.parse first.html).1.labels = (Document.parse second.html).1.labels := by
  have hmem : page ∈ project.templates := mem_templates (show project.template? (.page path) = _ from hpage)
  have hshapes (globals : Table Text Text) :
      shapes ((project.withGlobals globals).site.render page).html =
        page.tags project.environment :=
    Site.shapes_render hplain hfenced fun hproduction => isBare_key hproduction hmem
  have hrender (globals : Table Text Text) : (project.withGlobals globals).render path =
      .ok ((project.withGlobals globals).site.render page) := by
    have hsame : (project.withGlobals globals).page? path = some page := hpage
    rw [render, hsame]
  have hskeleton : (Document.parse ((project.withGlobals globals).site.render page).html).1.skeleton =
      (Document.parse ((project.withGlobals globals').site.render page).html).1.skeleton := by
    rw [Document.skeleton_parse, Document.skeleton_parse, hshapes, hshapes]
  refine ⟨_, _, hrender globals, hrender globals', hshapes globals, hshapes globals', hskeleton, ?_⟩
  rw [Document.labels_eq, Document.labels_eq, hskeleton]

/-- A page with a value in every place, in production. -/
def notice : Project :=
  Project.empty.run
    [.setEnvironment .production, .setGlobals [("$t".toList, "<b x=\"1\">".toList)],
      .addPage "/".toList
        ("<p a=\"\x7b\x7b $t \x7d\x7d\" x-data @click=\"go\"><!--c--><b>\x7b\x7b $t \x7d\x7d <</b><br>" ++
          "<script>a <b \x7b\x7b $t \x7d\x7d</script><style>.a \x7b\x7d</style></p>").toList]

theorem structure_unaffected_of_notice :
    notice.Reachable ∧
      ∃ page, notice.page? "/".toList = some page ∧ page.isPlain = true ∧
        page.isFenced notice.environment = true ∧
        ∃ first second : Rendering,
          first.html =
            ("<p a=\"&lt;b x=&quot;1&quot;&gt;\" x-data=\"p0\" x-bind=\"p0b1\"><b>&lt;b x=\"1\"&gt; <</b>" ++
              "<br><script>a <b \x7b\x7b $t \x7d\x7d</script></p>").toList ∧
          second.html =
            ("<p a=\"&quot; y=&quot;\" x-data=\"p0\" x-bind=\"p0b1\"><b>\" y=\" <</b>" ++
              "<br><script>a <b \x7b\x7b $t \x7d\x7d</script></p>").toList ∧
          (Document.parse first.html).1.labels = (Document.parse second.html).1.labels ∧
          (Document.parse first.html).1.labels =
            [("p".toList, ["a".toList, "x-data".toList, "x-bind".toList]), ("b".toList, []),
              ("br".toList, []), ("script".toList, [])] := by
  have hregistered : (notice.page? "/".toList).isSome = true := by decide +kernel
  have hpages : ∀ page ∈ notice.page? "/".toList,
      page.isPlain = true ∧ page.isFenced notice.environment = true := by
    decide +kernel
  obtain ⟨page, hpage⟩ := Option.isSome_iff_exists.mp hregistered
  obtain ⟨hplain, hfenced⟩ := hpages page hpage
  obtain ⟨first, second, hfirst, hsecond, -, -, -, hlabels⟩ := structure_unaffected notice hpage hplain hfenced
    notice.globals ((∅ : Table Text Text).insert "$t".toList "\" y=\"".toList)
  have hread {α : Type} (f : Rendering → α) {globals : Table Text Text} {rendering : Rendering} {value : α}
      (h : (notice.withGlobals globals).render "/".toList = .ok rendering)
      (hvalue : ((notice.withGlobals globals).render "/".toList).toOption.map f = some value) :
      f rendering = value := by
    rw [h] at hvalue
    exact Option.some.inj hvalue
  exact ⟨reachable_run_empty _, page, hpage, hplain, hfenced, first, second,
    hread Rendering.html hfirst (by decide +kernel), hread Rendering.html hsecond (by decide +kernel), hlabels,
    hread (fun rendering => (Document.parse rendering.html).1.labels) hfirst (by decide +kernel)⟩

/-- The elements and attributes that are read off a rendered page. -/
def labelsAt (project : Project) (path : Text) : Option (List (Text × List Text)) :=
  (project.render path).toOption.map fun rendering => (Document.parse rendering.html).1.labels

/-- Pages where a value follows `<` or `</`, or a `script` that is not closed any more. -/
def exposed : Project :=
  Project.empty.run
    [.setGlobals [("$g".toList, "1".toList)],
      .addPage "/".toList "<\x7b\x7b $g \x7d\x7d>x".toList,
      .addPage "/a".toList "<p></\x7b\x7b $g \x7d\x7d <i>x</i></p>".toList,
      .addPage "/b".toList "a <</br>\x7b\x7b $g \x7d\x7d>x".toList,
      .addPage "/c".toList "<svg><script a/ >\"<b c=\"</script>\x7b\x7b $g \x7d\x7d</svg>".toList]

/-- Nothing is reported, and a value opens a tag, closes one or adds an attribute. -/
theorem structure_changes :
    exposed.Reachable ∧ exposed.diagnostics.1 = [] ∧
      ∀ entry ∈ [("/", "b"), ("/a", "p"), ("/b", "b"), ("/c", "\" d")],
        (exposed.page? entry.1.toList).any Template.isPlain = true ∧
          (exposed.perform (.setGlobals [("$g".toList, entry.2.toList)])).labelsAt entry.1.toList ≠
            exposed.labelsAt entry.1.toList := by
  exact ⟨reachable_run_empty _, by decide +kernel⟩

end Project

end Sitewright
