import Sitewright.Project.Diagnostics
import Sitewright.Proofs.Project.Preservation
import Sitewright.Proofs.Project.Stylesheet
import Sitewright.Proofs.Style.Citation

/-!
Globals that are left in the style sheet of a project. They are found in the built text as a whole, but they are
reported from what was found in the sheet of the project and in the styles of templates, each read by itself. The
two agree on values, media queries and the heads of at-rules; variables in statements, selectors and properties are
in the text and are reported nowhere (`unresolved_reported`).
-/

namespace Sitewright

theorem Forest.preorder_concat {α : Type} (forests : List (Forest α)) :
    (Forest.concat forests).preorder = forests.flatMap Forest.preorder := by
  induction forests with
  | nil => rfl
  | cons first rest ih => rw [concat_cons, preorder_append, ih, List.flatMap_cons]

namespace Style

theorem Sheet.mem_preorder_outline {sheet : Sheet} {rule : Rule} :
    rule ∈ sheet.outline.top.preorder ↔ ∃ entry ∈ sheet.rules.preorder, entry.2.bare = rule := by
  rw [Sheet.outline, Forest.preorder_map, List.mem_map]

theorem mem_preorder_outlineOfPieces {texts : List Text} {rule : Rule} :
    rule ∈ (outlineOfPieces texts).top.preorder ↔
      ∃ text ∈ texts, rule ∈ (Sheet.parse text).outline.top.preorder := by
  rw [outlineOfPieces, Forest.preorder_concat, List.flatMap_map, List.mem_flatMap]

/-- The globals without a value are those of the text. -/
theorem mem_unresolved {lookup : Text → Option Text} {css name : Text} :
    name ∈ (substitute lookup css).unresolved ↔
      name ∈ namesIn id css ∧ Naming.isGlobalName name = true ∧ lookup name = none := by
  have hpiece (piece : Piece Char) : piece.unresolved? lookup = some name ↔
      piece.name? = some name ∧ Naming.isGlobalName name = true ∧ lookup name = none := by
    cases piece with
    | plain c => simp [Piece.unresolved?, Piece.name?]
    | named items =>
      simp only [Piece.unresolved?, Piece.name?, Option.ite_none_right_eq_some, Bool.and_eq_true,
        Option.isNone_iff_eq_none, Option.some.injEq]
      constructor
      · rintro ⟨⟨hglobal, hnone⟩, rfl⟩
        exact ⟨rfl, hglobal, hnone⟩
      · rintro ⟨rfl, hglobal, hnone⟩
        exact ⟨⟨hglobal, hnone⟩, rfl⟩
  rw [substitute, namesIn_eq, List.mem_eraseDups, List.mem_filterMap, List.mem_filterMap]
  simp only [hpiece]
  constructor
  · rintro ⟨piece, hmem, hname, hglobal⟩
    exact ⟨⟨piece, hmem, hname⟩, hglobal⟩
  · rintro ⟨⟨piece, hmem, hname⟩, hglobal⟩
    exact ⟨piece, hmem, hname, hglobal⟩

end Style

namespace Project

open Style

variable {project : Project}
variable {name : Text}

/-! ## What the parts of the sheet refer to -/

/-- The sheet of the project or a style of a template refers to a global. -/
def Mentions (project : Project) (name : Text) : Prop :=
  Cited (Sheet.parse project.css).references name ∨
    ∃ template ∈ project.templates, Cited template.analysis.styleGlobals name

theorem mentions_of_style {text : Text} (htext : text ∈ project.styleTexts)
    (hcited : Cited (Sheet.parse text).references name) : project.Mentions name := by
  obtain ⟨template, htemplate, hstyle⟩ := List.mem_flatMap.mp htext
  obtain ⟨reference, hreference, rfl⟩ := hcited
  obtain ⟨listed, hlisted, heq⟩ := (Template.sound_and_listed_of_mem template hstyle).2 reference hreference
  exact .inr ⟨template, htemplate, listed, hlisted, heq⟩

/-- The rules of the sheet with the styles of templates are those of its parts, so their globals are mentioned. -/
theorem cites_mergedStyles (hcss : (Sheet.parse project.css).isMalformed = false)
    (hsevered : Severed project.stylePieces) :
    ∀ entry ∈ (Sheet.parse project.mergedStyles).rules.preorder, entry.2.Cites project.Mentions := by
  intro entry hentry
  obtain ⟨first, rest, hsegments⟩ := exists_segments (Sheet.parse project.css)
  rw [stylePieces, hsegments] at hsevered
  have hmerged := Sheet.outline_parse (outlineOf_of_ends (ends_mergedStyles hcss hsegments hsevered))
  have hbare : entry.2.bare ∈ (Sheet.parse project.mergedStyles).outline.top.preorder :=
    Sheet.mem_preorder_outline.mpr ⟨entry, hentry, rfl⟩
  rw [hmerged] at hbare
  obtain ⟨text, htext, hbare⟩ := mem_preorder_outlineOfPieces.mp hbare
  have hplace : text ∈ project.styleTexts ∨ text ∈ (Sheet.parse project.css).segments := by
    rw [hsegments]
    rcases List.mem_cons.mp htext with rfl | htext
    · exact .inr List.mem_cons_self
    · exact (List.mem_append.mp htext).imp_right (List.mem_cons_of_mem _)
  rcases hplace with hstyle | hsegment
  · obtain ⟨written, hwritten, heq⟩ := Sheet.mem_preorder_outline.mp hbare
    exact ((Sheet.cites_parse hwritten).of_bare heq.symm).imp fun name => mentions_of_style hstyle
  · have hsheet : entry.2.bare ∈ (outlineOfPieces (Sheet.parse project.css).segments).top.preorder :=
      mem_preorder_outlineOfPieces.mpr ⟨text, hsegment, hbare⟩
    rw [(segmented hcss).top] at hsheet
    obtain ⟨written, hwritten, heq⟩ := Sheet.mem_preorder_outline.mp hsheet
    exact ((Sheet.cites_parse hwritten).of_bare heq.symm).imp fun name => .inl

/-! ## Records -/

theorem template?_of_mem_templates {template : Template} (h : template ∈ project.templates) :
    project.template? template.id = some template := by
  rcases List.mem_append.mp h with h | h
  · obtain ⟨⟨name, source⟩, hmem, rfl⟩ := List.mem_map.mp h
    exact Option.map_eq_some_iff.mpr ⟨source, Table.mem_entries.mp hmem, rfl⟩
  · obtain ⟨⟨path, source⟩, hmem, rfl⟩ := List.mem_map.mp h
    exact Option.map_eq_some_iff.mpr ⟨source, Table.mem_entries.mp hmem, rfl⟩

/-- Asking for the problems of a template changes nothing but the cache and its counts. -/
theorem exists_templateDiagnostics (project : Project) (id : TemplateId) :
    ∃ cache stats, (project.templateDiagnostics id).2 = { project with cache, stats } := by
  rw [templateDiagnostics]
  split
  · exact ⟨_, _, rfl⟩
  split
  · exact ⟨_, _, rfl⟩
  · exact ⟨_, _, rfl⟩

theorem mem_diagnosticsOf (h : Coherent project) {ids : List TemplateId} {id : TemplateId} (hid : id ∈ ids)
    {template : Template} (ht : project.template? id = some template) {record : Record}
    (hrecord : record ∈ project.computeDiagnostics template) : record ∈ (project.diagnosticsOf ids).1 := by
  induction ids generalizing project with
  | nil => cases hid
  | cons first rest ih =>
    change record ∈ (project.templateDiagnostics first).1 ++
      ((project.templateDiagnostics first).2.diagnosticsOf rest).1
    rcases List.mem_cons.mp hid with rfl | hid
    · refine List.mem_append_left _ ?_
      rw [h.templateDiagnostics_eq ht]
      exact hrecord
    · refine List.mem_append_right _ ?_
      have hasked := h.templateDiagnostics first
      obtain ⟨cache, stats, heq⟩ := exists_templateDiagnostics project first
      rw [heq] at hasked
      have hrest := ih hasked hid ht hrecord
      rw [← heq] at hrest
      exact hrest

/-- A global without a value that is mentioned is reported. -/
theorem exists_record (h : Coherent project) (hmentions : project.Mentions name)
    (hname : name ∈ (substitute project.globals.get? project.builtStyles).unresolved) :
    ∃ record ∈ project.diagnostics.1, record.message = (Problem.unknownGlobal name).message := by
  obtain ⟨-, -, hnone⟩ := mem_unresolved.mp hname
  rcases hmentions with ⟨reference, hreference, rfl⟩ | ⟨template, htemplate, reference, hreference, rfl⟩
  · have hrecord : ((Problem.unknownGlobal reference.global).located reference.part.range).toRecord none ∈
        unresolvedRecords (Sheet.parse project.css)
          (substitute project.globals.get? project.builtStyles).unresolved :=
      List.mem_flatMap.mpr ⟨reference.global, hname, List.mem_map.mpr
        ⟨reference, List.mem_filter.mpr ⟨hreference, decide_eq_true rfl⟩, rfl⟩⟩
    exact ⟨_, List.mem_append_left _ (List.mem_append_right _ (List.mem_append_right _ hrecord)), rfl⟩
  · have hproblem : (Template.Problem.unknownStyleGlobal reference.global).located reference.part.range ∈
        project.contextProblems template := by
      refine List.mem_append_left _ (List.mem_append_right _ (List.mem_map.mpr ⟨reference, ?_, rfl⟩))
      refine List.mem_filter.mpr ⟨hreference, ?_⟩
      rw [Table.contains, hnone]
      rfl
    have hrecord : ((Template.Problem.unknownStyleGlobal reference.global).located reference.part.range).toRecord
        (some template.id.name) ∈ project.computeDiagnostics template :=
      List.mem_append_right _ (List.mem_map_of_mem hproblem)
    have hasked := mem_diagnosticsOf h (List.mem_map_of_mem htemplate) (template?_of_mem_templates htemplate) hrecord
    exact ⟨_, List.mem_append_right _ hasked, rfl⟩

/-- A sheet that is malformed is built as nothing, and no global is left in it. -/
theorem wellFormed_of_unresolved (hname : name ∈ (substitute project.globals.get? project.builtStyles).unresolved) :
    (Sheet.parse project.mergedStyles).isMalformed = false := by
  by_contra hmalformed
  have hbuilt : project.builtStyles = [] := by
    change (Sheet.parse project.mergedStyles).buildOrdered project.globals.keys = []
    rw [Sheet.buildOrdered, if_pos (eq_true_of_ne_false hmalformed)]
  obtain ⟨hmem, -⟩ := mem_unresolved.mp hname
  rw [hbuilt] at hmem
  cases hmem

/-- **A global that is left in the style sheet is reported, unless nothing looks for it.** This needs that the parts
of the sheet are read by themselves as they are in the whole: no style ends what the sheet of the project leaves open,
no statement goes on in the next part, and no selector or property leaves a string open. -/
theorem unresolved_reported (hreachable : project.Reachable)
    (hcss : (Sheet.parse project.mergedStyles).isMalformed = false →
      (Sheet.parse project.css).isMalformed = false)
    (hsevered : Severed project.stylePieces) (hclosed : (Sheet.parse project.mergedStyles).LeavesClosed)
    (name : Text) (hname : name ∈ (substitute project.globals.get? project.builtStyles).unresolved) :
    (∃ record ∈ project.diagnostics.1, record.message = (Problem.unknownGlobal name).message) ∨
      (Sheet.parse project.mergedStyles).Overlooks name := by
  have hwell := wellFormed_of_unresolved hname
  obtain ⟨hmem, hglobal, -⟩ := mem_unresolved.mp hname
  have hparts := cites_mergedStyles (hcss hwell) hsevered
  have hcites := Sheet.cites_buildOrdered hwell hclosed hparts project.globals.keys
  exact (hcites name hmem hglobal).imp_left fun hmentions => exists_record hreachable.coherent hmentions hname

/-- A sheet and the style of a component, with globals in a media query, in values and in a statement. -/
def unvalued : Project :=
  Project.empty.run
    [.setCss ("@import $w;\n@media (min-width: $x) \x7b .a \x7b b: c \x7d \x7d\n" ++
        ".d \x7b @media print \x7b e: calc($y + 1px) \x7d \x7d").toList,
      .addComponent "card".toList "<style>.k \x7b l: \"$v\" $z \x7d</style>".toList]

/-- The globals without a value are reported, but for the one of the statement. -/
theorem unresolved_reported_of_unvalued :
    unvalued.Reachable ∧
      (substitute unvalued.globals.get? unvalued.builtStyles).unresolved =
        ["$w", "$z", "$x", "$y"].map String.toList ∧
      (∀ name ∈ ["$x", "$y", "$z"].map String.toList,
        ∃ record ∈ unvalued.diagnostics.1, record.message = (Problem.unknownGlobal name).message) ∧
      (Sheet.parse unvalued.mergedStyles).Overlooks "$w".toList := by
  have hreachable : unvalued.Reachable := reachable_run_empty _
  have hfacts : (Sheet.parse unvalued.css).isMalformed = false ∧ Severed unvalued.stylePieces ∧
      (Sheet.parse unvalued.mergedStyles).LeavesClosed ∧
      (substitute unvalued.globals.get? unvalued.builtStyles).unresolved =
        ["$w", "$z", "$x", "$y"].map String.toList ∧
      (∀ name ∈ ["$x", "$y", "$z"].map String.toList,
        name ∈ (substitute unvalued.globals.get? unvalued.builtStyles).unresolved ∧
          ¬(Sheet.parse unvalued.mergedStyles).Overlooks name) ∧
      (Sheet.parse unvalued.mergedStyles).Overlooks "$w".toList := by
    decide +kernel
  obtain ⟨hcss, hsevered, hclosed, hunresolved, hseen, hoverlooked⟩ := hfacts
  refine ⟨hreachable, hunresolved, fun name hmem => ?_, hoverlooked⟩
  obtain ⟨hname, hlooks⟩ := hseen name hmem
  exact (unresolved_reported hreachable (fun _ => hcss) hsevered hclosed name hname).resolve_right hlooks

/-- A history leads to a project with a global in its style sheet that no record is about. -/
def Conceals (history : List Operation) (name : Text) : Prop :=
  (Project.empty.run history).Reachable ∧
    name ∈ (substitute (Project.empty.run history).globals.get? (Project.empty.run history).builtStyles).unresolved ∧
    ∀ record ∈ (Project.empty.run history).diagnostics.1, record.message ≠ (Problem.unknownGlobal name).message

/-- No record is about a global in a statement, in a selector, in a property, or after a property with half of a
string; in a statement that goes on in a style; or in a string of a style that ends a comment of the sheet. -/
theorem unresolved_unreported :
    Conceals [.setCss "@import $x;".toList] "$x".toList ∧
      Conceals [.setCss ".a$x \x7b b: c \x7d".toList] "$x".toList ∧
      Conceals [.setCss ".a \x7b $x: c \x7d".toList] "$x".toList ∧
      Conceals [.setCss ".a \x7b x\":\"y: $x \x7d".toList] "$x".toList ∧
      Conceals [.setCss "@import $x".toList, .addPage "/".toList "<style>.c \x7b d: e \x7d</style>".toList]
        "$x".toList ∧
      Conceals [.setCss ".a \x7b /*".toList,
        .addPage "/".toList "<style>.d \x7b e: \"*/ f: $x \x7d /*\" \x7d/**/</style>".toList] "$x".toList := by
  refine ⟨⟨reachable_run_empty _, ?_⟩, ⟨reachable_run_empty _, ?_⟩, ⟨reachable_run_empty _, ?_⟩,
    ⟨reachable_run_empty _, ?_⟩, ⟨reachable_run_empty _, ?_⟩, ⟨reachable_run_empty _, ?_⟩⟩ <;> decide +kernel

end Project

end Sitewright
