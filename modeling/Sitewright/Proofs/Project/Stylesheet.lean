import Sitewright.Project.Stylesheet
import Sitewright.Proofs.Project.History
import Sitewright.Proofs.Style.Extents
import Sitewright.Proofs.Template.Growth

/-!
The style sheet of a project has the rules of its parts: of its own sheet up to the mark, of the styles of
templates, and of its own sheet after the mark. The parts are put together as texts, so this needs that no
part leaves a statement open that what follows would go on with (`Severed`).
-/

namespace Sitewright

theorem Forest.concat_append {α : Type} (a b : List (Forest α)) :
    Forest.concat (a ++ b) = Forest.concat a ++ Forest.concat b := by
  induction a with
  | nil => rfl
  | cons first rest ih => rw [List.cons_append, concat_cons, ih, concat_cons, Forest.append_assoc]

theorem Forest.append_cancel_left {α : Type} {f g h : Forest α} (heq : f ++ g = f ++ h) : g = h := by
  induction f with
  | nil => exact heq
  | cons label below after _ ih => exact ih (Forest.cons.inj heq).2.2

namespace Style

/-! ## A sheet between its marks -/

/-- A text from an offset on, cut at ranges. -/
def cutAt (text : Text) (start : Nat) : List CharRange → List Text
  | [] => [text.drop start]
  | range :: rest => (text.take range.start).drop start :: cutAt text range.stop rest

namespace Sheet

/-- What stands between the marks for the styles of templates. -/
def segments (sheet : Sheet) : List Text :=
  cutAt sheet.source 0 (sheet.placeholders.map Statement.extent)

/-- What stands before the first mark, or everything. -/
def before (sheet : Sheet) : Text :=
  match sheet.placeholders with
  | [] => sheet.source
  | mark :: _ => sheet.source.take mark.extent.start

/-- What stands after the first mark. -/
def after (sheet : Sheet) : Text :=
  match sheet.placeholders with
  | [] => []
  | mark :: _ => sheet.source.drop mark.extent.stop

end Sheet

theorem outlineOfPieces_append (a b : List Text) :
    (outlineOfPieces (a ++ b)).top = (outlineOfPieces a).top ++ (outlineOfPieces b).top ∧
      (outlineOfPieces (a ++ b)).statements = (outlineOfPieces a).statements ++ (outlineOfPieces b).statements := by
  simp only [outlineOfPieces, List.map_append, Forest.concat_append, List.flatMap_append, and_self]

theorem outlineOfPieces_singleton (piece : Text) :
    (outlineOfPieces [piece]).top = (Sheet.parse piece).outline.top ∧
      (outlineOfPieces [piece]).statements = (Sheet.parse piece).outline.statements := by
  simp [outlineOfPieces, Forest.concat]

theorem cutAt_append {u v w : Text} {ranges : List CharRange}
    (h : ∀ range ∈ ranges, range.start ≤ u.length ∧ range.stop ≤ u.length) {start : Nat}
    (hstart : start ≤ u.length) :
    cutAt (u ++ v ++ w) start (ranges ++ [⟨u.length, (u ++ v).length⟩]) = cutAt u start ranges ++ [w] := by
  induction ranges generalizing start with
  | nil =>
    simp only [cutAt, List.nil_append, List.drop_left]
    rw [List.append_assoc, List.take_left]
    rfl
  | cons range rest ih =>
    rw [List.forall_mem_cons] at h
    rw [List.cons_append, cutAt, cutAt, ih h.2 h.1.2, List.append_assoc, List.take_append_of_le_length h.1.1]
    rfl

end Style

namespace Project

open Style

theorem replaceRange_cut (u v w substitute : Text) :
    replaceRange (u ++ v ++ w) ⟨u.length, (u ++ v).length⟩ substitute = u ++ substitute ++ w := by
  rw [replaceRange]
  simp only [List.drop_left]
  rw [List.append_assoc u v w, List.take_left]

theorem fillPlaceholders_append (css inline : Text) (marks : List Statement) (mark : Statement) :
    fillPlaceholders css inline (marks ++ [mark]) =
      fillPlaceholders (replaceRange css mark.extent (if marks = [] then inline else [])) inline marks := by
  simp [fillPlaceholders, List.zipIdx_append]

end Project

namespace Style

open Project

/-- A sheet has what it has between its marks, and the styles of templates are put there. -/
structure Segmented (source : Text) : Prop where
  wellFormed : ∀ segment ∈ (Sheet.parse source).segments, (Sheet.parse segment).isMalformed = false
  top : (outlineOfPieces (Sheet.parse source).segments).top = (Sheet.parse source).outline.top
  statements : (outlineOfPieces (Sheet.parse source).segments).statements =
    (Sheet.parse source).outline.statements.filter (· ≠ "@inlineCSS".toList)
  fill : (Sheet.parse source).placeholders ≠ [] → ∀ first rest, (Sheet.parse source).segments = first :: rest →
    ∀ inline after, fillPlaceholders (source ++ after) inline (Sheet.parse source).placeholders =
      first ++ inline ++ rest.flatten ++ after

theorem extent_le {source : Text} (h : (Sheet.parse source).isMalformed = false) {statement : Statement}
    (hmem : statement ∈ (Sheet.parse source).statements) :
    statement.extent.start ≤ source.length ∧ statement.extent.stop ≤ source.length := by
  obtain ⟨earlier, later, heq⟩ := List.append_of_mem hmem
  obtain ⟨u, v, w, -, -, -, hsource, hextent, -⟩ := Statement.parts_of_statements h heq
  rw [hextent, hsource]
  simp only [List.length_append]
  omega

section

variable {source : Text}
variable {mark : Statement}

theorem filter_unmarked {statements : List Statement} (h : statements.filter Statement.isPlaceholder = []) :
    (statements.map Statement.text).filter (· ≠ "@inlineCSS".toList) = statements.map Statement.text := by
  rw [List.filter_eq_self]
  intro text hmem
  obtain ⟨statement, hstatement, rfl⟩ := List.mem_map.mp hmem
  refine decide_eq_true fun heq => List.filter_eq_nil_iff.mp h statement hstatement ?_
  rw [Statement.isPlaceholder, heq]
  exact beq_self_eq_true _

theorem filter_mark (hmark : mark.isPlaceholder = true) (a b : List Text) :
    (a ++ mark.text :: b).filter (· ≠ "@inlineCSS".toList) =
      a.filter (· ≠ "@inlineCSS".toList) ++ b.filter (· ≠ "@inlineCSS".toList) := by
  have hdropped : decide (mark.text ≠ "@inlineCSS".toList) = false :=
    decide_eq_false fun hne => hne (beq_iff_eq.mp hmark)
  rw [List.filter_append, List.filter_cons_of_neg (by rw [hdropped]; exact Bool.false_ne_true)]

theorem Sheet.statements_of_cut {u : Text} {earlier later : List Statement}
    (heq : (Sheet.parse source).statements = earlier ++ mark :: later)
    (hearlier : (Sheet.parse u).statements = earlier) : (Sheet.parse source).outline.statements =
      (Sheet.parse u).outline.statements ++ mark.text :: later.map Statement.text := by
  simp only [Sheet.outline, heq, hearlier, List.map_append, List.map_cons]

/-- Where a mark is cut out, the statements before and after it are on either side. -/
theorem exists_cut_mark (h : (Sheet.parse source).isMalformed = false) {earlier later : List Statement}
    (heq : (Sheet.parse source).statements = earlier ++ mark :: later) :
    ∃ u v w, source = u ++ v ++ w ∧ mark.extent = ⟨u.length, (u ++ v).length⟩ ∧
      (Sheet.parse u).isMalformed = false ∧ (Sheet.parse u).statements = earlier ∧
      (Sheet.parse w).isMalformed = false ∧ (Sheet.parse w).outline.statements = later.map Statement.text ∧
      (Sheet.parse source).outline.top = (Sheet.parse u).outline.top ++ (Sheet.parse w).outline.top := by
  obtain ⟨u, v, w, outline, more, forest, hsource, hextent, hsettled, hearlier, hends, houtline⟩ :=
    Statement.parts_of_statements h heq
  have hu := outlineOf_of_reaches hsettled.reaches
  have hw := outlineOf_of_ends hends
  have htop : (Sheet.parse source).outline.top = outline.top ++ forest := by
    rw [houtline, Outline.add_add]
    simp only [Outline.add, hsettled.top]
    rfl
  have hstatements : (Sheet.parse source).outline.statements = outline.statements ++ mark.text :: more := by
    rw [houtline, Outline.add_add]
    simp only [Outline.add, hsettled.top]
    rfl
  refine ⟨u, v, w, hsource, hextent, Sheet.isMalformed_of_outline hu, hearlier, Sheet.isMalformed_of_outline hw, ?_, ?_⟩
  · rw [Sheet.statements_of_cut heq hearlier, Sheet.outline_parse hu] at hstatements
    rw [Sheet.outline_parse hw]
    exact (List.cons.inj (List.append_cancel_left hstatements)).2.symm
  · rw [htop, Sheet.outline_parse hu, Sheet.outline_parse hw]

theorem exists_segments (sheet : Sheet) : ∃ first rest, sheet.segments = first :: rest := by
  rw [Sheet.segments]
  cases sheet.placeholders.map Statement.extent with
  | nil => exact ⟨_, _, rfl⟩
  | cons range rest => exact ⟨_, _, rfl⟩

theorem segments_of_unmarked (h : (Sheet.parse source).placeholders = []) :
    (Sheet.parse source).segments = [source] := by
  rw [Sheet.segments, h]
  rfl

section

variable {u v w : Text} {mark : Statement}
  (hmarks : (Sheet.parse (u ++ v ++ w)).placeholders = (Sheet.parse u).placeholders ++ [mark])
  (hextent : mark.extent = ⟨u.length, (u ++ v).length⟩)

include hmarks hextent

/-- The last mark cuts off the last segment. -/
theorem segments_of_cut (hu : (Sheet.parse u).isMalformed = false) :
    (Sheet.parse (u ++ v ++ w)).segments = (Sheet.parse u).segments ++ [w] := by
  rw [Sheet.segments, hmarks, List.map_append, List.map_singleton, hextent, Sheet.segments]
  refine cutAt_append (fun range hrange => ?_) (Nat.zero_le _)
  obtain ⟨statement, hmem, rfl⟩ := List.mem_map.mp hrange
  exact extent_le hu (List.mem_of_mem_filter hmem)

theorem fillPlaceholders_of_cut (hu : (Sheet.parse u).isMalformed = false) (hsegmented : Segmented u)
    {first : Text} {rest : List Text} (hfirst : (Sheet.parse (u ++ v ++ w)).segments = first :: rest)
    (inline after : Text) :
    fillPlaceholders (u ++ v ++ w ++ after) inline (Sheet.parse (u ++ v ++ w)).placeholders =
      first ++ inline ++ rest.flatten ++ after := by
  have hreplace (substitute : Text) :
      replaceRange (u ++ v ++ w ++ after) mark.extent substitute = u ++ (substitute ++ (w ++ after)) := by
    rw [hextent, List.append_assoc, replaceRange_cut, List.append_assoc]
  obtain ⟨first', others, hothers⟩ := exists_segments (Sheet.parse u)
  rw [segments_of_cut hmarks hextent hu, hothers, List.cons_append] at hfirst
  cases hfirst
  rw [hmarks, fillPlaceholders_append, hreplace, List.flatten_append, List.flatten_singleton]
  by_cases hnil : (Sheet.parse u).placeholders = []
  · -- the styles of templates stand at this mark
    rw [segments_of_unmarked hnil] at hothers
    cases hothers
    simp [fillPlaceholders, hnil]
  · rw [if_neg hnil, List.nil_append, hsegmented.fill hnil first others hothers]
    simp only [List.append_assoc]

end

theorem segmented (h : (Sheet.parse source).isMalformed = false) : Segmented source := by
  generalize hmarks : (Sheet.parse source).placeholders = marks
  induction marks using List.reverseRecOn generalizing source with
  | nil =>
    have hsegments := segments_of_unmarked hmarks
    obtain ⟨htop, hstatements⟩ := outlineOfPieces_singleton source
    refine ⟨?_, ?_, ?_, fun hne => absurd hmarks hne⟩
    · rw [hsegments]
      exact List.forall_mem_singleton.mpr h
    · rw [hsegments, htop]
    · rw [hsegments, hstatements]
      exact (filter_unmarked hmarks).symm
  | append_singleton marks mark ih =>
    obtain ⟨before, rest, hstatements, hbefore, hrest⟩ := List.filter_eq_append_iff.mp hmarks
    obtain ⟨between, later, rfl, hbetween, hmark, hlater⟩ := List.filter_eq_cons_iff.mp hrest
    rw [← List.append_assoc] at hstatements
    obtain ⟨u, v, w, rfl, hextent, hu, hearlier, hw, hmore, htop⟩ := exists_cut_mark h hstatements
    have hmarksu : (Sheet.parse u).placeholders = marks := by
      rw [Sheet.placeholders, hearlier, List.filter_append, hbefore, List.filter_eq_nil_iff.mpr hbetween,
        List.append_nil]
    have hsegmented := ih hu hmarksu
    rw [← hmarksu] at hmarks
    have hsegments := segments_of_cut hmarks hextent hu
    obtain ⟨htops, hstates⟩ := outlineOfPieces_append (Sheet.parse u).segments [w]
    obtain ⟨htopw, hstatesw⟩ := outlineOfPieces_singleton w
    refine ⟨?_, ?_, ?_, fun _ first rest hfirst => fillPlaceholders_of_cut hmarks hextent hu hsegmented hfirst⟩
    · rw [hsegments]
      exact List.forall_mem_append.mpr ⟨hsegmented.wellFormed, List.forall_mem_singleton.mpr hw⟩
    · rw [hsegments, htops, htopw, hsegmented.top, htop]
    · rw [hsegments, hstates, hstatesw, hsegmented.statements, hmore, Sheet.statements_of_cut hstatements hearlier,
        filter_mark hmark, filter_unmarked hlater]

/-! The first mark. -/

theorem before_of_segments {first : Text} {rest : List Text} (h : (Sheet.parse source).segments = first :: rest) :
    (Sheet.parse source).before = first := by
  rw [Sheet.segments] at h
  rw [Sheet.before]
  cases hmarks : (Sheet.parse source).placeholders with
  | nil =>
    rw [hmarks] at h
    exact (List.cons.inj h).1
  | cons mark others =>
    rw [hmarks] at h
    exact (List.cons.inj h).1

/-- What stands after the first mark has what stands between the others. -/
theorem outline_after (h : (Sheet.parse source).isMalformed = false) {first : Text} {rest : List Text}
    (hsegments : (Sheet.parse source).segments = first :: rest) :
    (Sheet.parse (Sheet.parse source).after).isMalformed = false ∧
      (Sheet.parse (Sheet.parse source).after).outline.top = (outlineOfPieces rest).top ∧
      (Sheet.parse (Sheet.parse source).after).outline.statements.filter (· ≠ "@inlineCSS".toList) =
        (outlineOfPieces rest).statements := by
  cases hmarks : (Sheet.parse source).placeholders with
  | nil =>
    have hafter : (Sheet.parse source).after = [] := by rw [Sheet.after, hmarks]
    rw [segments_of_unmarked hmarks] at hsegments
    cases hsegments
    rw [hafter]
    exact ⟨rfl, rfl, rfl⟩
  | cons mark others =>
    obtain ⟨earlier, later, hstatements, hearlier, hmark, -⟩ := List.filter_eq_cons_iff.mp hmarks
    obtain ⟨u, v, w, hsource, hextent, -, hu, hw, hmore, htop⟩ := exists_cut_mark h hstatements
    have hafter : (Sheet.parse source).after = w := by
      rw [Sheet.after, hmarks]
      show source.drop mark.extent.stop = w
      rw [hextent, hsource, List.drop_left]
    have hfirst : first = u := by
      rw [← before_of_segments hsegments, Sheet.before, hmarks]
      show source.take mark.extent.start = u
      rw [hextent, hsource, List.append_assoc, List.take_left]
    have hsegmented := segmented h
    rw [hafter]
    refine ⟨hw, ?_, ?_⟩
    · have hall := hsegmented.top
      rw [hsegments, htop, hfirst] at hall
      exact (Forest.append_cancel_left hall).symm
    · have hall := hsegmented.statements
      have hunmarked : (Sheet.parse u).outline.statements.filter (· ≠ "@inlineCSS".toList) =
          (Sheet.parse u).outline.statements := by
        refine filter_unmarked ?_
        rw [hu]
        exact List.filter_eq_nil_iff.mpr hearlier
      rw [hsegments, Sheet.statements_of_cut hstatements hu, filter_mark hmark, hunmarked, hfirst, ← hmore] at hall
      exact (List.append_cancel_left hall).symm

theorem filter_segments (h : (Sheet.parse source).isMalformed = false) {segment : Text}
    (hsegment : segment ∈ (Sheet.parse source).segments) :
    (Sheet.parse segment).outline.statements.filter (· ≠ "@inlineCSS".toList) =
      (Sheet.parse segment).outline.statements := by
  rw [List.filter_eq_self]
  intro text hmem
  have hall : text ∈ (outlineOfPieces (Sheet.parse source).segments).statements :=
    List.mem_flatMap.mpr ⟨segment, hsegment, hmem⟩
  rw [(segmented h).statements] at hall
  exact (List.mem_filter.mp hall).2

theorem strung_flatten (pieces : List Text) : Strung pieces pieces.flatten := by
  induction pieces with
  | nil => exact .nil
  | cons piece rest ih =>
    have h : Strung (piece :: rest) (piece ++ ([] ++ rest.flatten)) := .cons rfl ih
    exact h

end

end Style

namespace Project

open Style

variable (project : Project)

/-- The styles of templates, one by one. -/
def styleTexts : List Text :=
  project.templates.flatMap fun template => template.analysis.styles

/-- The sheet of the project with the styles of templates. -/
def mergedStyles : Text :=
  mergeStyles project.css project.inlineStyles (Sheet.parse project.css).placeholders

/-- What the sheet with the styles of templates is put together from. -/
def stylePieces : List Text :=
  match (Sheet.parse project.css).segments with
  | [] => []
  | first :: rest => first :: (project.styleTexts ++ rest)

variable {project}

theorem isSoundStyle_of_mem_styleTexts {text : Text} (h : text ∈ project.styleTexts) :
    Template.IsSoundStyle text := by
  obtain ⟨template, -, hmem⟩ := List.mem_flatMap.mp h
  exact Template.isSoundStyle_of_mem template hmem

theorem filter_styleTexts {text : Text} (h : text ∈ project.styleTexts) :
    (Sheet.parse text).outline.statements.filter (· ≠ "@inlineCSS".toList) =
      (Sheet.parse text).outline.statements := by
  refine filter_unmarked (List.filter_eq_nil_iff.mpr fun statement hmem => ?_)
  exact List.find?_eq_none.mp (isSoundStyle_of_mem_styleTexts h).unmarked statement hmem

section

variable (hcss : (Sheet.parse project.css).isMalformed = false) {first : Text} {rest : List Text}
  (hsegments : (Sheet.parse project.css).segments = first :: rest)

include hcss hsegments

theorem wellFormed_pieces :
    ∀ piece ∈ first :: (project.styleTexts ++ rest), (Sheet.parse piece).isMalformed = false := by
  have hwell := (segmented hcss).wellFormed
  rw [hsegments, List.forall_mem_cons] at hwell
  refine List.forall_mem_cons.mpr ⟨hwell.1, List.forall_mem_append.mpr ⟨fun piece hmem => ?_, hwell.2⟩⟩
  exact (isSoundStyle_of_mem_styleTexts hmem).wellFormed

/-- The text is its pieces, but for blanks. -/
theorem ends_mergedStyles (hsevered : Severed (first :: (project.styleTexts ++ rest))) :
    Ends project.mergedStyles (outlineOfPieces (first :: (project.styleTexts ++ rest))).statements
      (outlineOfPieces (first :: (project.styleTexts ++ rest))).top := by
  have hwell := wellFormed_pieces hcss hsegments
  have hstyles : Strung (project.styleTexts ++ rest) (project.inlineStyles ++ rest.flatten) :=
    (strung_join _).append (strung_flatten rest)
  by_cases hmarks : (Sheet.parse project.css).placeholders = []
  · rw [segments_of_unmarked hmarks] at hsegments
    cases hsegments
    simp only [List.flatten_nil, List.append_nil] at hstyles hwell hsevered ⊢
    have hmerged : project.mergedStyles = if project.inlineStyles = [] then project.css
        else if Text.allBlank project.css then project.inlineStyles
        else project.css ++ '\n' :: project.inlineStyles := by
      rw [mergedStyles, mergeStyles, hmarks, if_neg (fun hne => hne rfl)]
    rw [hmerged]
    split
    next hinline =>
      have hstrung : Strung (project.css :: project.styleTexts) (project.css ++ ([] ++ project.inlineStyles)) :=
        .cons rfl hstyles
      rw [hinline, List.append_nil, List.append_nil] at hstrung
      exact hstrung.ends hwell hsevered
    · split
      next hblank =>
        have hempty : (Sheet.parse project.css).outline = .empty :=
          Sheet.outline_parse (outlineOf_of_ends (ends_gap (Gap.mark_blanks hblank)))
        have hends := hstyles.ends (List.forall_mem_cons.mp hwell).2 hsevered.2
        intro scanner outline hscanner
        have hadd : outline.add Outline.empty.statements Outline.empty.top = outline := Outline.add_nil outline
        rw [Outline.add_pieces, hempty, hadd]
        exact hends hscanner
      next =>
        have hstrung : Strung (project.css :: project.styleTexts)
            (project.css ++ (['\n'] ++ project.inlineStyles)) := .cons (by decide) hstyles
        exact hstrung.ends hwell hsevered
  · have hmerged : project.mergedStyles = first ++ ([] ++ (project.inlineStyles ++ rest.flatten)) := by
      have hfill := (segmented hcss).fill hmarks first rest hsegments project.inlineStyles []
      rw [mergedStyles, mergeStyles, if_pos hmarks]
      simpa only [List.append_nil, List.nil_append, List.append_assoc] using hfill
    rw [hmerged]
    exact (Strung.cons rfl hstyles).ends hwell hsevered

end

/-- **The parts of the style sheet of a project do not interfere.** -/
theorem merged_styles (hcss : (Sheet.parse project.css).isMalformed = false)
    (hsevered : Severed project.stylePieces) :
    let sheet := Sheet.parse project.css
    let merged := Sheet.parse project.mergedStyles
    let parts := sheet.before :: (project.styleTexts ++ [sheet.after])
    project.builtStyles = merged.buildOrdered project.globals.keys ∧
    (∀ part ∈ parts, (Sheet.parse part).isMalformed = false) ∧
    merged.isMalformed = false ∧
    merged.flatRules.map FlatRule.content =
      (parts.flatMap fun part => (Sheet.parse part).flatRules.map FlatRule.content) ∧
    merged.statements.map Statement.text =
      (parts.flatMap fun part => (Sheet.parse part).statements.map Statement.text).filter
        (· ≠ "@inlineCSS".toList) := by
  intro sheet merged parts
  obtain ⟨first, rest, hsegments⟩ := exists_segments sheet
  rw [stylePieces, hsegments] at hsevered
  have hwell := wellFormed_pieces hcss hsegments
  have houtline := outlineOf_of_ends (ends_mergedStyles hcss hsegments hsevered)
  have hmerged : merged.outline = outlineOfPieces (first :: (project.styleTexts ++ rest)) :=
    Sheet.outline_parse houtline
  obtain ⟨hafter, htop, hstatements⟩ := outline_after hcss hsegments
  obtain rfl : sheet.before = first := before_of_segments hsegments
  refine ⟨rfl, ?_, Sheet.isMalformed_of_outline houtline, ?_, ?_⟩
  · rw [List.forall_mem_cons, List.forall_mem_append] at hwell
    exact List.forall_mem_cons.mpr ⟨hwell.1,
      List.forall_mem_append.mpr ⟨hwell.2.1, List.forall_mem_singleton.mpr hafter⟩⟩
  · simp only [Sheet.content_flatRules]
    rw [hmerged, contents_concat]
    simp only [parts, List.flatMap_cons, List.flatMap_append, List.flatMap_nil, List.append_nil]
    rw [htop, contents_concat]
  · have hbefore := filter_segments hcss (hsegments ▸ List.mem_cons_self)
    have hstyles : (project.styleTexts.flatMap fun part => (Sheet.parse part).outline.statements).filter
        (· ≠ "@inlineCSS".toList) = project.styleTexts.flatMap fun part => (Sheet.parse part).outline.statements := by
      rw [List.filter_flatMap]
      exact List.flatMap_congr fun part hpart => filter_styleTexts hpart
    have houtline (sheet : Sheet) : sheet.statements.map Statement.text = sheet.outline.statements := rfl
    simp only [houtline]
    rw [hmerged]
    simp only [parts, List.flatMap_cons, List.flatMap_append, List.flatMap_nil, List.append_nil]
    rw [List.filter_append, List.filter_append, hstatements, hbefore, hstyles]
    rw [outlineOfPieces, List.flatMap_cons, List.flatMap_append]
    rfl

/-- A sheet with two marks, the last one without its semicolon, and styles one of which ends a statement of
the other. -/
def patched : Project :=
  Project.empty.run
    [.setCss ("@charset \"x\";\n.a \x7b b: c \x7d\n@inlineCSS; /* m */\n" ++
        ".d \x7b @sm \x7b e: f \x7d \x7d\n@inlineCSS /* n */").toList,
      .addComponent "card".toList "<style>.k \x7b l: m \x7d @layer z</style>".toList,
      .addPage "/".toList "<style>/* q */ ; .n \x7b &:hover \x7b o: p \x7d \x7d</style>".toList]

theorem merged_styles_of_patched :
    patched.Reachable ∧ (Sheet.parse patched.css).isMalformed = false ∧ Severed patched.stylePieces ∧
      (Sheet.parse patched.mergedStyles).isMalformed = false ∧
      (Sheet.parse patched.mergedStyles).flatRules.map FlatRule.content =
        (((Sheet.parse patched.css).before ::
            (patched.styleTexts ++ [(Sheet.parse patched.css).after])).flatMap fun part =>
          (Sheet.parse part).flatRules.map FlatRule.content) ∧
      (Sheet.parse patched.mergedStyles).statements.map Statement.text =
        ["@charset \"x\"", "@layer z"].map String.toList := by
  have hcss : (Sheet.parse patched.css).isMalformed = false := by decide +kernel
  have hsevered : Severed patched.stylePieces := by decide +kernel
  obtain ⟨-, -, hmalformed, hrules, hstatements⟩ := merged_styles hcss hsevered
  refine ⟨reachable_run_empty _, hcss, hsevered, hmalformed, hrules, hstatements.trans ?_⟩
  decide +kernel

/-- A page with two styles. The first one is a statement without its semicolon. -/
def overrun : Project :=
  Project.empty.run
    [.addPage "/".toList "<style>@import \"a\"</style><style>.b \x7b c: d \x7d</style>".toList]

/-- The statement takes the selector of the second style into it. -/
theorem merged_styles_overrun :
    overrun.Reachable ∧ (Sheet.parse overrun.css).isMalformed = false ∧ ¬Severed overrun.stylePieces ∧
      (overrun.styleTexts.flatMap fun text => (Sheet.parse text).flatRules.map FlatRule.selectors) =
        [[".b".toList]] ∧
      (Sheet.parse overrun.mergedStyles).flatRules.map FlatRule.selectors = [["@import \"a\" .b".toList]] ∧
      (overrun.styleTexts.flatMap fun text => (Sheet.parse text).statements.map Statement.text) =
        ["@import \"a\"".toList] ∧
      (Sheet.parse overrun.mergedStyles).statements = [] := by
  refine ⟨reachable_run_empty _, ?_⟩
  decide +kernel

end Project

end Sitewright
