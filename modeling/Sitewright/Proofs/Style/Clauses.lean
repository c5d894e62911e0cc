import Sitewright.Proofs.Style.Heads
import Sitewright.Proofs.Style.Variables

/-!
What reading does clause by clause. A clause is the text before a brace or a semicolon, and all that it does
to the outline of a reading is a matter of its characters and of the blocks that are open: places do not
count, nor does what was read before (`sketch_step`, `clause_after`). An outline is what a reading has besides ranges
and problems, and it is only kept while nothing is malformed.
-/

namespace Sitewright

/-- The trees of forests, one forest after another. -/
def Forest.concat {α : Type} (forests : List (Forest α)) : Forest α :=
  forests.foldr (· ++ ·) .nil

theorem Forest.concat_cons {α : Type} (first : Forest α) (rest : List (Forest α)) :
    Forest.concat (first :: rest) = first ++ Forest.concat rest := rfl

theorem Forest.map_append {α β : Type} (h : α → β) (f g : Forest α) :
    (f ++ g).map h = f.map h ++ g.map h := by
  induction f with
  | nil => rfl
  | cons label below after _ ih => simp [Forest.map, ih]

theorem Forest.number_map {α β : Type} (h : α → β) (start : Nat) (f : Forest α) :
    (f.map h).number start = (f.number start).map fun entry => (entry.1, h entry.2) := by
  induction f generalizing start with
  | nil => rfl
  | cons label below after ihbelow ihafter =>
    simp only [Forest.map, Forest.number, ihbelow, ihafter, Forest.size_map]

/-- A diagnostic without its place. -/
def Diagnostic.bare {κ : Type} (diagnostic : Diagnostic κ) : Diagnostic κ :=
  { diagnostic with range := ⟨0, 0⟩ }

/-- A reference without its place. -/
def GlobalReference.bare (reference : GlobalReference) : GlobalReference :=
  ⟨⟨reference.part.text, ⟨0, 0⟩⟩, reference.global⟩

namespace Style

open Lexer

/-! ## Outlines -/

/-- A declaration without its place. -/
def Declaration.bare (declaration : Declaration) : Declaration :=
  { declaration with range := ⟨0, 0⟩ }

/-- A rule without its place. -/
def Rule.bare (rule : Rule) : Rule :=
  { rule with range := ⟨0, 0⟩, declarations := rule.declarations.map Declaration.bare }

/-- A block without its place. -/
def Block.bare (block : Block) : Block :=
  ⟨block.rule.bare, block.inside.map Rule.bare⟩

/-- The open blocks, the closed blocks and the statements of a reading. -/
structure Outline where
  blocks : List Block
  top : Forest Rule
  statements : List Text

/-- A reading without places and problems. -/
def Reading.outline (reading : Reading) : Outline :=
  ⟨reading.blocks.map Block.bare, reading.top.map Rule.bare, reading.statements.map Statement.text⟩

namespace Outline

/-- Opens a block. -/
def push (head : Head) (text : Text) (outline : Outline) : Outline :=
  { outline with blocks := ⟨⟨head, text, ⟨0, 0⟩, []⟩, .nil⟩ :: outline.blocks }

/-- Adds declarations to the innermost block. -/
def declare (declarations : List Declaration) (outline : Outline) : Outline :=
  match outline.blocks with
  | [] => outline
  | block :: outer =>
    let rule := { block.rule with declarations := block.rule.declarations ++ declarations }
    { outline with blocks := { block with rule := rule } :: outer }

/-- Adds statements, and closed blocks to the innermost block. -/
def add (statements : List Text) (forest : Forest Rule) (outline : Outline) : Outline :=
  match outline.blocks with
  | [] => ⟨[], outline.top ++ forest, outline.statements ++ statements⟩
  | block :: outer =>
    ⟨{ block with inside := block.inside ++ forest } :: outer, outline.top, outline.statements ++ statements⟩

/-- Closes the innermost block. -/
def close (outline : Outline) : Outline :=
  match outline.blocks with
  | [] => outline
  | block :: outer =>
    { outline with blocks := outer }.add [] (.tree block.rule block.inside)

theorem add_nil (outline : Outline) : outline.add [] .nil = outline := by
  obtain ⟨blocks, top, statements⟩ := outline
  cases blocks <;> simp [add]

theorem add_add (outline : Outline) (statements more : List Text) (f g : Forest Rule) :
    (outline.add statements f).add more g = outline.add (statements ++ more) (f ++ g) := by
  obtain ⟨blocks, top, old⟩ := outline
  cases blocks <;> simp [add, Forest.append_assoc]

theorem declare_declare (outline : Outline) (a b : List Declaration) :
    (outline.declare a).declare b = outline.declare (a ++ b) := by
  obtain ⟨blocks, top, statements⟩ := outline
  cases blocks <;> simp [declare]

/-- A block that is opened, filled and closed. -/
theorem close_push (outline : Outline) (head : Head) (text : Text) (declarations : List Declaration)
    (forest : Forest Rule) :
    (((outline.push head text).declare declarations).add [] forest).close =
      outline.add [] (.tree ⟨head, text, ⟨0, 0⟩, declarations⟩ forest) := by
  obtain ⟨blocks, top, statements⟩ := outline
  simp [push, declare, add, close]

theorem contextOf_add (outline : Outline) (statements : List Text) (forest : Forest Rule) :
    contextOf (outline.add statements forest).blocks = contextOf outline.blocks := by
  obtain ⟨blocks, top, old⟩ := outline
  cases blocks <;> rfl

theorem contextOf_declare (outline : Outline) (declarations : List Declaration) :
    contextOf (outline.declare declarations).blocks = contextOf outline.blocks := by
  obtain ⟨blocks, top, old⟩ := outline
  cases blocks <;> rfl

end Outline

theorem contextOf_bare (blocks : List Block) : contextOf (blocks.map Block.bare) = contextOf blocks := by
  induction blocks with
  | nil => rfl
  | cons block outer ih =>
    rw [List.map_cons, contextOf, contextOf, ih]
    rfl

theorem atTop_contextOf (blocks : List Block) : (contextOf blocks).atTop = blocks.isEmpty := by
  cases blocks with
  | nil => rfl
  | cons block outer =>
    rw [contextOf]
    cases block.rule.head <;> rfl

namespace Reading

theorem outline_closeBlock (reading : Reading) : reading.closeBlock.outline = reading.outline.close := by
  obtain ⟨pending, blocks, top, statements, references, problems⟩ := reading
  cases blocks with
  | nil => rfl
  | cons block outer =>
    cases outer <;>
      simp [closeBlock, outline, Outline.close, Outline.add, Forest.map_append, Forest.tree, Forest.map,
        Block.bare]

theorem outline_declare (reading : Reading) (declaration : Declaration) :
    (reading.declare declaration).outline = reading.outline.declare [declaration.bare] := by
  obtain ⟨pending, blocks, top, statements, references, problems⟩ := reading
  cases blocks <;> simp [declare, outline, Outline.declare, Block.bare, Rule.bare]

theorem flush_of_blank {reading : Reading} (h : reading.collected = []) (stop : Option Nat) :
    reading.flush stop = { reading with pending := [] } := by
  have hnil : Fragment.trimEnd reading.pending = [] := List.map_eq_nil_iff.mp h
  simp only [flush, hnil]

end Reading

/-! ## Findings -/

/-- Findings without their places. -/
def Findings.bare (findings : Findings) : Findings :=
  ⟨findings.references.map GlobalReference.bare, findings.problems.map Diagnostic.bare⟩

instance (problems : List (Diagnostic StyleCategory)) : Decidable (WellFormed problems) :=
  inferInstanceAs (Decidable (∀ problem ∈ problems, problem.category ≠ .malformed))

theorem wellFormed_append {a b : List (Diagnostic StyleCategory)} :
    WellFormed (a ++ b) ↔ WellFormed a ∧ WellFormed b :=
  List.forall_mem_append

theorem WellFormed.of_prefix {a b : List (Diagnostic StyleCategory)} (h : WellFormed b) (hgrows : a <+: b) :
    WellFormed a :=
  fun problem hmem => h problem (hgrows.subset hmem)

theorem logical_ne_malformed : StyleCategory.logical ≠ .malformed := by
  decide

theorem wellFormed_problem {problem : Problem} {range : CharRange} :
    WellFormed (Findings.problem problem range).problems ↔ problem.category ≠ .malformed :=
  List.forall_mem_singleton

theorem Findings.wellFormed_congr {findings other : Findings} (h : findings.bare = other.bare) :
    WellFormed findings.problems ↔ WellFormed other.problems := by
  have hbare (findings : Findings) : WellFormed findings.bare.problems ↔ WellFormed findings.problems :=
    List.forall_mem_map
  rw [← hbare, h, hbare]

/-! ## Heads and declarations by their characters -/

section

variable {context : Context} {f g : Fragment}

theorem wellFormed_readAtRule (context : Context) (fragment : Fragment) (text : Text) :
    WellFormed (readAtRule context fragment text).2.problems := by
  have hblock (name : Text) : WellFormed (readBlockAtRule context fragment name).2.problems := by
    rw [readBlockAtRule]
    split
    · exact wellFormed_variableFindings fragment
    · exact wellFormed_problem.mpr logical_ne_malformed
  simp only [readAtRule]
  split
  · split
    · exact wellFormed_problem.mpr logical_ne_malformed
    · exact wellFormed_variableFindings fragment
  · split
    · exact hblock _
    · split
      · exact fun problem hproblem => (List.not_mem_nil hproblem).elim
      · split
        · exact hblock _
        · split <;> exact wellFormed_problem.mpr logical_ne_malformed

theorem wellFormed_readHead_congr (text : Text) :
    WellFormed (readHead context f text).2.problems ↔ WellFormed (readHead context g text).2.problems := by
  by_cases hat : text.head? = some '@'
  · rw [readHead_of_at hat, readHead_of_at hat]
    exact iff_of_true (wellFormed_readAtRule context f text) (wellFormed_readAtRule context g text)
  · rw [readHead_of_ne_at hat, readHead_of_ne_at hat]
    simp only [readSelectors]
    split
    · rw [wellFormed_problem, wellFormed_problem]
    · split
      · rw [wellFormed_problem, wellFormed_problem]
      · rfl

theorem splitColon_eq_none {fragment : Fragment} (h : Fragment.splitColon fragment = none) :
    ':' ∉ Fragment.text fragment := by
  induction fragment with
  | nil => exact List.not_mem_nil
  | cons mark rest ih =>
    rw [Fragment.splitColon] at h
    split at h
    · cases h
    next hmark =>
      rw [Fragment.text, List.map_cons, List.mem_cons, not_or]
      exact ⟨fun heq => hmark heq.symm, ih (Option.map_eq_none_iff.mp h)⟩

/-- Fragments of the same text are cut at their colons in the same way. -/
theorem splitColon_congr (h : Fragment.text f = Fragment.text g) :
    Fragment.splitColon f = none ∧ Fragment.splitColon g = none ∨
      ∃ before after before' after', Fragment.splitColon f = some (before, after) ∧
        Fragment.splitColon g = some (before', after') ∧
        Fragment.text before = Fragment.text before' ∧ Fragment.text after = Fragment.text after' := by
  cases hf : Fragment.splitColon f with
  | some parts =>
    obtain ⟨before, after⟩ := parts
    obtain ⟨htext, hcolon⟩ := text_of_splitColon hf
    obtain ⟨before', after', hg, hbefore, hafter⟩ := splitColon_of_text (h.symm.trans htext) hcolon
    exact .inr ⟨before, after, before', after', rfl, hg, hbefore.symm, hafter.symm⟩
  | none =>
    cases hg : Fragment.splitColon g with
    | none => exact .inl ⟨rfl, rfl⟩
    | some parts =>
      obtain ⟨before, after⟩ := parts
      obtain ⟨htext, -⟩ := text_of_splitColon hg
      have hmem : ':' ∈ Fragment.text f := by
        rw [h, htext]
        exact List.mem_append_right _ List.mem_cons_self
      exact absurd hmem (splitColon_eq_none hf)

section

variable (h : Fragment.text f = Fragment.text g)
include h

theorem variableFinding_congr : (variableFinding f).bare = (variableFinding g).bare := by
  simp only [variableFinding, h]
  split
  · rfl
  · split <;> rfl

/-- Variables are found by their characters. -/
theorem variableFindings_congr : (variableFindings f).bare = (variableFindings g).bare := by
  have hbare (fragment : Fragment) : (variableFindings fragment).bare =
      ⟨((namesIn Prod.fst fragment).map fun marks => (variableFinding marks).bare).flatMap Findings.references,
        ((namesIn Prod.fst fragment).map fun marks => (variableFinding marks).bare).flatMap Findings.problems⟩ := by
    simp only [Findings.bare, variableFindings, List.flatMap_map, List.map_flatMap]
  -- what is found without its place is a matter of the name
  let named (name : Text) : Findings := (variableFinding (name.map fun c => (c, 0))).bare
  have hnamed (fragment : Fragment) : (namesIn Prod.fst fragment).map (fun marks => (variableFinding marks).bare) =
      (namesIn id (Fragment.text fragment)).map named := by
    rw [Fragment.text, ← map_namesIn, List.map_map]
    refine List.map_congr_left fun marks _ => variableFinding_congr ?_
    rw [Fragment.text, Fragment.text, List.map_map]
    exact (List.map_id _).symm
  rw [hbare, hbare, hnamed, hnamed, h]

/-- A declaration is read by its characters. -/
theorem readDeclaration_congr (context : Context) :
    (readDeclaration context f).1.map Declaration.bare = (readDeclaration context g).1.map Declaration.bare ∧
      (readDeclaration context f).2.bare = (readDeclaration context g).2.bare := by
  rcases splitColon_congr h with ⟨hf, hg⟩ | ⟨before, after, before', after', hf, hg, hbefore, hafter⟩
  · simp only [readDeclaration, hf, hg, h]
    exact ⟨trivial, rfl⟩
  have hvalue : Fragment.text (Fragment.trimEnd (Fragment.trimStart after)) =
      Fragment.text (Fragment.trimEnd (Fragment.trimStart after')) := by
    simp only [Reading.text_trimEnd, Fragment.text_trimStart, hafter]
  have hvariables := variableFindings_congr hvalue
  simp only [readDeclaration, hf, hg, hbefore, hvalue]
  split
  · exact ⟨rfl, rfl⟩
  split
  · exact ⟨rfl, rfl⟩
  split
  · exact ⟨rfl, rfl⟩
  split
  · exact ⟨rfl, hvariables⟩
  · rw [Findings.bare, Findings.bare, Findings.mk.injEq] at hvariables
    simp only [Findings.bare, List.map_append, hvariables]
    exact ⟨trivial, rfl⟩

end

/-- No declaration stands at the top level. -/
theorem not_wellFormed_readDeclaration (h : context.atTop = true) (fragment : Fragment) :
    ¬WellFormed (readDeclaration context fragment).2.problems := by
  simp only [readDeclaration, h, if_true]
  split
  · exact fun hwell => wellFormed_problem.mp hwell rfl
  · split
    · exact fun hwell => wellFormed_problem.mp hwell rfl
    · split <;> exact fun hwell => wellFormed_problem.mp hwell rfl

end

/-! ## Clauses -/

namespace Outline

variable {outline : Outline}

/-- Reads the text before an opening brace. -/
def openBrace (text : Text) (outline : Outline) : Option Outline :=
  if text ≠ [] ∧ WellFormed (readHead (contextOf outline.blocks) [] (Text.squeeze text)).2.problems then
    some (outline.push (headOf (contextOf outline.blocks) (Text.squeeze text)) (Text.squeeze text))
  else none

/-- Reads a declaration or a statement. -/
def flush (text : Text) (outline : Outline) : Option Outline :=
  if text = [] then some outline
  else if text.head? = some '@' then
    some (if outline.blocks = [] then outline.add [Text.squeeze text] .nil else outline)
  else
    let (declaration, findings) := readDeclaration (contextOf outline.blocks) text.zipIdx
    if WellFormed findings.problems then some (outline.declare (declaration.map Declaration.bare).toList)
    else none

/-- Reads the text before a closing brace. -/
def closeBrace (text : Text) (outline : Outline) : Option Outline :=
  (outline.flush text).bind fun outline => if outline.blocks = [] then none else some outline.close

/-- Reads the text before a brace or a semicolon. -/
def clause (c : Char) (text : Text) : Outline → Option Outline :=
  if c = '\x7b' then openBrace text else if c = '\x7d' then closeBrace text else flush text

/-- Reads the text before the end. -/
def finish (text : Text) (outline : Outline) : Option Outline :=
  (outline.flush text).bind fun outline => if outline.blocks = [] then some outline else none

theorem declare_nil (outline : Outline) : outline.declare [] = outline := by
  obtain ⟨blocks, top, statements⟩ := outline
  cases blocks <;> simp [declare]

/-- At the top level there are statements only. -/
theorem flush_of_top (h : outline.blocks = []) (text : Text) :
    outline.flush text = if text = [] then some outline
      else if text.head? = some '@' then some (outline.add [Text.squeeze text] .nil) else none := by
  have htop : (contextOf []).atTop = true := rfl
  simp only [flush, h, if_neg (not_wellFormed_readDeclaration htop _), if_true]

theorem blocks_add_of_top (h : outline.blocks = []) (statements : List Text)
    (forest : Forest Rule) : (outline.add statements forest).blocks = [] := by
  simp only [add, h]

/-- The end of a text at the top level. -/
theorem finish_of_top (h : outline.blocks = []) (text : Text) : outline.finish text = outline.flush text := by
  rw [finish, flush_of_top h]
  split
  · exact if_pos h
  · split
    · exact if_pos (blocks_add_of_top h _ _)
    · rfl

section

variable {next : Outline} {text : Text}

/-- Declarations and statements open and close no block. -/
theorem length_blocks_of_flush (h : outline.flush text = some next) : next.blocks.length = outline.blocks.length := by
  obtain ⟨blocks, top, statements⟩ := outline
  rw [flush] at h
  split at h
  · cases h
    rfl
  split at h
  · cases h
    cases blocks <;> rfl
  · dsimp only at h
    split at h
    · cases h
      cases blocks <;> rfl
    · cases h

theorem blocks_of_flush (htop : outline.blocks = []) (h : outline.flush text = some next) : next.blocks = [] := by
  rw [← List.length_eq_zero_iff, length_blocks_of_flush h, htop]
  rfl

theorem length_blocks_of_closeBrace (h : outline.closeBrace text = some next) :
    next.blocks.length + 1 = outline.blocks.length := by
  obtain ⟨⟨blocks, top, statements⟩, hflush, hclose⟩ := Option.bind_eq_some_iff.mp h
  rw [← length_blocks_of_flush hflush]
  cases blocks with
  | nil => cases hclose
  | cons block outer =>
    cases hclose
    cases outer <;> rfl

theorem blocks_of_finish (h : outline.finish text = some next) : outline.blocks = [] ∧ next.blocks = [] := by
  obtain ⟨flushed, hflush, hend⟩ := Option.bind_eq_some_iff.mp h
  split at hend
  next hblocks =>
    cases hend
    refine ⟨?_, hblocks⟩
    rw [← List.length_eq_zero_iff, ← length_blocks_of_flush hflush, hblocks]
    rfl
  next => cases hend

end

/-! What was read before does not count. -/

/-- An outline after what another one has at the top level. -/
def after (outline base : Outline) : Outline :=
  ⟨outline.blocks, base.top ++ outline.top, base.statements ++ outline.statements⟩

variable (outline base : Outline)

theorem after_add (statements : List Text) (forest : Forest Rule) :
    (outline.add statements forest).after base = (outline.after base).add statements forest := by
  obtain ⟨blocks, top, old⟩ := outline
  cases blocks <;> simp [add, after, Forest.append_assoc]

theorem after_declare (declarations : List Declaration) :
    (outline.declare declarations).after base = (outline.after base).declare declarations := by
  obtain ⟨blocks, top, old⟩ := outline
  cases blocks <;> rfl

theorem after_close : outline.close.after base = (outline.after base).close := by
  obtain ⟨blocks, top, old⟩ := outline
  cases blocks with
  | nil => rfl
  | cons block outer => exact after_add ⟨outer, top, old⟩ base [] _

theorem openBrace_after (text : Text) :
    (outline.after base).openBrace text = (outline.openBrace text).map (·.after base) := by
  have hblocks : (outline.after base).blocks = outline.blocks := rfl
  simp only [openBrace, hblocks]
  split <;> rfl

theorem flush_after (text : Text) :
    (outline.after base).flush text = (outline.flush text).map (·.after base) := by
  have hblocks : (outline.after base).blocks = outline.blocks := rfl
  simp only [flush, hblocks]
  split
  · rfl
  · split
    · split
      · rw [Option.map_some, after_add]
      · rfl
    · split
      · rw [Option.map_some, after_declare]
      · rfl

theorem closeBrace_after (text : Text) :
    (outline.after base).closeBrace text = (outline.closeBrace text).map (·.after base) := by
  rw [closeBrace, flush_after, closeBrace]
  cases outline.flush text with
  | none => rfl
  | some outline =>
    have hblocks : (outline.after base).blocks = outline.blocks := rfl
    simp only [Option.map_some, Option.bind_some, hblocks]
    split
    · rfl
    · rw [Option.map_some, after_close]

/-- A clause does the same wherever it is read. -/
theorem clause_after (c : Char) (text : Text) :
    (outline.after base).clause c text = (outline.clause c text).map (·.after base) := by
  simp only [clause]
  split
  · exact openBrace_after outline base text
  · split
    · exact closeBrace_after outline base text
    · exact flush_after outline base text

end Outline

/-! ## Readings by their clauses -/

namespace Reading

variable {reading : Reading}

/-- The outline of a reading, unless something is malformed. -/
def sketch (reading : Reading) : Option Outline :=
  if WellFormed reading.problems then some reading.outline else none

theorem sketch_eq_some {outline : Outline} :
    reading.sketch = some outline ↔ WellFormed reading.problems ∧ reading.outline = outline := by
  rw [sketch]
  split
  next hwell => simp [hwell]
  next hwell => simp [hwell]

theorem sketch_eq_none : reading.sketch = none ↔ ¬WellFormed reading.problems := by
  rw [sketch]
  split
  next hwell => simp [hwell]
  next hwell => simp [hwell]

/-- What is malformed stays so, and otherwise the outline is all that counts. -/
theorem sketch_eq_bind {next : Reading} {f : Outline → Option Outline} (hgrows : reading.problems <+: next.problems)
    (h : WellFormed reading.problems → next.sketch = f reading.outline) : next.sketch = reading.sketch.bind f := by
  by_cases hwell : WellFormed reading.problems
  · rw [sketch_eq_some.mpr ⟨hwell, rfl⟩, h hwell, Option.bind_some]
  · rw [sketch_eq_none.mpr hwell, Option.bind_none, sketch_eq_none]
    exact fun hnext => hwell (hnext.of_prefix hgrows)

theorem outline_of_sketch {next : Reading} {f : Outline → Option Outline} (h : next.sketch = reading.sketch.bind f)
    (hwell : WellFormed next.problems) : f reading.outline = some next.outline := by
  rw [sketch_eq_some.mpr ⟨hwell, rfl⟩] at h
  obtain ⟨outline, houtline, hnext⟩ := Option.bind_eq_some_iff.mp h.symm
  rw [(sketch_eq_some.mp houtline).2]
  exact hnext

theorem contextOf_outline (reading : Reading) : contextOf reading.outline.blocks = reading.context := by
  rw [context_eq]
  exact contextOf_bare reading.blocks

theorem blocks_outline_eq_nil : reading.outline.blocks = [] ↔ reading.blocks = [] :=
  List.map_eq_nil_iff

theorem sketch_openBrace (reading : Reading) (range : CharRange) :
    (reading.openBrace range).sketch = reading.sketch.bind (Outline.openBrace reading.collected) := by
  refine sketch_eq_bind (reading.grows_openBrace range).problems fun hwell => ?_
  rw [Outline.openBrace, contextOf_outline, collected]
  cases heq : Fragment.trimEnd reading.pending with
  | nil =>
    rw [if_neg (fun h => h.1 rfl), sketch_eq_none]
    simp only [openBrace, heq]
    exact fun h => (wellFormed_append.mp h).2 _ List.mem_cons_self rfl
  | cons mark rest =>
    have hne : Fragment.text (mark :: rest) ≠ [] := List.cons_ne_nil _ _
    simp only [openBrace, heq, sketch, hne, ne_eq, not_false_eq_true, true_and]
    refine if_congr ?_ ?_ rfl
    · exact wellFormed_append.trans ((and_iff_right hwell).trans (wellFormed_readHead_congr _))
    · rw [← readHead_fst _ (mark :: rest)]
      rfl

theorem sketch_flushStatement (reading : Reading) {fragment : Fragment} (stop : Option Nat) :
    (reading.flushStatement fragment stop).sketch = reading.sketch.bind fun outline => some <|
      if outline.blocks = [] then outline.add [Text.squeeze (Fragment.text fragment)] .nil else outline := by
  refine sketch_eq_bind (reading.grows_flushStatement fragment stop).problems fun hwell => ?_
  have hreport (problem : Problem) (range : CharRange) (hproblem : problem.category ≠ .malformed) :
      WellFormed (reading.report problem range).problems :=
    wellFormed_append.mpr ⟨hwell, List.forall_mem_singleton.mpr hproblem⟩
  rw [sketch_eq_some]
  simp only [flushStatement, blocks_outline_eq_nil]
  by_cases hblocks : reading.blocks = []
  · simp only [hblocks, ne_eq, not_true_eq_false, if_false, if_true]
    split
    · refine ⟨hreport _ _ logical_ne_malformed, ?_⟩
      simp [outline, Outline.add, report, hblocks]
    · refine ⟨hwell, ?_⟩
      simp [outline, Outline.add, hblocks]
  · simp only [hblocks, ne_eq, not_false_eq_true, if_false, if_true]
    exact ⟨hreport _ _ logical_ne_malformed, rfl⟩

theorem sketch_flushDeclaration (reading : Reading) (fragment : Fragment) :
    (reading.flushDeclaration fragment).sketch = reading.sketch.bind fun outline =>
      let (declaration, findings) := readDeclaration (contextOf outline.blocks) (Fragment.text fragment).zipIdx
      if WellFormed findings.problems then some (outline.declare (declaration.map Declaration.bare).toList)
      else none := by
  refine sketch_eq_bind (reading.grows_flushDeclaration fragment).problems fun hwell => ?_
  have htext : Fragment.text fragment = Fragment.text (Fragment.text fragment).zipIdx :=
    (Fragment.text_zipIdx _ 0).symm
  obtain ⟨hbare, hfindings⟩ := readDeclaration_congr htext reading.context
  have hproblems := Findings.wellFormed_congr hfindings
  rw [contextOf_outline]
  cases hread : readDeclaration reading.context fragment with
  | mk declaration findings =>
    rw [hread] at hbare hproblems
    simp only at hbare hproblems
    simp only [flushDeclaration, hread, ← hbare, ← hproblems, sketch]
    cases declaration with
    | none =>
      refine if_congr ((wellFormed_append).trans (and_iff_right hwell)) ?_ rfl
      exact congrArg some (Outline.declare_nil reading.outline).symm
    | some declaration =>
      simp only [problems_declare]
      refine if_congr ((wellFormed_append).trans (and_iff_right hwell)) ?_ rfl
      exact congrArg some (outline_declare (reading.found findings) declaration)

theorem sketch_flush (reading : Reading) (stop : Option Nat) :
    (reading.flush stop).sketch = reading.sketch.bind (Outline.flush reading.collected) := by
  have hcleared : sketch { reading with pending := [] } = reading.sketch := rfl
  cases heq : Fragment.trimEnd reading.pending with
  | nil =>
    have htext : reading.collected = [] := by
      rw [collected, heq]
      rfl
    rw [flush_of_blank htext, htext]
    exact (Option.bind_fun_some reading.sketch).symm
  | cons mark rest =>
    have htext : reading.collected = Fragment.text (mark :: rest) := by rw [collected, heq]
    have hne : Fragment.text (mark :: rest) ≠ [] := List.cons_ne_nil _ _
    have hhead : (Fragment.text (mark :: rest)).head? = some mark.1 := rfl
    simp only [flush, heq]
    split
    next hat =>
      rw [sketch_flushStatement, hcleared, htext]
      refine congrArg _ (funext fun outline => ?_)
      rw [Outline.flush, if_neg hne, hhead, hat, if_pos rfl]
    next hat =>
      rw [sketch_flushDeclaration, hcleared, htext]
      refine congrArg _ (funext fun outline => ?_)
      rw [Outline.flush, if_neg hne, hhead, if_neg (fun h => hat (Option.some.inj h))]

theorem sketch_closeBrace (reading : Reading) (range : CharRange) :
    (reading.closeBrace range).sketch = reading.sketch.bind (Outline.closeBrace reading.collected) := by
  have hclose : (reading.closeBrace range).sketch = (reading.flush none).sketch.bind
      fun outline => if outline.blocks = [] then none else some outline.close := by
    refine sketch_eq_bind (reading.grows_closeBrace range).problems fun hwell => ?_
    simp only [closeBrace, blocks_outline_eq_nil]
    split
    · rw [sketch_eq_none]
      exact fun h => (wellFormed_append.mp h).2 _ List.mem_cons_self rfl
    · rw [sketch_eq_some, problems_closeBlock]
      exact ⟨hwell, outline_closeBlock _⟩
  rw [hclose, sketch_flush, Option.bind_assoc]
  rfl

/-- A brace or a semicolon does what its clause does. -/
theorem sketch_step (reading : Reading) {c : Char} (hc : isStructural c = true) (offset : Nat) :
    (reading.step ⟨structuralKind c, [c], offset⟩).sketch =
      reading.sketch.bind (Outline.clause c reading.collected) := by
  simp only [isStructural, Bool.or_eq_true, beq_iff_eq] at hc
  rcases hc with (rfl | rfl) | rfl
  · exact sketch_openBrace reading _
  · exact sketch_closeBrace reading _
  · exact sketch_flush reading _

/-- At the end, no block may be open. -/
theorem sketch_finish (reading : Reading) :
    reading.finish.sketch = reading.sketch.bind (Outline.finish reading.collected) := by
  have hfinish : reading.finish.sketch = (reading.flush none).sketch.bind
      fun outline => if outline.blocks = [] then some outline else none := by
    refine sketch_eq_bind reading.grows_finish.problems fun hwell => ?_
    simp only [blocks_outline_eq_nil]
    split
    next hblocks =>
      have hsame : reading.finish = reading.flush none := by
        simp only [finish, reportOpen, closeAll, hblocks, List.reverse_nil, List.map_nil, List.append_nil,
          List.foldl_nil]
        rw [← hblocks]
      rw [hsame, sketch_eq_some]
      exact ⟨hwell, rfl⟩
    next hblocks =>
      rw [sketch_eq_none, finish, problems_closeAll]
      obtain ⟨block, outer, heq⟩ := List.exists_cons_of_ne_nil hblocks
      refine fun h => (wellFormed_append.mp h).2 ((Problem.unclosedBlock block.rule.text).located
        block.rule.range) ?_ rfl
      simp [heq]
  rw [hfinish, sketch_flush, Option.bind_assoc]
  rfl

end Reading

namespace Scanner.Follows

variable {scanner : Scanner} {t : Text} (h : scanner.Follows t) (hmode : scanner.mode.isComment = false)
  (hscan : scanner.mode.scan.isOutside = true)
include h hmode hscan

/-- What was collected before a brace or a semicolon is read there. -/
theorem sketch_step {c : Char} (hc : isStructural c = true) :
    (scanner.step c).mode = .ground ∧ (scanner.step c).Follows [] ∧
      (scanner.step c).reading.sketch = scanner.reading.sketch.bind (Outline.clause c (Text.trim t)) := by
  obtain ⟨fragment, htext, hstep⟩ := h.step_structural hmode hscan hc
  have hcollected : Reading.collected { scanner.reading with pending := fragment } = Text.trim t := by
    rw [Reading.collected, Reading.text_trimEnd, htext]
    rfl
  rw [hstep]
  refine ⟨rfl, follows_nil (Reading.pending_step_structural _ hc _), ?_⟩
  rw [Reading.sketch_step _ hc, hcollected]
  rfl

theorem collected_close : scanner.close.collected = Text.trim t := by
  obtain ⟨pending, hclose, hpending⟩ := h.close hmode hscan
  rw [hclose, Reading.collected, Reading.text_trimEnd, hpending]
  rfl

/-- What was collected before the end is read there. -/
theorem sketch_finish :
    scanner.close.finish.sketch = scanner.reading.sketch.bind (Outline.finish (Text.trim t)) := by
  obtain ⟨pending, hclose, -⟩ := h.close hmode hscan
  rw [Reading.sketch_finish, h.collected_close hmode hscan, hclose]
  rfl

end Scanner.Follows

end Style

end Sitewright
