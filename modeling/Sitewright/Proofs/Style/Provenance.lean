import Sitewright.Proofs.Style.Scan

/-!
Where the parts of a sheet come from. Every rule of a sheet was opened by a head, every declaration and
every statement was written somewhere, each as a piece of text between two braces or semicolons; and the
problems found there are among those of the sheet (`Sheet.read_parse`). The text is plain unless the sheet
is malformed. What else holds of every sheet is a matter of what a single head, declaration or statement
can be.
-/

namespace Sitewright.Style

open Lexer

variable {context : Context}

/-! ## Contexts -/

namespace Context

/-- Outside of every block. -/
def top : Context := ⟨true, false, false⟩

/-- Inside a block with a head. -/
def inside (context : Context) : Head → Context
  | .style _ => ⟨false, true, true⟩
  | .atRule => ⟨false, true, false⟩
  | .media _ | .transparent => ⟨false, context.hasSelector, context.hasParent⟩

end Context

/-- The context inside open blocks, the innermost first. -/
def contextOf : List Block → Context
  | [] => .top
  | block :: outer => (contextOf outer).inside block.rule.head

theorem contextOf_eq (blocks : List Block) :
    contextOf blocks = match Reading.nearestHead blocks with
      | none => ⟨blocks.isEmpty, false, false⟩
      | some (.style _) => ⟨false, true, true⟩
      | some _ => ⟨false, true, false⟩ := by
  induction blocks with
  | nil => rfl
  | cons block outer ih =>
    rw [contextOf, Reading.nearestHead]
    cases block.rule.head with
    | style selectors => rfl
    | atRule => rfl
    | media _ | transparent =>
      rw [ih]
      simp only [Context.inside]
      split <;> rfl

theorem Reading.context_eq (reading : Reading) : reading.context = contextOf reading.blocks := by
  rw [contextOf_eq]
  rfl

/-- Every rule of a forest has a property that may depend on the context in which it stands. -/
def Within (P : Context → Rule → Prop) : Context → Forest Rule → Prop
  | _, .nil => True
  | context, .cons rule below after =>
    P context rule ∧ Within P (context.inside rule.head) below ∧ Within P context after

theorem within_append {P : Context → Rule → Prop} {f g : Forest Rule} :
    Within P context (f ++ g) ↔ Within P context f ∧ Within P context g := by
  induction f with
  | nil => simp [Within]
  | cons rule below after _ ih => simp only [Forest.cons_append, Within, ih, and_assoc]

/-! ## Texts that were read -/

variable {problems : List (Diagnostic StyleCategory)}

/-- None of the problems is one of malformed text. -/
def WellFormed (problems : List (Diagnostic StyleCategory)) : Prop :=
  ∀ problem ∈ problems, problem.category ≠ .malformed

/-- A fragment that was read between two braces or semicolons. -/
structure Tidy (problems : List (Diagnostic StyleCategory)) (fragment : Fragment) : Prop where
  ne_nil : fragment ≠ []
  trimmed : Text.Trimmed (Fragment.text fragment)
  plain : WellFormed problems → Plain (Fragment.text fragment)

/-- What was found is among other findings. -/
structure Findings.Among (findings all : Findings) : Prop where
  references : findings.references ⊆ all.references
  problems : findings.problems ⊆ all.problems

/-- What reading takes things from, fragments of some kind and lexemes at some places, and all that it finds there. -/
structure Origin where
  fragment : Fragment → Prop
  place : CharRange → Prop
  found : Findings

/-- Fragments between two braces or semicolons, and any lexemes. -/
def Origin.tidy (found : Findings) : Origin :=
  ⟨Tidy found.problems, fun _ => True, found⟩

variable {origin : Origin}

/-- The head of a rule was read in a context. -/
inductive Rule.Opened (origin : Origin) (context : Context) (rule : Rule) : Prop
  | bare (hhead : rule.head = .transparent) (hplace : origin.place rule.range)
    (hproblem : Problem.missingSelector.located rule.range ∈ origin.found.problems)
  | written (fragment : Fragment) (hfragment : origin.fragment fragment)
    (htext : rule.text = Text.squeeze (Fragment.text fragment)) (hrange : rule.range = Fragment.range fragment)
    (hhead : rule.head = (readHead context fragment rule.text).1)
    (hfound : (readHead context fragment rule.text).2.Among origin.found)

/-- A declaration was read in a context. -/
def Declaration.Read (origin : Origin) (context : Context) (declaration : Declaration) : Prop :=
  ∃ fragment findings, origin.fragment fragment ∧ (Fragment.text fragment).head? ≠ some '@' ∧
    readDeclaration context fragment = (some declaration, findings) ∧ findings.Among origin.found

/-- A rule was read in a context. -/
structure Rule.Read (origin : Origin) (context : Context) (rule : Rule) : Prop where
  opened : rule.Opened origin context
  declarations : ∀ declaration ∈ rule.declarations, declaration.Read origin (context.inside rule.head)

/-- A statement was read. -/
def Statement.Read (origin : Origin) (statement : Statement) : Prop :=
  ∃ fragment, origin.fragment fragment ∧ (Fragment.text fragment).head? = some '@' ∧
    statement.text = Text.squeeze (Fragment.text fragment) ∧ statement.range = Fragment.range fragment

/-- What is found at once, in a head or a declaration, or a problem of a fragment or of a lexeme. -/
inductive Findings.Read (origin : Origin) : Findings → Prop
  | head (context : Context) {fragment : Fragment} (h : origin.fragment fragment) :
    Read origin (readHead context fragment (Text.squeeze (Fragment.text fragment))).2
  | declaration (context : Context) {fragment : Fragment} (h : origin.fragment fragment) :
    Read origin (readDeclaration context fragment).2
  | clause (problem : Problem) {fragment : Fragment} (h : origin.fragment fragment) :
    Read origin (.problem problem (Fragment.range fragment))
  | lexeme (problem : Problem) {range : CharRange} (h : origin.place range) : Read origin (.problem problem range)

/-- The head of a rule is a place for problems. -/
theorem Rule.Opened.found {rule : Rule} (h : rule.Opened origin context) (problem : Problem) :
    (Findings.problem problem rule.range).Read origin := by
  cases h with
  | bare _ hplace _ => exact .lexeme problem hplace
  | written fragment hfragment _ hrange _ _ => exact hrange ▸ .clause problem hfragment

/-- A head that means something was written. -/
theorem Rule.Opened.exists_fragment {rule : Rule} (h : rule.Opened origin context) (hhead : rule.head ≠ .transparent) :
    ∃ fragment, origin.fragment fragment ∧ rule.text = Text.squeeze (Fragment.text fragment) ∧
      rule.range = Fragment.range fragment ∧ rule.head = (readHead context fragment rule.text).1 ∧
      (readHead context fragment rule.text).2.Among origin.found := by
  cases h with
  | bare htransparent _ _ => exact absurd htransparent hhead
  | written fragment hfragment htext hrange hread hfound => exact ⟨fragment, hfragment, htext, hrange, hread, hfound⟩

/-- Open blocks were read. -/
def BlocksRead (origin : Origin) : List Block → Prop
  | [] => True
  | block :: outer =>
    block.rule.Read origin (contextOf outer) ∧
      Within (Rule.Read origin) (contextOf (block :: outer)) block.inside ∧ BlocksRead origin outer

theorem BlocksRead.mem {blocks : List Block} (h : BlocksRead origin blocks) {block : Block} (hmem : block ∈ blocks) :
    ∃ context, block.rule.Opened origin context := by
  induction blocks with
  | nil => cases hmem
  | cons first outer ih =>
    rcases List.mem_cons.mp hmem with rfl | hmem
    · exact ⟨_, h.1.opened⟩
    · exact ih h.2.2 hmem

/-! ## What reading keeps -/

namespace Reading

variable {reading : Reading}

/-! Problems and references are never taken back. -/

theorem problems_closeBlock (reading : Reading) : reading.closeBlock.problems = reading.problems := by
  rw [closeBlock]
  split <;> rfl

theorem problems_declare (reading : Reading) (declaration : Declaration) :
    (reading.declare declaration).problems = reading.problems := by
  rw [declare]
  split <;> rfl

theorem references_closeBlock (reading : Reading) : reading.closeBlock.references = reading.references := by
  rw [closeBlock]
  split <;> rfl

theorem references_declare (reading : Reading) (declaration : Declaration) :
    (reading.declare declaration).references = reading.references := by
  rw [declare]
  split <;> rfl

theorem problems_closeAll (reading : Reading) : reading.closeAll.problems = reading.problems := by
  rw [closeAll]
  refine List.foldlRecOn (motive := fun after : Reading => after.problems = reading.problems)
    reading.blocks _ rfl ?_
  intro after hafter block _
  rw [problems_closeBlock, hafter]

/-- A later reading has found what an earlier one had, and maybe more. -/
structure Grows (before after : Reading) : Prop where
  references : before.references <+: after.references
  problems : before.problems <+: after.problems

theorem Grows.trans {before after last : Reading} (h : before.Grows after) (h' : after.Grows last) :
    before.Grows last :=
  ⟨h.references.trans h'.references, h.problems.trans h'.problems⟩

theorem grows_closeBlock (reading : Reading) : reading.Grows reading.closeBlock :=
  ⟨reading.references_closeBlock ▸ List.prefix_rfl, reading.problems_closeBlock ▸ List.prefix_rfl⟩

theorem grows_declare (reading : Reading) (declaration : Declaration) : reading.Grows (reading.declare declaration) :=
  ⟨reading.references_declare declaration ▸ List.prefix_rfl, reading.problems_declare declaration ▸ List.prefix_rfl⟩

theorem grows_openBrace (reading : Reading) (range : CharRange) : reading.Grows (reading.openBrace range) := by
  rw [openBrace]
  split
  · exact ⟨List.prefix_rfl, List.prefix_append _ _⟩
  · exact ⟨List.prefix_append _ _, List.prefix_append _ _⟩

theorem grows_flushStatement (reading : Reading) (fragment : Fragment) (stop : Option Nat) :
    reading.Grows (reading.flushStatement fragment stop) := by
  simp only [flushStatement]
  split
  · exact ⟨List.prefix_rfl, List.prefix_append _ _⟩
  · split
    · exact ⟨List.prefix_rfl, List.prefix_append _ _⟩
    · exact ⟨List.prefix_rfl, List.prefix_rfl⟩

theorem grows_flushDeclaration (reading : Reading) (fragment : Fragment) :
    reading.Grows (reading.flushDeclaration fragment) := by
  have hfound (findings : Findings) : reading.Grows (reading.found findings) :=
    ⟨List.prefix_append _ _, List.prefix_append _ _⟩
  simp only [flushDeclaration]
  split
  · exact hfound _
  · exact (hfound _).trans (grows_declare _ _)

theorem grows_flush (reading : Reading) (stop : Option Nat) : reading.Grows (reading.flush stop) := by
  have hcleared : reading.Grows { reading with pending := [] } := ⟨List.prefix_rfl, List.prefix_rfl⟩
  simp only [flush]
  split
  · exact hcleared
  · split
    · exact hcleared.trans (grows_flushStatement _ _ stop)
    · exact hcleared.trans (grows_flushDeclaration _ _)

theorem grows_closeBrace (reading : Reading) (range : CharRange) :
    (reading.flush none).Grows (reading.closeBrace range) := by
  simp only [closeBrace]
  split
  · exact ⟨List.prefix_rfl, List.prefix_append _ _⟩
  · exact grows_closeBlock _

theorem grows_step (reading : Reading) (lexeme : Lexeme) : reading.Grows (reading.step lexeme) := by
  simp only [step]
  split
  · exact reading.grows_openBrace _
  · exact (reading.grows_flush none).trans (reading.grows_closeBrace _)
  · exact reading.grows_flush _
  · exact ⟨List.prefix_rfl, List.prefix_rfl⟩
  · exact ⟨List.prefix_rfl, List.prefix_append _ _⟩
  · exact ⟨List.prefix_rfl, List.prefix_rfl⟩
  · exact ⟨List.prefix_rfl, List.prefix_rfl⟩
  · exact ⟨List.prefix_rfl, List.prefix_rfl⟩
  · exact ⟨List.prefix_rfl, List.prefix_append _ _⟩

theorem grows_foldl (reading : Reading) (lexemes : List Lexeme) : reading.Grows (lexemes.foldl step reading) := by
  induction lexemes generalizing reading with
  | nil => exact ⟨List.prefix_rfl, List.prefix_rfl⟩
  | cons lexeme rest ih => exact (reading.grows_step lexeme).trans (ih _)

theorem grows_finish (reading : Reading) : (reading.flush none).Grows reading.finish := by
  have hreported : (reading.flush none).Grows (reading.flush none).reportOpen :=
    ⟨List.prefix_rfl, List.prefix_append _ _⟩
  rw [finish, closeAll]
  exact List.foldlRecOn (motive := Grows (reading.flush none)) _ _ hreported fun _ hafter _ _ =>
    hafter.trans (grows_closeBlock _)

/-- What a reading has found is among other findings. -/
structure FoundAmong (all : Findings) (reading : Reading) : Prop where
  references : reading.references ⊆ all.references
  problems : reading.problems ⊆ all.problems

theorem Grows.among {before after : Reading} (h : before.Grows after) {all : Findings}
    (hafter : after.FoundAmong all) : before.FoundAmong all :=
  ⟨List.Subset.trans h.references.subset hafter.references, List.Subset.trans h.problems.subset hafter.problems⟩

/-! Braces and semicolons leave nothing collected. -/

theorem pending_openBrace (reading : Reading) (range : CharRange) : (reading.openBrace range).pending = [] := by
  rw [openBrace]
  split <;> rfl

theorem pending_closeBlock (reading : Reading) : reading.closeBlock.pending = reading.pending := by
  rw [closeBlock]
  split <;> rfl

theorem pending_declare (reading : Reading) (declaration : Declaration) :
    (reading.declare declaration).pending = reading.pending := by
  rw [declare]
  split <;> rfl

theorem pending_flush (reading : Reading) (stop : Option Nat) : (reading.flush stop).pending = [] := by
  simp only [flush]
  split
  · rfl
  · split
    · simp only [flushStatement]
      split
      · rfl
      · split <;> rfl
    · simp only [flushDeclaration]
      split
      · rfl
      · rw [pending_declare]
        rfl

theorem pending_closeBrace (reading : Reading) (range : CharRange) :
    (reading.closeBrace range).pending = [] := by
  have hflush := pending_flush reading none
  simp only [closeBrace]
  split
  · exact hflush
  · rw [pending_closeBlock]
    exact hflush

theorem pending_step_structural (reading : Reading) {c : Char} (hc : isStructural c = true) (offset : Nat) :
    (reading.step ⟨structuralKind c, [c], offset⟩).pending = [] := by
  simp only [isStructural, Bool.or_eq_true, beq_iff_eq] at hc
  rcases hc with (rfl | rfl) | rfl
  · exact pending_openBrace reading _
  · exact pending_closeBrace reading _
  · exact pending_flush reading _

end Reading

/-! Collected text is the text of the last lexemes. -/

/-- The characters that a lexeme adds to collected text. -/
def Lexeme.marks (lexeme : Lexeme) : Fragment :=
  match lexeme.kind with
  | .comment => [(' ', lexeme.start)]
  | .quoted | .slash | .text | .unterminatedString => lexeme.text.zipIdx lexeme.start
  | _ => []

/-- The characters that lexemes add to collected text. -/
def marksOf (lexemes : List Lexeme) : Fragment :=
  lexemes.flatMap Lexeme.marks

namespace Reading

variable {reading : Reading} {done : List Lexeme}

/-- Whether a lexeme is a brace or a semicolon. -/
def ends : LexemeKind → Bool
  | .opening | .closing | .semicolon => true
  | _ => false

/-- What is collected is the text of the lexemes since the last brace or semicolon. -/
def Collects (done : List Lexeme) (reading : Reading) : Prop :=
  ∃ older recent, done = older ++ recent ∧ (∀ lexeme ∈ recent, ends lexeme.kind = false) ∧
    reading.pending = Fragment.trimStart (marksOf recent)

theorem collects_of_nil (h : reading.pending = []) : reading.Collects done :=
  ⟨done, [], (List.append_nil _).symm, fun _ h => (List.not_mem_nil h).elim, h⟩

theorem collect_trimStart (fragment : Fragment) (text : Text) (start : Nat) :
    Fragment.collect (Fragment.trimStart fragment) text start =
      Fragment.trimStart (fragment ++ text.zipIdx start) := by
  rw [Fragment.collect, Fragment.trimStart, Fragment.trimStart, Fragment.trimStart, List.dropWhile_append]
  simp only [List.isEmpty_iff]

theorem Collects.snoc (h : reading.Collects done) {lexeme : Lexeme} (hends : ends lexeme.kind = false) :
    (reading.step lexeme).Collects (done ++ [lexeme]) := by
  obtain ⟨older, recent, rfl, hrecent, hpending⟩ := h
  refine ⟨older, recent ++ [lexeme], List.append_assoc _ _ _,
    List.forall_mem_append.mpr ⟨hrecent, List.forall_mem_singleton.mpr hends⟩, ?_⟩
  obtain ⟨kind, text, start⟩ := lexeme
  rw [marksOf, List.flatMap_append, List.flatMap_singleton]
  cases kind with
  | opening | closing | semicolon => cases hends
  | comment =>
    simp only [Reading.step, Fragment.collectGap_eq, hpending]
    exact collect_trimStart _ [' '] start
  | unterminatedComment =>
    simp only [Reading.step, Lexeme.marks, List.append_nil]
    exact hpending
  | quoted | slash | text | unterminatedString =>
    simp only [Reading.step, Reading.report, hpending]
    exact collect_trimStart _ text start

theorem Collects.after (h : reading.Collects done) (lexeme : Lexeme) :
    (reading.step lexeme).Collects (done ++ [lexeme]) := by
  cases hends : ends lexeme.kind with
  | false => exact h.snoc hends
  | true =>
    refine collects_of_nil ?_
    obtain ⟨kind, text, start⟩ := lexeme
    cases kind with
    | opening => exact pending_openBrace _ _
    | closing => exact pending_closeBrace _ _
    | semicolon => exact pending_flush _ _
    | comment | unterminatedComment | quoted | unterminatedString | slash | text => cases hends

theorem Collects.foldl (h : reading.Collects done) (more : List Lexeme) :
    (more.foldl Reading.step reading).Collects (done ++ more) := by
  induction more generalizing done reading with
  | nil =>
    rw [List.append_nil]
    exact h
  | cons lexeme more ih =>
    rw [List.append_cons]
    exact ih (h.after lexeme)

theorem text_trimEnd (fragment : Fragment) :
    Fragment.text (Fragment.trimEnd fragment) = Text.trimEnd (Fragment.text fragment) := by
  rw [Fragment.trimEnd, Fragment.text, List.map_reverse]
  have h := Fragment.text_trimStart fragment.reverse
  rw [Fragment.text] at h
  rw [h, Fragment.text, List.map_reverse]
  rfl

/-- The text that a reading has collected, without the blanks after it. -/
def collected (reading : Reading) : Text :=
  Fragment.text (Fragment.trimEnd reading.pending)

theorem Collects.trimmed (h : reading.Collects done) : Text.Trimmed reading.collected := by
  obtain ⟨-, recent, -, -, hpending⟩ := h
  rw [collected, hpending, text_trimEnd, Fragment.text_trimStart]
  exact Text.trimmed_trim _

/-! Each operation keeps what was read. -/

/-- Everything in a reading was read. -/
structure Keeps (origin : Origin) (reading : Reading) : Prop where
  blocks : BlocksRead origin reading.blocks
  top : Within (Rule.Read origin) .top reading.top
  statements : ∀ statement ∈ reading.statements, statement.Read origin
  references : ∀ reference ∈ reading.references,
    ∃ findings : Findings, findings.Read origin ∧ reference ∈ findings.references
  problems : ∀ problem ∈ reading.problems, ∃ findings : Findings, findings.Read origin ∧ problem ∈ findings.problems

theorem keeps_start : start.Keeps origin :=
  ⟨trivial, trivial, fun _ h => (List.not_mem_nil h).elim, fun _ h => (List.not_mem_nil h).elim,
    fun _ h => (List.not_mem_nil h).elim⟩

namespace Keeps

variable (h : reading.Keeps origin)
include h

theorem collected (pending : Fragment) : Keeps origin { reading with pending := pending } :=
  ⟨h.blocks, h.top, h.statements, h.references, h.problems⟩

theorem found {findings : Findings} (hread : findings.Read origin) : (reading.found findings).Keeps origin where
  __ := h
  references := List.forall_mem_append.mpr ⟨h.references, fun _ hmem => ⟨findings, hread, hmem⟩⟩
  problems := List.forall_mem_append.mpr ⟨h.problems, fun _ hmem => ⟨findings, hread, hmem⟩⟩

theorem report {problem : Problem} {range : CharRange} (hread : (Findings.problem problem range).Read origin) :
    (reading.report problem range).Keeps origin where
  __ := h
  problems := List.forall_mem_append.mpr ⟨h.problems, fun _ hmem => ⟨_, hread, hmem⟩⟩

theorem state {statement : Statement} (hread : statement.Read origin) :
    Keeps origin { reading with statements := reading.statements ++ [statement] } where
  __ := h
  statements := List.forall_mem_append.mpr ⟨h.statements, List.forall_mem_singleton.mpr hread⟩

theorem openBlock {rule : Rule} (hrule : rule.Opened origin (contextOf reading.blocks)) (hnone : rule.declarations = []) :
    (reading.openBlock rule).Keeps origin where
  __ := h
  blocks := ⟨⟨hrule, fun _ hmem => by rw [hnone] at hmem; cases hmem⟩, trivial, h.blocks⟩

theorem closeBlock : reading.closeBlock.Keeps origin := by
  have hblocks := h.blocks
  rw [Reading.closeBlock]
  split
  · exact h
  next block heq =>
    rw [heq] at hblocks
    exact { h with
      blocks := trivial
      top := within_append.mpr ⟨h.top, hblocks.1, hblocks.2.1, trivial⟩ }
  next block outer others heq =>
    rw [heq] at hblocks
    obtain ⟨hrule, hinside, houter, houtside, hothers⟩ := hblocks
    exact { h with blocks := ⟨houter, within_append.mpr ⟨houtside, hrule, hinside, trivial⟩, hothers⟩ }

theorem declare {declaration : Declaration} (hread : declaration.Read origin (contextOf reading.blocks)) :
    (reading.declare declaration).Keeps origin := by
  have hblocks := h.blocks
  rw [Reading.declare]
  split
  · exact h
  next block outer heq =>
    rw [heq] at hblocks hread
    obtain ⟨⟨hopened, hdeclarations⟩, hinside, houter⟩ := hblocks
    refine { h with blocks := ⟨⟨?_, ?_⟩, hinside, houter⟩ }
    · cases hopened with
      | bare hhead hplace hproblem => exact .bare hhead hplace hproblem
      | written fragment hfragment htext hrange hhead hfound =>
        exact .written fragment hfragment htext hrange hhead hfound
    · exact List.forall_mem_append.mpr ⟨hdeclarations, List.forall_mem_singleton.mpr hread⟩

theorem flushStatement {fragment : Fragment} (hfragment : origin.fragment fragment)
    (hhead : (Fragment.text fragment).head? = some '@') (stop : Option Nat) :
    (reading.flushStatement fragment stop).Keeps origin := by
  simp only [Reading.flushStatement]
  split
  · exact h.report (.clause _ hfragment)
  · split
    · exact (h.report (.clause .repeatedPlaceholder hfragment)).state ⟨fragment, hfragment, hhead, rfl, rfl⟩
    · exact h.state ⟨fragment, hfragment, hhead, rfl, rfl⟩

theorem flushDeclaration {fragment : Fragment} (hfragment : origin.fragment fragment)
    (hhead : (Fragment.text fragment).head? ≠ some '@')
    (hfound : (reading.flushDeclaration fragment).FoundAmong origin.found) :
    (reading.flushDeclaration fragment).Keeps origin := by
  have hread := h.found (.declaration (contextOf reading.blocks) hfragment)
  rw [Reading.flushDeclaration, context_eq] at *
  cases hdeclaration : readDeclaration (contextOf reading.blocks) fragment with
  | mk declaration findings =>
    rw [hdeclaration] at hfound hread
    cases declaration with
    | none => exact hread
    | some declaration =>
      replace hfound := (grows_declare _ _).among hfound
      refine hread.declare ⟨fragment, findings, hfragment, hhead, hdeclaration, ?_, ?_⟩
      · exact List.Subset.trans (List.subset_append_right reading.references _) hfound.references
      · exact List.Subset.trans (List.subset_append_right reading.problems _) hfound.problems

section

variable (hfragment : Fragment.trimEnd reading.pending ≠ [] → origin.fragment (Fragment.trimEnd reading.pending))
include hfragment

theorem openBrace {range : CharRange} (hplace : origin.place range)
    (hfound : (reading.openBrace range).FoundAmong origin.found) : (reading.openBrace range).Keeps origin := by
  cases heq : Fragment.trimEnd reading.pending with
  | nil =>
    simp only [Reading.openBrace, heq] at hfound ⊢
    have hproblem := hfound.problems (List.mem_append_right _ (List.mem_singleton.mpr rfl))
    exact (h.report (.lexeme _ hplace)).openBlock (.bare rfl hplace hproblem) rfl
  | cons mark rest =>
    rw [heq] at hfragment
    replace hfragment := hfragment (List.cons_ne_nil _ _)
    simp only [Reading.openBrace, heq] at hfound ⊢
    have hreferences := List.Subset.trans (List.subset_append_right reading.references _) hfound.references
    have hproblems := List.Subset.trans (List.subset_append_right reading.problems _) hfound.problems
    rw [context_eq] at hreferences hproblems ⊢
    exact (h.found (.head _ hfragment)).openBlock (.written _ hfragment rfl rfl rfl ⟨hreferences, hproblems⟩) rfl

theorem flush {stop : Option Nat} (hfound : (reading.flush stop).FoundAmong origin.found) :
    (reading.flush stop).Keeps origin := by
  have hcleared := h.collected []
  cases heq : Fragment.trimEnd reading.pending with
  | nil =>
    simp only [Reading.flush, heq]
    exact hcleared
  | cons mark rest =>
    rw [heq] at hfragment
    simp only [Reading.flush, heq] at hfound ⊢
    split at hfound
    next hat =>
      rw [if_pos hat]
      exact hcleared.flushStatement (hfragment (List.cons_ne_nil _ _)) (by simp [Fragment.text, hat]) stop
    next hat =>
      rw [if_neg hat]
      exact hcleared.flushDeclaration (hfragment (List.cons_ne_nil _ _)) (by simpa [Fragment.text] using hat) hfound

theorem closeBrace {range : CharRange} (hplace : origin.place range)
    (hfound : (reading.closeBrace range).FoundAmong origin.found) : (reading.closeBrace range).Keeps origin := by
  have hflush := h.flush hfragment ((reading.grows_closeBrace range).among hfound)
  simp only [Reading.closeBrace]
  split
  · exact hflush.report (.lexeme _ hplace)
  · exact hflush.closeBlock

theorem finish (hfound : reading.finish.FoundAmong origin.found) : reading.finish.Keeps origin := by
  have hflush := h.flush hfragment (reading.grows_finish.among hfound)
  have hreported : (reading.flush none).reportOpen.Keeps origin := by
    refine { hflush with problems := List.forall_mem_append.mpr ⟨hflush.problems, fun problem hproblem => ?_⟩ }
    obtain ⟨block, hblock, rfl⟩ := List.mem_map.mp hproblem
    obtain ⟨context, hopened⟩ := hflush.blocks.mem (List.mem_reverse.mp hblock)
    exact ⟨_, hopened.found _, List.mem_cons_self⟩
  rw [Reading.finish, Reading.closeAll]
  exact List.foldlRecOn (motive := Keeps origin) _ _ hreported fun _ hafter _ _ => hafter.closeBlock

end

theorem step {lexeme : Lexeme} (hplace : origin.place ⟨lexeme.start, lexeme.stop⟩)
    (hfragment : ends lexeme.kind = true → Fragment.trimEnd reading.pending ≠ [] →
      origin.fragment (Fragment.trimEnd reading.pending))
    (hfound : (reading.step lexeme).FoundAmong origin.found) : (reading.step lexeme).Keeps origin := by
  obtain ⟨kind, text, start⟩ := lexeme
  cases kind with
  | opening => exact h.openBrace (hfragment rfl) hplace hfound
  | closing => exact h.closeBrace (hfragment rfl) hplace hfound
  | semicolon => exact h.flush (hfragment rfl) hfound
  | comment | quoted | slash | text => exact h.collected _
  | unterminatedComment => exact h.report (.lexeme _ hplace)
  | unterminatedString => exact (h.report (.lexeme .unterminatedString hplace)).collected _

/-- Reading lexemes, where what is collected before a brace or a semicolon is of the kind. -/
theorem foldl {rest : List Lexeme} (hplace : ∀ lexeme ∈ rest, origin.place ⟨lexeme.start, lexeme.stop⟩)
    (hfragment : ∀ older lexeme newer, rest = older ++ lexeme :: newer → ends lexeme.kind = true →
      Fragment.trimEnd (older.foldl Reading.step reading).pending ≠ [] →
        origin.fragment (Fragment.trimEnd (older.foldl Reading.step reading).pending))
    (hfound : (rest.foldl Reading.step reading).FoundAmong origin.found) :
    (rest.foldl Reading.step reading).Keeps origin := by
  induction rest generalizing reading with
  | nil => exact h
  | cons lexeme rest ih =>
    rw [List.forall_mem_cons] at hplace
    have hstep := h.step hplace.1 (hfragment [] lexeme rest rfl) ((grows_foldl (reading.step lexeme) rest).among hfound)
    refine ih hstep hplace.2 (fun older last newer heq => ?_) hfound
    exact hfragment (lexeme :: older) last newer (by rw [heq]; rfl)

end Keeps

end Reading

/-! ## Whole sheets -/

namespace Scanner

variable {scanner : Scanner} {all : Findings}

/-- Everything was read from tidy fragments, and if the sheet is well formed, plain text is being collected. -/
structure Sound (all : Findings) (scanner : Scanner) : Prop where
  kept : scanner.reading.Keeps (.tidy all)
  collects : ∃ done, scanner.reading.Collects done
  follows : WellFormed all.problems → ∃ t, scanner.Follows t

theorem grows_step (scanner : Scanner) (c : Char) : scanner.reading.Grows (scanner.step c).reading :=
  Reading.grows_foldl _ _

theorem plain_of_outside {t : Text} (h : scanner.Follows t) (hscan : scanner.mode.scan.isOutside = true) :
    Plain t :=
  plain_iff.mpr ⟨_, h.scanned, hscan⟩

/-- In a comment, the lexer holds back the space that the comment counts as. -/
theorem Follows.step_comment {t : Text} {star : Bool} {read : Text} (h : scanner.Follows t)
    (hmode : scanner.mode = .comment star read) (c : Char) : (scanner.step c).Follows t := by
  obtain ⟨mode, first, offset, reading⟩ := scanner
  cases hmode
  obtain ⟨⟨before, hbefore, rfl⟩, hscanned⟩ := h
  simp only [Scanner.step, Lexer.step]
  split
  · refine ⟨⟨before ++ [' '], ?_, (List.append_nil _).symm⟩, hscanned⟩
    simp only [List.foldl_cons, List.foldl_nil, Reading.step, Fragment.collectGap_eq]
    exact Fragment.text_collect hbefore [' '] first
  · exact ⟨⟨before, hbefore, rfl⟩, hscanned⟩

/-- A comment begins, and the space that it counts as takes the place of the slash. -/
theorem Follows.step_star {t : Text} (h : scanner.Follows t) (hmode : scanner.mode = .slash) :
    ∃ before, t = before ++ ['/'] ∧ (scanner.step '*').Follows (before ++ [' ']) := by
  obtain ⟨mode, first, offset, reading⟩ := scanner
  cases hmode
  obtain ⟨⟨before, hbefore, rfl⟩, hscanned⟩ := h
  refine ⟨before, rfl, ⟨before, hbefore, rfl⟩, ?_⟩
  rw [Scan.read_append, Option.bind_eq_some_iff] at hscanned
  obtain ⟨scan, hscan, hslash⟩ := hscanned
  have hslash : scan.next '/' = some .slash := by rwa [← Scan.read_singleton]
  rw [Scan.read_append, hscan, Option.bind_some, Scan.read_singleton]
  cases scan with
  | out | slash => rfl
  | quoted quote escaped =>
    -- a slash in a string begins nothing
    rw [Scan.next, if_neg (by decide)] at hslash
    split at hslash
    · cases hslash
    · split at hslash <;> cases hslash

theorem step_of_slash (h : scanner.mode = .slash) :
    (scanner.step '*').mode = .comment false ['*', '/'] ∧ (scanner.step '*').reading = scanner.reading := by
  simp only [Scanner.step, h, Lexer.step]
  exact ⟨rfl, rfl⟩

/-- A string that does not end with its line is malformed. -/
theorem not_wellFormed_step_newline {quote : Char} {escaped : Bool} {read : Text}
    (h : scanner.mode = .quoted quote escaped read) : ¬WellFormed (scanner.step '\n').reading.problems := by
  intro hwell
  refine hwell (Problem.unterminatedString.located ⟨scanner.first,
    Lexeme.stop ⟨.unterminatedString, read.reverse, scanner.first⟩⟩) ?_ rfl
  simp only [Scanner.step, h, Lexer.step, if_true, emitThen, List.foldl_cons]
  refine (Reading.grows_foldl _ _).problems.subset ?_
  exact List.mem_append_right _ (List.mem_singleton.mpr rfl)

theorem Sound.step (h : scanner.Sound all) {c : Char} (hfound : (scanner.step c).reading.FoundAmong all) :
    (scanner.step c).Sound all := by
  obtain ⟨hkept, ⟨done, hcollects⟩, hfollows⟩ := h
  suffices hstep : (scanner.step c).reading.Keeps (.tidy all) ∧
      (WellFormed all.problems → ∃ t, (scanner.step c).Follows t) from
    ⟨hstep.1, ⟨_, hcollects.foldl _⟩, hstep.2⟩
  by_cases hwell : WellFormed all.problems
  case neg =>
    refine ⟨hkept.foldl (fun _ _ => trivial) (fun older _ _ _ _ hne => ?_) hfound, fun hwell' => absurd hwell' hwell⟩
    exact ⟨hne, (hcollects.foldl older).trimmed, fun hwell' => absurd hwell' hwell⟩
  obtain ⟨t, hfollows⟩ := hfollows hwell
  cases hmode : scanner.mode.isComment with
  | true =>
    obtain ⟨read, hmode⟩ := Lexer.Mode.eq_comment hmode
    generalize scanner.mode.star = star at hmode
    refine ⟨hkept.foldl (fun _ _ => trivial) (fun older lexeme newer heq hends => ?_) hfound,
      fun _ => ⟨t, hfollows.step_comment hmode c⟩⟩
    have hmem : lexeme ∈ older ++ lexeme :: newer := List.mem_append_right _ List.mem_cons_self
    rw [← heq] at hmem
    simp only [hmode] at hmem
    split at hmem
    · obtain rfl := List.mem_singleton.mp hmem
      cases hends
    · cases hmem
  | false =>
    cases hnext : scanner.mode.scan.next c with
    | some scan =>
      obtain ⟨hstep, -, -, pending, hreading⟩ := hfollows.step hmode hnext
      exact ⟨hreading ▸ hkept.collected pending, fun _ => ⟨_, hstep⟩⟩
    | none =>
      rcases of_next_eq_none hnext with ⟨hscan, hc⟩ | ⟨hslash, rfl⟩ | ⟨quote, escaped, read, hquoted, rfl⟩
      · obtain ⟨fragment, htext, heq⟩ := hfollows.step_structural hmode hscan hc
        have htrim : Fragment.text (Fragment.trimEnd fragment) = Text.trim t := by
          rw [Reading.text_trimEnd, htext]
          rfl
        have htidy (hne : Fragment.trimEnd fragment ≠ []) : Tidy all.problems (Fragment.trimEnd fragment) := by
          refine ⟨hne, ?_, fun _ => ?_⟩ <;> rw [htrim]
          · exact Text.trimmed_trim t
          · exact (plain_of_outside hfollows hscan).trim
        rw [heq] at hfound ⊢
        refine ⟨(hkept.collected fragment).step trivial (fun _ => htidy) hfound, fun _ => ⟨[], ?_⟩⟩
        exact follows_nil (Reading.pending_step_structural _ hc _)
      · obtain ⟨before, -, hstar⟩ := hfollows.step_star hslash
        exact ⟨(step_of_slash hslash).2 ▸ hkept, fun _ => ⟨_, hstar⟩⟩
      · exact absurd (fun problem h => hwell problem (hfound.problems h)) (not_wellFormed_step_newline hquoted)

theorem grows_run (scanner : Scanner) (text : Text) : scanner.reading.Grows (scanner.run text).reading := by
  induction text generalizing scanner with
  | nil => exact ⟨List.prefix_rfl, List.prefix_rfl⟩
  | cons c rest ih => exact (scanner.grows_step c).trans (ih _)

theorem Sound.run (h : scanner.Sound all) {text : Text} (hfound : (scanner.run text).reading.FoundAmong all) :
    (scanner.run text).Sound all := by
  induction text generalizing scanner with
  | nil => exact h
  | cons c rest ih => exact ih (h.step (((scanner.step c).grows_run rest).among hfound)) hfound

theorem sound_initial : initial.Sound all :=
  ⟨Reading.keeps_start, ⟨[], Reading.collects_of_nil rfl⟩, fun _ => ⟨[], follows_nil rfl⟩⟩

/-- While nothing is malformed, plain text is being collected. -/
theorem exists_follows {source : Text} (h : WellFormed (initial.run source).reading.problems) :
    ∃ t, (initial.run source).Follows t :=
  (@Sound.run _ ⟨_, (initial.run source).reading.problems⟩ sound_initial source
    ⟨List.Subset.refl _, List.Subset.refl _⟩).follows h

/-- At the end of a well-formed sheet the lexer is in no string and in no comment. -/
theorem outside_of_close (scanner : Scanner) (h : WellFormed scanner.close.problems) :
    scanner.mode.isComment = false ∧ scanner.mode.scan.isOutside = true := by
  obtain ⟨mode, first, offset, reading⟩ := scanner
  cases mode with
  | ground | text _ | slash => exact ⟨rfl, rfl⟩
  | quoted _ _ _ | comment _ _ =>
    exact absurd rfl (h _ (List.mem_append_right _ (List.mem_singleton.mpr rfl)))

/-- At the end of the source, what is collected is tidy. -/
theorem Sound.close (h : scanner.Sound all) (hfound : scanner.close.FoundAmong all) :
    scanner.close.Keeps (.tidy all) ∧
      (Fragment.trimEnd scanner.close.pending ≠ [] → Tidy all.problems (Fragment.trimEnd scanner.close.pending)) := by
  obtain ⟨hkept, ⟨done, hcollects⟩, hfollows⟩ := h
  constructor
  · refine hkept.foldl (fun _ _ => trivial) (fun older lexeme newer heq hends => ?_) hfound
    have hmem : lexeme ∈ Lexer.finish scanner.mode scanner.first := by
      rw [heq]
      exact List.mem_append_right _ List.mem_cons_self
    cases hmode : scanner.mode <;> rw [hmode] at hmem
    case ground => cases hmem
    all_goals
      obtain rfl := List.mem_singleton.mp hmem
      cases hends
  · intro hne
    refine ⟨hne, (hcollects.foldl _).trimmed, fun hwell => ?_⟩
    obtain ⟨t, hfollows⟩ := hfollows hwell
    obtain ⟨hmode, hscan⟩ := scanner.outside_of_close fun problem hmem => hwell _ (hfound.problems hmem)
    obtain ⟨pending, hclose, hpending⟩ := hfollows.close hmode hscan
    rw [hclose, Reading.text_trimEnd, hpending]
    exact (plain_of_outside hfollows hscan).trim

end Scanner

/-- All that was found in a sheet. -/
def Sheet.findings (sheet : Sheet) : Findings :=
  ⟨sheet.references, sheet.diagnostics.reported⟩

/-- **Every part of a sheet was read somewhere in it.** -/
theorem Sheet.read_parse (source : Text) :
    ∃ top : Forest Rule, (Sheet.parse source).rules = top.number 1 ∧
      Within (Rule.Read (.tidy (Sheet.parse source).findings)) .top top ∧
      ∀ statement ∈ (Sheet.parse source).statements, statement.Read (.tidy (Sheet.parse source).findings) := by
  rw [Sheet.parse_eq]
  have hfinish : (Scanner.initial.run source).close.finish.FoundAmong
      ⟨(Scanner.initial.run source).close.finish.references, (Scanner.initial.run source).close.finish.problems⟩ :=
    ⟨List.Subset.refl _, List.Subset.refl _⟩
  have hclose := ((Reading.grows_flush _ none).trans (Reading.grows_finish _)).among hfinish
  have hrun := (Reading.grows_foldl (Scanner.initial.run source).reading
    (Lexer.finish (Scanner.initial.run source).mode (Scanner.initial.run source).first)).among hclose
  obtain ⟨hkept, htidy⟩ := (Scanner.sound_initial.run hrun).close hclose
  have hall := hkept.finish htidy hfinish
  exact ⟨_, rfl, hall.top, hall.statements⟩

end Sitewright.Style
