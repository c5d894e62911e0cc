import Sitewright.Proofs.Style.Extents
import Sitewright.Proofs.Style.FixedPoint

/-!
Places are only handed on. Two readings that differ in places alone (`Reading.Alike`) still do so after they have
read lexemes of the same kind and text (`Reading.Alike.step`), wherever these stand. So what a sheet says, and the
text that is built from it, is a matter of the kinds and texts of its lexemes.
-/

namespace Sitewright

namespace Style

/-- A statement without its place. -/
def Statement.bare (statement : Statement) : Statement :=
  ⟨statement.text, ⟨0, 0⟩, ⟨0, 0⟩⟩

/-- What a sheet says: rules, statements, references and diagnostics, without places. -/
def Sheet.placeless (sheet : Sheet) : Sheet :=
  ⟨[], sheet.rules.map fun entry => (entry.1, entry.2.bare), sheet.statements.map Statement.bare,
    sheet.references.map GlobalReference.bare, ⟨sheet.diagnostics.reported.map Diagnostic.bare⟩⟩

/-! ## Fragments -/

section

variable {f g : Fragment} (h : Fragment.text f = Fragment.text g)
include h

theorem eq_nil_iff_of_text : f = [] ↔ g = [] := by
  rw [← List.map_eq_nil_iff (f := Prod.fst), ← List.map_eq_nil_iff (f := Prod.fst) (l := g)]
  exact iff_of_eq (congrArg (· = []) h)

/-- Fragments of the same text have no marks, or first marks with the same character. -/
theorem cases_of_text : f = [] ∧ g = [] ∨
    ∃ mark rest mark' rest', f = mark :: rest ∧ g = mark' :: rest' ∧ mark.1 = mark'.1 := by
  cases f with
  | nil => exact .inl ⟨rfl, (eq_nil_iff_of_text h).mp rfl⟩
  | cons mark rest =>
    obtain ⟨mark', rest', rfl, hmark, -⟩ := List.map_eq_cons_iff.mp h.symm
    exact .inr ⟨mark, rest, mark', rest', rfl, rfl, hmark.symm⟩

theorem text_collect_congr (added : Text) (start start' : Nat) :
    Fragment.text (Fragment.collect f added start) = Fragment.text (Fragment.collect g added start') := by
  simp only [Fragment.collect, eq_nil_iff_of_text h]
  split
  · rw [Fragment.text_trimStart, Fragment.text_trimStart, Fragment.text_zipIdx, Fragment.text_zipIdx]
  · rw [Fragment.text_append, Fragment.text_append, h, Fragment.text_zipIdx, Fragment.text_zipIdx]

/-! ## Heads -/

theorem readBlockAtRule_congr (context : Context) (name : Text) :
    (readBlockAtRule context f name).2.bare = (readBlockAtRule context g name).2.bare := by
  rw [readBlockAtRule, readBlockAtRule]
  split
  · exact variableFindings_congr h
  · rfl

theorem readAtRule_congr (context : Context) (text : Text) :
    (readAtRule context f text).2.bare = (readAtRule context g text).2.bare := by
  simp only [readAtRule]
  split
  · split
    · rfl
    · exact variableFindings_congr h
  split
  · exact readBlockAtRule_congr h context _
  split
  · rfl
  split
  · exact readBlockAtRule_congr h context _
  · split <;> rfl

/-- What is found in a head is a matter of its characters. -/
theorem readHead_congr (context : Context) (text : Text) :
    (readHead context f text).2.bare = (readHead context g text).2.bare := by
  by_cases hat : text.head? = some '@'
  · rw [readHead_of_at hat, readHead_of_at hat]
    exact readAtRule_congr h context text
  · rw [readHead_of_ne_at hat, readHead_of_ne_at hat]
    simp only [readSelectors]
    split
    · rfl
    · split <;> rfl

end

/-! ## Readings -/

/-- Two readings differ in places alone. -/
structure Reading.Alike (reading other : Reading) : Prop where
  pending : Fragment.text reading.pending = Fragment.text other.pending
  outline : reading.outline = other.outline
  references : reading.references.map GlobalReference.bare = other.references.map GlobalReference.bare
  problems : reading.problems.map Diagnostic.bare = other.problems.map Diagnostic.bare

namespace Reading

theorem Alike.refl (reading : Reading) : reading.Alike reading :=
  ⟨rfl, rfl, rfl, rfl⟩

theorem Alike.trans {a b c : Reading} (h : a.Alike b) (h' : b.Alike c) : a.Alike c :=
  ⟨h.pending.trans h'.pending, h.outline.trans h'.outline, h.references.trans h'.references,
    h.problems.trans h'.problems⟩

variable {reading other : Reading} (h : reading.Alike other)
include h

namespace Alike

variable {f g : Fragment}

theorem symm : other.Alike reading :=
  ⟨h.pending.symm, h.outline.symm, h.references.symm, h.problems.symm⟩

theorem context : reading.context = other.context := by
  rw [← contextOf_outline, h.outline, contextOf_outline]

theorem isEmpty_blocks : reading.blocks = [] ↔ other.blocks = [] := by
  rw [← blocks_outline_eq_nil, h.outline, blocks_outline_eq_nil]

theorem report (problem : Problem) (range range' : CharRange) :
    (reading.report problem range).Alike (other.report problem range') where
  __ := h
  problems := by
    simp only [Reading.report, List.map_append, h.problems]
    rfl

theorem found {findings findings' : Findings} (hfindings : findings.bare = findings'.bare) :
    (reading.found findings).Alike (other.found findings') where
  __ := h
  references := by
    have hreferences := congrArg Findings.references hfindings
    simp only [Findings.bare] at hreferences
    simp only [Reading.found, List.map_append, h.references, hreferences]
  problems := by
    have hproblems := congrArg Findings.problems hfindings
    simp only [Findings.bare] at hproblems
    simp only [Reading.found, List.map_append, h.problems, hproblems]

theorem collected (hpending : Fragment.text f = Fragment.text g) :
    Alike { reading with pending := f } { other with pending := g } where
  __ := h
  pending := hpending

theorem openBlock (head : Head) (text : Text) (range range' : CharRange) :
    (reading.openBlock ⟨head, text, range, []⟩).Alike (other.openBlock ⟨head, text, range', []⟩) where
  __ := h
  pending := rfl
  outline := congrArg (Outline.push head text) h.outline

theorem closeBlock : reading.closeBlock.Alike other.closeBlock where
  pending := by rw [pending_closeBlock, pending_closeBlock, h.pending]
  outline := by rw [outline_closeBlock, outline_closeBlock, h.outline]
  references := by rw [references_closeBlock, references_closeBlock, h.references]
  problems := by rw [problems_closeBlock, problems_closeBlock, h.problems]

theorem declare {declaration declaration' : Declaration} (hdeclaration : declaration.bare = declaration'.bare) :
    (reading.declare declaration).Alike (other.declare declaration') where
  pending := by rw [pending_declare, pending_declare, h.pending]
  outline := by rw [outline_declare, outline_declare, h.outline, hdeclaration]
  references := by rw [references_declare, references_declare, h.references]
  problems := by rw [problems_declare, problems_declare, h.problems]

theorem openBrace (range range' : CharRange) : (reading.openBrace range).Alike (other.openBrace range') := by
  have htext : Fragment.text (Fragment.trimEnd reading.pending) = Fragment.text (Fragment.trimEnd other.pending) := by
    rw [text_trimEnd, text_trimEnd, h.pending]
  rcases cases_of_text htext with ⟨hr, ho⟩ | ⟨mark, rest, mark', rest', hr, ho, -⟩
  · simp only [Reading.openBrace, hr, ho]
    exact (h.report .missingSelector range range').openBlock _ _ _ _
  · rw [hr, ho] at htext
    simp only [Reading.openBrace, hr, ho, h.context, htext, readHead_fst]
    exact (h.found (readHead_congr htext _ _)).openBlock _ _ _ _

theorem added (text : Text) (range whole range' whole' : CharRange) :
    Alike { reading with statements := reading.statements ++ [⟨text, range, whole⟩] }
      { other with statements := other.statements ++ [⟨text, range', whole'⟩] } where
  __ := h
  outline := by
    have hadded := congrArg (fun outline => { outline with statements := outline.statements ++ [text] }) h.outline
    simpa only [Reading.outline, List.map_append, List.map_cons, List.map_nil] using hadded

theorem flushStatement (htext : Fragment.text f = Fragment.text g) (stop stop' : Option Nat) :
    (reading.flushStatement f stop).Alike (other.flushStatement g stop') := by
  -- whether a statement is the placeholder is a matter of its text
  have hbare (statements : List Statement) : statements.any Statement.isPlaceholder =
      (statements.map Statement.text).any fun text => Statement.isPlaceholder ⟨text, ⟨0, 0⟩, ⟨0, 0⟩⟩ := by
    rw [List.any_map]
    rfl
  have hany : reading.statements.any Statement.isPlaceholder = other.statements.any Statement.isPlaceholder := by
    rw [hbare, hbare]
    exact congrArg (fun outline : Outline => outline.statements.any _) h.outline
  have hone (text : Text) (range whole range' whole' : CharRange) :
      Statement.isPlaceholder ⟨text, range, whole⟩ = Statement.isPlaceholder ⟨text, range', whole'⟩ := rfl
  simp only [Reading.flushStatement, ne_eq, h.isEmpty_blocks, htext]
  split
  · exact h.report .nestedStatement _ _
  rw [hany, hone _ _ _ (Fragment.range g) ⟨(Fragment.range g).start, stop'.getD (Fragment.range g).stop⟩]
  split
  · exact (h.report .repeatedPlaceholder _ _).added _ _ _ _ _
  · exact h.added _ _ _ _ _

theorem flushDeclaration (htext : Fragment.text f = Fragment.text g) :
    (reading.flushDeclaration f).Alike (other.flushDeclaration g) := by
  obtain ⟨hbare, hfindings⟩ := readDeclaration_congr htext other.context
  have hfound := h.found hfindings
  simp only [Reading.flushDeclaration, h.context]
  cases hf : (readDeclaration other.context f).1 with
  | none =>
    rw [hf, Option.map_none] at hbare
    simp only [Option.map_eq_none_iff.mp hbare.symm]
    exact hfound
  | some declaration =>
    rw [hf, Option.map_some] at hbare
    obtain ⟨declaration', hg, hdeclaration⟩ := Option.map_eq_some_iff.mp hbare.symm
    simp only [hg]
    exact hfound.declare hdeclaration.symm

theorem flush (stop stop' : Option Nat) : (reading.flush stop).Alike (other.flush stop') := by
  have htext : Fragment.text (Fragment.trimEnd reading.pending) = Fragment.text (Fragment.trimEnd other.pending) := by
    rw [text_trimEnd, text_trimEnd, h.pending]
  have hcleared : Alike { reading with pending := [] } { other with pending := [] } := h.collected rfl
  rcases cases_of_text htext with ⟨hr, ho⟩ | ⟨mark, rest, mark', rest', hr, ho, hmark⟩
  · simp only [Reading.flush, hr, ho]
    exact hcleared
  · rw [hr, ho] at htext
    simp only [Reading.flush, hr, ho, hmark]
    split
    · exact hcleared.flushStatement htext stop stop'
    · exact hcleared.flushDeclaration htext

theorem closeBrace (range range' : CharRange) : (reading.closeBrace range).Alike (other.closeBrace range') := by
  have hflush := h.flush none none
  simp only [Reading.closeBrace, hflush.isEmpty_blocks]
  split
  · exact hflush.report .unexpectedClosing range range'
  · exact hflush.closeBlock

/-- Lexemes of the same kind and text keep readings alike. -/
theorem step {lexeme lexeme' : Lexeme} (hkind : lexeme.kind = lexeme'.kind) (htext : lexeme.text = lexeme'.text) :
    (reading.step lexeme).Alike (other.step lexeme') := by
  have hcollect := text_collect_congr h.pending lexeme'.text lexeme.start lexeme'.start
  have hgap := text_collect_congr h.pending [' '] lexeme.start lexeme'.start
  simp only [Reading.step, hkind, htext]
  split
  · exact h.openBrace _ _
  · exact h.closeBrace _ _
  · exact h.flush _ _
  · rw [Fragment.collectGap_eq, Fragment.collectGap_eq]
    exact h.collected hgap
  · exact h.report _ _ _
  · exact h.collected hcollect
  · exact h.collected hcollect
  · exact h.collected hcollect
  · exact (h.report _ _ _).collected hcollect

theorem foldl (lexemes : List Lexeme) :
    (lexemes.foldl Reading.step reading).Alike (lexemes.foldl Reading.step other) := by
  induction lexemes generalizing reading other with
  | nil => exact h
  | cons lexeme lexemes ih => exact ih (h.step rfl rfl)

theorem reportOpen : reading.reportOpen.Alike other.reportOpen where
  __ := h
  problems := by
    have hopen (blocks : List Block) : (blocks.reverse.map fun block =>
        (Problem.unclosedBlock block.rule.text).located block.rule.range).map Diagnostic.bare =
        ((blocks.map Block.bare).reverse.map fun block =>
          (Problem.unclosedBlock block.rule.text).located block.rule.range) := by
      rw [← List.map_reverse, List.map_map, List.map_map]
      rfl
    simp only [Reading.reportOpen, List.map_append, h.problems, hopen]
    exact congrArg (fun outline : Outline => _ ++ outline.blocks.reverse.map _) h.outline

theorem closeAll : reading.closeAll.Alike other.closeAll := by
  have hclose {blocks blocks' : List Block} (hlength : blocks.length = blocks'.length) :
      (blocks.foldl (fun reading _ => reading.closeBlock) reading).Alike
        (blocks'.foldl (fun reading _ => reading.closeBlock) other) := by
    induction blocks generalizing blocks' reading other with
    | nil =>
      obtain rfl := List.length_eq_zero_iff.mp hlength.symm
      exact h
    | cons block outer ih =>
      obtain ⟨block', outer', rfl⟩ := List.exists_cons_of_length_eq_add_one hlength.symm
      exact ih h.closeBlock (Nat.succ.inj hlength)
  have hlength := congrArg (fun outline : Outline => outline.blocks.length) h.outline
  simp only [Reading.outline, List.length_map] at hlength
  exact hclose hlength

theorem finish : reading.finish.Alike other.finish :=
  (h.flush none none).reportOpen.closeAll

end Alike

end Reading

/-! ## Building -/

/-- A sheet is built from what it says. -/
theorem Sheet.buildOrdered_placeless (sheet : Sheet) (order : List Text) :
    sheet.placeless.buildOrdered order = sheet.buildOrdered order := by
  refine @Sheet.buildOrdered_of_bare sheet sheet.placeless rfl List.map_map ?_ order
  simp only [Sheet.isMalformed, Diagnostics.hasProblems, Diagnostics.only, Sheet.placeless, List.filter_map,
    List.isEmpty_map]
  rfl

end Style

end Sitewright
