import Sitewright.Proofs.Rows
import Sitewright.Proofs.Style.Assembly
import Sitewright.Proofs.Style.Clauses

/-!
The rules of a sheet by their numbers. A rule has the number of the rule around it and those of the rules in it, and
zero stands for the sheet itself, which is the root and has no declarations (`Sheet.IsTree`). To go down from the root
along these numbers is to count up, and it gives the flat rules of the sheet (`Visits`). A rule with declarations has
selectors or an at-rule around it (`Attached`). While no syntax error is found, the blocks that are open are the braces
that were opened and not closed, so braces without a partner are syntax errors (`balanced_of_wellFormed`).
-/

namespace Sitewright.Style

open Forest (Row)

variable {rows : List (Row Rule)} {origin : Origin} {context : Context}

/-! ## Numbers -/

/-- A rule with selectors or an at-rule, or a rule in one that has only media rules and blocks without meaning around it
up to there. -/
inductive Attached (rows : List (Row Rule)) : Row Rule → Prop
  | here {row : Row Rule} (hhead : (∃ tokens, row.label.head = .style tokens) ∨ row.label.head = .atRule) :
    Attached rows row
  | outward {row outer : Row Rule} (hhead : (∃ key, row.label.head = .media key) ∨ row.label.head = .transparent)
    (hmem : outer ∈ rows) (hid : outer.id = row.parent) (houter : Attached rows outer) : Attached rows row

/-- A rule is where it may be, and so are its declarations. -/
structure Fits (rows : List (Row Rule)) (row : Row Rule) : Prop where
  atRule : row.label.head = .atRule → row.parent = 0
  media : ∀ key, row.label.mediaKey? = some key ↔ row.label.head = .media key
  declarations : ∀ declaration ∈ row.label.declarations,
    declaration.property ≠ [] ∧ (∀ c ∈ declaration.property, isBlank c = false) ∧
      declaration.value ≠ [] ∧ Text.Trimmed declaration.value ∧ Attached rows row

section

variable {row : Row Rule}

theorem Rule.Read.fits (h : row.label.Read origin context) (htop : context.atTop = true → row.parent = 0)
    (hattached : (context.inside row.label.head).hasSelector = true → Attached rows row) : Fits rows row := by
  refine ⟨fun hhead => htop (h.atTop_of_atRule hhead), fun key => ?_, ?_⟩
  · rw [Rule.mediaKey?]
    cases row.label.head <;> simp
  · intro declaration hdeclaration
    obtain ⟨fragment, findings, -, -, hread, -⟩ := h.declarations declaration hdeclaration
    obtain ⟨before, after, -, -, hvalue, hproperty, hsolid, hne, -, hselector, -⟩ := of_readDeclaration hread
    refine ⟨hproperty, fun c hc => ?_, hne, ?_, hattached hselector⟩
    · simpa using List.any_eq_false.mp hsolid c hc
    · rw [hvalue, Reading.text_trimEnd, Fragment.text_trimStart]
      exact Text.trimmed_trim _

end

namespace Reading

variable {reading : Reading}

end Reading

end Sitewright.Style
