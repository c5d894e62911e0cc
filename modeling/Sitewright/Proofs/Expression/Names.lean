import Sitewright.Proofs.Expression.Evaluation
import Sitewright.Proofs.Expression.Grammar
import Sitewright.Proofs.Text

/-!
The names of an expression. Only valid names have a derivation, so a name without a value says by itself whether
it is a global or a property.
-/

namespace Sitewright.Expression

variable {text : Text}

/-! ## Valid names -/

/-- Every name of the expression is valid. -/
structure WellNamed (expression : Expression) : Prop where
  globals : ∀ name ∈ expression.globals, Naming.isGlobalName name = true
  properties : ∀ name ∈ expression.properties, Naming.isPropertyName name = true

/-- An expression that was read has valid names only. -/
theorem wellNamed_of_parse {result : Expression} (h : parse text = .ok result) :
    result.WellNamed :=
  ⟨fun _ hname => ((derives_of_parse h).of_mem_globals hname).1,
    fun _ hname => (derives_of_parse h).isPropertyName_of_mem hname⟩

theorem of_parseLookup {result : Expression} (h : parseLookup text = .ok result) :
    parse text = .ok result ∧ result.isLookup = true := by
  rw [parseLookup] at h
  split at h
  · cases h
  next hparse =>
    split at h
    next hlookup =>
      cases h
      exact ⟨hparse, hlookup⟩
    · cases h

/-! ## Blank texts -/

theorem kind_firstToken_of_isBlank {c : Char} (h : isBlank c = true) (rest : Text) :
    (firstToken c rest).1 = .invalid := by
  have halpha : c.isAlpha = false := (Bool.or_eq_false_iff.mp (isAlphanum_of_isBlank h)).1
  have hne : ∀ d, isBlank d = false → c ≠ d := fun d hd => ne_of_isBlank h hd
  have hword : (c.isAlpha || c == '_') = false := by
    rw [halpha, Bool.false_or, beq_eq_false_iff_ne]
    exact hne '_' (by decide)
  unfold firstToken
  rw [if_neg (hne '$' (by decide)), if_neg (by simp [hword]),
    if_neg (not_or.mpr ⟨hne '"' (by decide), hne '\'' (by decide)⟩)]
  split
  · exact absurd rfl (hne '&' (by decide))
  · exact absurd rfl (hne '|' (by decide))
  · exact absurd rfl (hne '=' (by decide))
  · exact absurd rfl (hne '!' (by decide))
  · exact absurd rfl (hne '!' (by decide))
  · exact absurd rfl (hne '(' (by decide))
  · exact absurd rfl (hne ')' (by decide))
  · rfl

theorem kind_head_tokensFrom_of_allBlank (rounds start : Nat) (h : Text.allBlank text = true) :
    ∀ token ∈ (tokensFrom rounds start text).head?, token.kind = .invalid := by
  induction rounds generalizing start text with
  | zero =>
    intro token htoken
    cases htoken
  | succ rounds ih =>
    cases text with
    | nil =>
      intro token htoken
      cases htoken
    | cons c rest =>
      simp only [Text.allBlank, List.all_cons, Bool.and_eq_true] at h
      rw [tokensFrom]
      split
      · exact ih _ h.2
      · intro token htoken
        cases htoken
        exact kind_firstToken_of_isBlank h.1 rest

/-- A blank text is no expression. -/
theorem parse_ne_ok_of_allBlank (h : Text.allBlank text = true) (result : Expression) :
    parse text ≠ .ok result := by
  have hhead := kind_head_tokensFrom_of_allBlank text.length 0 h
  rw [parse]
  cases htokens : tokens text with
  | nil =>
    intro hok
    cases hok
  | cons token rest =>
    have hkind : token.kind = .invalid := hhead token (by rw [tokens] at htokens; rw [htokens]; rfl)
    intro hok
    simp only [ofTokens, List.length_cons, expression, disjunction, conjunction, comparison, unary,
      primary, hkind, reduceCtorEq, if_false, bind, Except.bind] at hok

end Sitewright.Expression
