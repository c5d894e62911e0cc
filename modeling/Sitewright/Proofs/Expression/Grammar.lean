import Sitewright.Expression.Parser
import Sitewright.Proofs.Places

/-!
The grammar of expressions over tokens, from the loosest level to the tightest, and that the readers keep to it: a
reader takes a beginning of its tokens that is derived at its level, and hands on the rest. What is known of an
expression that was read follows by induction on its derivation.
-/

namespace Sitewright.Expression

variable {result : Expression} {token : Token}

/-- How tightly the parts of an expression hold together, the loosest first. -/
inductive Level where
  | disjunction
  | conjunction
  | comparison
  | unary
  | primary
  deriving DecidableEq, Repr

/-- The value of a quoted token. The marks of its ends are dropped, and what is between them is decoded if it has a
backslash. -/
def Token.Denotes (token : Token) (value : Text) : Prop :=
  if '\\' ∈ token.text.tail.dropLast then Text.Escape.decode token.text.tail.dropLast = .ok value
  else value = token.text.tail.dropLast

/-- The tokens are those of an expression of a level. -/
inductive Derives : Level → List Token → Expression → Prop
  | global {token : Token} (hkind : token.kind = .global) (hname : Naming.isGlobalName token.text = true) :
    Derives .primary [token] (.global token.text)
  | bool {token : Token} (hkind : token.kind = .word) {value : Bool} (htext : token.text = Text.ofBool value) :
    Derives .primary [token] (.bool value)
  | property {token : Token} (hkind : token.kind = .word) (hname : Naming.isPropertyName token.text = true)
      (hbool : ∀ value, token.text ≠ Text.ofBool value) : Derives .primary [token] (.property token.text)
  | literal {token : Token} (hkind : token.kind = .quoted) {value : Text} (hvalue : token.Denotes value) :
    Derives .primary [token] (.literal value)
  | parentheses {opening closing : Token} (hopening : opening.kind = .opening) (hclosing : closing.kind = .closing)
      {tokens : List Token} {inner : Expression} (hinner : Derives .disjunction tokens inner) :
    Derives .primary (opening :: tokens ++ [closing]) inner
  | not {token : Token} (hkind : token.kind = .not) {tokens : List Token} {inner : Expression}
      (hinner : Derives .unary tokens inner) : Derives .unary (token :: tokens) (.not inner)
  | equal {token : Token} (hkind : token.kind = .equal) {before after : List Token} {left right : Expression}
      (hleft : Derives .unary before left) (hright : Derives .unary after right) :
    Derives .comparison (before ++ token :: after) (.equal left right)
  | notEqual {token : Token} (hkind : token.kind = .notEqual) {before after : List Token} {left right : Expression}
      (hleft : Derives .unary before left) (hright : Derives .unary after right) :
    Derives .comparison (before ++ token :: after) (.notEqual left right)
  | and {token : Token} (hkind : token.kind = .and) {before after : List Token} {left right : Expression}
      (hleft : Derives .conjunction before left) (hright : Derives .comparison after right) :
    Derives .conjunction (before ++ token :: after) (.and left right)
  | or {token : Token} (hkind : token.kind = .or) {before after : List Token} {left right : Expression}
      (hleft : Derives .disjunction before left) (hright : Derives .conjunction after right) :
    Derives .disjunction (before ++ token :: after) (.or left right)
  | ofPrimary {tokens : List Token} {result : Expression} (h : Derives .primary tokens result) :
    Derives .unary tokens result
  | ofUnary {tokens : List Token} {result : Expression} (h : Derives .unary tokens result) :
    Derives .comparison tokens result
  | ofComparison {tokens : List Token} {result : Expression} (h : Derives .comparison tokens result) :
    Derives .conjunction tokens result
  | ofConjunction {tokens : List Token} {result : Expression} (h : Derives .conjunction tokens result) :
    Derives .disjunction tokens result

/-! ## Names -/

variable {level : Level}

/-- A name of a derived expression is the text of one of its tokens, and it is valid. -/
theorem Derives.of_mem_globals {tokens : List Token}
    (h : Derives level tokens result) {name : Text} (hname : name ∈ result.globals) :
    Naming.isGlobalName name = true ∧ ∃ token ∈ tokens, token.text = name := by
  induction h with
  | @global token _ hvalid =>
    rw [List.mem_singleton.mp hname]
    exact ⟨hvalid, token, List.mem_cons_self, rfl⟩
  | bool | property | literal => cases hname
  | parentheses _ _ _ ih =>
    obtain ⟨hvalid, token, hmem, htext⟩ := ih hname
    exact ⟨hvalid, token, List.mem_append_left _ (List.mem_cons_of_mem _ hmem), htext⟩
  | not _ _ ih =>
    obtain ⟨hvalid, token, hmem, htext⟩ := ih hname
    exact ⟨hvalid, token, List.mem_cons_of_mem _ hmem, htext⟩
  | equal _ _ _ ihl ihr | notEqual _ _ _ ihl ihr | and _ _ _ ihl ihr | or _ _ _ ihl ihr =>
    rcases List.mem_append.mp hname with hname | hname
    · obtain ⟨hvalid, token, hmem, htext⟩ := ihl hname
      exact ⟨hvalid, token, List.mem_append_left _ hmem, htext⟩
    · obtain ⟨hvalid, token, hmem, htext⟩ := ihr hname
      exact ⟨hvalid, token, List.mem_append_right _ (List.mem_cons_of_mem _ hmem), htext⟩
  | ofPrimary _ ih | ofUnary _ ih | ofComparison _ ih | ofConjunction _ ih => exact ih hname

theorem Derives.isPropertyName_of_mem {tokens : List Token}
    (h : Derives level tokens result) {name : Text} (hname : name ∈ result.properties) :
    Naming.isPropertyName name = true := by
  induction h with
  | property _ hvalid =>
    rw [List.mem_singleton.mp hname]
    exact hvalid
  | global | bool | literal => cases hname
  | parentheses _ _ _ ih | not _ _ ih => exact ih hname
  | equal _ _ _ ihl ihr | notEqual _ _ _ ihl ihr | and _ _ _ ihl ihr | or _ _ _ ihl ihr =>
    exact (List.mem_append.mp hname).elim ihl ihr
  | ofPrimary _ ih | ofUnary _ ih | ofComparison _ ih | ofConjunction _ ih => exact ih hname

/-! ## Readers -/

/-- The error is about a token, the place of one, or the end of the text. -/
def ParseError.IsAt (error : ParseError) (stop : Nat) (tokens : List Token) : Prop :=
  error.span = ⟨stop, stop⟩ ∨
    ∃ token ∈ tokens, error.span = token.span ∨ error.span = ⟨token.span.start, token.span.start⟩

/-- What a reader gives for its tokens: a beginning of them is derived at its level, or one of them is refused. -/
inductive Outcome (level : Level) (stop : Nat) (tokens : List Token) :
    Except ParseError (Expression × List Token) → Prop
  | ok {taken rest : List Token} {result : Expression} (h : Derives level taken result)
      (htokens : tokens = taken ++ rest) : Outcome level stop tokens (.ok (result, rest))
  | error {error : ParseError} (h : error.IsAt stop tokens) : Outcome level stop tokens (.error error)

def Reads (level : Level) (stop : Nat) (reader : Reader) : Prop :=
  ∀ tokens, Outcome level stop tokens (reader tokens)

section

variable {stop : Nat} {rest : List Token}

theorem ParseError.IsAt.mono {error : ParseError} {tokens : List Token} (h : error.IsAt stop rest) (hrest : rest ⊆ tokens) :
    error.IsAt stop tokens := by
  rcases h with hend | ⟨token, htoken, hspan⟩
  · exact .inl hend
  · exact .inr ⟨token, hrest htoken, hspan⟩

theorem Outcome.refused {error : ParseError} (h : error.span = token.span) :
    Outcome level stop (token :: rest) (.error error) :=
  .error (.inr ⟨token, List.mem_cons_self, .inl h⟩)

theorem outcome_readGlobal (hkind : token.kind = .global) :
    Outcome .primary stop (token :: rest) ((readGlobal token).map (·, rest)) := by
  rw [readGlobal]
  split
  next hname => exact .ok (.global hkind hname) rfl
  next => split <;> exact .refused rfl

theorem outcome_readWord (hkind : token.kind = .word) :
    Outcome .primary stop (token :: rest) ((readWord token).map (·, rest)) := by
  rw [readWord]
  split
  next htrue => exact .ok (.bool hkind htrue) rfl
  next htrue =>
    split
    next hfalse => exact .ok (.bool hkind hfalse) rfl
    next hfalse =>
      split
      next hname =>
        refine .ok (.property hkind hname fun value => ?_) rfl
        cases value with
        | true => exact htrue
        | false => exact hfalse
      next => exact .refused rfl

theorem outcome_readQuoted (hkind : token.kind = .quoted) :
    Outcome .primary stop (token :: rest) ((readQuoted token).map (·, rest)) := by
  simp only [readQuoted, List.contains_iff_mem]
  split
  next hslash =>
    split
    next value hdecode => exact .ok (.literal hkind ((if_pos hslash).mpr hdecode)) rfl
    next => exact .refused rfl
  next hslash => exact .ok (.literal hkind ((if_neg hslash).mpr rfl)) rfl

/-- The second operand of a comparison. -/
theorem Outcome.second {before others : List Token} {left : Expression} {node : Expression → Expression → Expression}
    (hnode : ∀ {after right}, Derives .unary after right →
      Derives .comparison (before ++ token :: after) (node left right))
    {read : Except ParseError (Expression × List Token)} (h : Outcome .unary stop others read) :
    Outcome .comparison stop (before ++ token :: others) (read.map fun operand => (node left operand.1, operand.2)) := by
  cases h with
  | ok h htokens => exact .ok (hnode h) (by simp [htokens])
  | error herror => exact .error (herror.mono (by simp))

section

variable {inner : Reader} (hinner : Reads .disjunction stop inner)

include hinner

theorem reads_primary : Reads .primary stop (primary inner stop) := by
  intro tokens
  cases tokens with
  | nil => exact .error (.inl rfl)
  | cons token tokens =>
    simp only [primary]
    split
    next hkind => exact outcome_readGlobal hkind
    next hkind => exact outcome_readWord hkind
    next hkind => exact outcome_readQuoted hkind
    next hopening =>
      have hread := hinner tokens
      generalize inner tokens = read at hread ⊢
      cases hread with
      | error herror => exact .error (herror.mono (List.subset_cons_self _ _))
      | @ok taken rest _ hinside htokens =>
        cases rest with
        | nil => exact .error (.inl rfl)
        | cons next others =>
          simp only
          split
          next hclosing => exact .ok (.parentheses hopening hclosing hinside) (by simp [htokens])
          next => exact .error (.inr ⟨next, by simp [htokens], .inr rfl⟩)
    next => exact .refused rfl

theorem reads_unary : Reads .unary stop (unary inner stop) := by
  have hprimary (tokens : List Token) : Outcome .unary stop tokens (primary inner stop tokens) := by
    have hread := reads_primary hinner tokens
    generalize primary inner stop tokens = read at hread ⊢
    cases hread with
    | ok h htokens => exact .ok (.ofPrimary h) htokens
    | error herror => exact .error herror
  intro tokens
  induction tokens with
  | nil => exact hprimary []
  | cons token tokens ih =>
    rw [unary]
    split
    next hkind =>
      generalize unary inner stop tokens = read at ih ⊢
      cases ih with
      | ok h htokens => exact .ok (.not hkind h) (congrArg (token :: ·) htokens)
      | error herror => exact .error (herror.mono (List.subset_cons_self _ _))
    next => exact hprimary _

theorem reads_comparison : Reads .comparison stop (comparison inner stop) := by
  intro tokens
  have hfirst := reads_unary hinner tokens
  simp only [comparison, bind, Except.bind]
  generalize unary inner stop tokens = first at hfirst ⊢
  cases hfirst with
  | error herror => exact .error herror
  | @ok before others left hleft htokens =>
    subst htokens
    cases others with
    | nil => exact .ok (.ofUnary hleft) rfl
    | cons token others =>
      have hright := reads_unary hinner others
      simp only
      split
      next hkind => exact .second (.equal hkind hleft) hright
      split
      next hkind => exact .second (.notEqual hkind hleft) hright
      next => exact .ok (.ofUnary hleft) rfl

end

/-- A chain goes on from the tokens that its left operand was read from. -/
theorem outcome_chain {tighter : Level} {kind : TokenKind} {node : Expression → Expression → Expression}
    {operand : Reader} (hoperand : Reads tighter stop operand)
    (hnode : ∀ {token before after left right}, token.kind = kind → Derives level before left →
      Derives tighter after right → Derives level (before ++ token :: after) (node left right))
    (rounds : Nat) {left : Expression} {before tokens : List Token} (hleft : Derives level before left) :
    Outcome level stop (before ++ tokens) (chain kind node operand rounds left tokens) := by
  -- with every round the left operand takes in the operator and what stands after it
  induction rounds generalizing left before tokens with
  | zero => exact .ok hleft rfl
  | succ rounds ih =>
    cases tokens with
    | nil => exact .ok hleft rfl
    | cons token tokens =>
      simp only [chain]
      split
      next hkind =>
        have hright := hoperand tokens
        generalize operand tokens = read at hright ⊢
        cases hright with
        | error herror => exact .error (herror.mono (by simp))
        | ok hafter htokens => simpa [htokens] using ih (hnode hkind hleft hafter)
      next => exact .ok hleft rfl

/-- One operand and the chain after it. -/
theorem reads_chain {tighter : Level} {kind : TokenKind} {node : Expression → Expression → Expression}
    {operand : Reader} (hoperand : Reads tighter stop operand)
    (hone : ∀ {tokens result}, Derives tighter tokens result → Derives level tokens result)
    (hnode : ∀ {token before after left right}, token.kind = kind → Derives level before left →
      Derives tighter after right → Derives level (before ++ token :: after) (node left right)) :
    Reads level stop fun tokens =>
      (operand tokens).bind fun read => chain kind node operand read.2.length read.1 read.2 := by
  intro tokens
  have hfirst := hoperand tokens
  simp only
  generalize operand tokens = read at hfirst ⊢
  cases hfirst with
  | error herror => exact .error herror
  | ok hleft htokens =>
    subst htokens
    exact outcome_chain hoperand hnode _ (hone hleft)

theorem reads_conjunction {inner : Reader} (hinner : Reads .disjunction stop inner) :
    Reads .conjunction stop (conjunction inner stop) :=
  reads_chain (reads_comparison hinner) .ofComparison fun hkind hleft hright => .and hkind hleft hright

theorem reads_disjunction {inner : Reader} (hinner : Reads .disjunction stop inner) :
    Reads .disjunction stop (disjunction inner stop) :=
  reads_chain (reads_conjunction hinner) .ofConjunction fun hkind hleft hright => .or hkind hleft hright

theorem reads_expression (stop depth : Nat) : Reads .disjunction stop (expression stop depth) := by
  induction depth with
  | zero => exact fun _ => .error (.inl rfl)
  | succ depth ih => exact reads_disjunction ih

end

/-- A text that is read has a derivation from all its tokens, and one that is not has a token to blame, or its end, or
no tokens at all. -/
theorem outcome_parse (text : Text) :
    (∃ result, parse text = .ok result ∧ Derives .disjunction (tokens text) result) ∨
      ∃ error, parse text = .error error ∧
        (error.IsAt (Text.byteSize text) (tokens text) ∨ error.span = ⟨0, Text.byteSize text⟩) := by
  rw [parse]
  cases htokens : tokens text with
  | nil => exact .inr ⟨_, rfl, .inr rfl⟩
  | cons token rest =>
    have hread := reads_expression (Text.byteSize text) ((token :: rest).length + 1) (token :: rest)
    simp only [ofTokens]
    generalize expression (Text.byteSize text) ((token :: rest).length + 1) (token :: rest) = read at hread ⊢
    cases hread with
    | error herror => exact .inr ⟨_, rfl, .inl herror⟩
    | @ok taken others result h heq =>
      cases others with
      | nil => exact .inl ⟨result, rfl, by rwa [heq, List.append_nil]⟩
      | cons next others => exact .inr ⟨_, rfl, .inl (.inr ⟨next, by simp [heq], .inl rfl⟩)⟩

/-- An expression that was read has a derivation from all tokens of its text. -/
theorem derives_of_parse {text : Text} (h : parse text = .ok result) :
    Derives .disjunction (tokens text) result := by
  rcases outcome_parse text with ⟨_, hok, hderives⟩ | ⟨_, herror, -⟩
  · cases hok.symm.trans h
    exact hderives
  · cases herror.symm.trans h

/-! ## Tokens -/

theorem quotedTail_append (quote : Char) (t : Text) : (quotedTail quote t).2.1 ++ (quotedTail quote t).2.2 = t := by
  fun_induction quotedTail quote t with
  | case1 | case2 | case3 | case4 => rfl
  | case5 d rest _ closed read after hread _ ih =>
    rw [hread] at ih
    exact congrArg (fun tail => '\\' :: d :: tail) ih
  | case6 c d rest _ _ closed read after hread ih =>
    rw [hread] at ih
    exact congrArg (c :: ·) ih

theorem firstToken_append (c : Char) (rest : Text) :
    (firstToken c rest).2.1 ++ (firstToken c rest).2.2 = c :: rest := by
  unfold firstToken
  split
  · exact congrArg (c :: ·) List.takeWhile_append_dropWhile
  split
  · exact congrArg (c :: ·) List.takeWhile_append_dropWhile
  split
  · exact congrArg (c :: ·) (quotedTail_append c rest)
  · split <;> rfl

/-- A token stands in the text where its span says. -/
theorem selects_of_mem_tokensFrom {source text : Text} {rounds start : Nat} (hstands : source.StandsFrom text start)
    (h : token ∈ tokensFrom rounds start text) : token.span.Selects source token.text := by
  induction rounds generalizing start text with
  | zero => cases h
  | succ rounds ih =>
    cases text with
    | nil => cases h
    | cons c rest =>
      rw [tokensFrom] at h
      split at h
      · exact ih hstands.tail h
      · have hsplit := (firstToken_append c rest).symm
        rcases List.mem_cons.mp h with rfl | h
        · exact ⟨hstands.standsAt hsplit, rfl⟩
        · exact ih (hstands.advance hsplit rfl) h

variable {text : Text}

theorem selects_of_mem_tokens (h : token ∈ tokens text) : token.span.Selects text token.text :=
  selects_of_mem_tokensFrom text.standsFrom_zero h

/-- A global that an expression reads stands in its text. -/
theorem infix_of_mem_globals (h : parse text = .ok result) {name : Text} (hname : name ∈ result.globals) :
    name <:+: text := by
  obtain ⟨-, token, htoken, rfl⟩ := (derives_of_parse h).of_mem_globals hname
  obtain ⟨before, after, htext, -⟩ := (selects_of_mem_tokens htoken).stands
  exact ⟨before, after, htext.symm⟩

/-! ## Errors -/

/-- What an error is about lies in the text. -/
theorem fits_of_parse {error : ParseError} (h : parse text = .error error) : error.span.Fits text := by
  rcases outcome_parse text with ⟨_, hok, -⟩ | ⟨_, herror, hspan⟩
  · cases hok.symm.trans h
  cases herror.symm.trans h
  rcases hspan with (hspan | ⟨token, htoken, hspan | hspan⟩) | hspan
  · rw [hspan]
    exact ByteSpan.fits_of_isBorder (Nat.le_refl _) text.isBorder_byteSize text.isBorder_byteSize
  · rw [hspan]
    exact (selects_of_mem_tokens htoken).fits
  · have hstart := (selects_of_mem_tokens htoken).fits.start
    rw [hspan]
    exact ByteSpan.fits_of_isBorder (Nat.le_refl _) hstart hstart
  · rw [hspan]
    exact ByteSpan.fits_whole text

end Sitewright.Expression
