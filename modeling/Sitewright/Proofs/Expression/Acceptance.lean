import Sitewright.Proofs.Expression.Names

/-!
The readers accept all that the grammar derives, and so they accept exactly that. How far a reader goes depends on the token
behind what is derived: an operand ends before any operator of its level or of a tighter one. A chain is derived from its end,
but read from its beginning; so the induction says of a chain that the reader, having read all of it, looks for more operands
(`Derives.accepted`).
-/

namespace Sitewright.Expression

variable {level : Level} {result : Expression} {token : Token}

/-- The first token, if there is one, has none of some kinds. -/
def NotAhead (kinds : List TokenKind) (tokens : List Token) : Prop :=
  ∀ token ∈ tokens.head?, token.kind ∉ kinds

theorem notAhead_nil (kinds : List TokenKind) : NotAhead kinds [] :=
  fun token htoken => (Option.not_mem_none token htoken).elim

theorem notAhead_cons {kinds : List TokenKind} {rest : List Token} :
    NotAhead kinds (token :: rest) ↔ token.kind ∉ kinds := by
  simp [NotAhead]

theorem NotAhead.mono {kinds kinds' : List TokenKind} {tokens : List Token} (h : NotAhead kinds tokens)
    (hsub : kinds' ⊆ kinds) : NotAhead kinds' tokens :=
  fun token htoken hkind => h token htoken (hsub hkind)

/-! ## Chains -/

theorem Reads.length_le {stop : Nat} {reader : Reader} (h : Reads level stop reader) {tokens rest : List Token}
    (hread : reader tokens = .ok (result, rest)) : rest.length ≤ tokens.length := by
  have houtcome := h tokens
  rw [hread] at houtcome
  cases houtcome with
  | ok _ htokens => simp [htokens]

section

variable {kind : TokenKind} {node : Expression → Expression → Expression} {operand : Reader} {left right : Expression}

theorem chain_of_notAhead (rounds : Nat) {tokens : List Token} (h : NotAhead [kind] tokens) :
    chain kind node operand rounds left tokens = .ok (left, tokens) := by
  cases rounds with
  | zero => rfl
  | succ rounds =>
    cases tokens with
    | nil => rfl
    | cons token rest =>
      have hkind : token.kind ≠ kind := by simpa using notAhead_cons.mp h
      rw [chain, if_neg hkind]

variable {level : Level} {stop : Nat} (hoperand : Reads level stop operand)

include hoperand

/-- As many rounds as there are tokens are enough. -/
theorem chain_rounds {rounds rounds' : Nat} {tokens : List Token} (h : tokens.length ≤ rounds)
    (h' : tokens.length ≤ rounds') :
    chain kind node operand rounds left tokens = chain kind node operand rounds' left tokens := by
  induction rounds generalizing rounds' left tokens with
  | zero =>
    obtain rfl := List.eq_nil_of_length_eq_zero (Nat.le_zero.mp h)
    rw [chain_of_notAhead _ (notAhead_nil _), chain_of_notAhead _ (notAhead_nil _)]
  | succ rounds ih =>
    cases tokens with
    | nil => rw [chain_of_notAhead _ (notAhead_nil _), chain_of_notAhead _ (notAhead_nil _)]
    | cons token rest =>
      rw [List.length_cons] at h h'
      obtain ⟨rounds', rfl⟩ : ∃ n, rounds' = n + 1 := ⟨rounds' - 1, by omega⟩
      rw [chain, chain]
      cases hread : operand rest with
      | error error => rfl
      | ok read =>
        obtain ⟨right, others⟩ := read
        have hle := hoperand.length_le hread
        have hrest : chain kind node operand rounds (node left right) others =
            chain kind node operand rounds' (node left right) others := ih (by omega) (by omega)
        simp only [hrest]

/-- One round of a chain. -/
theorem chain_cons {token : Token} (hkind : token.kind = kind) {tokens rest : List Token}
    (hread : operand tokens = .ok (right, rest)) :
    chain kind node operand (token :: tokens).length left (token :: tokens) =
      chain kind node operand rest.length (node left right) rest := by
  rw [List.length_cons, chain, if_pos hkind]
  simp only [hread]
  exact chain_rounds hoperand (hoperand.length_le hread) (Nat.le_refl _)

end

/-! ## Derivations -/

/-- The operators that stand between the operands of a comparison. -/
def comparators : List TokenKind := [.equal, .notEqual]

/-- What a reader makes of derived tokens with others behind them. The depth is that of its parentheses. -/
def Accepts (stop depth : Nat) : Level → List Token → Expression → List Token → Prop
  | .primary, taken, result, rest => primary (expression stop depth) stop (taken ++ rest) = .ok (result, rest)
  | .unary, taken, result, rest => unary (expression stop depth) stop (taken ++ rest) = .ok (result, rest)
  | .comparison, taken, result, rest =>
    NotAhead comparators rest → comparison (expression stop depth) stop (taken ++ rest) = .ok (result, rest)
  | .conjunction, taken, result, rest =>
    NotAhead comparators rest → conjunction (expression stop depth) stop (taken ++ rest) =
      chain .and .and (comparison (expression stop depth) stop) rest.length result rest
  | .disjunction, taken, result, rest =>
    NotAhead (.and :: comparators) rest → disjunction (expression stop depth) stop (taken ++ rest) =
      chain .or .or (conjunction (expression stop depth) stop) rest.length result rest

theorem readWord_ofBool {value : Bool} (h : token.text = Text.ofBool value) :
    readWord token = .ok (.bool value) := by
  rw [readWord, h]
  cases value <;> rfl

/-- The truth values are reserved, so that a valid property is none of them. -/
theorem readWord_property (hname : Naming.isPropertyName token.text = true) :
    readWord token = .ok (.property token.text) := by
  have hne (word : Text) (hreserved : Naming.isPropertyName word = false) : token.text ≠ word := by
    rintro rfl
    exact absurd hname (Bool.eq_false_iff.mp hreserved)
  rw [readWord, if_neg (hne _ (by decide)), if_neg (hne _ (by decide)), if_pos hname]

theorem readQuoted_of_denotes {value : Text} (h : token.Denotes value) :
    readQuoted token = .ok (.literal value) := by
  simp only [readQuoted, List.contains_iff_mem]
  rw [Token.Denotes] at h
  split
  next hslash =>
    rw [if_pos hslash] at h
    rw [h]
  next hslash =>
    rw [if_neg hslash] at h
    rw [h]

/-- A primary expression does not begin with `!`. -/
theorem Derives.exists_cons {tokens : List Token} (h : Derives .primary tokens result) :
    ∃ token rest, tokens = token :: rest ∧ token.kind ≠ .not := by
  cases h with
  | global hkind | bool hkind | property hkind | literal hkind | parentheses hkind =>
    exact ⟨_, _, rfl, by rw [hkind]; decide⟩

section

variable {inner : Reader} {stop : Nat} {tokens others rest : List Token} {token : Token} {left right : Expression}

theorem primary_parentheses {closing : Token} (hopening : token.kind = .opening) (hclosing : closing.kind = .closing)
    (hinner : inner tokens = .ok (left, closing :: rest)) : primary inner stop (token :: tokens) = .ok (left, rest) := by
  simp only [primary, hopening, hinner, hclosing, if_true]

theorem comparison_of_notAhead (hleft : unary inner stop tokens = .ok (left, rest))
    (hrest : NotAhead comparators rest) : comparison inner stop tokens = .ok (left, rest) := by
  simp only [comparison, hleft, bind, Except.bind]
  split
  next => rfl
  next token others =>
    have hkind : token.kind ≠ .equal ∧ token.kind ≠ .notEqual := by simpa [comparators] using notAhead_cons.mp hrest
    rw [if_neg hkind.1, if_neg hkind.2]

theorem comparison_equal (hkind : token.kind = .equal) (hleft : unary inner stop tokens = .ok (left, token :: others))
    (hright : unary inner stop others = .ok (right, rest)) :
    comparison inner stop tokens = .ok (.equal left right, rest) := by
  simp only [comparison, hleft, bind, Except.bind, hkind, if_true, hright]
  rfl

theorem comparison_notEqual (hkind : token.kind = .notEqual)
    (hleft : unary inner stop tokens = .ok (left, token :: others))
    (hright : unary inner stop others = .ok (right, rest)) :
    comparison inner stop tokens = .ok (.notEqual left right, rest) := by
  simp only [comparison, hleft, bind, Except.bind, hkind, reduceCtorEq, if_false, if_true, hright]
  rfl

end

/-- What is derived is read, at any depth that its parentheses allow. -/
theorem Derives.accepted (stop : Nat) {taken : List Token}
    (h : Derives level taken result) {depth : Nat} (hdepth : taken.length ≤ depth) (rest : List Token) :
    Accepts stop depth level taken result rest := by
  induction h generalizing depth rest with
  | global hkind hname =>
    simp only [Accepts, List.singleton_append, primary, hkind, readGlobal, hname, if_true]
    rfl
  | bool hkind htext =>
    simp only [Accepts, List.singleton_append, primary, hkind, readWord_ofBool htext]
    rfl
  | property hkind hname =>
    simp only [Accepts, List.singleton_append, primary, hkind, readWord_property hname]
    rfl
  | literal hkind hvalue =>
    simp only [Accepts, List.singleton_append, primary, hkind, readQuoted_of_denotes hvalue]
    rfl
  | @parentheses opening closing hopening hclosing tokens inner _ ih =>
    -- between the parentheses the depth is one less, and there are at least two tokens less
    rw [List.cons_append, List.length_cons, List.length_append] at hdepth
    obtain ⟨depth, rfl⟩ : ∃ n, depth = n + 1 := ⟨depth - 1, by omega⟩
    have hread := @ih depth (by omega) (closing :: rest) (notAhead_cons.mpr (by rw [hclosing]; decide))
    rw [chain_of_notAhead _ (notAhead_cons.mpr (by rw [hclosing]; decide))] at hread
    rw [Accepts, List.cons_append, List.cons_append, List.append_assoc]
    exact primary_parentheses hopening hclosing hread
  | not hkind _ ih =>
    have hread := ih (Nat.le_of_succ_le hdepth) rest
    rw [Accepts] at hread ⊢
    rw [List.cons_append, unary, if_pos hkind, hread]
    rfl
  | @equal token hkind before after left right _ _ ihleft ihright =>
    intro _
    rw [List.length_append, List.length_cons] at hdepth
    rw [List.append_assoc, List.cons_append]
    exact comparison_equal hkind (ihleft (by omega) (token :: (after ++ rest))) (ihright (by omega) rest)
  | @notEqual token hkind before after left right _ _ ihleft ihright =>
    intro _
    rw [List.length_append, List.length_cons] at hdepth
    rw [List.append_assoc, List.cons_append]
    exact comparison_notEqual hkind (ihleft (by omega) (token :: (after ++ rest))) (ihright (by omega) rest)
  | @and token hkind before after left right _ _ ihleft ihright =>
    intro hrest
    rw [List.length_append, List.length_cons] at hdepth
    have hleft := @ihleft depth (by omega) (token :: (after ++ rest))
      (notAhead_cons.mpr (by rw [hkind]; decide))
    have hright := @ihright depth (by omega) rest hrest
    rw [List.append_assoc, List.cons_append, hleft]
    exact chain_cons (reads_comparison (reads_expression stop depth)) hkind hright
  | @or token hkind before after left right _ _ ihleft ihright =>
    intro hrest
    rw [List.length_append, List.length_cons] at hdepth
    have hleft := @ihleft depth (by omega) (token :: (after ++ rest))
      (notAhead_cons.mpr (by rw [hkind]; decide))
    have hright := @ihright depth (by omega) rest (hrest.mono (by simp))
    rw [chain_of_notAhead _ (hrest.mono (by simp))] at hright
    rw [List.append_assoc, List.cons_append, hleft]
    exact chain_cons (reads_conjunction (reads_expression stop depth)) hkind hright
  | ofPrimary h ih =>
    obtain ⟨token, others, rfl, hkind⟩ := h.exists_cons
    have hread : primary (expression stop depth) stop (token :: (others ++ rest)) = _ := ih hdepth rest
    rw [Accepts, List.cons_append, unary, if_neg hkind, hread]
  | ofUnary _ ih => exact fun hrest => comparison_of_notAhead (ih hdepth rest) hrest
  | ofComparison _ ih =>
    intro hrest
    simp only [conjunction, ih hdepth rest hrest, bind, Except.bind]
  | ofConjunction _ ih =>
    intro hrest
    have hread := ih hdepth rest (hrest.mono (by simp))
    rw [chain_of_notAhead _ (hrest.mono (by simp))] at hread
    simp only [disjunction, hread, bind, Except.bind]

theorem Derives.ne_nil {tokens : List Token} (h : Derives level tokens result) : tokens ≠ [] := by
  induction h with
  | global | bool | property | literal | parentheses | not => exact List.cons_ne_nil _ _
  | equal | notEqual | and | or => simp
  | ofPrimary _ ih | ofUnary _ ih | ofComparison _ ih | ofConjunction _ ih => exact ih

/-- Tokens that are derived are no invalid ones. -/
theorem Derives.kind_ne_invalid {tokens : List Token}
    (h : Derives level tokens result) : ∀ token ∈ tokens, token.kind ≠ .invalid := by
  induction h with
  | global hkind | bool hkind | property hkind | literal hkind => simp [hkind]
  | parentheses hopening hclosing _ ih => simpa [hopening, hclosing, or_imp, forall_and] using ih
  | not hkind _ ih => simpa [hkind] using ih
  | equal hkind _ _ ihleft ihright | notEqual hkind _ _ ihleft ihright | and hkind _ _ ihleft ihright
  | or hkind _ _ ihleft ihright =>
    exact List.forall_mem_append.mpr ⟨ihleft, List.forall_mem_cons.mpr ⟨by simp [hkind], ihright⟩⟩
  | ofPrimary _ ih | ofUnary _ ih | ofComparison _ ih | ofConjunction _ ih => exact ih

/-! ## Texts -/

/-- Tokens that are derived are read to the last one. -/
theorem Derives.ofTokens {tokens : List Token} (h : Derives .disjunction tokens result)
    (stop : Nat) : ofTokens stop tokens = .ok result := by
  have hread := h.accepted stop (Nat.le_refl _) [] (notAhead_nil _)
  rw [List.append_nil, chain_of_notAhead _ (notAhead_nil _)] at hread
  obtain ⟨token, rest, rfl⟩ := List.exists_cons_of_ne_nil h.ne_nil
  simp only [Expression.ofTokens, expression, hread]

/-- Tokens have one meaning at most. -/
theorem Derives.unique {tokens : List Token} {other : Expression} (h : Derives .disjunction tokens result)
    (hother : Derives .disjunction tokens other) : result = other :=
  Except.ok.inj ((h.ofTokens 0).symm.trans (hother.ofTokens 0))

theorem isLookup_iff : result.isLookup = true ↔ ∃ name, result = .global name ∨ result = .property name := by
  cases result <;> simp [isLookup]

theorem parseLookup_eq_ok {text : Text} :
    parseLookup text = .ok result ↔ parse text = .ok result ∧ result.isLookup = true := by
  refine ⟨of_parseLookup, fun ⟨hparse, hlookup⟩ => ?_⟩
  rw [parseLookup, hparse]
  exact if_pos hlookup

/-- An expression is read exactly if its tokens are valid and derive it; they derive no other. It is a lookup exactly if it
is moreover a single name. -/
theorem parse_accepts_grammar (text : Text) (result : Expression) :
    (parse text = .ok result ↔
      (∀ token ∈ tokens text, token.kind ≠ .invalid) ∧ Derives .disjunction (tokens text) result) ∧
    (Derives .disjunction (tokens text) result →
      ∀ other, Derives .disjunction (tokens text) other → other = result) ∧
    (parseLookup text = .ok result ↔
      ((∀ token ∈ tokens text, token.kind ≠ .invalid) ∧ Derives .disjunction (tokens text) result) ∧
        ∃ name, result = .global name ∨ result = .property name) := by
  have hparse : parse text = .ok result ↔
      (∀ token ∈ tokens text, token.kind ≠ .invalid) ∧ Derives .disjunction (tokens text) result :=
    ⟨fun h => ⟨(derives_of_parse h).kind_ne_invalid, derives_of_parse h⟩, fun h => h.2.ofTokens _⟩
  refine ⟨hparse, fun h other hother => hother.unique h, ?_⟩
  rw [← hparse, parseLookup_eq_ok, isLookup_iff]

/-- Operators of all levels, with parentheses and an escape. -/
def layered : Text := "$a || !!b && (c == \"x\" || true) != 'y' || '\"\\n\"'".toList

theorem parse_accepts_grammar_layered :
    let result : Expression :=
      .or (.or (.global "$a".toList) (.and (.not (.not (.property "b".toList)))
        (.notEqual (.or (.equal (.property "c".toList) (.literal "x".toList)) (.bool true)) (.literal "y".toList))))
        (.literal "\n".toList)
    parse layered = .ok result ∧ Derives .disjunction (tokens layered) result ∧
      ∀ other, Derives .disjunction (tokens layered) other → other = result := by
  intro result
  have hparse : parse layered = .ok result := by decide +kernel
  have hderives := ((parse_accepts_grammar layered result).1.mp hparse).2
  exact ⟨hparse, hderives, (parse_accepts_grammar layered result).2.1 hderives⟩

end Sitewright.Expression
