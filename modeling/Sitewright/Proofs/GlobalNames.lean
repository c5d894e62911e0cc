import Sitewright.Expression.Parser
import Sitewright.Proofs.Naming
import Sitewright.Proofs.Style.Extents
import Sitewright.Proofs.Style.Variables
import Sitewright.Style.Build

/-!
Names of globals and properties are understood wherever they may be written. A name that passes the test for
globals is a global in an expression, a variable in style text and, without its `$`, a media shorthand.
-/

namespace Sitewright

/-! ## The characters of names -/

namespace Naming

/-- A global is a `$` and a word that is not reserved. -/
theorem exists_of_isGlobalName {g : Text} (h : isGlobalName g = true) :
    ∃ name, g = '$' :: name ∧ name ≠ [] ∧ (∀ c ∈ name, c.isAlphanum = true) ∧ name ∉ reservedGlobals := by
  unfold isGlobalName at h
  split at h
  next name =>
    rw [Bool.and_eq_true, Bool.not_eq_true'] at h
    obtain ⟨hcamel, hfree⟩ := h
    unfold isLowerCamel at hcamel
    split at hcamel
    next => cases hcamel
    next first rest =>
      rw [Bool.and_eq_true, List.all_eq_true] at hcamel
      refine ⟨_, rfl, List.cons_ne_nil _ _, ?_, by simpa using hfree⟩
      exact List.forall_mem_cons.mpr ⟨isAlphanum_of_isAlpha (isAlpha_of_isLower hcamel.1), hcamel.2⟩
  next => cases h

theorem isAlphanum_of_isSlugLetter {c : Char} (h : isSlugLetter c = true) : c.isAlphanum = true := by
  rw [isSlugLetter, Bool.or_eq_true] at h
  rcases h with h | h
  · exact isAlphanum_of_isAlpha (isAlpha_of_isLower h)
  · exact Bool.or_eq_true_iff.mpr (.inr h)

end Naming

/-! ## Expressions -/

namespace Expression

variable {before after : Text}

theorem tokensFrom_gaps (hbefore : before.all isGap = true) {rounds : Nat} (hrounds : before.length ≤ rounds)
    (start : Nat) (text : Text) :
    tokensFrom rounds start (before ++ text) =
      tokensFrom (rounds - before.length) (start + Text.byteSize before) text := by
  induction before generalizing rounds start with
  | nil => rfl
  | cons c rest ih =>
    rw [List.all_cons, Bool.and_eq_true] at hbefore
    cases rounds with
    | zero => exact absurd hrounds (Nat.not_succ_le_zero _)
    | succ rounds =>
      rw [List.cons_append, tokensFrom, if_pos hbefore.1, ih hbefore.2 (Nat.le_of_succ_le_succ hrounds),
        List.length_cons, Nat.add_sub_add_right, Text.byteSize_cons, Nat.add_assoc]

theorem tokensFrom_of_gaps (hafter : after.all isGap = true) (rounds start : Nat) :
    tokensFrom rounds start after = [] := by
  induction after generalizing rounds start with
  | nil => cases rounds <;> rfl
  | cons c rest ih =>
    rw [List.all_cons, Bool.and_eq_true] at hafter
    cases rounds with
    | zero => rfl
    | succ rounds => rw [tokensFrom, if_pos hafter.1, ih hafter.2]

theorem not_isWordChar_of_isGap {c : Char} (h : isGap c = true) : isWordChar c = false := by
  simp only [isGap, Bool.or_eq_true, beq_iff_eq] at h
  rcases h with ((rfl | rfl) | rfl) | rfl <;> decide

/-- A name that is the first token of what it begins is the only token between gaps. -/
theorem tokens_of_name {first : Char} {rest : Text} {kind : TokenKind} (hgap : isGap first = false)
    (hbefore : before.all isGap = true) (hafter : after.all isGap = true)
    (htoken : firstToken first (rest ++ after) = (kind, first :: rest, after)) :
    ∃ span, tokens (before ++ first :: rest ++ after) = [⟨kind, first :: rest, span⟩] := by
  have hlength : (before ++ first :: rest ++ after).length - before.length = (rest ++ after).length + 1 := by
    simp only [List.length_append, List.length_cons]
    omega
  rw [tokens, List.append_assoc, tokensFrom_gaps hbefore (by simp), ← List.append_assoc, hlength, List.cons_append,
    tokensFrom, if_neg (by rw [hgap]; exact Bool.false_ne_true), htoken]
  exact ⟨_, congrArg _ (tokensFrom_of_gaps hafter _ _)⟩

theorem takeWhile_isWordChar {rest : Text} (hrest : ∀ c ∈ rest, isWordChar c = true)
    (hafter : after.all isGap = true) :
    (rest ++ after).takeWhile isWordChar = rest ∧ (rest ++ after).dropWhile isWordChar = after := by
  have hhead : ∀ c ∈ after.head?, isWordChar c = false := by
    intro c hc
    exact not_isWordChar_of_isGap (List.all_eq_true.mp hafter c (List.mem_of_mem_head? hc))
  constructor
  · rw [Style.takeWhile_append_of_head hhead, List.takeWhile_eq_self_iff.mpr hrest]
  · rw [List.dropWhile_append_of_pos hrest]
    cases after with
    | nil => rfl
    | cons c rest => exact List.dropWhile_cons_of_neg (by rw [hhead c rfl]; exact Bool.false_ne_true)

theorem parseLookup_of_token {text : Text} {token : Token} (htokens : tokens text = [token]) {result : Expression}
    (hprimary : ∀ inner stop, primary inner stop [token] = .ok (result, [])) (hkind : token.kind ≠ .not)
    (hlookup : result.isLookup = true) : parseLookup text = .ok result := by
  have hparse : parse text = .ok result := by
    simp only [parse, htokens, ofTokens, expression, disjunction, conjunction, comparison, unary, if_neg hkind,
      hprimary, bind, Except.bind, chain, List.length_nil]
  rw [parseLookup, hparse]
  exact if_pos hlookup

theorem parseLookup_global {g : Text} (hg : Naming.isGlobalName g = true) (hbefore : before.all isGap = true)
    (hafter : after.all isGap = true) : parseLookup (before ++ g ++ after) = .ok (.global g) := by
  obtain ⟨name, rfl, -, hname, -⟩ := Naming.exists_of_isGlobalName hg
  have hword : ∀ c ∈ name, isWordChar c = true := fun c hc => Bool.or_eq_true_iff.mpr (.inl (hname c hc))
  obtain ⟨htake, hdrop⟩ := takeWhile_isWordChar hword hafter
  obtain ⟨span, htokens⟩ := @tokens_of_name before after '$' name .global (by decide) hbefore hafter
    (by unfold firstToken; rw [if_pos rfl, htake, hdrop])
  refine parseLookup_of_token htokens (fun inner stop => ?_) (by simp) rfl
  simp only [primary, readGlobal, hg, if_true]
  rfl

theorem parseLookup_property {p : Text} (hp : Naming.isPropertyName p = true) (hbefore : before.all isGap = true)
    (hafter : after.all isGap = true) : parseLookup (before ++ p ++ after) = .ok (.property p) := by
  obtain ⟨first, rest, rfl, hlower, hletters, hfree⟩ := Naming.exists_of_isPropertyName hp
  have hfirst := isAlpha_of_isLower hlower
  have hrest : ∀ c ∈ rest, isWordChar c = true := by
    intro c hc
    rw [isWordChar, Bool.or_eq_true, beq_iff_eq]
    exact (hletters c hc).imp_left Naming.isAlphanum_of_isSlugLetter
  have hdollar : first ≠ '$' := by
    rintro rfl
    exact absurd hfirst (by decide)
  have hgap : isGap first = false := by
    have hword : isWordChar first = true := Bool.or_eq_true_iff.mpr (.inl (isAlphanum_of_isAlpha hfirst))
    by_contra hgap
    rw [not_isWordChar_of_isGap (by simpa using hgap)] at hword
    cases hword
  obtain ⟨htake, hdrop⟩ := takeWhile_isWordChar hrest hafter
  obtain ⟨span, htokens⟩ := @tokens_of_name before after first rest .word hgap hbefore hafter
    (by unfold firstToken; rw [if_neg hdollar, hfirst, Bool.true_or, if_pos rfl, htake, hdrop])
  have htrue : first :: rest ≠ "true".toList := by
    intro h
    exact hfree (h ▸ by decide)
  have hfalse : first :: rest ≠ "false".toList := by
    intro h
    exact hfree (h ▸ by decide)
  refine parseLookup_of_token htokens (fun inner stop => ?_) (by simp) rfl
  simp only [primary, readWord, if_neg htrue, if_neg hfalse, hp, if_true]
  rfl

end Expression

/-! ## Style sheets -/

namespace Style

open Lexer

variable {c : Char} {g name : Text}

/-- A style sheet with a value. -/
def declaring (value : Text) : Text :=
  ".a \x7b b: ".toList ++ value ++ " \x7d".toList

/-- A style sheet with a media shorthand. -/
def shortened (name : Text) : Text :=
  '@' :: name ++ " \x7b .a \x7b b: c \x7d \x7d".toList

/-- A media block with a key. -/
def mediaOf (key : Text) : Text :=
  "@media ".toList ++ key ++ " \x7b\n  .a \x7b\n    b: c\n  \x7d\n\x7d".toList

theorem isSpecial_of_isAlphanum (h : c.isAlphanum = true) : isSpecial c = false := by
  by_contra hspecial
  simp only [isSpecial, Bool.not_eq_false, Bool.or_eq_true, beq_iff_eq] at hspecial
  rcases hspecial with ((((rfl | rfl) | rfl) | rfl) | rfl) | rfl <;> exact absurd h (by decide)

/-- Text without special characters is one lexeme. -/
theorem Scanner.run_text {text : Text} (h : ∀ c ∈ text, isSpecial c = false) (read : Text) (first offset : Nat)
    (reading : Reading) :
    (Scanner.mk (.text read) first offset reading).run text =
      ⟨.text (text.reverse ++ read), first, offset + text.length, reading⟩ := by
  induction text generalizing read offset with
  | nil => rfl
  | cons c rest ih =>
    rw [List.forall_mem_cons] at h
    have hstep : (Scanner.mk (.text read) first offset reading).step c =
        ⟨.text (c :: read), first, offset + 1, reading⟩ := by
      simp only [Scanner.step, Lexer.step, h.1]
      rfl
    rw [Scanner.run_cons, hstep, ih h.2, List.reverse_cons, List.append_assoc, List.length_cons, Nat.add_assoc,
      Nat.add_comm 1]
    rfl

/-- Text without special characters up to a brace or a semicolon. -/
theorem Scanner.run_text_structural {text : Text} (h : ∀ c ∈ text, isSpecial c = false)
    (hc : isStructural c = true) (read : Text) (first offset : Nat) (reading : Reading) :
    (Scanner.mk (.text read) first offset reading).run (text ++ [c]) =
      ⟨.ground, offset + text.length, offset + text.length + 1, Reading.step
        { reading with pending := Fragment.collect reading.pending (read.reverse ++ text) first }
        ⟨structuralKind c, [c], offset + text.length⟩⟩ := by
  have hstep := @step_structural ⟨.text (text.reverse ++ read), first, offset + text.length, reading⟩ c rfl rfl hc
  rw [run_append, run_text h, run_cons, hstep, gathering, Mode.held, List.reverse_append, List.reverse_reverse]
  rfl

/-! Words with their places. -/

namespace Fragment

variable {w : Text} (hw : Text.IsWord w) (start : Nat)
include hw

theorem trimEnd_word (fragment : Fragment) : trimEnd (fragment ++ w.zipIdx start) = fragment ++ w.zipIdx start := by
  rcases List.eq_nil_or_concat w with rfl | ⟨init, last, rfl⟩
  · exact absurd rfl hw.ne_nil
  · rw [List.concat_eq_append] at hw ⊢
    have hlast : isBlank last = false := hw.solid last (List.mem_append_right _ (List.mem_singleton.mpr rfl))
    rw [List.zipIdx_append, ← List.append_assoc]
    exact trimEnd_append_solid hlast _

theorem stop_word (fragment : Fragment) :
    ((fragment ++ w.zipIdx start).getLast?.map fun mark => mark.2 + 1) = some (start + w.length) := by
  rcases List.eq_nil_or_concat w with rfl | ⟨init, last, rfl⟩
  · exact absurd rfl hw.ne_nil
  · rw [List.concat_eq_append, List.zipIdx_append, ← List.append_assoc, List.length_append]
    exact congrArg _ List.getLast?_concat

theorem range_word : range (w.zipIdx start) = ⟨start, start + w.length⟩ := by
  have hhead : (w.zipIdx start).head?.map Prod.snd = some start := by
    cases w with
    | nil => exact absurd rfl hw.ne_nil
    | cons c rest => rfl
  have hstop := stop_word hw start []
  rw [List.nil_append] at hstop
  rw [range, hhead, hstop]
  rfl

end Fragment

theorem isBlank_of_isAlphanum (h : c.isAlphanum = true) : isBlank c = false := by
  by_contra hblank
  rw [isAlphanum_of_isBlank (by simpa using hblank)] at h
  cases h

theorem isWord_of_isAlphanum (hc : isBlank c = false)
    (hname : ∀ d ∈ name, d.isAlphanum = true) : Text.IsWord (c :: name) :=
  ⟨List.cons_ne_nil _ _, List.forall_mem_cons.mpr ⟨hc, fun d hd => isBlank_of_isAlphanum (hname d hd)⟩⟩

theorem isVariableChar_of_isAlphanum (h : c.isAlphanum = true) : isVariableChar c = true := by
  rw [isVariableChar, h]
  rfl

theorem plain_of_isGlobalName (hg : Naming.isGlobalName g = true) :
    Text.IsWord g ∧ ∀ c ∈ g, isSpecial c = false := by
  obtain ⟨name, rfl, -, hname, -⟩ := Naming.exists_of_isGlobalName hg
  refine ⟨isWord_of_isAlphanum (by decide) hname, List.forall_mem_cons.mpr ⟨by decide, fun c hc => ?_⟩⟩
  exact isSpecial_of_isAlphanum (hname c hc)

/-- A global is one reference, to itself. -/
theorem variableFindings_global (hg : Naming.isGlobalName g = true) (start : Nat) :
    variableFindings (g.zipIdx start) = ⟨[⟨⟨g, ⟨start, start + g.length⟩⟩, g⟩], []⟩ := by
  obtain ⟨name, rfl, hne, hname, -⟩ := Naming.exists_of_isGlobalName hg
  have hword := isWord_of_isAlphanum (by decide : isBlank '$' = false) hname
  have hpieces : pieces Prod.fst (('$' :: name).zipIdx start) = [.named (('$' :: name).zipIdx start)] := by
    have hmarks : name.zipIdx (start + 1) ≠ [] := by simpa using hne
    refine @piecesFrom_variable _ Prod.fst ('$', start) rfl _ hmarks fun mark hmark => ?_
    exact isVariableChar_of_isAlphanum (hname _ (List.fst_mem_of_mem_zipIdx hmark))
  simp only [variableFindings, namesIn, hpieces, List.filterMap_cons, List.filterMap_nil, List.map_cons, List.map_nil,
    variableFinding, Fragment.text_zipIdx, Fragment.range_word hword, hg, if_true]
  rfl

theorem finish_shortened (key text : Text) (range : CharRange) (reference : GlobalReference) (offset : Nat) :
    ((Scanner.mk .ground offset (offset + 1)
      ⟨[], [⟨⟨.media key, text, range, []⟩, .nil⟩], .nil, [], [reference], []⟩).run
      " .a \x7b b: c \x7d \x7d".toList).close.finish =
      ⟨[], [], .tree ⟨.media key, text, range, []⟩ (.tree ⟨.style [".a".toList], ".a".toList,
        ⟨offset + 2, offset + 4⟩, [⟨"b".toList, "c".toList, ⟨offset + 7, offset + 11⟩⟩]⟩ .nil),
        [], [reference], []⟩ := by
  have hopened : (Scanner.mk .ground offset (offset + 1)
      ⟨[], [⟨⟨.media key, text, range, []⟩, .nil⟩], .nil, [], [reference], []⟩).run " .a \x7b".toList =
      ⟨.ground, offset + 5, offset + 6, ⟨[], [⟨⟨.style [".a".toList], ".a".toList, ⟨offset + 2, offset + 4⟩, []⟩, .nil⟩,
        ⟨⟨.media key, text, range, []⟩, .nil⟩], .nil, [], [reference], []⟩⟩ := rfl
  have hclosed : (Scanner.mk .ground (offset + 5) (offset + 6)
      ⟨[], [⟨⟨.style [".a".toList], ".a".toList, ⟨offset + 2, offset + 4⟩, []⟩, .nil⟩,
        ⟨⟨.media key, text, range, []⟩, .nil⟩], .nil, [], [reference], []⟩).run " b: c \x7d".toList =
      ⟨.ground, offset + 12, offset + 13, ⟨[], [⟨⟨.media key, text, range, []⟩, .tree ⟨.style [".a".toList], ".a".toList,
        ⟨offset + 2, offset + 4⟩, [⟨"b".toList, "c".toList, ⟨offset + 7, offset + 11⟩⟩]⟩ .nil⟩], .nil,
        [], [reference], []⟩⟩ := rfl
  change ((Scanner.run _ (" .a \x7b".toList ++ (" b: c \x7d".toList ++ " \x7d".toList))).close).finish = _
  rw [Scanner.run_append, Scanner.run_append, hopened, hclosed]
  rfl

/-- A sheet with one flat rule, which has a media key, is one block. -/
theorem build_of_media {sheet : Sheet} (hmalformed : sheet.isMalformed = false) (hstatements : sheet.statements = [])
    {rule : FlatRule} (hflat : sheet.flatRules = [rule]) {key : Text} (hmedia : rule.media = some key)
    (hgroup : rule.group = none) : sheet.build = formatBlock 0 ("@media ".toList ++ key) [rule] := by
  have hkeys : orderedKeys [] (mediaKeys [rule]) = [key] := by
    rw [mediaKeys, List.filterMap_cons_some hmedia]
    rfl
  rw [Sheet.build, Sheet.buildOrdered, hmalformed]
  simp only [Sheet.blocks, hflat, hstatements, topBlocks, hgroup, hmedia, mediaBlocks, List.filter_cons]
  simp [hkeys, hmedia, Text.join]

theorem formatBlock_shortened (key : Text) (range : CharRange) :
    formatBlock 0 ("@media ".toList ++ key) [⟨[".a".toList], some key, none, [⟨"b".toList, "c".toList, range⟩]⟩] =
      mediaOf key := by
  have hbody : formatRules 1 [⟨[".a".toList], some key, none, [⟨"b".toList, "c".toList, range⟩]⟩] =
      "  .a \x7b\n    b: c\n  \x7d".toList := rfl
  have hindent : indent 0 = [] := rfl
  rw [formatBlock, hbody]
  unfold formatBraces mediaOf
  rw [hindent]
  simp only [List.nil_append, List.append_assoc]
  rfl

/-! The sheet with a value. -/

theorem readDeclaration_global (hg : Naming.isGlobalName g = true) (hword : Text.IsWord g) :
    readDeclaration ⟨false, true, true⟩ (('b', 5) :: (':', 6) :: (' ', 7) :: g.zipIdx 8) =
      (some ⟨['b'], g, ⟨5, 8 + g.length⟩⟩, ⟨[⟨⟨g, ⟨8, 8 + g.length⟩⟩, g⟩], []⟩) := by
  have hcolon : Fragment.splitColon (('b', 5) :: (':', 6) :: (' ', 7) :: g.zipIdx 8) =
      some ([('b', 5)], (' ', 7) :: g.zipIdx 8) := rfl
  have hproperty : Text.trim (Fragment.text [('b', 5)]) = ['b'] := by decide
  have hrange : Fragment.range (('b', 5) :: (':', 6) :: (' ', 7) :: g.zipIdx 8) = ⟨5, 8 + g.length⟩ := by
    have hstop := Fragment.stop_word hword 8 [('b', 5), (':', 6), (' ', 7)]
    simp only [List.cons_append, List.nil_append] at hstop
    rw [Fragment.range, hstop]
    rfl
  have hmarks : Fragment.trimEnd (Fragment.trimStart ((' ', 7) :: g.zipIdx 8)) = g.zipIdx 8 := by
    have hstart : Fragment.trimStart ((' ', 7) :: g.zipIdx 8) = g.zipIdx 8 := by
      obtain ⟨name, rfl, -⟩ := Naming.exists_of_isGlobalName hg
      rfl
    rw [hstart]
    exact Fragment.trimEnd_word hword 8 []
  simp only [readDeclaration, hcolon, hproperty, hrange, hmarks, Fragment.text_zipIdx, variableFindings_global hg]
  rw [if_neg (by decide), if_neg hword.ne_nil, if_neg (by decide), if_pos trivial]

theorem run_before_value : Scanner.initial.run ".a \x7b b: ".toList = ⟨.text [' ', ':', 'b', ' '], 4, 8,
    ⟨[], [⟨⟨.style [['.', 'a']], ['.', 'a'], ⟨0, 2⟩, []⟩, .nil⟩], .nil, [], [], []⟩⟩ :=
  rfl

theorem collect_value (g : Text) : Fragment.collect [] ([' ', 'b', ':', ' '] ++ (g ++ [' '])) 4 =
    (('b', 5) :: (':', 6) :: (' ', 7) :: g.zipIdx 8) ++ [(' ', 8 + g.length)] := by
  have hzip : (g ++ [' ']).zipIdx 8 = g.zipIdx 8 ++ [(' ', 8 + g.length)] := List.zipIdx_append
  simp only [List.cons_append, ← hzip]
  rfl

theorem append_closing (before g : Text) : before ++ g ++ " \x7d".toList = before ++ (g ++ [' '] ++ ['\x7d']) := by
  simp

/-- The value is read at the brace after it. -/
theorem closeBrace_value (hg : Naming.isGlobalName g = true) (range : CharRange) :
    Reading.closeBrace ⟨(('b', 5) :: (':', 6) :: (' ', 7) :: g.zipIdx 8) ++ [(' ', 8 + g.length)],
        [⟨⟨.style [['.', 'a']], ['.', 'a'], ⟨0, 2⟩, []⟩, .nil⟩], .nil, [], [], []⟩ range =
      ⟨[], [], .tree ⟨.style [['.', 'a']], ['.', 'a'], ⟨0, 2⟩, [⟨['b'], g, ⟨5, 8 + g.length⟩⟩]⟩ .nil, [],
        [⟨⟨g, ⟨8, 8 + g.length⟩⟩, g⟩], []⟩ := by
  obtain ⟨hword, -⟩ := plain_of_isGlobalName hg
  have hpending : Fragment.trimEnd ((('b', 5) :: (':', 6) :: (' ', 7) :: g.zipIdx 8) ++ [(' ', 8 + g.length)]) =
      ('b', 5) :: (':', 6) :: (' ', 7) :: g.zipIdx 8 := by
    rw [Fragment.trimEnd_append_blank (by decide : isBlank ' ' = true)]
    exact Fragment.trimEnd_word hword 8 [('b', 5), (':', 6), (' ', 7)]
  have hcontext : Reading.context ⟨[], [⟨⟨.style [['.', 'a']], ['.', 'a'], ⟨0, 2⟩, []⟩, .nil⟩], .nil, [], [], []⟩ =
      ⟨false, true, true⟩ := rfl
  simp only [Reading.closeBrace, Reading.flush, hpending]
  rw [if_neg (by decide : 'b' ≠ '@'), Reading.flushDeclaration, hcontext, readDeclaration_global hg hword]
  rfl

/-- A global in a value is one reference. -/
theorem references_declaring (hg : Naming.isGlobalName g = true) :
    (Sheet.parse (declaring g)).references = [⟨⟨g, ⟨8, 8 + g.length⟩⟩, g⟩] := by
  obtain ⟨-, hplain⟩ := plain_of_isGlobalName hg
  have hplain : ∀ c ∈ g ++ [' '], isSpecial c = false :=
    List.forall_mem_append.mpr ⟨hplain, List.forall_mem_singleton.mpr (by decide)⟩
  have hsplit : declaring g = ".a \x7b b: ".toList ++ (g ++ [' '] ++ ['\x7d']) := append_closing _ g
  have hrun := Scanner.run_text_structural hplain (by decide : isStructural '\x7d' = true) [' ', ':', 'b', ' '] 4 8
    ⟨[], [⟨⟨.style [['.', 'a']], ['.', 'a'], ⟨0, 2⟩, []⟩, .nil⟩], .nil, [], [], []⟩
  have hcollect : Fragment.collect [] ([' ', ':', 'b', ' '].reverse ++ (g ++ [' '])) 4 =
    (('b', 5) :: (':', 6) :: (' ', 7) :: g.zipIdx 8) ++ [(' ', 8 + g.length)] := collect_value g
  have hclose := closeBrace_value hg ⟨8 + (g ++ [' ']).length, 8 + (g ++ [' ']).length + 1⟩
  have hkind : structuralKind '\x7d' = .closing := rfl
  simp only [hcollect, hkind, Reading.step, Lexeme.stop, List.length_singleton] at hrun
  rw [Sheet.parse_eq, hsplit, Scanner.run_append, run_before_value, hrun, hclose]
  rfl

/-! The sheet with a media shorthand. -/

/-- The name of a global without its `$` is a media shorthand. -/
theorem readHead_shorthand (hg : Naming.isGlobalName ('$' :: name) = true) :
    readHead .top (('@' :: name).zipIdx 0) ('@' :: name) =
      (.media ('$' :: name), ⟨[⟨⟨'@' :: name, ⟨0, ('@' :: name).length⟩⟩, '$' :: name⟩], []⟩) := by
  obtain ⟨_, heq, -, hname, hfree⟩ := Naming.exists_of_isGlobalName hg
  cases heq
  have hword := isWord_of_isAlphanum (by decide : isBlank '@' = false) hname
  have hsplit : splitAtRule ('@' :: name) = (name, []) := by
    have hnone : Text.splitOnce ' ' name = none := by
      cases hsome : Text.splitOnce ' ' name with
      | none => rfl
      | some pair =>
        obtain ⟨hmem, -⟩ := Text.splitOnce_eq_some hsome
        have hspace := hname ' ' (by rw [hmem]; simp)
        exact absurd hspace (by decide)
    rw [splitAtRule, List.tail_cons, hnone]
  have hmedia : name ≠ "media".toList := by
    rintro rfl
    exact hfree (by decide)
  have hrange := Fragment.range_word hword 0
  rw [Nat.zero_add] at hrange
  simp only [readHead, readAtRule, hsplit, hrange, hg]
  rw [if_neg hmedia, if_neg (by simp), if_pos trivial]

theorem openBrace_shorthand (hg : Naming.isGlobalName ('$' :: name) = true) (range : CharRange) :
    Reading.openBrace { Reading.start with
        pending := ('@' :: name).zipIdx 0 ++ [(' ', ('@' :: name).length)] } range =
      ⟨[], [⟨⟨.media ('$' :: name), '@' :: name, ⟨0, ('@' :: name).length⟩, []⟩, .nil⟩], .nil, [],
        [⟨⟨'@' :: name, ⟨0, ('@' :: name).length⟩⟩, '$' :: name⟩], []⟩ := by
  obtain ⟨_, heq, -, hname, -⟩ := Naming.exists_of_isGlobalName hg
  cases heq
  have hword := isWord_of_isAlphanum (by decide : isBlank '@' = false) hname
  have hpending : Fragment.trimEnd (('@' :: name).zipIdx 0 ++ [(' ', ('@' :: name).length)]) =
      ('@', 0) :: name.zipIdx 1 := by
    rw [Fragment.trimEnd_append_blank (by decide : isBlank ' ' = true)]
    exact Fragment.trimEnd_word hword 0 []
  have htext : Text.squeeze (Fragment.text (('@', 0) :: name.zipIdx 1)) = '@' :: name := by
    have hzip : Fragment.text (('@' :: name).zipIdx 0) = '@' :: name := Fragment.text_zipIdx _ 0
    exact (congrArg _ hzip).trans hword.squeeze_eq
  have hrange : Fragment.range (('@', 0) :: name.zipIdx 1) = ⟨0, ('@' :: name).length⟩ := by
    have h := Fragment.range_word hword 0
    rwa [Nat.zero_add] at h
  have hread : readHead .top (('@', 0) :: name.zipIdx 1) ('@' :: name) = _ := readHead_shorthand hg
  have hcontext (pending : Fragment) : Reading.context { Reading.start with pending := pending } = .top := rfl
  simp only [Reading.openBrace, hpending, htext, hrange, hcontext, hread]
  rfl

theorem run_shorthand (hg : Naming.isGlobalName ('$' :: name) = true) :
    Scanner.initial.run ('@' :: (name ++ [' '] ++ ['\x7b'])) =
      ⟨.ground, name.length + 2, name.length + 3,
        ⟨[], [⟨⟨.media ('$' :: name), '@' :: name, ⟨0, ('@' :: name).length⟩, []⟩, .nil⟩], .nil, [],
          [⟨⟨'@' :: name, ⟨0, ('@' :: name).length⟩⟩, '$' :: name⟩], []⟩⟩ := by
  obtain ⟨_, heq, -, hname, -⟩ := Naming.exists_of_isGlobalName hg
  cases heq
  have hplain : ∀ c ∈ name ++ [' '], isSpecial c = false :=
    List.forall_mem_append.mpr
      ⟨fun c hc => isSpecial_of_isAlphanum (hname c hc), List.forall_mem_singleton.mpr (by decide)⟩
  have hfirst : Scanner.initial.step '@' = ⟨.text ['@'], 0, 1, .start⟩ := rfl
  have hrun := Scanner.run_text_structural hplain (by decide : isStructural '\x7b' = true) ['@'] 0 1 .start
  have hcollect : Fragment.collect [] (['@'].reverse ++ (name ++ [' '])) 0 =
      ('@' :: name).zipIdx 0 ++ [(' ', ('@' :: name).length)] := by
    have hzip : ('@' :: name ++ [' ']).zipIdx 0 = ('@' :: name).zipIdx 0 ++ [(' ', 0 + ('@' :: name).length)] :=
      List.zipIdx_append
    rw [Nat.zero_add] at hzip
    exact hzip
  have hkind : structuralKind '\x7b' = .opening := rfl
  have hpending : Reading.start.pending = [] := rfl
  simp only [hpending, hcollect, hkind, Reading.step, openBrace_shorthand hg] at hrun
  rw [Scanner.run_cons, hfirst, hrun, List.length_append, List.length_singleton, Nat.add_comm 1]

theorem shortened_eq (name : Text) :
    shortened name = '@' :: (name ++ [' '] ++ ['\x7b']) ++ " .a \x7b b: c \x7d \x7d".toList := by
  simp [shortened]

/-- What the sheet with a media shorthand says. -/
theorem parse_shortened (hg : Naming.isGlobalName ('$' :: name) = true) :
    Sheet.parse (shortened name) = ⟨shortened name,
      (Forest.tree ⟨.media ('$' :: name), '@' :: name, ⟨0, ('@' :: name).length⟩, []⟩
        (.tree ⟨.style [".a".toList], ".a".toList, ⟨name.length + 4, name.length + 6⟩,
          [⟨"b".toList, "c".toList, ⟨name.length + 9, name.length + 13⟩⟩]⟩ .nil)).number 1, [],
      [⟨⟨'@' :: name, ⟨0, ('@' :: name).length⟩⟩, '$' :: name⟩], ⟨[]⟩⟩ := by
  have hfinish := finish_shortened ('$' :: name) ('@' :: name) ⟨0, ('@' :: name).length⟩
    ⟨⟨'@' :: name, ⟨0, ('@' :: name).length⟩⟩, '$' :: name⟩ (name.length + 2)
  rw [← run_shorthand hg, ← Scanner.run_append, ← shortened_eq] at hfinish
  rw [Sheet.parse_eq, hfinish]

theorem build_shortened (hg : Naming.isGlobalName ('$' :: name) = true) :
    (Sheet.parse (shortened name)).build = mediaOf ('$' :: name) := by
  rw [parse_shortened hg, ← formatBlock_shortened ('$' :: name) ⟨name.length + 9, name.length + 13⟩]
  exact build_of_media rfl rfl rfl rfl rfl

/-! ## Substitution -/

theorem flatMap_resolve_plain (values : Text → Option Text) (text : Text) :
    (text.map Piece.plain).flatMap (Piece.resolve values) = text := by
  rw [List.flatMap_map]
  exact List.flatMap_singleton' text

theorem filterMap_unresolved_plain (values : Text → Option Text) (text : Text) :
    (text.map Piece.plain).filterMap (Piece.unresolved? values) = [] := by
  rw [List.filterMap_map]
  exact List.filterMap_eq_nil_iff.mpr fun _ _ => rfl

/-- A global between texts without variables. -/
theorem pieces_global (hg : Naming.isGlobalName g = true) {before after : Text}
    (hbefore : ∀ c ∈ before, c ≠ '$' ∧ c ≠ '"' ∧ c ≠ '\'') (hafter : ∀ c ∈ after, c ≠ '$')
    (hhead : ∀ c ∈ after.head?, isVariableChar c = false) :
    pieces id (before ++ g ++ after) = before.map .plain ++ .named g :: after.map .plain := by
  obtain ⟨name, rfl, hne, hname, -⟩ := Naming.exists_of_isGlobalName hg
  have hvariable : ∀ c ∈ name, isVariableChar c = true := fun c hc => isVariableChar_of_isAlphanum (hname c hc)
  have hquotes : Quoting.outside.after id before = .outside := Quoting.after_of_no_quotes fun c hc => (hbefore c hc).2
  have hplain : piecesFrom id 0 .outside before = before.map .plain :=
    piecesFrom_of_no_dollar _ fun c hc => (hbefore c hc).1
  have hrest (quoting : Quoting) : piecesFrom id 0 quoting after = after.map .plain :=
    piecesFrom_of_no_dollar _ hafter
  have hnamed : piecesFrom id 0 .outside ('$' :: name) = [.named ('$' :: name)] :=
    @piecesFrom_variable _ id '$' rfl name hne hvariable
  have hdollar : ∀ c ∈ ('$' :: name ++ after).head?, isVariableChar c = false := by
    rintro c ⟨⟩
    decide
  rw [pieces, List.append_assoc, piecesFrom_id_append _ _ hdollar, hquotes, hplain, piecesFrom_id_append _ _ hhead,
    hrest, hnamed]
  rfl

theorem substitute_global (hg : Naming.isGlobalName g = true) {before after : Text}
    (hbefore : ∀ c ∈ before, c ≠ '$' ∧ c ≠ '"' ∧ c ≠ '\'') (hafter : ∀ c ∈ after, c ≠ '$')
    (hhead : ∀ c ∈ after.head?, isVariableChar c = false) (values : Text → Option Text) :
    substitute values (before ++ g ++ after) =
      ⟨before ++ (values g).getD g ++ after, if (values g).isNone then [g] else []⟩ := by
  rw [substitute, pieces_global hg hbefore hafter hhead]
  simp only [List.flatMap_append, List.flatMap_cons, flatMap_resolve_plain, Piece.resolve, hg, if_true,
    List.filterMap_append, List.filterMap_cons, filterMap_unresolved_plain, Piece.unresolved?, Bool.true_and,
    List.nil_append, List.append_assoc]
  cases (values g).isNone <;> rfl

/-! ## Names everywhere -/

/-- A global is understood in expressions, in values and as a media shorthand. -/
structure UsableGlobal (g : Text) : Prop where
  lookup : ∀ before after, before.all Expression.isGap = true → after.all Expression.isGap = true →
    Expression.parseLookup (before ++ g ++ after) = .ok (.global g)
  defined : ∀ values value, values g = some value → substitute values g = ⟨value, []⟩
  undefined : ∀ values, values g = none → substitute values g = ⟨g, [g]⟩
  value : (Sheet.parse (declaring g)).references = [⟨⟨g, ⟨8, 8 + g.length⟩⟩, g⟩]
  shorthand : ∀ name, g = '$' :: name →
    (Sheet.parse (shortened name)).diagnostics.reported = [] ∧
    (∃ inside, (Sheet.parse (shortened name)).rules =
      .tree (1, ⟨.media g, '@' :: name, ⟨0, g.length⟩, []⟩) inside) ∧
    (Sheet.parse (shortened name)).references = [⟨⟨'@' :: name, ⟨0, g.length⟩⟩, g⟩] ∧
    (Sheet.parse (shortened name)).build = mediaOf g ∧
    ∀ values, substitute values (Sheet.parse (shortened name)).build =
      ⟨mediaOf ((values g).getD g), if (values g).isNone then [g] else []⟩

/-- **Every name of a global can be used wherever globals are referred to, and every name of a property in
expressions.** -/
theorem names_usable :
    (∀ g, Naming.isGlobalName g = true → UsableGlobal g) ∧
    ∀ p, Naming.isPropertyName p = true → ∀ before after, before.all Expression.isGap = true →
      after.all Expression.isGap = true → Expression.parseLookup (before ++ p ++ after) = .ok (.property p) := by
  refine ⟨fun g hg => ?_, fun p hp before after hbefore hafter => Expression.parseLookup_property hp hbefore hafter⟩
  have hwhole (values : Text → Option Text) := @substitute_global g hg [] [] (by simp) (by simp) (by simp) values
  simp only [List.nil_append, List.append_nil] at hwhole
  refine ⟨fun before after hbefore hafter => Expression.parseLookup_global hg hbefore hafter, ?_, ?_,
    references_declaring hg, ?_⟩
  · intro values value hvalue
    rw [hwhole, hvalue]
    rfl
  · intro values hnone
    rw [hwhole, hnone]
    rfl
  · rintro name rfl
    refine ⟨?_, ?_, ?_, build_shortened hg, fun values => ?_⟩
    · rw [parse_shortened hg]
    · rw [parse_shortened hg]
      exact ⟨_, rfl⟩
    · rw [parse_shortened hg]
      rfl
    · rw [build_shortened hg]
      exact substitute_global hg (by simp) (by simp) (by simp; decide) values

/-- A global with a digit and a capital, and a property between blanks. -/
theorem names_usable_sm :
    Naming.isGlobalName "$sm2X".toList = true ∧ UsableGlobal "$sm2X".toList ∧
    Naming.isPropertyName "page_2".toList = true ∧
    Expression.parseLookup (" \t".toList ++ "page_2".toList ++ "\r\n".toList) = .ok (.property "page_2".toList) :=
  ⟨by decide, names_usable.1 _ (by decide), by decide,
    names_usable.2 _ (by decide) " \t".toList "\r\n".toList (by decide) (by decide)⟩

end Style

end Sitewright
