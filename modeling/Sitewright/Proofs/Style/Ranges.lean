import Mathlib.Data.List.Chain
import Sitewright.Proofs.GlobalNames
import Sitewright.Proofs.Places
import Sitewright.Proofs.Style.Comments
import Sitewright.Proofs.Style.Heads

/-!
Where what a sheet reports stands in its source. The marks of a fragment go forward through the source, and a mark
that is no blank is the character at its offset, with the next mark right after it (`Fragment.Sited`); only the space
for a comment is no character of the source, and leaves one out. So the range of any part of a fragment lies in the
source, and the range of a part without blanks selects that part.
-/

namespace Sitewright

/-- A reference whose range selects what is written there: the global, or the shorthand for it. -/
structure GlobalReference.Exact (source : Text) (reference : GlobalReference) : Prop where
  inside : reference.part.range.Inside source
  selects : source.slice reference.part.range = reference.part.text
  named : Naming.isGlobalName reference.global = true
  written : reference.part.text = reference.global ∨
    ∃ name, reference.part.text = '@' :: name ∧ reference.global = '$' :: name

/-- A text that is squeezed to one word is that word. -/
theorem Text.Trimmed.isWord_of_squeeze {t : Text} (h : Trimmed t) (hword : IsWord (squeeze t)) : IsWord t := by
  rcases h.cases with rfl | ht | ⟨u, c, w, rest, hu, hc, hw, hne, hrest, rfl⟩
  · exact hword
  · exact ht
  · rw [squeeze_append hu hc hw hrest hne] at hword
    exact absurd (hword.solid ' ' (List.mem_append_right u List.mem_cons_self)) (by decide)

namespace Style

open Lexer

variable {lexeme : Lexeme} {source : Text}

/-! ## Fragments in their source -/

namespace Fragment

/-- The marks of a fragment point into the source. -/
structure Sited (source : Text) (fragment : Fragment) : Prop where
  /-- Marks go forward. After a mark that is no blank comes the next character. -/
  chain : fragment.IsChain fun mark next => mark.2 < next.2 ∧ (isBlank mark.1 = false → next.2 = mark.2 + 1)
  /-- A mark that is no blank is the character at its offset. -/
  marks : ∀ mark ∈ fragment, mark.2 < source.length ∧ (isBlank mark.1 = false → source[mark.2]? = some mark.1)

variable {source : Text} {fragment part : Fragment}

theorem sited_nil : Sited source [] :=
  ⟨List.IsChain.nil, fun _ h => (List.not_mem_nil h).elim⟩

theorem Sited.subfragment (h : fragment.Sited source) (hpart : part <:+: fragment) : part.Sited source :=
  ⟨ h.chain.infix hpart, fun mark hmark => h.marks mark (hpart.subset hmark)⟩

theorem Sited.append {more : Fragment} (h : fragment.Sited source) (hmore : more.Sited source)
    (hnext : ∀ mark ∈ fragment.getLast?, ∀ next ∈ more.head?,
      mark.2 < next.2 ∧ (isBlank mark.1 = false → next.2 = mark.2 + 1)) : Sited source (fragment ++ more) :=
  ⟨h.chain.append hmore.chain hnext, List.forall_mem_append.mpr ⟨h.marks, hmore.marks⟩⟩

theorem Sited.cons {mark : Char × Nat} (hmark : mark.2 < source.length)
    (hchar : isBlank mark.1 = false → source[mark.2]? = some mark.1) (h : fragment.Sited source)
    (hnext : ∀ next ∈ fragment.head?, mark.2 < next.2 ∧ (isBlank mark.1 = false → next.2 = mark.2 + 1)) :
    Sited source (mark :: fragment) := by
  refine @Sited.append source [mark] fragment ⟨List.IsChain.singleton _, ?_⟩ h ?_
  · exact List.forall_mem_singleton.mpr ⟨hmark, hchar⟩
  · intro last hlast
    obtain rfl : mark = last := Option.some.inj hlast
    exact hnext

theorem sited_zipIdx (before text after : Text) :
    Sited (before ++ text ++ after) (text.zipIdx before.length) := by
  induction text generalizing before with
  | nil => exact sited_nil
  | cons c text ih =>
    have hrest := ih (before ++ [c])
    rw [List.append_assoc before, List.singleton_append, List.length_append, List.length_singleton] at hrest
    rw [List.zipIdx_cons]
    refine Sited.cons ?_ (fun _ => ?_) hrest fun next hnext => ?_
    · simp only [List.length_append, List.length_cons]
      omega
    · rw [List.append_assoc, List.getElem?_append_right (Nat.le_refl _), Nat.sub_self]
      rfl
    · cases text with
      | nil => cases hnext
      | cons d text =>
        obtain rfl : (d, before.length + 1) = next := Option.some.inj hnext
        exact ⟨Nat.lt_succ_self _, fun _ => rfl⟩

theorem Sited.sorted (h : fragment.Sited source) : fragment.Pairwise fun mark next => mark.2 < next.2 := by
  have hchain := (List.isChain_map Prod.snd).mpr (h.chain.imp fun _ _ hnext => hnext.1)
  exact List.pairwise_map.mp hchain.pairwise

/-- The range of a fragment lies in the source. -/
theorem Sited.inside (h : fragment.Sited source) : (range fragment).Inside source := by
  induction fragment with
  | nil => exact ⟨Nat.le_refl 0, Nat.zero_le _⟩
  | cons mark rest ih =>
    obtain ⟨hmark, -⟩ := h.marks mark List.mem_cons_self
    cases rest with
    | nil => exact ⟨Nat.le_succ _, hmark⟩
    | cons next rest =>
      have hrest := ih (h.subfragment (List.suffix_cons _ _).isInfix)
      have hnext : mark.2 < next.2 := (List.isChain_cons_cons.mp h.chain).1.1
      have hstop : (range (mark :: next :: rest)).stop = (range (next :: rest)).stop := by
        rw [range, range, List.getLast?_cons_cons]
      refine ⟨?_, hstop ▸ hrest.bounded⟩
      rw [hstop]
      exact Nat.le_trans (Nat.le_of_lt hnext) hrest.ordered

/-- Marks that are no blanks are characters in a row. -/
theorem Sited.solid {mark : Char × Nat} {rest : Fragment} (h : Sited source (mark :: rest))
    (hsolid : ∀ other ∈ mark :: rest, isBlank other.1 = false) :
    text (mark :: rest) <+: source.drop mark.2 ∧ range (mark :: rest) = ⟨mark.2, mark.2 + (mark :: rest).length⟩ := by
  have hdrop {mark : Char × Nat} {rest : Fragment} (h : Sited source (mark :: rest)) (hmark : isBlank mark.1 = false) :
      source.drop mark.2 = mark.1 :: source.drop (mark.2 + 1) := by
    obtain ⟨hlt, hget⟩ := List.getElem?_eq_some_iff.mp ((h.marks mark List.mem_cons_self).2 hmark)
    rw [List.drop_eq_getElem_cons hlt, hget]
  induction rest generalizing mark with
  | nil =>
    rw [hdrop h (hsolid mark List.mem_cons_self)]
    exact ⟨(List.prefix_cons_inj _).mpr (List.nil_prefix), rfl⟩
  | cons next rest ih =>
    have hmark := hsolid mark List.mem_cons_self
    have hnext : next.2 = mark.2 + 1 := (List.isChain_cons_cons.mp h.chain).1.2 hmark
    obtain ⟨hbeginning, hrange⟩ := ih (h.subfragment (List.suffix_cons _ _).isInfix)
      fun other hother => hsolid other (List.mem_cons_of_mem _ hother)
    rw [hdrop h hmark, ← hnext]
    refine ⟨(List.prefix_cons_inj _).mpr hbeginning, ?_⟩
    rw [range, CharRange.mk.injEq] at hrange ⊢
    rw [List.getLast?_cons_cons, hrange.2, hnext, List.length_cons, List.length_cons, List.length_cons]
    exact ⟨rfl, by omega⟩

/-- The range of a fragment without blanks selects it. -/
theorem Sited.selects (h : fragment.Sited source) (hsolid : ∀ mark ∈ fragment, isBlank mark.1 = false) :
    source.slice (range fragment) = text fragment := by
  cases fragment with
  | nil => rfl
  | cons mark rest =>
    obtain ⟨hbeginning, hrange⟩ := h.solid hsolid
    have hlength : (mark :: rest).length = (text (mark :: rest)).length := List.length_map _ |>.symm
    rw [hrange, Text.slice, List.drop_take, Nat.add_sub_cancel_left, hlength]
    exact (List.prefix_iff_eq_take.mp hbeginning).symm

theorem Sited.exact_variable (h : fragment.Sited source) (hsolid : ∀ mark ∈ fragment, isBlank mark.1 = false)
    (hname : Naming.isGlobalName (text fragment) = true) :
    GlobalReference.Exact source ⟨⟨text fragment, range fragment⟩, text fragment⟩ :=
  ⟨h.inside, h.selects hsolid, hname, .inl rfl⟩

end Fragment

theorem Lexeme.marks_cases (h : Reading.ends lexeme.kind = false) :
    lexeme.marks = [(' ', lexeme.start)] ∨ lexeme.marks = lexeme.text.zipIdx lexeme.start ∨
      lexeme.kind = .unterminatedComment ∧ lexeme.marks = [] := by
  obtain ⟨kind, text, start⟩ := lexeme
  cases kind with
  | opening | closing | semicolon => cases h
  | comment => exact .inl rfl
  | unterminatedComment => exact .inr (.inr ⟨rfl, rfl⟩)
  | quoted | unterminatedString | slash | text => exact .inr (.inl rfl)

section

variable {start : Nat} {recent newer : List Lexeme} {text : Text}
  (hrecent : ∀ lexeme ∈ recent, Reading.ends lexeme.kind = false)
include hrecent

/-- The first mark is that of the first lexeme. -/
theorem head?_marksOf (h : Tiles start (recent ++ newer) text) : ∀ mark ∈ (marksOf recent).head?, mark.2 = start := by
  intro mark hmark
  cases recent with
  | nil => cases hmark
  | cons lexeme recent =>
    obtain ⟨rfl, ⟨htext, -⟩, after, -, hends, hafter⟩ := h
    rw [marksOf, List.flatMap_cons] at hmark
    rcases Lexeme.marks_cases (List.forall_mem_cons.mp hrecent).1 with hmarks | hmarks | ⟨hkind, hmarks⟩
    · rw [hmarks] at hmark
      cases hmark
      rfl
    · obtain ⟨c, rest, hcons⟩ := List.exists_cons_of_ne_nil htext
      rw [hmarks, hcons, List.zipIdx_cons] at hmark
      cases hmark
      rfl
    · -- nothing follows a comment without an end
      rw [hkind] at hends
      obtain rfl : after = [] := hends
      cases recent with
      | nil =>
        rw [hmarks] at hmark
        cases hmark
      | cons next recent =>
        obtain ⟨-, ⟨hnext, -⟩, after, heq, -⟩ := hafter
        exact absurd (List.append_eq_nil_iff.mp heq.symm).1 hnext

/-- The marks of lexemes in a row without braces and semicolons point into the source. -/
theorem sited_marksOf {before : Text} (h : Tiles before.length (recent ++ newer) text) :
    Fragment.Sited (before ++ text) (marksOf recent) := by
  induction recent generalizing before text with
  | nil => exact Fragment.sited_nil
  | cons lexeme recent ih =>
    rw [List.forall_mem_cons] at hrecent
    obtain ⟨hstart, ⟨htext, -⟩, after, rfl, -, hafter⟩ := h
    rw [← List.length_append] at hafter
    have hrest := ih hrecent.2 hafter
    have hhead := head?_marksOf hrecent.2 hafter
    have hpositive := List.length_pos_iff.mpr htext
    rw [List.length_append] at hhead
    rw [List.append_assoc] at hrest
    rw [marksOf, List.flatMap_cons]
    rcases Lexeme.marks_cases hrecent.1 with hmarks | hmarks | ⟨-, hmarks⟩
    · -- the space for a comment
      have hblank : isBlank ' ' ≠ false := by decide
      rw [hmarks, hstart]
      refine Fragment.Sited.cons ?_ (fun hsolid => absurd hsolid hblank) hrest fun next hnext => ?_
      · simp only [List.length_append]
        omega
      · rw [hhead next hnext]
        exact ⟨by omega, fun hsolid => absurd hsolid hblank⟩
    · rw [hmarks, hstart]
      have hsited := Fragment.sited_zipIdx before lexeme.text after
      rw [List.append_assoc] at hsited
      refine hsited.append hrest fun mark hmark next hnext => ?_
      rw [List.getLast?_zipIdx, Option.mem_def, Option.map_eq_some_iff] at hmark
      obtain ⟨c, -, rfl⟩ := hmark
      rw [hhead next hnext]
      exact ⟨by simp only; omega, fun _ => by simp only; omega⟩
    · rw [hmarks]
      exact hrest

end

theorem sited_of_lexemes {older recent newer : List Lexeme} (hall : lexemes source = older ++ recent ++ newer)
    (hrecent : ∀ lexeme ∈ recent, Reading.ends lexeme.kind = false) : (marksOf recent).Sited source := by
  have htiles := tiles_run 0 source
  rw [← lexemes, hall, List.append_assoc] at htiles
  obtain ⟨before, after, rfl, hafter⟩ := htiles.append
  rw [Nat.zero_add] at hafter
  exact sited_marksOf hrecent hafter

theorem Excerpt.sited {fragment : Fragment} (h : Excerpt (lexemes source) fragment) : fragment.Sited source := by
  obtain ⟨-, older, recent, newer, hall, hrecent, rfl⟩ := h
  refine (sited_of_lexemes hall hrecent).subfragment ?_
  exact (Fragment.prefix_trimEnd _).isInfix.trans (List.dropWhile_suffix _).isInfix

/-! ## Findings -/

/-- What is found stands in the source. -/
structure Findings.Sited (source : Text) (findings : Findings) : Prop where
  references : ∀ reference ∈ findings.references, reference.Exact source
  problems : ∀ problem ∈ findings.problems, problem.range.Inside source

theorem Findings.sited_none (source : Text) : Findings.none.Sited source :=
  ⟨fun _ h => (List.not_mem_nil h).elim, fun _ h => (List.not_mem_nil h).elim⟩

theorem Findings.sited_problem {range : CharRange} (h : range.Inside source) (problem : Problem) :
    (Findings.problem problem range).Sited source :=
  ⟨fun _ h => (List.not_mem_nil h).elim, List.forall_mem_singleton.mpr h⟩

theorem infix_of_mem_piecesFrom {α : Type} {char : α → Char} {skip : Nat} {quoting : Quoting} {items name : List α}
    (h : .named name ∈ piecesFrom char skip quoting items) :
    name <:+: items ∧ ∀ x ∈ name, char x = '$' ∨ isVariableChar (char x) = true := by
  have hcons {first : α} {rest name : List α}
      (h : name <:+: rest ∧ ∀ x ∈ name, char x = '$' ∨ isVariableChar (char x) = true) :
      name <:+: first :: rest ∧ ∀ x ∈ name, char x = '$' ∨ isVariableChar (char x) = true :=
    ⟨h.1.trans (List.suffix_cons _ _).isInfix, h.2⟩
  induction items generalizing skip quoting with
  | nil => cases skip <;> cases h
  | cons item rest ih =>
    cases skip with
    | succ skip => exact hcons (ih h)
    | zero =>
      rw [piecesFrom] at h
      split at h
      next hvariable =>
        rcases List.mem_cons.mp h with heq | hrest
        · cases heq
          refine ⟨((List.prefix_cons_inj _).mpr (List.takeWhile_prefix _)).isInfix, ?_⟩
          refine List.forall_mem_cons.mpr ⟨.inl hvariable.2.1, fun x hx => .inr ?_⟩
          exact List.mem_takeWhile_imp (p := fun y => isVariableChar (char y)) hx
        · exact hcons (ih hrest)
      next =>
        rcases List.mem_cons.mp h with heq | hrest
        · cases heq
        · exact hcons (ih hrest)

theorem isBlank_of_isVariableChar {c : Char} (h : c = '$' ∨ isVariableChar c = true) : isBlank c = false := by
  rcases h with rfl | h
  · decide
  simp only [isVariableChar, Bool.or_eq_true, beq_iff_eq] at h
  rcases h with (h | rfl) | rfl
  · exact isBlank_of_isAlphanum h
  · decide
  · decide

theorem splitAtRule_eq_shorthand {text : Text} (htrimmed : Text.Trimmed text) (hat : text.head? = some '@')
    (hnone : (splitAtRule text).2 = []) : text = '@' :: (splitAtRule text).1 := by
  obtain ⟨rest, rfl⟩ := List.head?_eq_some_iff.mp hat
  simp only [splitAtRule, List.tail_cons] at hnone ⊢
  cases hsplit : Text.splitOnce ' ' rest with
  | none => rfl
  | some parts =>
    obtain ⟨name, parameters⟩ := parts
    rw [hsplit] at hnone
    obtain rfl : parameters = [] := hnone
    -- a blank at the end would have been trimmed
    rw [(Text.splitOnce_eq_some hsplit).1] at htrimmed
    have hlast := htrimmed.last ' ' (by rw [← List.cons_append, List.getLast?_append]; rfl)
    exact absurd hlast (by decide)

theorem Fragment.suffix_of_splitColon {fragment before after : Fragment}
    (h : Fragment.splitColon fragment = some (before, after)) : after <:+ fragment := by
  induction fragment generalizing before with
  | nil => cases h
  | cons mark rest ih =>
    rw [splitColon] at h
    split at h
    · cases h
      exact List.suffix_cons _ _
    · obtain ⟨parts, hparts, heq⟩ := Option.map_eq_some_iff.mp h
      cases heq
      exact (ih hparts).trans (List.suffix_cons _ _)

namespace Fragment

variable {source : Text} {fragment : Fragment} (h : fragment.Sited source)
include h

theorem Sited.variableFinding (hsolid : ∀ mark ∈ fragment, isBlank mark.1 = false) :
    (variableFinding fragment).Sited source := by
  rw [Style.variableFinding]
  split
  next hname =>
    exact ⟨List.forall_mem_singleton.mpr (h.exact_variable hsolid hname), fun _ h => (List.not_mem_nil h).elim⟩
  next => split <;> exact Findings.sited_problem h.inside _

theorem Sited.variableFindings : (variableFindings fragment).Sited source := by
  have hfound : ∀ findings ∈ (namesIn Prod.fst fragment).map Style.variableFinding, findings.Sited source := by
    intro findings hfindings
    obtain ⟨marks, hmarks, rfl⟩ := List.mem_map.mp hfindings
    rw [namesIn_eq] at hmarks
    obtain ⟨piece, hpiece, hname⟩ := List.mem_filterMap.mp hmarks
    cases piece with
    | plain item => cases hname
    | named items =>
      cases hname
      obtain ⟨hpiecePart, hchars⟩ := infix_of_mem_piecesFrom hpiece
      exact (h.subfragment hpiecePart).variableFinding fun mark hmark => isBlank_of_isVariableChar (hchars mark hmark)
  constructor
  · intro reference hreference
    obtain ⟨findings, hfindings, hmem⟩ := List.mem_flatMap.mp hreference
    exact (hfound findings hfindings).references reference hmem
  · intro problem hproblem
    obtain ⟨findings, hfindings, hmem⟩ := List.mem_flatMap.mp hproblem
    exact (hfound findings hfindings).problems problem hmem

/-- A shorthand is written without blanks, so that it stands in the source as it is. -/
theorem Sited.exact_shorthand (htrimmed : Text.Trimmed (text fragment))
    (hat : (Text.squeeze (text fragment)).head? = some '@')
    (hnone : (splitAtRule (Text.squeeze (text fragment))).2 = [])
    (hname : Naming.isGlobalName ('$' :: (splitAtRule (Text.squeeze (text fragment))).1) = true) :
    GlobalReference.Exact source ⟨⟨Text.squeeze (text fragment), range fragment⟩,
      '$' :: (splitAtRule (Text.squeeze (text fragment))).1⟩ := by
  have hshorthand := splitAtRule_eq_shorthand (Text.trimmed_squeeze htrimmed) hat hnone
  obtain ⟨name, heq, -, halphanum, -⟩ := Naming.exists_of_isGlobalName hname
  obtain rfl : (splitAtRule (Text.squeeze (text fragment))).1 = name := (List.cons.inj heq).2
  have hword : Text.IsWord (text fragment) := by
    refine htrimmed.isWord_of_squeeze ?_
    rw [hshorthand]
    exact isWord_of_isAlphanum (by decide) halphanum
  refine ⟨h.inside, ?_, hname, .inr ⟨_, hshorthand, rfl⟩⟩
  rw [hword.squeeze_eq]
  exact h.selects fun mark hmark => hword.solid mark.1 (List.mem_map_of_mem hmark)

theorem Sited.readHead (htrimmed : Text.Trimmed (text fragment)) (context : Context) :
    (readHead context fragment (Text.squeeze (text fragment))).2.Sited source := by
  have hsays := says_readHead context fragment (Text.squeeze (text fragment))
  generalize Style.readHead context fragment (Text.squeeze (text fragment)) = said at hsays ⊢
  cases hsays with
  | query | block => exact h.variableFindings
  | shorthand hat hnone hglobal =>
    exact ⟨List.forall_mem_singleton.mpr (h.exact_shorthand htrimmed hat hnone hglobal),
      fun _ hproblem => (List.not_mem_nil hproblem).elim⟩
  | selectors => exact Findings.sited_none source
  | dangling | nothing => exact Findings.sited_problem h.inside _

theorem Sited.readDeclaration (context : Context) : (readDeclaration context fragment).2.Sited source := by
  simp only [Style.readDeclaration]
  split
  · exact Findings.sited_problem h.inside _
  next before after hsplit =>
    have hvalue : (trimEnd (trimStart after)).Sited source := by
      refine h.subfragment ((prefix_trimEnd _).isInfix.trans ?_)
      exact ((List.dropWhile_suffix _).trans (suffix_of_splitColon hsplit)).isInfix
    have hfound := hvalue.variableFindings
    split
    · exact Findings.sited_problem h.inside _
    split
    · exact Findings.sited_problem h.inside _
    split
    · exact Findings.sited_problem h.inside _
    split
    · exact hfound
    · exact ⟨hfound.references, List.forall_mem_append.mpr ⟨hfound.problems, List.forall_mem_singleton.mpr h.inside⟩⟩

end Fragment

/-! ## Readings -/

namespace Reading

theorem Collects.sited {source : Text} {done : List Lexeme} {reading : Reading} (h : reading.Collects done)
    (hdone : done <+: lexemes source) : reading.pending.Sited source := by
  obtain ⟨older, recent, rfl, hrecent, hpending⟩ := h
  obtain ⟨newer, hall⟩ := hdone
  rw [hpending]
  exact (sited_of_lexemes hall.symm hrecent).subfragment (List.dropWhile_suffix _).isInfix

end Reading

theorem Findings.Read.sited {findings : Findings} (h : findings.Read (.source source)) : findings.Sited source := by
  cases h with
  | head context hexcerpt => exact (Excerpt.sited hexcerpt).readHead (Excerpt.trimmed hexcerpt) context
  | declaration context hexcerpt => exact (Excerpt.sited hexcerpt).readDeclaration context
  | clause problem hexcerpt => exact Findings.sited_problem (Excerpt.sited hexcerpt).inside problem
  | lexeme problem hinside => exact Findings.sited_problem hinside problem

/-- The references, the diagnostics and the statements of a sheet stand in its source. -/
theorem Sheet.sited_parse (source : Text) :
    (∀ reference ∈ (Sheet.parse source).references, reference.Exact source) ∧
      (∀ diagnostic ∈ (Sheet.parse source).diagnostics.reported, diagnostic.range.Inside source) ∧
      ∀ statement ∈ (Sheet.parse source).statements, statement.range.Inside source := by
  have hkeeps := Reading.keeps_source source
  refine ⟨fun reference hmem => ?_, fun diagnostic hmem => ?_, fun statement hmem => ?_⟩
  · obtain ⟨findings, hread, hreference⟩ := hkeeps.references reference hmem
    exact hread.sited.references reference hreference
  · obtain ⟨findings, hread, hproblem⟩ := hkeeps.problems diagnostic hmem
    exact hread.sited.problems diagnostic hproblem
  · obtain ⟨fragment, hexcerpt, -, -, hrange⟩ := hkeeps.statements statement hmem
    rw [hrange]
    exact (Excerpt.sited hexcerpt).inside

end Style

end Sitewright
