import Sitewright.Proofs.Style.Placeless
import Sitewright.Proofs.Style.Tracing

/-!
Comments are spaces. A source with a space in the place of each comment is read as the same sheet, up to places.

Without its comments a source has other lexemes, as texts that were apart now stand together; but every other lexeme
stays what it is, as a space may follow wherever a comment may. And a text that is read at once is collected as if
it were read in parts (`alike_run_text`).
-/

namespace Sitewright.Style

open Lexer

/-! ## A space for each comment -/

/-- What stands in the place of a lexeme. -/
def Lexeme.uncommented (lexeme : Lexeme) : Text :=
  if lexeme.kind = .comment then [' '] else lexeme.text

/-- A source with a space in the place of each comment. -/
def uncommented (source : Text) : Text :=
  (lexemes source).flatMap Lexeme.uncommented

theorem opened_of_not_isSpecial {c : Char} (h : isSpecial c = false) (offset : Nat) :
    opened c offset = ([], .text [c]) := by
  simp only [isSpecial, Bool.or_eq_false_iff, beq_eq_false_iff_ne] at h
  simp [opened, h]

theorem exists_run_text (read : Text) (start offset : Nat) (rest : Text) :
    ∃ text more, run (.text read) start offset rest = ⟨.text, text, start⟩ :: more := by
  induction rest generalizing read offset with
  | nil => exact ⟨read.reverse, [], rfl⟩
  | cons c rest ih =>
    cases hc : isSpecial c with
    | true =>
      refine ⟨read.reverse, run .ground offset offset (c :: rest), run_of_endsBefore (by simp) start offset ?_⟩
      exact fun d hd => Option.some.inj hd ▸ hc
    | false =>
      simp only [run, step, hc, Bool.false_eq_true, if_false, List.nil_append]
      exact ih (c :: read) (offset + 1)

/-- The first character stays, unless it is that of a comment. -/
theorem head?_uncommented (source : Text) (offset : Nat) :
    ((run .ground offset offset source).flatMap Lexeme.uncommented).head? = source.head? ∨
      ((run .ground offset offset source).flatMap Lexeme.uncommented).head? = some ' ' ∧
        source.head? ≠ some '\n' := by
  by_cases hsource : source = []
  · rw [hsource]
    exact .inl rfl
  obtain ⟨kind, text, rest, rfl, htext, -, hends, htakes⟩ := exists_takes hsource
  have hrun := htakes offset rest hends
  obtain ⟨c, text, rfl⟩ := List.exists_cons_of_ne_nil htext
  rw [hrun, List.flatMap_cons, Lexeme.uncommented]
  by_cases hkind : kind = .comment
  · rw [if_pos hkind]
    refine .inr ⟨rfl, fun hline => ?_⟩
    -- a line break begins a text
    obtain rfl : c = '\n' := Option.some.inj hline
    obtain ⟨first, more, hfirst⟩ := exists_run_text ['\n'] offset (offset + 1) (text ++ rest)
    have hcons : (⟨.text, first, offset⟩ :: more : List Lexeme) = _ := hfirst.symm.trans hrun
    rw [List.cons.injEq, Lexeme.mk.injEq, hkind] at hcons
    cases hcons.1.1
  · rw [if_neg hkind]
    exact .inl rfl

/-- What may follow a lexeme other than a text may follow it without comments, too. -/
theorem LexemeKind.EndsBefore.uncommented {kind : LexemeKind} {rest : Text} (h : kind.EndsBefore rest)
    (hkind : kind ≠ .text) (offset : Nat) :
    kind.EndsBefore ((run .ground offset offset rest).flatMap Lexeme.uncommented) := by
  have hhead := head?_uncommented rest offset
  cases kind with
  | text => exact absurd rfl hkind
  | slash =>
    intro hstar
    rcases hhead with hhead | ⟨hspace, -⟩
    · exact h (hhead.symm.trans hstar)
    · cases hspace.symm.trans hstar
  | unterminatedString =>
    intro c hc
    rcases hhead with hhead | ⟨hspace, hline⟩
    · exact h c (hhead.symm.trans hc)
    · cases rest with
      | nil => cases hc
      | cons d rest => exact absurd (congrArg some (h d rfl)) hline
  | unterminatedComment =>
    have hnil : rest = [] := h
    rw [hnil]
    exact rfl
  | _ => trivial

/-! ## Reading it -/

namespace Reading

/-- A reading that goes on with a text. -/
def gather (reading : Reading) (text : Text) (start : Nat) : Reading :=
  { reading with pending := Fragment.collect reading.pending text start }

theorem Alike.gather {reading other : Reading} (h : reading.Alike other) (text : Text) (start start' : Nat) :
    (reading.gather text start).Alike (other.gather text start') :=
  h.collected (text_collect_congr h.pending text start start')

theorem alike_gather_append (reading : Reading) (a b : Text) (start start' : Nat) :
    (reading.gather (a ++ b) start).Alike ((reading.gather a start).gather b start') := by
  refine (Alike.refl reading).collected ?_
  rw [← Fragment.collect_append]
  exact text_collect_congr rfl b _ _

/-- A text that the lexer is in the midst of may as well be collected at once. -/
theorem alike_run_text (reading : Reading) (read : Text) (start offset : Nat) (rest : Text) :
    ((run (.text read) start offset rest).foldl step reading).Alike
      ((run .ground offset offset rest).foldl step (reading.gather read.reverse start)) := by
  induction rest generalizing reading read start offset with
  | nil => exact Alike.refl _
  | cons c rest ih =>
    cases hc : isSpecial c with
    | true =>
      have hends : LexemeKind.text.EndsBefore (c :: rest) := fun d hd => Option.some.inj hd ▸ hc
      rw [@run_of_endsBefore (.text read) (by simp) start offset _ hends]
      exact Alike.refl _
    | false =>
      have hread : run (.text read) start offset (c :: rest) = run (.text (c :: read)) start (offset + 1) rest := by
        simp [run, Lexer.step, hc]
      have hground : run .ground offset offset (c :: rest) = run (.text [c]) offset (offset + 1) rest := by
        simp [run, Lexer.step, opened_of_not_isSpecial hc]
      rw [hread, hground]
      refine (ih reading (c :: read) start (offset + 1)).trans (Alike.trans ?_ (ih _ [c] offset (offset + 1)).symm)
      rw [List.reverse_cons]
      exact (alike_gather_append reading read.reverse [c] start offset).foldl _

theorem run_text_append (read : Text) {added : Text} (h : ∀ c ∈ added, isSpecial c = false) (start offset : Nat)
    (rest : Text) :
    run (.text read) start offset (added ++ rest) =
      run (.text (added.reverse ++ read)) start (offset + added.length) rest := by
  induction added generalizing read offset with
  | nil => rfl
  | cons c added ih =>
    rw [List.forall_mem_cons] at h
    simp only [List.cons_append, run, Lexer.step, h.1, Bool.false_eq_true, if_false, List.nil_append, ih _ h.2,
      List.reverse_cons, List.append_assoc, List.length_cons, Nat.add_assoc, Nat.add_comm 1]

/-- A text is collected, whatever follows it. -/
theorem alike_run_plain (reading : Reading) {text : Text} (hne : text ≠ []) (h : ∀ c ∈ text, isSpecial c = false)
    (offset : Nat) (rest : Text) :
    ((run .ground offset offset (text ++ rest)).foldl step reading).Alike
      ((run .ground (offset + text.length) (offset + text.length) rest).foldl step (reading.gather text offset)) := by
  obtain ⟨c, text, rfl⟩ := List.exists_cons_of_ne_nil hne
  rw [List.forall_mem_cons] at h
  have hrun : run .ground offset offset (c :: text ++ rest) =
      run (.text (c :: text).reverse) offset (offset + (c :: text).length) rest := by
    rw [List.reverse_cons, List.length_cons, Nat.add_comm text.length, ← Nat.add_assoc,
      ← run_text_append [c] h.2]
    simp [run, Lexer.step, opened_of_not_isSpecial h.1]
  have htext := alike_run_text reading (c :: text).reverse offset (offset + (c :: text).length) rest
  rw [List.reverse_reverse] at htext
  rw [hrun]
  exact htext

/-- What is collected of a text or of a comment is what stands in its place. -/
theorem step_uncommented (reading : Reading) {lexeme : Lexeme} (h : lexeme.kind = .text ∨ lexeme.kind = .comment) :
    reading.step lexeme = reading.gather lexeme.uncommented lexeme.start := by
  rcases h with h | h
  · simp only [step, h, Lexeme.uncommented, reduceCtorEq, if_false]
    rfl
  · simp only [step, h, Lexeme.uncommented, if_true, Fragment.collectGap_eq]
    rfl

/-- A text reads the same without comments. -/
theorem Alike.run_uncommented {reading other : Reading} (h : reading.Alike other) (source : Text)
    (offset offset' : Nat) :
    ((run .ground offset offset source).foldl Reading.step reading).Alike
      ((run .ground offset' offset' ((run .ground offset offset source).flatMap Lexeme.uncommented)).foldl
        Reading.step other) := by
  -- by induction on the number of characters left
  induction hlength : source.length using Nat.strong_induction_on generalizing reading other source offset offset' with
  | _ length ih =>
  by_cases hsource : source = []
  · subst hsource
    exact h
  obtain ⟨kind, text, rest, rfl, htext, hallows, hends, htakes⟩ := exists_takes hsource
  have hshorter : rest.length < length := by
    have := List.length_pos_iff.mpr htext
    rw [← hlength, List.length_append]
    omega
  have hrun := htakes offset rest hends
  rw [hrun, List.foldl_cons, List.flatMap_cons]
  by_cases hkind : kind = .text ∨ kind = .comment
  · rw [step_uncommented reading hkind]
    have hplain : (Lexeme.mk kind text offset).uncommented ≠ [] ∧
        ∀ c ∈ (Lexeme.mk kind text offset).uncommented, isSpecial c = false := by
      rcases hkind with rfl | rfl
      · exact ⟨htext, hallows⟩
      · exact ⟨List.cons_ne_nil _ _, List.forall_mem_singleton.mpr rfl⟩
    refine Alike.trans ?_ (alike_run_plain other hplain.1 hplain.2 offset' _).symm
    exact ih rest.length hshorter (h.gather _ _ _) rest _ _ rfl
  · rw [not_or] at hkind
    have hsame : (Lexeme.mk kind text offset).uncommented = text := if_neg hkind.2
    rw [hsame, htakes offset' _ (hends.uncommented hkind.1 _), List.foldl_cons]
    have hstep : (reading.step ⟨kind, text, offset⟩).Alike (other.step ⟨kind, text, offset'⟩) := h.step rfl rfl
    exact ih rest.length hshorter hstep rest _ _ rfl

end Reading

theorem Sheet.placeless_parse_of_alike {source other : Text}
    (h : ((lexemes source).foldl Reading.step .start).finish.Alike ((lexemes other).foldl Reading.step .start).finish) :
    (Sheet.parse source).placeless = (Sheet.parse other).placeless := by
  obtain ⟨-, houtline, hreferences, hproblems⟩ := h
  rw [Reading.outline, Reading.outline, Outline.mk.injEq] at houtline
  obtain ⟨-, htop, hstatements⟩ := houtline
  have hbare : Statement.bare = (fun text => ⟨text, ⟨0, 0⟩, ⟨0, 0⟩⟩) ∘ Statement.text := rfl
  simp only [Sheet.parse, Sheet.placeless, hreferences, hproblems]
  rw [← Forest.number_map, htop, Forest.number_map, hbare, ← List.map_map, hstatements, List.map_map]

/-- **Comments are spaces.** A source with a space in the place of each comment is read as a sheet that says the same:
the same rules in the same places of the tree, the same statements, references and diagnostics. So the same text is
built from it, for every order of media keys. -/
theorem comments_as_spaces (source : Text) :
    (Sheet.parse (uncommented source)).placeless = (Sheet.parse source).placeless ∧
      ∀ order, (Sheet.parse (uncommented source)).buildOrdered order = (Sheet.parse source).buildOrdered order := by
  have hplaceless : (Sheet.parse (uncommented source)).placeless = (Sheet.parse source).placeless :=
    Sheet.placeless_parse_of_alike ((Reading.Alike.refl .start).run_uncommented source 0 0).symm.finish
  refine ⟨hplaceless, fun order => ?_⟩
  rw [← Sheet.buildOrdered_placeless, hplaceless, Sheet.buildOrdered_placeless]

/-- Comments next to slashes, in and after a selector and a value, and in a string that is none. -/
example : uncommented "a//* b */c/**/ \x7b x: \"/* \"/* ' */ y\x7d'/*\nz /* w".toList =
    "a/ c  \x7b x: \"/* \"  y\x7d'/*\nz /* w".toList := by
  decide +kernel

end Sitewright.Style
