import Sitewright.Proofs.Places
import Sitewright.Proofs.Style.Flatten

/-!
Where the parts of a sheet stand in its source. The lexemes follow one another without a gap, each with the
characters that its kind allows (`chained_lexemes`, `of_mem_lexemes`), since what may follow a lexeme is a matter of
the next character (`LexemeKind.EndsBefore`). Every head, declaration and statement is an excerpt, the text of lexemes
in a row (`Reading.keeps_source`).
-/

namespace Sitewright.Style

open Lexer

variable {start stop : Nat}

/-! ## Lexemes in a row -/

/-- Lexemes that follow one another from an offset to another. -/
def Chained : Nat → List Lexeme → Nat → Prop
  | start, [], stop => start = stop
  | start, lexeme :: rest, stop => lexeme.start = start ∧ Chained lexeme.stop rest stop

theorem chained_append {a b : List Lexeme} :
    Chained start (a ++ b) stop ↔ ∃ between, Chained start a between ∧ Chained between b stop := by
  induction a generalizing start with
  | nil => simp [Chained]
  | cons lexeme rest ih => simp only [List.cons_append, Chained, ih, exists_and_left, and_assoc]

theorem Chained.le {lexemes : List Lexeme} (h : Chained start lexemes stop) : start ≤ stop := by
  induction lexemes generalizing start with
  | nil => exact Nat.le_of_eq h
  | cons lexeme rest ih =>
    obtain ⟨rfl, hrest⟩ := h
    exact (Nat.le_add_right _ _).trans (ih hrest)

/-- Every lexeme of a row stands inside it. -/
theorem Chained.mem {lexemes : List Lexeme} (h : Chained start lexemes stop) {lexeme : Lexeme}
    (hmem : lexeme ∈ lexemes) : start ≤ lexeme.start ∧ lexeme.stop ≤ stop := by
  obtain ⟨before, after, rfl⟩ := List.append_of_mem hmem
  obtain ⟨between, hbefore, rfl, hafter⟩ := chained_append.mp h
  exact ⟨hbefore.le, hafter.le⟩

/-- Whether a character begins and ends strings. -/
def IsQuote (c : Char) : Prop := c = '"' ∨ c = '\''

/-- The characters that a lexeme of a kind may have. -/
def LexemeKind.Allows (text : Text) : LexemeKind → Prop
  | .text => ∀ c ∈ text, isSpecial c = false
  | .slash => text = ['/']
  | .quoted => ∃ quote inner, IsQuote quote ∧ text = quote :: (inner ++ [quote])
  | _ => True

/-- A lexeme has the characters of its kind. -/
def Lexeme.Shaped (lexeme : Lexeme) : Prop :=
  lexeme.text ≠ [] ∧ lexeme.kind.Allows lexeme.text

/-! ## The first lexeme of a text -/

/-- What may follow a lexeme of a kind without going on with it. -/
def LexemeKind.EndsBefore (rest : Text) : LexemeKind → Prop
  | .text => ∀ c, rest.head? = some c → isSpecial c = true
  | .slash => rest.head? ≠ some '*'
  | .unterminatedString => ∀ c, rest.head? = some c → c = '\n'
  | .unterminatedComment => rest = []
  | _ => True

namespace Lexer

variable {mode : Mode}

/-- The characters that the lexer has read of the lexeme it is in, last first. -/
def Mode.taken : Mode → Text
  | .ground => []
  | .text read | .quoted _ _ read | .comment _ read => read
  | .slash => ['/']

/-- What the lexer has read of a lexeme has the characters of its kind. -/
def Mode.Shaped : Mode → Prop
  | .text read => ∀ c ∈ read, isSpecial c = false
  | .quoted quote _ read => IsQuote quote ∧ ∃ inner, read = inner ++ [quote]
  | _ => True

/-- The kind of the lexeme that the lexer is in if it ends here. -/
def Mode.kind : Mode → LexemeKind
  | .ground | .text _ => .text
  | .quoted _ _ _ => .unterminatedString
  | .slash => .slash
  | .comment _ _ => .unterminatedComment

theorem Mode.Shaped.allows (h : mode.Shaped) : mode.kind.Allows mode.taken.reverse := by
  cases mode with
  | ground => exact fun _ hmem => (List.not_mem_nil hmem).elim
  | text read => exact fun c hmem => h c (List.mem_reverse.mp hmem)
  | slash => rfl
  | quoted | comment => trivial

theorem run_ground (start offset : Nat) (text : Text) :
    run .ground start offset text = run .ground offset offset text := by
  cases text <;> rfl

theorem run_of_endsBefore (hmode : mode ≠ .ground) (start offset : Nat) {rest : Text}
    (h : mode.kind.EndsBefore rest) :
    run mode start offset rest = ⟨mode.kind, mode.taken.reverse, start⟩ :: run .ground offset offset rest := by
  cases rest with
  | nil =>
    cases mode with
    | ground => exact absurd rfl hmode
    | _ => rfl
  | cons c rest =>
    cases mode with
    | ground => exact absurd rfl hmode
    | text read =>
      simp only [run, step, h c rfl, if_true]
      rfl
    | quoted quote escaped read =>
      simp only [run, step, h c rfl, if_true]
      rfl
    | slash =>
      have hc : c ≠ '*' := fun hc => h (congrArg some hc)
      simp only [run, step, hc, if_false]
      rfl
    | comment star read => cases h

/-- A character does not belong to the lexeme that the lexer is in, or it is its last one, or it goes on with it. -/
theorem step_cases (hmode : mode ≠ .ground) (hshaped : mode.Shaped) (c : Char) :
    (∀ rest, mode.kind.EndsBefore (c :: rest)) ∨
    (∃ kind : LexemeKind, (∀ rest, kind.EndsBefore rest) ∧ kind.Allows (c :: mode.taken).reverse ∧ ∀ start offset,
      step mode start offset c = ([⟨kind, (c :: mode.taken).reverse, start⟩], .ground, offset)) ∨
    ∃ after, after ≠ .ground ∧ after.Shaped ∧ after.taken = c :: mode.taken ∧
      ∀ start offset, step mode start offset c = ([], after, start) := by
  cases mode with
  | ground => exact absurd rfl hmode
  | text read =>
    cases hc : isSpecial c with
    | true => exact .inl fun rest d hd => Option.some.inj hd ▸ hc
    | false =>
      exact .inr (.inr ⟨.text (c :: read), by simp, List.forall_mem_cons.mpr ⟨hc, hshaped⟩, rfl,
        fun start offset => by simp [step, hc]⟩)
  | quoted quote escaped read =>
    obtain ⟨hquotes, inner, rfl⟩ := hshaped
    by_cases hline : c = '\n'
    · exact .inl fun rest d hd => Option.some.inj hd ▸ hline
    cases escaped with
    | true =>
      exact .inr (.inr ⟨.quoted quote false (c :: (inner ++ [quote])), by simp, ⟨hquotes, c :: inner, rfl⟩, rfl,
        fun start offset => by simp [step, hline]⟩)
    | false =>
      by_cases hquote : c = quote
      · subst hquote
        exact .inr (.inl ⟨.quoted, fun _ => trivial, ⟨c, inner.reverse, hquotes, by simp [Mode.taken]⟩,
          fun start offset => by simp [step, hline, Mode.taken]⟩)
      · exact .inr (.inr ⟨.quoted quote (c == '\\') (c :: (inner ++ [quote])), by simp, ⟨hquotes, c :: inner, rfl⟩, rfl,
          fun start offset => by simp [step, hline, hquote]⟩)
  | slash =>
    by_cases hstar : c = '*'
    · subst hstar
      exact .inr (.inr ⟨.comment false ['*', '/'], by simp, trivial, rfl, fun start offset => by simp [step]⟩)
    · exact .inl fun rest hrest => hstar (Option.some.inj hrest)
  | comment star read =>
    by_cases hend : star = true ∧ c = '/'
    · exact .inr (.inl ⟨.comment, fun _ => trivial, trivial, fun start offset => by simp [step, hend, Mode.taken]⟩)
    · exact .inr (.inr ⟨.comment (c == '*') (c :: read), by simp, trivial, rfl,
        fun start offset => by simp [step, hend]⟩)

/-- The lexeme that the lexer is in ends with `more`, whatever follows it that may follow. -/
def Mode.EndsWith (mode : Mode) (kind : LexemeKind) (more : Text) : Prop :=
  ∀ start offset after, kind.EndsBefore after →
    run mode start offset (more ++ after) =
      ⟨kind, mode.taken.reverse ++ more, start⟩ :: run .ground (offset + more.length) (offset + more.length) after

theorem exists_endsWith (hmode : mode ≠ .ground) (hshaped : mode.Shaped) (text : Text) :
    ∃ (kind : LexemeKind) (more rest : Text), text = more ++ rest ∧ kind.EndsBefore rest ∧
      kind.Allows (mode.taken.reverse ++ more) ∧ mode.EndsWith kind more := by
  have hhere {mode : Mode} (hmode : mode ≠ .ground) (hshaped : mode.Shaped) :
      mode.kind.Allows (mode.taken.reverse ++ []) ∧ mode.EndsWith mode.kind [] := by
    refine ⟨?_, fun start offset after hafter => ?_⟩ <;> rw [List.append_nil]
    · exact hshaped.allows
    · exact run_of_endsBefore hmode start offset hafter
  induction text generalizing mode with
  | nil =>
    refine ⟨mode.kind, [], [], rfl, ?_, hhere hmode hshaped⟩
    cases mode <;> simp [Mode.kind, LexemeKind.EndsBefore]
  | cons c text ih =>
    rcases step_cases hmode hshaped c with hends | ⟨kind, hkind, hallows, hstep⟩ | ⟨next, hnext, hnextShaped, htaken, hstep⟩
    · exact ⟨mode.kind, [], c :: text, rfl, hends text, hhere hmode hshaped⟩
    · rw [List.reverse_cons] at hallows
      refine ⟨kind, [c], text, rfl, hkind text, hallows, fun start offset after _ => ?_⟩
      simp only [List.singleton_append, run, hstep, List.reverse_cons, List.length_singleton]
      exact congrArg _ (run_ground _ _ after)
    · obtain ⟨kind, more, rest, rfl, hends, hallows, hmore⟩ := ih hnext hnextShaped
      rw [htaken, List.reverse_cons, List.append_assoc, List.singleton_append] at hallows
      refine ⟨kind, c :: more, rest, rfl, hends, hallows, fun start offset after hafter => ?_⟩
      simp only [List.cons_append, run, hstep, List.nil_append, hmore start (offset + 1) after hafter, htaken,
        List.reverse_cons, List.append_assoc, List.length_cons, Nat.add_assoc, Nat.add_comm 1]

theorem opened_cases (c : Char) :
    (∃ kind : LexemeKind, (∀ rest, kind.EndsBefore rest) ∧ kind.Allows [c] ∧
      ∀ offset, opened c offset = ([⟨kind, [c], offset⟩], .ground)) ∨
    ∃ mode, mode ≠ .ground ∧ mode.Shaped ∧ mode.taken = [c] ∧ ∀ offset, opened c offset = ([], mode) := by
  by_cases hopening : c = '\x7b'
  · exact .inl ⟨.opening, fun _ => trivial, trivial, fun offset => by simp [opened, hopening]⟩
  by_cases hclosing : c = '\x7d'
  · exact .inl ⟨.closing, fun _ => trivial, trivial, fun offset => by simp [opened, hclosing]⟩
  by_cases hsemicolon : c = ';'
  · exact .inl ⟨.semicolon, fun _ => trivial, trivial, fun offset => by simp [opened, hsemicolon]⟩
  by_cases hquote : c = '"' ∨ c = '\''
  · exact .inr ⟨.quoted c false [c], by simp, ⟨hquote, [], rfl⟩, rfl, fun offset => by
      simp [opened, hopening, hclosing, hsemicolon, hquote]⟩
  by_cases hslash : c = '/'
  · subst hslash
    exact .inr ⟨.slash, by simp, trivial, rfl, fun offset => by simp [opened]⟩
  · have hplain : isSpecial c = false := by
      rw [not_or] at hquote
      simp [isSpecial, hopening, hclosing, hsemicolon, hquote, hslash]
    exact .inr ⟨.text [c], by simp, List.forall_mem_singleton.mpr hplain, rfl, fun offset => by
      simp [opened, hopening, hclosing, hsemicolon, hquote, hslash]⟩

end Lexer

/-- The text is a lexeme, whatever follows it that may follow. -/
def LexemeKind.Takes (kind : LexemeKind) (text : Text) : Prop :=
  ∀ offset after, kind.EndsBefore after →
    run .ground offset offset (text ++ after) =
      ⟨kind, text, offset⟩ :: run .ground (offset + text.length) (offset + text.length) after

theorem exists_takes {source : Text} (h : source ≠ []) :
    ∃ (kind : LexemeKind) (text rest : Text), source = text ++ rest ∧ text ≠ [] ∧ kind.Allows text ∧
      kind.EndsBefore rest ∧ kind.Takes text := by
  obtain ⟨c, source, rfl⟩ := List.exists_cons_of_ne_nil h
  rcases opened_cases c with ⟨kind, hkind, hallows, hopened⟩ | ⟨mode, hmode, hshaped, htaken, hopened⟩
  · refine ⟨kind, [c], source, rfl, List.cons_ne_nil c [], hallows, hkind source, fun offset after _ => ?_⟩
    simp only [List.singleton_append, run, step, hopened]
    exact congrArg _ (run_ground _ _ after)
  · obtain ⟨kind, more, rest, rfl, hends, hallows, hmore⟩ := exists_endsWith hmode hshaped source
    rw [htaken] at hallows
    refine ⟨kind, c :: more, rest, rfl, List.cons_ne_nil c more, hallows, hends, fun offset after hafter => ?_⟩
    simp only [List.cons_append, run, step, hopened, List.nil_append, hmore offset (offset + 1) after hafter, htaken,
      List.reverse_singleton, List.length_cons, Nat.add_assoc, Nat.add_comm 1]

/-! ## All lexemes of a text -/

/-- The lexemes from `start` on are all of the text. -/
def Tiles : Nat → List Lexeme → Text → Prop
  | _, [], text => text = []
  | start, lexeme :: rest, text => lexeme.start = start ∧ lexeme.Shaped ∧
    ∃ after, text = lexeme.text ++ after ∧ lexeme.kind.EndsBefore after ∧ Tiles (start + lexeme.text.length) rest after

theorem tiles_run (offset : Nat) (source : Text) : Tiles offset (run .ground offset offset source) source := by
  induction hlength : source.length using Nat.strong_induction_on generalizing source offset with
  | _ length ih =>
  by_cases hsource : source = []
  · subst hsource
    rfl
  obtain ⟨kind, text, rest, rfl, htext, hallows, hends, htakes⟩ := exists_takes hsource
  have hshorter : rest.length < length := by
    have := List.length_pos_iff.mpr htext
    rw [← hlength, List.length_append]
    omega
  rw [htakes offset rest hends]
  exact ⟨rfl, ⟨htext, hallows⟩, rest, rfl, hends, ih rest.length hshorter _ rest rfl⟩

namespace Tiles

variable {text : Text}

theorem append {a b : List Lexeme} (h : Tiles start (a ++ b) text) :
    ∃ before after, text = before ++ after ∧ Tiles (start + before.length) b after := by
  induction a generalizing start text with
  | nil => exact ⟨[], text, rfl, h⟩
  | cons lexeme a ih =>
    obtain ⟨-, -, after, rfl, -, hafter⟩ := h
    obtain ⟨before, after, rfl, hafter⟩ := ih hafter
    refine ⟨lexeme.text ++ before, after, (List.append_assoc _ _ _).symm, ?_⟩
    rwa [List.length_append, ← Nat.add_assoc]

theorem chained {lexemes : List Lexeme} (h : Tiles start lexemes text) :
    Chained start lexemes (start + text.length) := by
  induction lexemes generalizing start text with
  | nil =>
    obtain rfl : text = [] := h
    rfl
  | cons lexeme rest ih =>
    obtain ⟨rfl, -, after, rfl, -, hafter⟩ := h
    rw [List.length_append, ← Nat.add_assoc]
    exact ⟨rfl, ih hafter⟩

end Tiles

theorem chained_lexemes (source : Text) : Chained 0 (lexemes source) source.length := by
  have h := (tiles_run 0 source).chained
  rwa [Nat.zero_add] at h

section

variable {source : Text} {lexeme : Lexeme} (h : lexeme ∈ lexemes source)
include h

/-- A lexeme has the characters of its kind and stands at its place. -/
theorem of_mem_lexemes : lexeme.Shaped ∧ lexeme.text <+: source.drop lexeme.start := by
  obtain ⟨older, newer, hall⟩ := List.append_of_mem h
  have htiles := tiles_run 0 source
  rw [← lexemes, hall] at htiles
  obtain ⟨before, after, rfl, hstart, hshaped, after, rfl, -⟩ := htiles.append
  rw [hstart, Nat.zero_add, List.drop_left]
  exact ⟨hshaped, List.prefix_append _ _⟩

theorem inside_of_mem_lexemes : CharRange.Inside ⟨lexeme.start, lexeme.stop⟩ source :=
  ⟨Nat.le_add_right _ _, ((chained_lexemes source).mem h).2⟩

end

/-! ## Excerpts -/

/-- A fragment that is the text of lexemes in a row, without braces and semicolons and without the blanks
around it. -/
def Excerpt (all : List Lexeme) (fragment : Fragment) : Prop :=
  fragment ≠ [] ∧ ∃ older recent newer, all = older ++ recent ++ newer ∧
    (∀ lexeme ∈ recent, Reading.ends lexeme.kind = false) ∧
    fragment = Fragment.trimEnd (Fragment.trimStart (marksOf recent))

variable {all : List Lexeme}

theorem Excerpt.trimmed {fragment : Fragment} (h : Excerpt all fragment) : Text.Trimmed (Fragment.text fragment) := by
  obtain ⟨-, -, recent, -, -, -, rfl⟩ := h
  rw [Reading.text_trimEnd, Fragment.text_trimStart]
  exact Text.trimmed_trim _

theorem Reading.Collects.excerpt {reading : Reading} {done : List Lexeme} (h : reading.Collects done)
    (hdone : done <+: all) (hne : Fragment.trimEnd reading.pending ≠ []) :
    Excerpt all (Fragment.trimEnd reading.pending) := by
  obtain ⟨older, recent, rfl, hends, hpending⟩ := h
  obtain ⟨newer, rfl⟩ := hdone
  exact ⟨hne, older, recent, newer, rfl, hends, by rw [hpending]⟩

/-- Excerpts of a source, and its lexemes. -/
def Origin.source (source : Text) : Origin :=
  ⟨Excerpt (lexemes source), fun range => range.Inside source, (Sheet.parse source).findings⟩

/-- **Every part of a sheet is an excerpt of its source.** -/
theorem Reading.keeps_source (source : Text) :
    ((lexemes source).foldl Reading.step .start).finish.Keeps (.source source) := by
  have hexcerpt {older : List Lexeme} (holder : older <+: lexemes source) :=
    ((@Reading.collects_of_nil .start [] rfl).foldl older).excerpt holder
  have hfinish : ((lexemes source).foldl Reading.step .start).finish.FoundAmong (Sheet.parse source).findings :=
    ⟨List.Subset.refl _, List.Subset.refl _⟩
  have hrun := ((Reading.grows_flush _ none).trans (Reading.grows_finish _)).among hfinish
  have hkept : ((lexemes source).foldl Reading.step .start).Keeps (.source source) :=
    Reading.keeps_start.foldl (fun _ => inside_of_mem_lexemes)
      (fun older lexeme newer heq _ => hexcerpt (heq ▸ List.prefix_append _ _)) hrun
  exact hkept.finish (hexcerpt List.prefix_rfl) hfinish

theorem Sheet.exists_read_rule {source : Text} {entry : Nat × Rule}
    (hentry : entry ∈ (Sheet.parse source).rules.preorder) : ∃ context, entry.2.Read (.source source) context := by
  rw [← map_placedRules .top] at hentry
  obtain ⟨⟨context, entry⟩, hplaced, rfl⟩ := List.mem_map.mp hentry
  exact ⟨context, forall_placedRules_of_within (Reading.keeps_source source).top 1 _ hplaced⟩

end Sitewright.Style
