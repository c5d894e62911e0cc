import Sitewright.Proofs.Text
import Sitewright.Style.Parser

/-!
Style sheets read character by character. The lexer and the reading of its lexemes are one machine over
characters (`Scanner`), so that a text is read piece by piece. Between two braces or semicolons it collects
plain text: a text is plain if the lexer finds only strings, slashes and text in it, and whether it is can
be told by a walk with three kinds of state (`Scan`).
-/

namespace Sitewright.Style

open Lexer

/-! ## The machine -/

/-- A sheet read up to some character. -/
structure Scanner where
  mode : Mode
  /-- The offset of the lexeme that the lexer is in. -/
  first : Nat
  offset : Nat
  reading : Reading

namespace Scanner

/-- Before the first character. -/
def initial : Scanner := ⟨.ground, 0, 0, .start⟩

/-- Reads one character. -/
def step (scanner : Scanner) (c : Char) : Scanner :=
  let (lexemes, mode, first) := Lexer.step scanner.mode scanner.first scanner.offset c
  ⟨mode, first, scanner.offset + 1, lexemes.foldl Reading.step scanner.reading⟩

/-- Reads a text. -/
def run (scanner : Scanner) (text : Text) : Scanner :=
  text.foldl step scanner

/-- What the lexer is in the middle of becomes a lexeme. -/
def close (scanner : Scanner) : Reading :=
  (Lexer.finish scanner.mode scanner.first).foldl Reading.step scanner.reading

theorem run_append (scanner : Scanner) (a b : Text) : scanner.run (a ++ b) = (scanner.run a).run b :=
  List.foldl_append

theorem run_cons (scanner : Scanner) (c : Char) (rest : Text) :
    scanner.run (c :: rest) = (scanner.step c).run rest := rfl

theorem foldl_lexemes (scanner : Scanner) (text : Text) :
    (Lexer.run scanner.mode scanner.first scanner.offset text).foldl Reading.step scanner.reading =
      (scanner.run text).close := by
  induction text generalizing scanner with
  | nil => rfl
  | cons c rest ih =>
    simp only [Lexer.run, List.foldl_append]
    exact ih (scanner.step c)

end Scanner

theorem Sheet.parse_eq (source : Text) :
    Sheet.parse source =
      let reading := (Scanner.initial.run source).close.finish
      ⟨source, reading.top.number 1, reading.statements, reading.references, ⟨reading.problems⟩⟩ := by
  rw [← Scanner.foldl_lexemes]
  rfl

/-! ## Plain text -/

/-- Whether a lexeme is collected as it is. -/
def LexemeKind.isPlain : LexemeKind → Bool
  | .quoted | .slash | .text => true
  | _ => false

/-- No braces, semicolons and comments outside of strings, and every string closed. -/
def Plain (text : Text) : Prop :=
  ∀ lexeme ∈ lexemes text, lexeme.kind.isPlain = true

instance (text : Text) : Decidable (Plain text) :=
  inferInstanceAs (Decidable (∀ lexeme ∈ lexemes text, lexeme.kind.isPlain = true))

/-- Whether a character ends what was collected. -/
def isStructural (c : Char) : Bool :=
  c == '\x7b' || c == '\x7d' || c == ';'

/-- Where a walk through plain text is. -/
inductive Scan where
  | out
  /-- After a slash, so that a star would begin a comment. -/
  | slash
  | quoted (quote : Char) (escaped : Bool)
  deriving DecidableEq, Repr

namespace Scan

/-- Reads a character outside of strings. -/
def opening (c : Char) : Option Scan :=
  if isStructural c then none
  else if c = '"' ∨ c = '\'' then some (.quoted c false)
  else if c = '/' then some .slash
  else some .out

/-- Reads a character of plain text. -/
def next : Scan → Char → Option Scan
  | .out, c => opening c
  | .slash, c => if c = '*' then none else opening c
  | .quoted quote escaped, c =>
    if c = '\n' then none
    else if escaped then some (.quoted quote false)
    else if c = quote then some .out
    else some (.quoted quote (c == '\\'))

/-- Reads plain text. -/
def read (scan : Scan) : Text → Option Scan
  | [] => some scan
  | c :: rest => (scan.next c).bind fun scan => scan.read rest

/-- Whether the walk is in no string. -/
def isOutside : Scan → Bool
  | .quoted _ _ => false
  | _ => true

@[simp] theorem read_nil (scan : Scan) : scan.read [] = some scan := rfl

theorem read_append (scan : Scan) (a b : Text) :
    scan.read (a ++ b) = (scan.read a).bind fun scan => scan.read b := by
  induction a generalizing scan with
  | nil => rfl
  | cons c rest ih =>
    simp only [List.cons_append, read]
    cases scan.next c with
    | none => rfl
    | some next => exact ih next

theorem read_singleton (scan : Scan) (c : Char) : scan.read [c] = scan.next c := by
  simp only [read]
  cases scan.next c <;> rfl

/-- Strings are in single or double quotes. -/
def Real : Scan → Prop
  | .quoted quote _ => quote = '"' ∨ quote = '\''
  | _ => True

theorem Real.next {scan after : Scan} (h : scan.Real) {c : Char} (hnext : scan.next c = some after) :
    after.Real := by
  have hopening : opening c = some after → after.Real := by
    intro h
    rw [opening] at h
    split at h
    · cases h
    · split at h
      next hquote =>
        cases h
        exact hquote
      next => split at h <;> cases h <;> trivial
  cases scan with
  | out => exact hopening hnext
  | slash =>
    rw [Scan.next] at hnext
    split at hnext
    · cases hnext
    · exact hopening hnext
  | quoted quote escaped =>
    rw [Scan.next] at hnext
    split at hnext
    · cases hnext
    · split at hnext
      · cases hnext
        exact h
      · split at hnext
        · cases hnext
          trivial
        · cases hnext
          exact h

theorem Real.read {scan after : Scan} (h : scan.Real) {text : Text} (hread : scan.read text = some after) :
    after.Real := by
  induction text generalizing scan with
  | nil =>
    cases hread
    exact h
  | cons c rest ih =>
    rw [Scan.read, Option.bind_eq_some_iff] at hread
    obtain ⟨next, hnext, hread⟩ := hread
    exact ih (h.next hnext) hread

theorem real_of_isOutside {scan : Scan} (h : scan.isOutside = true) : scan.Real := by
  cases scan with
  | quoted quote escaped => cases h
  | out | slash => trivial

theorem real_of_read {text : Text} {scan : Scan} (h : Scan.out.read text = some scan) : scan.Real :=
  Real.read (show Scan.out.Real from trivial) h

/-! ## Blanks -/

/-- Where the walk is after a blank. -/
def gap : Scan → Scan
  | .quoted quote _ => .quoted quote false
  | _ => .out

theorem gap_gap (scan : Scan) : scan.gap.gap = scan.gap := by
  cases scan <;> rfl

theorem isOutside_gap (scan : Scan) : scan.gap.isOutside = scan.isOutside := by
  cases scan <;> rfl

theorem next_of_isBlank {scan : Scan} (h : scan.Real) {c : Char} (hc : isBlank c = true) :
    scan.next c = if scan.isOutside = false ∧ c = '\n' then none else some scan.gap := by
  have hopening : opening c = some .out := by
    have hstructural : isStructural c = false := by
      simp [isStructural, ne_of_isBlank hc (by decide : isBlank '\x7b' = false),
        ne_of_isBlank hc (by decide : isBlank '\x7d' = false), ne_of_isBlank hc (by decide : isBlank ';' = false)]
    simp [opening, hstructural, ne_of_isBlank hc (by decide : isBlank '"' = false),
      ne_of_isBlank hc (by decide : isBlank '\'' = false), ne_of_isBlank hc (by decide : isBlank '/' = false)]
  cases scan with
  | out => simp [next, hopening, isOutside, gap]
  | slash =>
    simp [next, hopening, isOutside, gap, ne_of_isBlank hc (by decide : isBlank '*' = false)]
  | quoted quote escaped =>
    have hquote : c ≠ quote := by
      rcases h with rfl | rfl
      · exact ne_of_isBlank hc (by decide)
      · exact ne_of_isBlank hc (by decide)
    have hescape : (c == '\\') = false :=
      beq_eq_false_iff_ne.mpr (ne_of_isBlank hc (by decide : isBlank '\\' = false))
    simp only [next, isOutside, gap, hescape, if_neg hquote, true_and]
    split
    · rfl
    · split <;> rfl

/-- Blanks in plain text count as one. -/
theorem gap_of_read {scan after : Scan} (h : scan.Real) {w : Text} (hw : Text.allBlank w = true)
    (hne : w ≠ []) (hread : scan.read w = some after) : after = scan.gap := by
  induction w generalizing scan with
  | nil => exact absurd rfl hne
  | cons c rest ih =>
    simp only [Text.allBlank, List.all_cons, Bool.and_eq_true] at hw
    rw [Scan.read, Option.bind_eq_some_iff] at hread
    obtain ⟨next, hnext, hread⟩ := hread
    have hgap : next = scan.gap := by
      rw [next_of_isBlank h hw.1] at hnext
      split at hnext <;> cases hnext
      rfl
    cases rest with
    | nil =>
      cases hread
      exact hgap
    | cons d rest =>
      rw [ih (h.next hnext) hw.2 (List.cons_ne_nil d rest) hread, hgap, gap_gap]

theorem read_blanks {scan : Scan} (h : scan.isOutside = true) {w : Text} (hw : Text.allBlank w = true) :
    scan.read w = some (if w = [] then scan else .out) := by
  induction w generalizing scan with
  | nil => rfl
  | cons c rest ih =>
    simp only [Text.allBlank, List.all_cons, Bool.and_eq_true] at hw
    have hnext : scan.next c = some .out := by
      rw [next_of_isBlank (real_of_isOutside h) hw.1, h]
      cases scan with
      | quoted quote escaped => cases h
      | out | slash => rfl
    rw [Scan.read, hnext, Option.bind_some, ih rfl hw.2]
    split <;> rfl

theorem next_space {scan : Scan} (h : scan.Real) : scan.next ' ' = some scan.gap := by
  rw [next_of_isBlank h (by decide), if_neg (by simp)]

/-- Squeezing keeps the walk. -/
theorem read_squeeze {t : Text} (ht : Text.Trimmed t) {scan after : Scan} (h : scan.Real)
    (hread : scan.read t = some after) : scan.read (Text.squeeze t) = some after := by
  revert scan
  refine ht.byWords (P := fun t => ∀ {scan : Scan}, scan.Real → scan.read t = some after →
    scan.read (Text.squeeze t) = some after) ?_ ?_ ?_
  · exact fun _ hread => hread
  · intro u hu scan _ hread
    rw [hu.squeeze_eq]
    exact hread
  · intro u c w rest hu hc hw hne hrest ih scan hreal hread
    rw [← List.cons_append, read_append, Option.bind_eq_some_iff] at hread
    obtain ⟨middle, hmiddle, hread⟩ := hread
    rw [read_append, Option.bind_eq_some_iff] at hread
    obtain ⟨gapped, hgapped, hread⟩ := hread
    have hmiddleReal := hreal.read hmiddle
    have hblank : Text.allBlank (c :: w) = true := by
      rw [Text.allBlank, List.all_cons, hc]
      exact hw
    obtain rfl := gap_of_read hmiddleReal hblank (List.cons_ne_nil c w) hgapped
    rw [Text.squeeze_append hu hc hw hrest hne, read_append, hmiddle, Option.bind_some, read,
      next_space hmiddleReal, Option.bind_some]
    exact ih (hmiddleReal.read hgapped) hread

end Scan

/-! ## The lexer as a walk -/

namespace Lexer

variable {c : Char} {mode : Mode}

namespace Mode

/-- What the lexer holds back. A comment counts as one space. -/
def held : Mode → Text
  | .ground => []
  | .text read => read.reverse
  | .quoted _ _ read => read.reverse
  | .slash => ['/']
  | .comment _ _ => [' ']

/-- Where the walk through plain text is. -/
def scan : Mode → Scan
  | .ground | .text _ | .comment _ _ => .out
  | .quoted quote escaped _ => .quoted quote escaped
  | .slash => .slash

/-- Whether the lexer is in a comment. -/
def isComment : Mode → Bool
  | .comment _ _ => true
  | _ => false

/-- The lexeme that a brace or a semicolon completes. -/
def gathered : Mode → Nat → List Lexeme
  | .text read, start => [⟨.text, read.reverse, start⟩]
  | .slash, start => [⟨.slash, ['/'], start⟩]
  | _, _ => []

/-- Whether the lexer is in a comment, after a star. -/
def star : Mode → Bool
  | .comment star _ => star
  | _ => false

theorem eq_comment (h : mode.isComment = true) : ∃ read, mode = .comment mode.star read := by
  cases mode with
  | comment star read => exact ⟨read, rfl⟩
  | _ => cases h

end Mode

/-- The kind of a brace or a semicolon. -/
def structuralKind (c : Char) : LexemeKind :=
  if c = '\x7b' then .opening else if c = '\x7d' then .closing else .semicolon

theorem opened_of_opening {scan : Scan} (h : Scan.opening c = some scan) (offset : Nat) :
    ∃ mode : Mode, opened c offset = ([], mode) ∧ mode.isComment = false ∧ mode.scan = scan ∧
      mode.held = [c] := by
  rw [Scan.opening] at h
  split at h
  · cases h
  next hstructural =>
    simp only [isStructural, Bool.or_eq_true, beq_iff_eq, not_or] at hstructural
    obtain ⟨⟨hopening, hclosing⟩, hsemicolon⟩ := hstructural
    simp only [opened, if_neg hopening, if_neg hclosing, if_neg hsemicolon]
    split at h
    next hquote =>
      cases h
      exact ⟨.quoted c false [c], if_pos hquote, rfl, rfl, rfl⟩
    next hquote =>
      rw [if_neg hquote]
      split at h
      next hslash =>
        cases h
        exact ⟨.slash, if_pos hslash, rfl, rfl, by rw [hslash]; rfl⟩
      next hslash =>
        cases h
        exact ⟨.text [c], if_neg hslash, rfl, rfl, rfl⟩

theorem opened_of_isStructural (h : isStructural c = true) (offset : Nat) :
    opened c offset = ([⟨structuralKind c, [c], offset⟩], .ground) := by
  simp only [isStructural, Bool.or_eq_true, beq_iff_eq] at h
  rcases h with (rfl | rfl) | rfl <;> rfl

theorem isSpecial_of_isStructural (h : isStructural c = true) : isSpecial c = true := by
  simp only [isStructural, Bool.or_eq_true, beq_iff_eq] at h
  rcases h with (rfl | rfl) | rfl <;> rfl

theorem opening_of_not_isSpecial (h : isSpecial c = false) : Scan.opening c = some .out := by
  simp only [isSpecial, Bool.or_eq_false_iff, beq_eq_false_iff_ne] at h
  simp [Scan.opening, isStructural, h]

/-- A character of plain text: the lexemes that it completes and what is held back then are what was held
back and the character. -/
theorem step_of_next (hmode : mode.isComment = false) {scan : Scan}
    (h : mode.scan.next c = some scan) (start offset : Nat) :
    ∃ lexemes after start', Lexer.step mode start offset c = (lexemes, after, start') ∧
      after.isComment = false ∧ after.scan = scan ∧ (∀ lexeme ∈ lexemes, lexeme.kind.isPlain = true) ∧
      lexemes.flatMap Lexeme.text ++ after.held = mode.held ++ [c] := by
  cases mode with
  | ground =>
    obtain ⟨after, hopened, hafter, hscan, hheld⟩ := opened_of_opening h offset
    exact ⟨[], after, offset, by simp only [Lexer.step, hopened], hafter, hscan, by simp, hheld⟩
  | text read =>
    by_cases hspecial : isSpecial c = true
    · obtain ⟨after, hopened, hafter, hscan, hheld⟩ := opened_of_opening h offset
      refine ⟨[⟨.text, read.reverse, start⟩], after, offset, ?_, hafter, hscan, by simp [LexemeKind.isPlain], ?_⟩
      · simp only [Lexer.step, hspecial, if_true, emitThen, hopened]
      · rw [hheld]
        simp [Mode.held]
    · rw [Bool.not_eq_true] at hspecial
      rw [Mode.scan, Scan.next, opening_of_not_isSpecial hspecial] at h
      cases h
      refine ⟨[], .text (c :: read), start, ?_, rfl, rfl, by simp, by simp [Mode.held]⟩
      simp only [Lexer.step, hspecial, Bool.false_eq_true, if_false]
  | quoted quote escaped read =>
    simp only [Mode.scan, Scan.next] at h
    simp only [Lexer.step]
    split at h
    · cases h
    next hnewline =>
      rw [if_neg hnewline]
      split at h
      next hescaped =>
        cases h
        exact ⟨[], _, start, if_pos hescaped, rfl, rfl, by simp, by simp [Mode.held]⟩
      next hescaped =>
        rw [if_neg hescaped]
        split at h
        next hquote =>
          cases h
          exact ⟨_, _, offset, if_pos hquote, rfl, rfl, by simp [LexemeKind.isPlain], by simp [Mode.held]⟩
        next hquote =>
          cases h
          exact ⟨[], _, start, if_neg hquote, rfl, rfl, by simp, by simp [Mode.held]⟩
  | slash =>
    simp only [Mode.scan, Scan.next] at h
    split at h
    · cases h
    next hstar =>
      obtain ⟨after, hopened, hafter, hscan, hheld⟩ := opened_of_opening h offset
      refine ⟨[⟨.slash, ['/'], start⟩], after, offset, ?_, hafter, hscan, by simp [LexemeKind.isPlain], ?_⟩
      · simp only [Lexer.step, if_neg hstar, emitThen, hopened]
      · rw [hheld]
        rfl
  | comment star read => cases hmode

/-- A brace or a semicolon outside of strings and comments. -/
theorem step_of_isStructural (hmode : mode.isComment = false)
    (hscan : mode.scan.isOutside = true) (h : isStructural c = true) (start offset : Nat) :
    Lexer.step mode start offset c =
      (mode.gathered start ++ [⟨structuralKind c, [c], offset⟩], .ground, offset) := by
  have hopened := opened_of_isStructural h offset
  have hstar : c ≠ '*' := by
    rintro rfl
    cases h
  cases mode with
  | ground => simp only [Lexer.step, hopened, Mode.gathered, List.nil_append]
  | text read =>
    simp only [Lexer.step, isSpecial_of_isStructural h, if_true, emitThen, hopened, Mode.gathered,
      List.singleton_append]
  | slash => simp only [Lexer.step, if_neg hstar, emitThen, hopened, Mode.gathered, List.singleton_append]
  | quoted quote escaped read => cases hscan
  | comment star read => cases hmode

theorem gathered_plain (mode : Mode) (start : Nat) :
    ∀ lexeme ∈ mode.gathered start, lexeme.kind.isPlain = true := by
  cases mode <;> simp [Mode.gathered, LexemeKind.isPlain]

theorem flatMap_gathered (hmode : mode.isComment = false) (hscan : mode.scan.isOutside = true) (start : Nat) :
    (mode.gathered start).flatMap Lexeme.text = mode.held := by
  cases mode with
  | ground => rfl
  | text read => simp [Mode.gathered, Mode.held]
  | slash => rfl
  | quoted quote escaped read => cases hscan
  | comment star read => cases hmode

theorem finish_of_outside (hmode : mode.isComment = false)
    (hscan : mode.scan.isOutside = true) (start : Nat) : Lexer.finish mode start = mode.gathered start := by
  cases mode with
  | ground | text _ | slash => rfl
  | quoted quote escaped read => cases hscan
  | comment star read => cases hmode

/-- Where plain text ends: at a brace or a semicolon, at the star of a comment, or at the end of the line
in a string. -/
theorem of_next_eq_none (h : mode.scan.next c = none) :
    mode.scan.isOutside = true ∧ isStructural c = true ∨ mode = .slash ∧ c = '*' ∨
      ∃ quote escaped read, mode = .quoted quote escaped read ∧ c = '\n' := by
  have hopening : Scan.opening c = none → isStructural c = true := by
    intro h
    rw [Scan.opening] at h
    split at h
    · assumption
    · split at h
      · cases h
      · split at h <;> cases h
  cases mode with
  | ground | text _ | comment _ _ => exact .inl ⟨rfl, hopening h⟩
  | slash =>
    simp only [Mode.scan, Scan.next] at h
    split at h
    next hstar => exact .inr (.inl ⟨rfl, hstar⟩)
    next => exact .inl ⟨rfl, hopening h⟩
  | quoted quote escaped read =>
    simp only [Mode.scan, Scan.next] at h
    split at h
    next hnewline => exact .inr (.inr ⟨quote, escaped, read, rfl, hnewline⟩)
    next =>
      split at h
      · cases h
      · split at h <;> cases h

theorem exists_run_comment (star : Bool) (read : Text) (start offset : Nat) (text : Text) :
    ∃ lexeme ∈ Lexer.run (.comment star read) start offset text, lexeme.kind.isPlain = false := by
  induction text generalizing star read offset with
  | nil => exact ⟨_, List.mem_singleton.mpr rfl, rfl⟩
  | cons c rest ih =>
    simp only [Lexer.run, Lexer.step]
    split
    · exact ⟨_, List.mem_append_left _ (List.mem_singleton.mpr rfl), rfl⟩
    · exact ih _ _ _

/-- The lexer finds plain text where the walk comes through. -/
theorem run_plain_iff (hmode : mode.isComment = false) (start offset : Nat) (text : Text) :
    (∀ lexeme ∈ Lexer.run mode start offset text, lexeme.kind.isPlain = true) ↔
      ∃ scan, mode.scan.read text = some scan ∧ scan.isOutside = true := by
  induction text generalizing mode start offset with
  | nil =>
    cases mode with
    | comment star read => cases hmode
    | _ => simp [Lexer.run, Lexer.finish, Mode.scan, LexemeKind.isPlain, Scan.isOutside]
  | cons c rest ih =>
    cases hnext : mode.scan.next c with
    | some scan =>
      obtain ⟨lexemes, after, start', hstep, hafter, hscan, hplain, -⟩ :=
        step_of_next hmode hnext start offset
      simp only [Lexer.run, hstep, List.forall_mem_append, Scan.read, hnext, Option.bind_some]
      rw [← hscan, ← ih hafter start' (offset + 1)]
      exact ⟨fun h => h.2, fun h => ⟨hplain, h⟩⟩
    | none =>
      simp only [Scan.read, hnext, Option.bind_none, reduceCtorEq, false_and, exists_false, iff_false]
      intro hplain
      rcases of_next_eq_none hnext with ⟨hscan, hc⟩ | ⟨rfl, rfl⟩ | ⟨quote, escaped, read, rfl, rfl⟩
      · rw [Lexer.run, step_of_isStructural hmode hscan hc] at hplain
        have hkind := hplain ⟨structuralKind c, [c], offset⟩ (by simp)
        simp only [isStructural, Bool.or_eq_true, beq_iff_eq] at hc
        rcases hc with (rfl | rfl) | rfl <;> cases hkind
      · obtain ⟨lexeme, hmem, hkind⟩ := exists_run_comment false ['*', '/'] start (offset + 1) rest
        rw [hplain lexeme hmem] at hkind
        cases hkind
      · have hkind := hplain ⟨.unterminatedString, read.reverse, start⟩ (by simp [Lexer.run, Lexer.step, emitThen])
        cases hkind

end Lexer

theorem plain_iff {text : Text} :
    Plain text ↔ ∃ scan, Scan.out.read text = some scan ∧ scan.isOutside = true :=
  Lexer.run_plain_iff (rfl : Mode.ground.isComment = false) 0 0 text

theorem Plain.trim {text : Text} (h : Plain text) : Plain (Text.trim text) := by
  obtain ⟨scan, hread, hscan⟩ := plain_iff.mp h
  obtain ⟨w, w', hw, hw', htrim⟩ := Text.exists_trim text
  have hstart : Scan.out.read w = some .out := by
    rw [Scan.read_blanks rfl hw]
    split <;> rfl
  rw [htrim, Scan.read_append, Scan.read_append, hstart, Option.bind_some, Option.bind_eq_some_iff] at hread
  obtain ⟨before, hbefore, hread⟩ := hread
  refine plain_iff.mpr ⟨before, hbefore, ?_⟩
  -- blanks do not close a string
  by_cases hnil : w' = []
  · rw [hnil] at hread
    cases hread
    exact hscan
  · rw [Scan.gap_of_read (Scan.real_of_read hbefore) hw' hnil hread, Scan.isOutside_gap] at hscan
    exact hscan

theorem Plain.squeeze {text : Text} (h : Plain text) (htrimmed : Text.Trimmed text) :
    Plain (Text.squeeze text) := by
  obtain ⟨scan, hread, hscan⟩ := plain_iff.mp h
  exact plain_iff.mpr ⟨scan, Scan.read_squeeze htrimmed (show Scan.out.Real from trivial) hread, hscan⟩

/-! ## Collected text -/

namespace Fragment

theorem text_append (a b : Fragment) : text (a ++ b) = text a ++ text b :=
  List.map_append

theorem text_trimStart (fragment : Fragment) : text (trimStart fragment) = Text.trimStart (text fragment) := by
  rw [text, trimStart, Text.trimStart, text, List.dropWhile_map]
  rfl

theorem text_zipIdx (added : Text) (start : Nat) : text (added.zipIdx start) = added :=
  List.zipIdx_map_fst start added

/-- Blanks before a fragment are not collected. -/
theorem text_collect {fragment : Fragment} {before : Text} (h : text fragment = Text.trimStart before)
    (added : Text) (start : Nat) : text (collect fragment added start) = Text.trimStart (before ++ added) := by
  rw [collect, Text.trimStart, List.dropWhile_append]
  rw [Text.trimStart] at h
  split
  next hempty =>
    rw [hempty] at h
    rw [← h, text_trimStart, text_zipIdx]
    rfl
  next hempty =>
    have hne : text fragment ≠ [] := fun hnil => hempty (List.map_eq_nil_iff.mp hnil)
    rw [text_append, text_zipIdx, ← h, if_neg (by simpa using hne)]

theorem collectGap_eq (fragment : Fragment) (start : Nat) :
    collectGap fragment start = collect fragment [' '] start := by
  rw [collectGap, collect]
  split <;> rfl

end Fragment

/-- Plain lexemes are collected. -/
theorem foldl_plain {lexemes : List Lexeme} (h : ∀ lexeme ∈ lexemes, lexeme.kind.isPlain = true)
    (reading : Reading) :
    ∃ pending, lexemes.foldl Reading.step reading = { reading with pending := pending } ∧
      ∀ before, Fragment.text reading.pending = Text.trimStart before →
        Fragment.text pending = Text.trimStart (before ++ lexemes.flatMap Lexeme.text) := by
  induction lexemes generalizing reading with
  | nil => exact ⟨reading.pending, rfl, fun before hbefore => by simpa using hbefore⟩
  | cons lexeme rest ih =>
    rw [List.forall_mem_cons] at h
    have hstep : reading.step lexeme = { reading with
        pending := Fragment.collect reading.pending lexeme.text lexeme.start } := by
      obtain ⟨kind, text, start⟩ := lexeme
      cases kind with
      | quoted | slash | text => rfl
      | _ => cases h.1
    obtain ⟨pending, hfold, htext⟩ := ih h.2 (reading.step lexeme)
    refine ⟨pending, by rw [List.foldl_cons, hfold, hstep], fun before hbefore => ?_⟩
    rw [htext (before ++ lexeme.text) (by rw [hstep, Fragment.text_collect hbefore])]
    rw [List.flatMap_cons, List.append_assoc]

namespace Scanner

variable {scanner : Scanner} {t : Text} {c : Char}

/-- What was read since the last brace or semicolon is some plain text. A part of it is collected, and the
lexer holds back the rest. -/
structure Follows (scanner : Scanner) (t : Text) : Prop where
  collected : ∃ before, Fragment.text scanner.reading.pending = Text.trimStart before ∧
    t = before ++ scanner.mode.held
  scanned : Scan.out.read t = some scanner.mode.scan

theorem follows_nil {offset first : Nat} {reading : Reading} (h : reading.pending = []) :
    Follows ⟨.ground, first, offset, reading⟩ [] :=
  ⟨⟨[], by rw [h]; rfl, rfl⟩, rfl⟩

/-- Reading one more character of plain text. -/
theorem Follows.step (h : scanner.Follows t) (hmode : scanner.mode.isComment = false) {scan : Scan}
    (hnext : scanner.mode.scan.next c = some scan) :
    (scanner.step c).Follows (t ++ [c]) ∧ (scanner.step c).mode.isComment = false ∧
      (scanner.step c).mode.scan = scan ∧
      ∃ pending, (scanner.step c).reading = { scanner.reading with pending := pending } := by
  obtain ⟨lexemes, after, first, hstep, hafter, hscan, hplain, htext⟩ :=
    step_of_next hmode hnext scanner.first scanner.offset
  obtain ⟨pending, hfold, hpending⟩ := foldl_plain hplain scanner.reading
  obtain ⟨⟨before, hbefore, rfl⟩, hscanned⟩ := h
  have heq : scanner.step c =
      ⟨after, first, scanner.offset + 1, { scanner.reading with pending := pending }⟩ := by
    simp only [Scanner.step, hstep, hfold]
  rw [heq]
  refine ⟨⟨⟨before ++ lexemes.flatMap Lexeme.text, hpending before hbefore, ?_⟩, ?_⟩, hafter, hscan,
    pending, rfl⟩
  · rw [List.append_assoc, List.append_assoc, htext]
  · rw [Scan.read_append, hscanned, Option.bind_some, Scan.read_singleton, hnext, ← hscan]

/-- Reading plain text. -/
theorem Follows.run {text : Text} {scan : Scan} (h : scanner.Follows t)
    (hmode : scanner.mode.isComment = false) (hread : scanner.mode.scan.read text = some scan) :
    (scanner.run text).Follows (t ++ text) ∧ (scanner.run text).mode.isComment = false ∧
      (scanner.run text).mode.scan = scan ∧
      ∃ pending, (scanner.run text).reading = { scanner.reading with pending := pending } := by
  induction text generalizing scanner t with
  | nil =>
    cases hread
    exact ⟨by rwa [List.append_nil], hmode, rfl, scanner.reading.pending, rfl⟩
  | cons c rest ih =>
    rw [Scan.read, Option.bind_eq_some_iff] at hread
    obtain ⟨next, hnext, hread⟩ := hread
    obtain ⟨hfollows, hcomment, hscan, pending, hreading⟩ := h.step hmode hnext
    rw [← hscan] at hread
    obtain ⟨hfollows, hcomment, hscan, pending', hreading'⟩ := ih hfollows hcomment hread
    rw [List.append_assoc] at hfollows
    exact ⟨hfollows, hcomment, hscan, pending', by rw [run_cons, hreading', hreading]⟩

/-- A brace or a semicolon is read after the text before it was collected. -/
theorem Follows.step_structural (h : scanner.Follows t) (hmode : scanner.mode.isComment = false)
    (hscan : scanner.mode.scan.isOutside = true) (hc : isStructural c = true) :
    ∃ fragment, Fragment.text fragment = Text.trimStart t ∧
      scanner.step c = ⟨.ground, scanner.offset, scanner.offset + 1,
        Reading.step { scanner.reading with pending := fragment }
          ⟨structuralKind c, [c], scanner.offset⟩⟩ := by
  obtain ⟨pending, hfold, hpending⟩ :=
    foldl_plain (gathered_plain scanner.mode scanner.first) scanner.reading
  obtain ⟨⟨before, hbefore, rfl⟩, -⟩ := h
  refine ⟨pending, ?_, ?_⟩
  · rw [hpending before hbefore, flatMap_gathered hmode hscan]
  · rw [Scanner.step, step_of_isStructural hmode hscan hc]
    simp only [List.foldl_append, hfold, List.foldl_cons, List.foldl_nil]

/-- At the end of the source, plain text is collected. -/
theorem Follows.close (h : scanner.Follows t) (hmode : scanner.mode.isComment = false)
    (hscan : scanner.mode.scan.isOutside = true) :
    ∃ pending, scanner.close = { scanner.reading with pending := pending } ∧
      Fragment.text pending = Text.trimStart t := by
  obtain ⟨pending, hfold, hpending⟩ :=
    foldl_plain (gathered_plain scanner.mode scanner.first) scanner.reading
  obtain ⟨⟨before, hbefore, rfl⟩, -⟩ := h
  refine ⟨pending, by rw [Scanner.close, finish_of_outside hmode hscan, hfold], ?_⟩
  rw [hpending before hbefore, flatMap_gathered hmode hscan]

end Scanner

end Sitewright.Style
