import Sitewright.Proofs.Style.Printed

/-!
Reading one text after another. A text that is well-formed by itself is read in the same way where a scanner
is idle at the top level, and adds to the outline what it has by itself (`ends_of_outline`). Then another text
may follow if nothing is left over, that is if the last statement of the first text has its semicolon. Where
it has not, what follows belongs to it, unless that is nothing but blanks, comments and semicolons
(`IsVoid`).
-/

namespace Sitewright

theorem Forest.map_number {α β : Type} (h : α → β) (start : Nat) (f : Forest α) :
    (f.number start).map (fun entry => h entry.2) = f.map h := by
  induction f generalizing start with
  | nil => rfl
  | cons label below after ihbelow ihafter => simp only [Forest.number, Forest.map, ihbelow, ihafter]

theorem Forest.map_map {α β γ : Type} (g : β → γ) (h : α → β) (f : Forest α) :
    (f.map h).map g = f.map (g ∘ h) := by
  induction f with
  | nil => rfl
  | cons label below after ihbelow ihafter => simp only [Forest.map, ihbelow, ihafter, Function.comp]

namespace Style

open Lexer

variable {mode : Mode} {source : Text}

/-! ## Two scanners at the same point -/

/-- Two lexers are at the same point of a text. -/
structure Lexer.Mode.Alike (mode other : Mode) : Prop where
  scan : mode.scan = other.scan
  comment : mode.isComment = other.isComment
  star : mode.star = other.star

theorem Lexer.Mode.alike_of_outside {other : Mode} (hmode : mode.isComment = false)
    (hother : other.isComment = false) (hscan : mode.scan = other.scan) : mode.Alike other := by
  refine ⟨hscan, hmode.trans hother.symm, ?_⟩
  cases mode with
  | comment star read => cases hmode
  | _ =>
    cases other with
    | comment star read => cases hother
    | _ => rfl

theorem Lexer.Mode.eq_slash (h : mode.scan = .slash) : mode = .slash := by
  cases mode with
  | slash => rfl
  | _ => cases h

namespace Scanner

variable {scanner : Scanner} {c : Char}

theorem step_of_comment {star : Bool} {read : Text} (h : scanner.mode = .comment star read) (c : Char) :
    (scanner.step c).mode = (if star ∧ c = '/' then .ground else .comment (c == '*') (c :: read)) ∧
      (scanner.step c).reading.sketch = scanner.reading.sketch := by
  simp only [Scanner.step, h, Lexer.step]
  split <;> exact ⟨rfl, rfl⟩

theorem sketch_step_newline {quote : Char} {escaped : Bool} {read : Text}
    (h : scanner.mode = .quoted quote escaped read) : (scanner.step '\n').reading.sketch = none :=
  Reading.sketch_eq_none.mpr (not_wellFormed_step_newline h)

/-- What was collected is the same however it is put. -/
theorem Follows.trim_eq {t t' : Text} (h : scanner.Follows t) (h' : scanner.Follows t') :
    Text.trim t = Text.trim t' := by
  obtain ⟨⟨before, hbefore, rfl⟩, -⟩ := h
  obtain ⟨⟨before', hbefore', rfl⟩, -⟩ := h'
  have htext := Fragment.text_collect hbefore scanner.mode.held 0
  rw [Text.trim, ← htext, Fragment.text_collect hbefore']
  rfl

theorem sketch_run_eq_none (h : scanner.reading.sketch = none) (text : Text) :
    (scanner.run text).reading.sketch = none := by
  rw [Reading.sketch_eq_none] at h ⊢
  exact fun hwell => h (hwell.of_prefix (scanner.grows_run text).problems)

/-- One scanner has read a text by itself, the other one after what `base` says. -/
structure Continues (base : Outline) (alone joined : Scanner) : Prop where
  mode : alone.mode.Alike joined.mode
  follows : ∃ w t, Text.allBlank w = true ∧ alone.Follows t ∧ joined.Follows (w ++ t)
  outline : ∃ outline, alone.reading.sketch = some outline ∧
    joined.reading.sketch = some (outline.after base)

variable {base : Outline} {alone joined : Scanner}

theorem Continues.step (h : Continues base alone joined)
    (hwell : (alone.step c).reading.sketch ≠ none ∨ (joined.step c).reading.sketch ≠ none) :
    Continues base (alone.step c) (joined.step c) := by
  obtain ⟨hmode, ⟨w, t, hw, halone, hjoined⟩, outline, houtline, houtline'⟩ := h
  cases hcomment : alone.mode.isComment with
  | true =>
    obtain ⟨read, hread⟩ := alone.mode.eq_comment hcomment
    obtain ⟨read', hread'⟩ := joined.mode.eq_comment (hmode.comment ▸ hcomment)
    rw [← hmode.star] at hread'
    obtain ⟨hstep, hsketch⟩ := step_of_comment hread c
    obtain ⟨hstep', hsketch'⟩ := step_of_comment hread' c
    refine ⟨?_, ⟨w, t, hw, halone.step_comment hread c, hjoined.step_comment hread' c⟩, outline,
      hsketch.trans houtline, hsketch'.trans houtline'⟩
    rw [hstep, hstep']
    split <;> exact ⟨rfl, rfl, rfl⟩
  | false =>
    have hcomment' : joined.mode.isComment = false := hmode.comment ▸ hcomment
    cases hnext : alone.mode.scan.next c with
    | some scan =>
      obtain ⟨hstep, hafter, hscan, pending, hreading⟩ := halone.step hcomment hnext
      obtain ⟨hstep', hafter', hscan', pending', hreading'⟩ := hjoined.step hcomment' (hmode.scan ▸ hnext)
      refine ⟨Mode.alike_of_outside hafter hafter' (hscan.trans hscan'.symm),
        ⟨w, t ++ [c], hw, hstep, by rwa [← List.append_assoc]⟩, outline, ?_, ?_⟩
      · rw [hreading]
        exact houtline
      · rw [hreading']
        exact houtline'
    | none =>
      rcases of_next_eq_none hnext with ⟨hscan, hc⟩ | ⟨hslash, rfl⟩ | ⟨quote, escaped, read, hquoted, rfl⟩
      · obtain ⟨hground, hfollows, hsketch⟩ := halone.sketch_step hcomment hscan hc
        obtain ⟨hground', hfollows', hsketch'⟩ := hjoined.sketch_step hcomment' (hmode.scan ▸ hscan) hc
        rw [houtline, Option.bind_some] at hsketch
        rw [houtline', Option.bind_some, Text.trim_append_left hw, Outline.clause_after] at hsketch'
        rw [hsketch, hsketch'] at hwell
        obtain ⟨next, hclause⟩ : ∃ next, outline.clause c (Text.trim t) = some next := by
          cases hclause : outline.clause c (Text.trim t) with
          | some next => exact ⟨next, rfl⟩
          | none => simp [hclause] at hwell
        rw [hclause] at hsketch hsketch'
        refine ⟨?_, ⟨[], [], rfl, hfollows, hfollows'⟩, next, hsketch, hsketch'⟩
        rw [hground, hground']
        exact ⟨rfl, rfl, rfl⟩
      · have hslash' : joined.mode = .slash := Mode.eq_slash (by rw [← hmode.scan, hslash]; rfl)
        obtain ⟨hstar, hreading⟩ := step_of_slash hslash
        obtain ⟨hstar', hreading'⟩ := step_of_slash hslash'
        obtain ⟨before, rfl, hfollows⟩ := halone.step_star hslash
        obtain ⟨before', heq, hfollows'⟩ := hjoined.step_star hslash'
        rw [← List.append_assoc] at heq
        rw [← (List.append_inj' heq rfl).1, List.append_assoc] at hfollows'
        refine ⟨by rw [hstar, hstar']; exact ⟨rfl, rfl, rfl⟩, ⟨w, _, hw, hfollows, hfollows'⟩, outline, ?_, ?_⟩
        · rw [hreading]
          exact houtline
        · rw [hreading']
          exact houtline'
      · -- in both, a string does not end with its line
        have hquoted' : ∃ read', joined.mode = .quoted quote escaped read' := by
          have hscan : joined.mode.scan = .quoted quote escaped := by
            rw [← hmode.scan, hquoted]
            rfl
          cases hcase : joined.mode with
          | quoted quote' escaped' read' =>
            rw [hcase] at hscan
            cases hscan
            exact ⟨read', rfl⟩
          | _ => rw [hcase] at hscan; cases hscan
        obtain ⟨read', hquoted'⟩ := hquoted'
        rw [sketch_step_newline hquoted, sketch_step_newline hquoted'] at hwell
        simp at hwell

theorem Continues.run (h : Continues base alone joined) {text : Text}
    (hwell : (alone.run text).reading.sketch ≠ none ∨ (joined.run text).reading.sketch ≠ none) :
    Continues base (alone.run text) (joined.run text) := by
  induction text generalizing alone joined with
  | nil => exact h
  | cons c rest ih =>
    refine ih (h.step ?_) hwell
    refine hwell.imp (fun hrun hstep => hrun ?_) fun hrun hstep => hrun ?_
    · exact sketch_run_eq_none hstep rest
    · exact sketch_run_eq_none hstep rest

/-! ## Resting scanners -/

/-- The scanner is outside of blocks, strings and comments, and has read some text since the last brace or
semicolon. -/
structure Rests (scanner : Scanner) (t : Text) (outline : Outline) : Prop where
  mode : scanner.mode.isComment = false
  outside : scanner.mode.scan.isOutside = true
  follows : scanner.Follows t
  sketch : scanner.reading.sketch = some outline
  top : outline.blocks = []

theorem Rests.finish {t : Text} {outline : Outline} (h : scanner.Rests t outline) :
    scanner.close.finish.sketch = outline.flush (Text.trim t) := by
  rw [h.follows.sketch_finish h.mode h.outside, h.sketch, Option.bind_some, Outline.finish_of_top h.top]

end Scanner

/-! ## Sources by themselves -/

/-- The outline of a source, unless it is malformed. -/
def outlineOf (source : Text) : Option Outline :=
  (Scanner.initial.run source).close.finish.sketch

theorem blocks_outlineOf {outline : Outline} (h : outlineOf source = some outline) : outline.blocks = [] := by
  rw [outlineOf, Reading.sketch_finish] at h
  obtain ⟨before, -, hfinish⟩ := Option.bind_eq_some_iff.mp h
  exact (Outline.blocks_of_finish hfinish).2

/-- A sheet without places and problems. -/
def Sheet.outline (sheet : Sheet) : Outline :=
  ⟨[], sheet.rules.map fun entry => entry.2.bare, sheet.statements.map Statement.text⟩

theorem Sheet.outline_parse {outline : Outline} (h : outlineOf source = some outline) :
    (Sheet.parse source).outline = outline := by
  have hblocks := blocks_outlineOf h
  obtain ⟨-, rfl⟩ := Reading.sketch_eq_some.mp h
  rw [Sheet.parse_eq, Sheet.outline, Forest.map_number, ← hblocks]
  rfl

theorem Sheet.isMalformed_iff :
    (Sheet.parse source).isMalformed = false ↔ outlineOf source = some (Sheet.parse source).outline := by
  rw [Sheet.isMalformed_eq_false]
  constructor
  · intro h
    have houtline : outlineOf source = some (Scanner.initial.run source).close.finish.outline :=
      Reading.sketch_eq_some.mpr ⟨by rwa [Sheet.parse_eq] at h, rfl⟩
    rw [houtline, Sheet.outline_parse houtline]
  · intro h
    rw [Sheet.parse_eq]
    exact (Reading.sketch_eq_some.mp h).1

theorem Sheet.isMalformed_of_outline {outline : Outline} (h : outlineOf source = some outline) :
    (Sheet.parse source).isMalformed = false :=
  Sheet.isMalformed_iff.mpr (by rw [Sheet.outline_parse h, h])

/-- At the end of a well-formed source the scanner rests. -/
theorem exists_rests {outline : Outline} (h : outlineOf source = some outline) :
    ∃ t before, (Scanner.initial.run source).Rests t before ∧ before.flush (Text.trim t) = some outline := by
  have hwell := (Reading.sketch_eq_some.mp h).1
  have hclose : WellFormed (Scanner.initial.run source).close.problems := by
    refine hwell.of_prefix ?_
    rw [Reading.finish, Reading.problems_closeAll]
    exact (Reading.grows_flush _ none).problems.trans (List.prefix_append _ _)
  have hrun : WellFormed (Scanner.initial.run source).reading.problems :=
    hclose.of_prefix (Reading.grows_foldl _ _).problems
  obtain ⟨t, hfollows⟩ := Scanner.exists_follows hrun
  obtain ⟨hmode, hscan⟩ := (Scanner.initial.run source).outside_of_close hclose
  have hsketch : (Scanner.initial.run source).reading.sketch = some (Scanner.initial.run source).reading.outline :=
    Reading.sketch_eq_some.mpr ⟨hrun, rfl⟩
  have hblocks : (Scanner.initial.run source).reading.outline.blocks = [] := by
    exact (Outline.blocks_of_finish (Reading.outline_of_sketch (hfollows.sketch_finish hmode hscan) hwell)).1
  have hrests : (Scanner.initial.run source).Rests t (Scanner.initial.run source).reading.outline :=
    ⟨hmode, hscan, hfollows, hsketch, hblocks⟩
  exact ⟨t, _, hrests, hrests.finish.symm.trans h⟩

/-! ## Sources after one another -/

/-- An outline with nothing in it. -/
def Outline.empty : Outline := ⟨[], .nil, []⟩

theorem Outline.after_eq_add {base outline : Outline} (hbase : base.blocks = []) (h : outline.blocks = []) :
    outline.after base = base.add outline.statements outline.top := by
  simp only [Outline.add, hbase, Outline.after, h]

namespace Scanner

variable {scanner : Scanner} {base outline : Outline} {source t : Text}

/-- The scanner is idle at the top level. -/
structure Settled (scanner : Scanner) (outline : Outline) : Prop where
  idle : scanner.Idle
  outline_eq : scanner.reading.outline = outline
  top : outline.blocks = []

/-- The scanner is where the text may end. -/
def Reaches (scanner : Scanner) (outline : Outline) : Prop :=
  ∃ t before, scanner.Rests t before ∧ before.flush (Text.trim t) = some outline

theorem settled_initial : Scanner.initial.Settled .empty :=
  ⟨idle_ground rfl fun _ h => (List.not_mem_nil h).elim, rfl, rfl⟩

theorem Idle.settled (h : scanner.Idle) (htop : contextOf scanner.reading.blocks = .top) :
    scanner.Settled scanner.reading.outline := by
  refine ⟨h, rfl, ?_⟩
  rw [Reading.blocks_outline_eq_nil, ← List.isEmpty_iff, ← atTop_contextOf, htop]
  rfl

theorem Settled.context (h : scanner.Settled outline) : contextOf scanner.reading.blocks = .top := by
  have hblocks := (congrArg Outline.blocks h.outline_eq).trans h.top
  rw [Reading.blocks_outline_eq_nil] at hblocks
  rw [hblocks]
  rfl

theorem Settled.rests (h : scanner.Settled outline) : ∃ w, Text.trim w = [] ∧ scanner.Rests w outline := by
  obtain ⟨w, hw, hfollows⟩ := h.idle.blank
  refine ⟨w, ?_, h.idle.mode, by rw [h.idle.scan]; rfl, hfollows, ?_, h.top⟩
  · rw [Text.trim, Text.trimStart_blank hw]
    rfl
  · exact Reading.sketch_eq_some.mpr ⟨h.idle.wellFormed, h.outline_eq⟩

theorem Rests.settled (h : scanner.Rests t outline) (ht : Text.trim t = []) : scanner.Settled outline := by
  obtain ⟨hwell, houtline⟩ := Reading.sketch_eq_some.mp h.sketch
  obtain ⟨w, w', hw, hw', heq⟩ := Text.exists_trim t
  refine ⟨⟨h.mode, ⟨t, ?_, h.follows⟩, hwell⟩, houtline, h.top⟩
  rw [heq, ht, List.append_nil, Text.allBlank_append, hw, hw']
  rfl

theorem Settled.reaches (h : scanner.Settled outline) : scanner.Reaches outline := by
  obtain ⟨w, hw, hrests⟩ := h.rests
  refine ⟨w, outline, hrests, ?_⟩
  rw [hw, Outline.flush, if_pos rfl]

theorem Settled.continues (h : scanner.Settled base) : Continues base .initial scanner := by
  obtain ⟨w, hw, hfollows⟩ := h.idle.blank
  refine ⟨Mode.alike_of_outside rfl h.idle.mode h.idle.scan.symm,
    ⟨w, [], hw, follows_nil rfl, by rwa [List.append_nil]⟩, .empty, rfl, ?_⟩
  refine Reading.sketch_eq_some.mpr ⟨h.idle.wellFormed, ?_⟩
  obtain ⟨blocks, top, statements⟩ := base
  obtain rfl : blocks = [] := h.top
  rw [h.outline_eq]
  simp [Outline.after, Outline.empty]

/-- What a text comes to does not depend on where a settled scanner begins to read it. -/
theorem Rests.transfer (h : (scanner.run source).Rests t outline) (hscanner : scanner.Settled base) :
    ∃ added : Outline, outline = added.after base ∧ ∀ {other : Scanner} {base' : Outline}, other.Settled base' →
      ∃ t', Text.trim t' = Text.trim t ∧ (other.run source).Rests t' (added.after base') := by
  have hwell : (scanner.run source).reading.sketch ≠ none := by
    rw [h.sketch]
    exact Option.some_ne_none outline
  obtain ⟨hmode, ⟨w, u, hw, halone, hjoined⟩, added, hsketch, hsketch'⟩ := hscanner.continues.run (.inr hwell)
  obtain rfl : outline = added.after base := Option.some.inj (h.sketch.symm.trans hsketch')
  refine ⟨added, rfl, fun {other base'} hother => ?_⟩
  have hadded : (initial.run source).reading.sketch ≠ none := by
    rw [hsketch]
    exact Option.some_ne_none added
  obtain ⟨hmode', ⟨w', u', hw', halone', hjoined'⟩, added', hadded', hsketch''⟩ :=
    hother.continues.run (.inl hadded)
  obtain rfl : added = added' := Option.some.inj (hsketch.symm.trans hadded')
  have htrim : Text.trim (w' ++ u') = Text.trim t := by
    calc Text.trim (w' ++ u') = Text.trim u' := Text.trim_append_left hw' u'
      _ = Text.trim u := halone'.trim_eq halone
      _ = Text.trim (w ++ u) := (Text.trim_append_left hw u).symm
      _ = Text.trim t := hjoined.trim_eq h.follows
  refine ⟨w' ++ u', htrim, ?_, ?_, hjoined', hsketch'', h.top⟩
  · rw [← hmode'.comment, hmode.comment]
    exact h.mode
  · rw [← hmode'.scan, hmode.scan]
    exact h.outside

end Scanner

/-- Reading the text at the top level adds statements and closed blocks, once the text ends. -/
def Ends (text : Text) (statements : List Text) (forest : Forest Rule) : Prop :=
  ∀ ⦃scanner : Scanner⦄ ⦃outline : Outline⦄, scanner.Settled outline →
    (scanner.run text).Reaches (outline.add statements forest)

section

variable {scanner : Scanner} {base outline : Outline} {a b text : Text} {statements more : List Text}
  {f g : Forest Rule}

theorem Adds.settled (h : Adds .top text statements f) (hscanner : scanner.Settled outline) :
    (scanner.run text).Settled (outline.add statements f) := by
  obtain ⟨hidle, houtline⟩ := h scanner hscanner.idle hscanner.context
  exact ⟨hidle, by rw [houtline, hscanner.outline_eq], Outline.blocks_add_of_top hscanner.top _ _⟩

/-- A text after which a scanner is settled again does the same everywhere. -/
theorem Scanner.Settled.adds (h : scanner.Settled base) (hrun : (scanner.run text).Settled outline) :
    ∃ statements forest, Adds .top text statements forest ∧ outline = base.add statements forest := by
  obtain ⟨w, hw, hrests⟩ := hrun.rests
  obtain ⟨added, rfl, htransfer⟩ := hrests.transfer h
  have htop : added.blocks = [] := hrun.top
  refine ⟨added.statements, added.top, ?_, Outline.after_eq_add h.top htop⟩
  intro other hidle hcontext
  have hother := hidle.settled hcontext
  obtain ⟨t, ht, hrests'⟩ := htransfer hother
  have hsettled := hrests'.settled (ht.trans hw)
  exact ⟨hsettled.idle, hsettled.outline_eq.trans (Outline.after_eq_add hother.top htop)⟩

/-- A text that may end where it does, may end there everywhere. -/
theorem Scanner.Settled.ends (h : scanner.Settled base) (hrun : (scanner.run text).Reaches outline) :
    ∃ statements forest, Ends text statements forest ∧ outline = base.add statements forest := by
  obtain ⟨t, before, hrests, hflush⟩ := hrun
  obtain ⟨added, rfl, htransfer⟩ := hrests.transfer h
  rw [Outline.flush_after, Option.map_eq_some_iff] at hflush
  obtain ⟨ended, hended, rfl⟩ := hflush
  have hadded : added.blocks = [] := hrests.top
  have htop := Outline.blocks_of_flush hadded hended
  refine ⟨ended.statements, ended.top, ?_, Outline.after_eq_add h.top htop⟩
  intro other base' hother
  obtain ⟨t', ht, hrests'⟩ := htransfer hother
  refine ⟨t', _, hrests', ?_⟩
  rw [ht, Outline.flush_after, hended, Option.map_some, Outline.after_eq_add hother.top htop]

end

section

variable {source : Text} {outline : Outline}

theorem reaches_of_outline (h : outlineOf source = some outline) : (Scanner.initial.run source).Reaches outline :=
  exists_rests h

theorem outlineOf_of_reaches (h : (Scanner.initial.run source).Reaches outline) :
    outlineOf source = some outline := by
  obtain ⟨t, before, hrests, hflush⟩ := h
  exact hrests.finish.trans hflush

/-- A text that adds statements and rules is read as a sheet of them. -/
theorem Sheet.parse_of_adds {statements : List Text} {forest : Forest Rule} (h : Adds .top source statements forest) :
    ((Sheet.parse source).rules.map fun entry => (entry.1, entry.2.bare)) = forest.number 1 ∧
      (Sheet.parse source).statements.map Statement.text = statements ∧
      (Sheet.parse source).isMalformed = false := by
  obtain ⟨hwell, houtline⟩ :=
    Reading.sketch_eq_some.mp (outlineOf_of_reaches (h.settled Scanner.settled_initial).reaches)
  rw [Sheet.isMalformed_eq_false, Sheet.parse_eq]
  refine ⟨?_, congrArg Outline.statements houtline, hwell⟩
  rw [← Forest.number_map]
  exact congrArg (Forest.number 1) (congrArg Outline.top houtline)

theorem Outline.eq_of_add_empty {statements : List Text} {forest : Forest Rule}
    (h : outline = Outline.empty.add statements forest) : outline.statements = statements ∧ outline.top = forest := by
  rw [h]
  exact ⟨rfl, rfl⟩

theorem ends_of_outline (h : outlineOf source = some outline) : Ends source outline.statements outline.top := by
  obtain ⟨statements, forest, hends, heq⟩ := Scanner.settled_initial.ends (reaches_of_outline h)
  obtain ⟨rfl, rfl⟩ := Outline.eq_of_add_empty heq
  exact hends

theorem outlineOf_of_ends {statements : List Text} {forest : Forest Rule} (h : Ends source statements forest) :
    outlineOf source = some ⟨[], forest, statements⟩ :=
  outlineOf_of_reaches (h Scanner.settled_initial)

theorem adds_of_settled (h : (Scanner.initial.run source).Settled outline) :
    Adds .top source outline.statements outline.top := by
  obtain ⟨statements, forest, hadds, heq⟩ := Scanner.settled_initial.adds h
  obtain ⟨rfl, rfl⟩ := Outline.eq_of_add_empty heq
  exact hadds

/-! ## Sources that leave nothing over -/

/-- Every statement of the sheet has its semicolon. -/
def Sheet.IsClosed (sheet : Sheet) : Prop :=
  ∀ statement ∈ sheet.statements, statement.range.stop < statement.extent.stop

instance (sheet : Sheet) : Decidable sheet.IsClosed :=
  inferInstanceAs (Decidable (∀ statement ∈ sheet.statements, _))

namespace Reading

/-- The statement that a fragment is. -/
def statementOf (fragment : Fragment) (stop : Option Nat) : Statement :=
  let range := Fragment.range fragment
  ⟨Text.squeeze (Fragment.text fragment), range, ⟨range.start, stop.getD range.stop⟩⟩

theorem statements_flush (reading : Reading) (stop : Option Nat) :
    (reading.flush stop).statements = if reading.blocks = [] ∧ reading.collected.head? = some '@' then
      reading.statements ++ [statementOf (Fragment.trimEnd reading.pending) stop] else reading.statements := by
  rw [collected]
  cases heq : Fragment.trimEnd reading.pending with
  | nil =>
    rw [if_neg fun h => Option.some_ne_none _ h.2.symm]
    simp only [flush, heq]
  | cons mark rest =>
    have hhead : (Fragment.text (mark :: rest)).head? = some '@' ↔ mark.1 = '@' := Option.some_inj
    simp only [flush, heq, hhead]
    split
    next hat =>
      simp only [flushStatement, hat, and_true]
      by_cases hblocks : reading.blocks = []
      · simp only [hblocks, ne_eq, not_true_eq_false, if_false, if_true, statementOf]
        split <;> rfl
      · simp only [hblocks, ne_eq, not_false_eq_true, if_true, if_false]
        rfl
    next hat =>
      rw [if_neg fun h => hat h.2]
      simp only [flushDeclaration]
      split
      · rfl
      · simp only [declare, found]
        split <;> rfl

theorem statements_closeBlock (reading : Reading) : reading.closeBlock.statements = reading.statements := by
  simp only [closeBlock]
  split <;> rfl

theorem statements_finish (reading : Reading) :
    reading.finish.statements = (reading.flush none).statements := by
  rw [finish, closeAll]
  generalize (reading.flush none).reportOpen.blocks = blocks
  suffices hfold : ∀ start : Reading,
      (blocks.foldl (fun reading _ => reading.closeBlock) start).statements = start.statements from hfold _
  induction blocks with
  | nil => exact fun _ => rfl
  | cons block rest ih => exact fun start => (ih start.closeBlock).trans (statements_closeBlock start)

end Reading

theorem settled_of_outline (h : outlineOf source = some outline) (hclosed : (Sheet.parse source).IsClosed) :
    (Scanner.initial.run source).Settled outline := by
  obtain ⟨t, before, hrests, hflush⟩ := exists_rests h
  -- what is left over at the end is a statement without its semicolon
  have ht : Text.trim t = [] := by
    by_contra hne
    obtain ⟨pending, hclose, -⟩ := hrests.follows.close hrests.mode hrests.outside
    have houtline := (Reading.sketch_eq_some.mp hrests.sketch).2
    have hblocks : (Scanner.initial.run source).close.blocks = [] := by
      rw [hclose]
      exact Reading.blocks_outline_eq_nil.mp ((congrArg Outline.blocks houtline).trans hrests.top)
    have hsign : (Text.trim t).head? = some '@' := by
      rw [Outline.flush_of_top hrests.top, if_neg hne] at hflush
      split at hflush
      · assumption
      · cases hflush
    rw [← hrests.follows.collected_close hrests.mode hrests.outside] at hsign
    have hstatements := Reading.statements_flush (Scanner.initial.run source).close none
    rw [if_pos ⟨hblocks, hsign⟩, ← Reading.statements_finish] at hstatements
    -- it extends to its last character
    have hmem : Reading.statementOf (Fragment.trimEnd (Scanner.initial.run source).close.pending) none ∈
        (Sheet.parse source).statements := by
      simp only [Sheet.parse_eq, hstatements, List.mem_append, List.mem_singleton, or_true]
    exact Nat.lt_irrefl _ (hclosed _ hmem)
  rw [ht, Outline.flush, if_pos rfl] at hflush
  exact Option.some.inj hflush ▸ hrests.settled ht

end

end Style

end Sitewright
