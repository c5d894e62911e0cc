import Sitewright.Proofs.Style.Concatenation
import Sitewright.Proofs.Style.FixedPoint

/-!
Texts put together from pieces that are well-formed by themselves. A piece may end with a statement that has
no semicolon, and then what follows belongs to the statement. So the pieces must be severed: after such a
piece comes a semicolon, or nothing but blanks and comments (`Severed`). Then the text has the rules and the
statements of its pieces (`Strung.ends`).
-/

namespace Sitewright.Style

open Lexer

/-! ## Blanks and comments -/

/-- Where a walk through blanks and comments is. -/
inductive Gap where
  | out
  | slash
  /-- In a comment, after a star or not. -/
  | comment (star : Bool)
  deriving DecidableEq, Repr

namespace Gap

variable {text : Text}

/-- Reads a character of blanks and comments. -/
def next : Gap → Char → Option Gap
  | .out, c => if isBlank c then some .out else if c = '/' then some .slash else none
  | .slash, c => if c = '*' then some (.comment false) else none
  | .comment star, c => some (if star ∧ c = '/' then .out else .comment (c == '*'))

/-- Reads blanks and comments. -/
def read (gap : Gap) : Text → Option Gap
  | [] => some gap
  | c :: rest => (gap.next c).bind fun gap => gap.read rest

/-- The first character that is neither a blank nor in a comment. -/
def mark (gap : Gap) : Text → Option Char
  | [] => if gap = .out then none else some '/'
  | c :: rest =>
    match gap.next c with
    | some gap => gap.mark rest
    | none => some (if gap = .slash then '/' else c)

theorem read_append (gap : Gap) (a b : Text) : gap.read (a ++ b) = (gap.read a).bind fun gap => gap.read b := by
  induction a generalizing gap with
  | nil => rfl
  | cons c rest ih =>
    simp only [List.cons_append, read]
    cases gap.next c with
    | none => rfl
    | some next => exact ih next

theorem read_of_mark {gap : Gap} (h : gap.mark text = none) : gap.read text = some .out := by
  induction text generalizing gap with
  | nil =>
    rw [mark] at h
    split at h
    next hout => rw [hout]; rfl
    next => cases h
  | cons c rest ih =>
    rw [mark] at h
    split at h
    next after hnext => rw [read, hnext, Option.bind_some, ih h]
    next => cases h

theorem mark_of_read {gap : Gap} (h : gap.read text = some .out) : gap.mark text = none := by
  induction text generalizing gap with
  | nil =>
    cases h
    rfl
  | cons c rest ih =>
    rw [read, Option.bind_eq_some_iff] at h
    obtain ⟨next, hnext, hread⟩ := h
    rw [mark, hnext]
    exact ih hread

theorem exists_read_of_mark {gap : Gap} (h : gap.mark text = some ';') :
    ∃ before rest, text = before ++ ';' :: rest ∧ gap.read before = some .out := by
  induction text generalizing gap with
  | nil =>
    rw [mark] at h
    split at h <;> cases h
  | cons c rest ih =>
    rw [mark] at h
    split at h
    next after hnext =>
      obtain ⟨before, others, rfl, hread⟩ := ih h
      exact ⟨c :: before, others, rfl, by rw [read, hnext, Option.bind_some, hread]⟩
    next hnext =>
      cases gap with
      | out =>
        obtain rfl : c = ';' := Option.some.inj h
        exact ⟨[], rest, rfl, rfl⟩
      | slash => cases h
      | comment star => cases hnext

theorem mark_blanks {w : Text} (hw : Text.allBlank w = true) : Gap.out.mark w = none := by
  induction w with
  | nil => rfl
  | cons c rest ih =>
    simp only [Text.allBlank, List.all_cons, Bool.and_eq_true] at hw
    simp only [mark, next, hw.1, if_true]
    exact ih hw.2

/-- What the scanner holds back in blanks and comments. -/
def held : Gap → Text
  | .out | .comment _ => []
  | .slash => ['/']

/-- Whether the lexer is where the walk is. -/
def At : Gap → Mode → Prop
  | .out, mode => mode.isComment = false ∧ mode.scan.isOutside = true
  | .slash, mode => mode = .slash
  | .comment star, mode => ∃ read, mode = .comment star read

end Gap

namespace Scanner

variable {scanner : Scanner} {gap : Gap} {t : Text} {outline : Outline}
variable {text : Text}

/-- After what it has collected, the scanner has read blanks and comments. -/
structure Pauses (scanner : Scanner) (gap : Gap) (t : Text) (outline : Outline) : Prop where
  mode : gap.At scanner.mode
  follows : ∃ u, Text.trim u = Text.trim t ∧ scanner.Follows (u ++ gap.held)
  sketch : scanner.reading.sketch = some outline
  top : outline.blocks = []

theorem Pauses.step (h : scanner.Pauses gap t outline) {c : Char} {after : Gap} (hnext : gap.next c = some after) :
    (scanner.step c).Pauses after t outline := by
  obtain ⟨hmode, ⟨u, hu, hfollows⟩, hsketch, htop⟩ := h
  cases gap with
  | out =>
    obtain ⟨hcomment, hscan⟩ := hmode
    rw [Gap.held, List.append_nil] at hfollows
    have hreal := Scan.real_of_isOutside hscan
    rw [Gap.next] at hnext
    split at hnext
    next hblank =>
      cases hnext
      have hout : scanner.mode.scan.next c = some scanner.mode.scan.gap := by
        rw [Scan.next_of_isBlank hreal hblank, if_neg (by rw [hscan]; simp)]
      obtain ⟨hstep, hafter, hscan', pending, hreading⟩ := hfollows.step hcomment hout
      refine ⟨⟨hafter, ?_⟩, ⟨u ++ [c], ?_, ?_⟩, by rw [hreading]; exact hsketch, htop⟩
      · rw [hscan', Scan.isOutside_gap, hscan]
      · rw [Text.trim_append_right (by rw [Text.allBlank, List.all_cons, hblank]; rfl), hu]
      · rw [Gap.held, List.append_nil]
        exact hstep
    next =>
      split at hnext
      next hslash =>
        cases hnext
        subst hslash
        have hout : scanner.mode.scan.next '/' = some .slash := by
          cases hcase : scanner.mode.scan with
          | quoted quote escaped => rw [hcase] at hscan; cases hscan
          | out | slash => rfl
        obtain ⟨hstep, -, hscan', pending, hreading⟩ := hfollows.step hcomment hout
        exact ⟨Mode.eq_slash hscan', ⟨u, hu, hstep⟩, by rw [hreading]; exact hsketch, htop⟩
      next => cases hnext
  | slash =>
    rw [Gap.next] at hnext
    split at hnext
    next hstar =>
      cases hnext
      subst hstar
      obtain ⟨hcomment, hreading⟩ := step_of_slash hmode
      obtain ⟨before, heq, hstep⟩ := hfollows.step_star hmode
      obtain rfl : u = before := (List.append_inj' heq rfl).1
      refine ⟨⟨_, hcomment⟩, ⟨u ++ [' '], ?_, ?_⟩, by rw [hreading]; exact hsketch, htop⟩
      · rw [Text.trim_append_right (by decide), hu]
      · rw [Gap.held, List.append_nil]
        exact hstep
    next => cases hnext
  | comment star =>
    obtain ⟨read, hread⟩ := hmode
    obtain ⟨hafter, hreading⟩ := step_of_comment hread c
    have hstep := hfollows.step_comment hread c
    cases hnext
    refine ⟨?_, ⟨u, hu, ?_⟩, hreading.trans hsketch, htop⟩
    · rw [hafter]
      split
      · exact ⟨rfl, rfl⟩
      · exact ⟨_, rfl⟩
    · split <;> exact hstep

theorem Pauses.run (h : scanner.Pauses gap t outline) {after : Gap}
    (hread : gap.read text = some after) : (scanner.run text).Pauses after t outline := by
  induction text generalizing scanner gap with
  | nil =>
    cases hread
    exact h
  | cons c rest ih =>
    rw [Gap.read, Option.bind_eq_some_iff] at hread
    obtain ⟨next, hnext, hread⟩ := hread
    exact ih (h.step hnext) hread

theorem Rests.pauses (h : scanner.Rests t outline) : scanner.Pauses .out t outline :=
  ⟨⟨h.mode, h.outside⟩, ⟨t, rfl, by rw [Gap.held, List.append_nil]; exact h.follows⟩, h.sketch, h.top⟩

/-- Blanks and comments add nothing to what was collected. -/
theorem Rests.run_gap (h : scanner.Rests t outline) (hread : Gap.out.read text = some .out) :
    ∃ u, Text.trim u = Text.trim t ∧ (scanner.run text).Rests u outline := by
  obtain ⟨⟨hcomment, hscan⟩, ⟨u, hu, hfollows⟩, hsketch, htop⟩ := h.pauses.run hread
  rw [Gap.held, List.append_nil] at hfollows
  exact ⟨u, hu, hcomment, hscan, hfollows, hsketch, htop⟩

theorem Reaches.run_gap (h : scanner.Reaches outline) (hread : Gap.out.read text = some .out) :
    (scanner.run text).Reaches outline := by
  obtain ⟨t, before, hrests, hflush⟩ := h
  obtain ⟨u, hu, hrun⟩ := hrests.run_gap hread
  exact ⟨u, before, hrun, by rw [hu, hflush]⟩

/-- A semicolon ends what the text could end with. -/
theorem Reaches.step_semicolon (h : scanner.Reaches outline) : (scanner.step ';').Settled outline := by
  obtain ⟨t, before, hrests, hflush⟩ := h
  obtain ⟨hmode, hfollows, hsketch⟩ :=
    hrests.follows.sketch_step hrests.mode hrests.outside (rfl : isStructural ';' = true)
  rw [hrests.sketch, Option.bind_some] at hsketch
  obtain ⟨hwell, houtline⟩ := Reading.sketch_eq_some.mp (hsketch.trans hflush)
  exact ⟨⟨by rw [hmode]; rfl, ⟨[], rfl, hfollows⟩, hwell⟩, houtline, Outline.blocks_of_flush hrests.top hflush⟩

end Scanner

/-! ## Pieces -/

/-- Where the pieces of a text stand, with blanks between them. -/
inductive Strung : List Text → Text → Prop
  | nil : Strung [] []
  | cons {piece w text : Text} {rest : List Text} (hw : Text.allBlank w = true) (h : Strung rest text) :
    Strung (piece :: rest) (piece ++ (w ++ text))

/-- After some text that could end there, the pieces begin with a semicolon if they begin with anything. -/
def Resumed (pieces : List Text) : Prop :=
  (pieces.findSome? Gap.out.mark).all (· == ';') = true

/-- Every piece whose last statement has no semicolon is followed by one, or by nothing. -/
def Severed : List Text → Prop
  | [] => True
  | piece :: rest => ((Sheet.parse piece).IsClosed ∨ Resumed rest) ∧ Severed rest

instance (pieces : List Text) : Decidable (Resumed pieces) :=
  inferInstanceAs (Decidable (_ = true))

instance Severed.instDecidable : (pieces : List Text) → Decidable (Severed pieces)
  | [] => .isTrue trivial
  | _ :: rest =>
    have := Severed.instDecidable rest
    inferInstanceAs (Decidable (_ ∧ _))

section

variable {scanner : Scanner} {outline : Outline} {text : Text} {statements : List Text} {forest : Forest Rule}

theorem ends_gap (h : Gap.out.mark text = none) : Ends text [] .nil := by
  intro scanner outline hscanner
  rw [Outline.add_nil]
  exact hscanner.reaches.run_gap (Gap.read_of_mark h)

/-- A text that begins with a semicolon is read after what could end there as it is by itself. -/
theorem Ends.resume (h : Ends text statements forest) (hmark : Gap.out.mark text = some ';')
    (hscanner : scanner.Reaches outline) :
    (scanner.run text).Reaches (outline.add statements forest) ∧
      (Adds .top text statements forest → (scanner.run text).Settled (outline.add statements forest)) := by
  obtain ⟨before, rest, rfl, hread⟩ := Gap.exists_read_of_mark hmark
  have hcut {scanner : Scanner} {outline : Outline} (h : scanner.Reaches outline) :
      (scanner.run (before ++ [';'])).Settled outline := by
    rw [Scanner.run_append]
    exact (h.run_gap hread).step_semicolon
  have hrun (scanner : Scanner) :
      scanner.run (before ++ ';' :: rest) = (scanner.run (before ++ [';'])).run rest := by
    rw [← Scanner.run_append, List.append_assoc, List.singleton_append]
  have hfirst := hcut Scanner.settled_initial.reaches
  rw [hrun]
  constructor
  · have hinitial := h Scanner.settled_initial
    rw [hrun] at hinitial
    obtain ⟨statements', forest', hends, heq⟩ := hfirst.ends hinitial
    obtain ⟨rfl, rfl⟩ := Outline.eq_of_add_empty heq
    exact hends (hcut hscanner)
  · intro hadds
    have hinitial := hadds.settled Scanner.settled_initial
    rw [hrun] at hinitial
    obtain ⟨statements', forest', hadds', heq⟩ := hfirst.adds hinitial
    obtain ⟨rfl, rfl⟩ := Outline.eq_of_add_empty heq
    exact hadds'.settled (hcut hscanner)

end

theorem resumed_cons {piece : Text} {rest : List Text} (h : Resumed (piece :: rest)) :
    Gap.out.mark piece = none ∧ Resumed rest ∨ Gap.out.mark piece = some ';' := by
  cases hmark : Gap.out.mark piece with
  | none =>
    rw [Resumed, List.findSome?_cons, hmark] at h
    exact .inl ⟨rfl, h⟩
  | some c =>
    rw [Resumed, List.findSome?_cons, hmark] at h
    exact .inr (by rw [beq_iff_eq.mp h])

/-- The outlines of pieces one after another. -/
def outlineOfPieces (pieces : List Text) : Outline :=
  ⟨[], .concat (pieces.map fun piece => (Sheet.parse piece).outline.top),
    pieces.flatMap fun piece => (Sheet.parse piece).outline.statements⟩

theorem Outline.add_pieces (outline : Outline) (piece : Text) (rest : List Text) :
    outline.add (outlineOfPieces (piece :: rest)).statements (outlineOfPieces (piece :: rest)).top =
      (outline.add (Sheet.parse piece).outline.statements (Sheet.parse piece).outline.top).add
        (outlineOfPieces rest).statements (outlineOfPieces rest).top := by
  rw [add_add]
  rfl

/-- Pieces add what they have by themselves, after a text that ends where they begin, and also after a text
that could end there if they begin with a semicolon. -/
theorem Strung.run {pieces : List Text} {text : Text} (h : Strung pieces text)
    (hpieces : ∀ piece ∈ pieces, (Sheet.parse piece).isMalformed = false) (hsevered : Severed pieces)
    {scanner : Scanner} {outline : Outline}
    (hscanner : scanner.Settled outline ∨ Resumed pieces ∧ scanner.Reaches outline) :
    (scanner.run text).Reaches
      (outline.add (outlineOfPieces pieces).statements (outlineOfPieces pieces).top) := by
  induction h generalizing scanner outline with
  | nil =>
    have heq : outline.add (outlineOfPieces []).statements (outlineOfPieces []).top = outline :=
      Outline.add_nil outline
    rw [heq]
    exact hscanner.elim (fun hsettled => hsettled.reaches) fun hreaches => hreaches.2
  | @cons piece w text rest hw h ih =>
    rw [List.forall_mem_cons] at hpieces
    obtain ⟨hend, hrest⟩ := hsevered
    have houtline := Sheet.isMalformed_iff.mp hpieces.1
    have hends := ends_of_outline houtline
    rw [Outline.add_pieces, Scanner.run_append, Scanner.run_append]
    refine ih hpieces.2 hrest ?_
    -- the blanks after the piece change nothing
    suffices hpiece : (scanner.run piece).Settled (outline.add (Sheet.parse piece).outline.statements
          (Sheet.parse piece).outline.top) ∨ Resumed rest ∧ (scanner.run piece).Reaches
        (outline.add (Sheet.parse piece).outline.statements (Sheet.parse piece).outline.top) by
      rcases hpiece with hsettled | ⟨hresumed, hreaches⟩
      · have hblank := (adds_blanks hw).settled hsettled
        rw [Outline.add_nil] at hblank
        exact .inl hblank
      · exact .inr ⟨hresumed, hreaches.run_gap (Gap.read_of_mark (Gap.mark_blanks hw))⟩
    rcases hscanner with hsettled | ⟨hresumed, hreaches⟩
    · rcases hend with hclosed | hresumed
      · exact .inl ((adds_of_settled (settled_of_outline houtline hclosed)).settled hsettled)
      · exact .inr ⟨hresumed, hends hsettled⟩
    · rcases resumed_cons hresumed with ⟨hmark, hresumed⟩ | hmark
      · have hempty : (Sheet.parse piece).outline = .empty :=
          Sheet.outline_parse (outlineOf_of_ends (ends_gap hmark))
        rw [hempty]
        refine .inr ⟨hresumed, ?_⟩
        have hrun := hreaches.run_gap (Gap.read_of_mark hmark)
        rwa [← Outline.add_nil outline] at hrun
      · obtain ⟨hreaches, hsettled⟩ := hends.resume hmark hreaches
        rcases hend with hclosed | hresumed
        · exact .inl (hsettled (adds_of_settled (settled_of_outline houtline hclosed)))
        · exact .inr ⟨hresumed, hreaches⟩

theorem Strung.ends {pieces : List Text} {text : Text} (h : Strung pieces text)
    (hpieces : ∀ piece ∈ pieces, (Sheet.parse piece).isMalformed = false) (hsevered : Severed pieces) :
    Ends text (outlineOfPieces pieces).statements (outlineOfPieces pieces).top :=
  fun _ _ hscanner => h.run hpieces hsevered (.inl hscanner)

theorem strung_join (pieces : List Text) : Strung pieces (Text.join ['\n'] pieces) := by
  induction pieces with
  | nil => exact .nil
  | cons piece rest ih =>
    cases rest with
    | nil =>
      have h : Strung [piece] (piece ++ ([] ++ [])) := .cons rfl .nil
      rw [Text.join_singleton]
      rwa [List.append_nil, List.append_nil] at h
    | cons next others =>
      rw [Text.join_cons (List.cons_ne_nil _ _), List.append_assoc]
      exact .cons (by decide) ih

theorem Strung.append {a b : List Text} {x y : Text} (ha : Strung a x) (hb : Strung b y) :
    Strung (a ++ b) (x ++ y) := by
  induction ha with
  | nil => exact hb
  | @cons piece w text rest hw h ih =>
    rw [List.append_assoc, List.append_assoc]
    exact .cons hw ih

/-! ## Flat rules -/

/-- A flat rule without the places of its declarations and the at-rule around it. -/
def FlatRule.content (rule : FlatRule) : FlatRule :=
  { rule.bare with group := none }

/-- The flat rules of a forest without places. -/
def contents (forest : Forest Rule) : List FlatRule :=
  (flatten [] none none (forest.map fun rule => (0, rule))).map FlatRule.content

theorem content_emit (selectors : List Text) (media : Option Text) (group other : Option Nat) (rule : Rule) :
    (emit selectors media group rule).map FlatRule.content =
      (emit selectors media other rule.bare).map FlatRule.content := by
  rw [emit_bare]
  simp only [emit]
  split
  · rfl
  · simp [FlatRule.content, FlatRule.bare, Declaration.bare]

/-- Neither numbers nor places show. -/
theorem content_flatten (selectors : List Text) (media : Option Text) (group other : Option Nat)
    (forest : Forest (Nat × Rule)) :
    (flatten selectors media group forest).map FlatRule.content =
      (flatten selectors media other (forest.map fun entry => (0, entry.2.bare))).map FlatRule.content := by
  induction forest generalizing selectors media group other with
  | nil => rfl
  | cons entry below after ihbelow ihafter =>
    obtain ⟨id, rule⟩ := entry
    have hhead : rule.bare.head = rule.head := rfl
    have htext : rule.bare.text = rule.text := rfl
    simp only [Forest.map, flatten, hhead, htext]
    cases rule.head with
    | style tokens | media key | transparent =>
      simp only [List.map_append]
      rw [content_emit _ _ group other, ihbelow _ _ group other, ihafter _ _ group other]
    | atRule =>
      simp only [List.map_append]
      rw [content_emit _ _ none none, ihbelow _ _ (some id) (some 0), ihafter _ _ group other]

theorem contents_append (f g : Forest Rule) : contents (f ++ g) = contents f ++ contents g := by
  rw [contents, Forest.map_append, flatten_append, List.map_append]
  rfl

theorem contents_concat (pieces : List Text) :
    contents (outlineOfPieces pieces).top =
      pieces.flatMap fun piece => contents (Sheet.parse piece).outline.top := by
  induction pieces with
  | nil => rfl
  | cons piece rest ih =>
    rw [List.flatMap_cons, ← ih, ← contents_append]
    rfl

theorem Sheet.content_flatRules (sheet : Sheet) :
    sheet.flatRules.map FlatRule.content = contents sheet.outline.top := by
  rw [Sheet.flatRules, content_flatten [] none none none, contents, Sheet.outline, Forest.map_map]
  rfl

end Sitewright.Style
