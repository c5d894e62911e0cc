import Sitewright.Proofs.Style.Splicing

/-!
Where statements stand. What a scanner has collected are marks, characters with their offsets. The first mark
is where a clause begins, and there the scanner was idle; after the last mark that is no blank come nothing
but blanks and comments. So the extent of a statement cuts it out of its source: what is before it and what is
after it are well-formed by themselves (`Statement.Parts`).
-/

namespace Sitewright.Style

open Lexer

/-! ## Marks -/

namespace Fragment

variable {mark : Char × Nat}

theorem collect_nil (fragment : Fragment) (start : Nat) : collect fragment [] start = fragment := by
  rw [collect]
  split
  next h => rw [h]; rfl
  next => exact List.append_nil fragment

/-- Collecting a text piece by piece. -/
theorem collect_append (fragment : Fragment) (a b : Text) (start : Nat) :
    collect (collect fragment a start) b (start + a.length) = collect fragment (a ++ b) start := by
  by_cases hfragment : fragment = []
  · simp only [collect, hfragment, if_true, List.zipIdx_append, trimStart, List.dropWhile_append]
    split
    next hnil => rw [hnil, List.isEmpty_nil, if_pos rfl]
    next hne => rw [if_neg (by rwa [List.isEmpty_iff])]
  · have hne : fragment ++ a.zipIdx start ≠ [] := fun h => hfragment (List.append_eq_nil_iff.mp h).1
    simp only [collect, hfragment, hne, if_false, List.zipIdx_append, List.append_assoc]

theorem collect_blank {c : Char} (hc : isBlank c = true) (fragment : Fragment) (start : Nat) :
    collect fragment [c] start = if fragment = [] then [] else fragment ++ [(c, start)] := by
  rw [collect, trimStart]
  simp [hc]

theorem collect_solid {c : Char} (hc : isBlank c = false) (fragment : Fragment) (start : Nat) :
    collect fragment [c] start = fragment ++ [(c, start)] := by
  rw [collect, trimStart]
  split
  next hnil => simp [hc, hnil]
  next => rfl

theorem trimEnd_append_blank (h : isBlank mark.1 = true) (fragment : Fragment) :
    trimEnd (fragment ++ [mark]) = trimEnd fragment := by
  simp [trimEnd, trimStart, h]

theorem trimEnd_append_solid (h : isBlank mark.1 = false) (fragment : Fragment) :
    trimEnd (fragment ++ [mark]) = fragment ++ [mark] := by
  simp [trimEnd, trimStart, h]

theorem trimEnd_collect_blank {c : Char} (hc : isBlank c = true) (fragment : Fragment) (start : Nat) :
    trimEnd (collect fragment [c] start) = trimEnd fragment := by
  rw [collect_blank hc]
  split
  next hnil => rw [hnil]
  next => exact trimEnd_append_blank hc fragment

theorem prefix_trimEnd (fragment : Fragment) : trimEnd fragment <+: fragment := by
  refine ⟨(fragment.reverse.takeWhile fun mark => isBlank mark.1).reverse, ?_⟩
  rw [trimEnd, trimStart, ← List.reverse_append, List.takeWhile_append_dropWhile, List.reverse_reverse]

theorem head?_of_trimEnd {fragment rest : Fragment} (h : trimEnd fragment = mark :: rest) :
    fragment.head? = some mark := by
  obtain ⟨blanks, heq⟩ := prefix_trimEnd fragment
  rw [← heq, h]
  rfl

end Fragment

namespace Scanner

variable {scanner : Scanner} {c : Char} {t : Text}

theorem offset_run (scanner : Scanner) (text : Text) : (scanner.run text).offset = scanner.offset + text.length := by
  induction text generalizing scanner with
  | nil => rfl
  | cons c rest ih => rw [run_cons, ih, List.length_cons, Nat.add_comm rest.length, ← Nat.add_assoc]; rfl

theorem offset_run_initial (source : Text) : (initial.run source).offset = source.length :=
  (offset_run initial source).trans (Nat.zero_add _)

/-- What is collected once the lexer gives up what it holds back. -/
def gathering (scanner : Scanner) : Fragment :=
  Fragment.collect scanner.reading.pending scanner.mode.held scanner.first

/-- What the lexer holds back ends where the scanner is. -/
def Placed (scanner : Scanner) : Prop :=
  scanner.mode.isComment = false → scanner.mode ≠ .ground →
    scanner.first + scanner.mode.held.length = scanner.offset

theorem text_gathering (h : scanner.Follows t) : Fragment.text scanner.gathering = Text.trimStart t := by
  obtain ⟨⟨before, hbefore, rfl⟩, -⟩ := h
  exact Fragment.text_collect hbefore _ _

theorem text_trimEnd_gathering (h : scanner.Follows t) :
    Fragment.text (Fragment.trimEnd scanner.gathering) = Text.trim t := by
  rw [Reading.text_trimEnd, text_gathering h]
  rfl

theorem foldl_gathered (hmode : scanner.mode.isComment = false) (hscan : scanner.mode.scan.isOutside = true) :
    (scanner.mode.gathered scanner.first).foldl Reading.step scanner.reading =
      { scanner.reading with pending := scanner.gathering } := by
  obtain ⟨mode, first, offset, reading⟩ := scanner
  cases mode with
  | ground =>
    simp only [gathering, Mode.held, Fragment.collect_nil]
    rfl
  | text read | slash => rfl
  | quoted quote escaped read => cases hscan
  | comment star read => cases hmode

theorem step_structural (hmode : scanner.mode.isComment = false) (hscan : scanner.mode.scan.isOutside = true)
    (hc : isStructural c = true) :
    scanner.step c = ⟨.ground, scanner.offset, scanner.offset + 1,
      Reading.step { scanner.reading with pending := scanner.gathering }
        ⟨structuralKind c, [c], scanner.offset⟩⟩ := by
  rw [Scanner.step, step_of_isStructural hmode hscan hc]
  simp only [List.foldl_append, foldl_gathered hmode hscan, List.foldl_cons, List.foldl_nil]

theorem close_of_outside (hmode : scanner.mode.isComment = false) (hscan : scanner.mode.scan.isOutside = true) :
    scanner.close = { scanner.reading with pending := scanner.gathering } := by
  rw [Scanner.close, finish_of_outside hmode hscan, foldl_gathered hmode hscan]

/-- What a scanner does that begins a lexeme after what it held back. -/
theorem gathering_of_opened {after : Mode} {reading : Reading} {offset : Nat} (hheld : after.held = [c])
    (hreading : reading.pending = scanner.gathering) :
    (Scanner.mk after offset (offset + 1) reading).gathering = Fragment.collect scanner.gathering [c] offset ∧
      (Scanner.mk after offset (offset + 1) reading).Placed ∧
      (after = .slash → c = '/' ∧ reading.pending = scanner.gathering) := by
  refine ⟨?_, fun _ _ => ?_, fun hslash => ⟨?_, hreading⟩⟩
  · rw [gathering, hheld, hreading]
  · show offset + after.held.length = offset + 1
    rw [hheld]
    rfl
  · rw [hslash] at hheld
    exact (List.cons.inj hheld).1.symm

/-- What a scanner does that goes on with the lexeme that it is in. -/
theorem gathering_of_grown {mode after : Mode} {reading : Reading} {first offset : Nat}
    (hplaced : first + mode.held.length = offset) (hheld : after.held = mode.held ++ [c]) (hslash : after ≠ .slash) :
    (Scanner.mk after first (offset + 1) reading).gathering =
        Fragment.collect (Scanner.mk mode first offset reading).gathering [c] offset ∧
      (Scanner.mk after first (offset + 1) reading).Placed ∧
      (after = .slash → c = '/' ∧ reading.pending = (Scanner.mk mode first offset reading).gathering) := by
  refine ⟨?_, fun _ _ => ?_, fun h => absurd h hslash⟩
  · subst hplaced
    simp only [gathering, hheld, Fragment.collect_append]
  · show first + after.held.length = offset + 1
    rw [hheld, List.length_append, List.length_singleton]
    omega

/-- A character of plain text is the next mark. -/
theorem gathering_step (hplaced : scanner.Placed) (hmode : scanner.mode.isComment = false) {scan : Scan}
    (hnext : scanner.mode.scan.next c = some scan) :
    (scanner.step c).gathering = Fragment.collect scanner.gathering [c] scanner.offset ∧
      (scanner.step c).Placed ∧
      ((scanner.step c).mode = .slash → c = '/' ∧ (scanner.step c).reading.pending = scanner.gathering) := by
  obtain ⟨mode, first, offset, reading⟩ := scanner
  cases mode with
  | ground =>
    obtain ⟨after, hopened, -, -, hheld⟩ := opened_of_opening hnext offset
    have hstep : step ⟨.ground, first, offset, reading⟩ c = ⟨after, offset, offset + 1, reading⟩ := by
      simp only [Scanner.step, Lexer.step, hopened, List.foldl_nil]
    rw [hstep]
    exact gathering_of_opened hheld (Fragment.collect_nil _ _).symm
  | text read =>
    by_cases hspecial : isSpecial c = true
    · obtain ⟨after, hopened, -, -, hheld⟩ := opened_of_opening hnext offset
      simp only [Scanner.step, Lexer.step, hspecial, if_true, emitThen, hopened]
      exact gathering_of_opened hheld rfl
    · have hstep : step ⟨.text read, first, offset, reading⟩ c = ⟨.text (c :: read), first, offset + 1, reading⟩ := by
        simp only [Scanner.step, Lexer.step, if_neg hspecial, List.foldl_nil]
      rw [hstep]
      exact gathering_of_grown (hplaced rfl Mode.noConfusion) List.reverse_cons Mode.noConfusion
  | quoted quote escaped read =>
    have hgrown (escaped' : Bool) := @gathering_of_grown c _ (.quoted quote escaped' (c :: read)) reading _ _
      (hplaced rfl Mode.noConfusion) List.reverse_cons Mode.noConfusion
    have hline : c ≠ '\n' := by
      rintro rfl
      cases hnext
    simp only [Scanner.step, Lexer.step, if_neg hline]
    split
    · exact hgrown false
    · split
      · obtain ⟨hgathering, hplaced', -⟩ := hgrown false
        refine ⟨?_, fun _ h => absurd rfl h, Mode.noConfusion⟩
        rw [← hgathering]
        exact Fragment.collect_nil _ _
      · exact hgrown _
  | slash =>
    have hstar : c ≠ '*' := by
      rintro rfl
      cases hnext
    rw [Mode.scan, Scan.next, if_neg hstar] at hnext
    obtain ⟨after, hopened, -, -, hheld⟩ := opened_of_opening hnext offset
    simp only [Scanner.step, Lexer.step, if_neg hstar, emitThen, hopened]
    exact gathering_of_opened hheld rfl
  | comment star read => cases hmode

theorem gathering_step_comment {star : Bool} {read : Text} (h : scanner.mode = .comment star read) (c : Char) :
    (scanner.step c).gathering = scanner.gathering ∧ (scanner.step c).Placed ∧
      ∃ pending, (scanner.step c).reading = { scanner.reading with pending := pending } := by
  obtain ⟨mode, first, offset, reading⟩ := scanner
  cases h
  simp only [Scanner.step, Lexer.step]
  split
  · refine ⟨?_, fun _ h => absurd rfl h, _, rfl⟩
    simp only [gathering, List.foldl_cons, List.foldl_nil, Reading.step, Fragment.collectGap_eq]
    exact Fragment.collect_nil _ _
  · exact ⟨rfl, fun h => absurd h Bool.noConfusion, reading.pending, rfl⟩

theorem gathering_step_star (h : scanner.mode = .slash) :
    scanner.gathering = Fragment.collect scanner.reading.pending ['/'] scanner.first ∧
      (scanner.step '*').gathering = Fragment.collect scanner.reading.pending [' '] scanner.first ∧
      (scanner.step '*').Placed := by
  obtain ⟨mode, first, offset, reading⟩ := scanner
  cases h
  exact ⟨rfl, rfl, fun h => absurd h Bool.noConfusion⟩

end Scanner

/-! ## Statements -/

namespace Reading

variable {reading : Reading}

/-- Only a semicolon at the top level ends a statement. -/
theorem statements_step {c : Char} (hc : isStructural c = true) (offset : Nat)
    (hwell : WellFormed (reading.step ⟨structuralKind c, [c], offset⟩).problems) :
    (reading.step ⟨structuralKind c, [c], offset⟩).statements = reading.statements ∨
      c = ';' ∧ reading.blocks = [] ∧ reading.collected.head? = some '@' ∧
        (reading.step ⟨structuralKind c, [c], offset⟩).statements =
          reading.statements ++ [statementOf (Fragment.trimEnd reading.pending) (some (offset + 1))] := by
  simp only [isStructural, Bool.or_eq_true, beq_iff_eq] at hc
  rcases hc with (rfl | rfl) | rfl
  · refine .inl ?_
    show (reading.openBrace _).statements = reading.statements
    simp only [openBrace]
    split <;> rfl
  · refine .inl ?_
    have hwell' : WellFormed (reading.closeBrace ⟨offset, offset + 1⟩).problems := hwell
    show (reading.closeBrace ⟨offset, offset + 1⟩).statements = reading.statements
    have hflush := statements_flush reading none
    split at hflush
    next hends =>
      -- no block is open that could be closed
      have hlength := Outline.length_blocks_of_closeBrace (outline_of_sketch (sketch_closeBrace reading _) hwell')
      rw [blocks_outline_eq_nil.mpr hends.1] at hlength
      cases hlength
    next =>
      simp only [closeBrace]
      split
      · exact hflush
      · rw [statements_closeBlock, hflush]
  · have hflush := statements_flush reading (some (offset + 1))
    split at hflush
    next hends => exact .inr ⟨rfl, hends.1, hends.2, hflush⟩
    next => exact .inl hflush

end Reading

/-! ## Places -/

/-- An entry of a list with one more entry at its end is that entry or one of the list. -/
theorem eq_or_of_append_singleton {α : Type} {l before after : List α} {last a : α}
    (h : l ++ [last] = before ++ a :: after) :
    (before = l ∧ a = last ∧ after = []) ∨ ∃ others, l = before ++ a :: others := by
  rcases List.eq_nil_or_concat after with rfl | ⟨others, b, rfl⟩
  · obtain ⟨hl, hlast⟩ := List.append_inj' h rfl
    exact .inl ⟨hl.symm, (List.cons.inj hlast).1.symm, rfl⟩
  · rw [List.concat_eq_append, ← List.cons_append, ← List.append_assoc] at h
    exact .inr ⟨others, (List.append_inj' h rfl).1⟩

/-- The gap that the lexer may be in. -/
def Lexer.Mode.gap : Mode → Gap
  | .slash => .slash
  | .comment star _ => .comment star
  | _ => .out

theorem Lexer.Mode.gap_eq_out {mode : Mode} (hmode : mode.isComment = false) (hslash : mode ≠ .slash) :
    mode.gap = .out := by
  cases mode with
  | slash => exact absurd rfl hslash
  | comment star read => cases hmode
  | ground | text _ | quoted _ _ _ => rfl

namespace Scanner

variable {fragment : Fragment}

/-- The statement stands where its extent says, after the earlier ones. -/
def Cut (source : Text) (earlier : List Statement) (statement : Statement) : Prop :=
  ∃ u v w outline, source = u ++ v ++ w ∧ statement.extent = ⟨u.length, (u ++ v).length⟩ ∧
    (initial.run u).Settled outline ∧ (initial.run u).reading.statements = earlier ∧
    (initial.run (u ++ v)).Settled (outline.add [statement.text] .nil)

/-- After the last mark of a fragment that is no blank, a gap has been read. -/
def Trails (source : Text) (fragment : Fragment) (gap : Gap) : Prop :=
  ∀ mark ∈ (Fragment.trimEnd fragment).getLast?, ∃ before after, source = before ++ after ∧
    mark.2 + 1 = before.length ∧ Gap.out.read after = some gap

/-- Before the first mark of a fragment, the scanner was idle. -/
def Begins (source : Text) (fragment : Fragment) (reading : Reading) : Prop :=
  ∀ mark ∈ fragment.head?, (∀ other ∈ fragment, mark.2 ≤ other.2) ∧
    ∃ before after, source = before ++ after ∧ mark.2 = before.length ∧ (initial.run before).Idle ∧
      ∃ pending, (initial.run before).reading = { reading with pending := pending }

/-- A scanner that has read a source knows where in it things are. -/
structure Located (source : Text) (scanner : Scanner) : Prop where
  placed : scanner.Placed
  begun : Begins source scanner.gathering scanner.reading
  /-- A slash may turn out to begin a comment. -/
  trails : Trails source (if scanner.mode = .slash then scanner.reading.pending else scanner.gathering)
    scanner.mode.gap
  cut : ∀ earlier statement later, scanner.reading.statements = earlier ++ statement :: later →
    Cut source earlier statement

theorem Cut.append {source : Text} {earlier : List Statement} {statement : Statement}
    (h : Cut source earlier statement) (more : Text) : Cut (source ++ more) earlier statement := by
  obtain ⟨u, v, w, outline, rfl, hrest⟩ := h
  exact ⟨u, v, w ++ more, outline, by simp only [List.append_assoc], hrest⟩

theorem Trails.append {source more : Text} {gap after : Gap}
    (h : Trails source fragment gap) (hread : gap.read more = some after) :
    Trails (source ++ more) fragment after := by
  intro mark hmark
  obtain ⟨before, rest, rfl, hstop, hgap⟩ := h mark hmark
  refine ⟨before, rest ++ more, List.append_assoc _ _ _, hstop, ?_⟩
  rw [Gap.read_append, hgap, Option.bind_some, hread]

theorem Begins.append {source : Text} {reading : Reading}
    (h : Begins source fragment reading) (more : Text) {fragment' : Fragment}
    (hhead : ∀ mark ∈ fragment'.head?, mark ∈ fragment.head?)
    (hmarks : ∀ mark ∈ fragment', mark.2 = source.length ∨ ∃ same ∈ fragment, same.2 = mark.2)
    (pending : Fragment) : Begins (source ++ more) fragment' { reading with pending := pending } := by
  intro mark hmark
  obtain ⟨hle, before, after, rfl, hstart, hidle, pending', hreading⟩ := h mark (hhead mark hmark)
  refine ⟨fun other hother => ?_, before, after ++ more, List.append_assoc _ _ _, hstart, hidle, pending', hreading⟩
  rcases hmarks other hother with heq | ⟨same, hsame, heq⟩
  · rw [heq, hstart, List.length_append]
    exact Nat.le_add_right _ _
  · exact (hle same hsame).trans_eq heq

variable {source : Text} {c : Char} {t : Text} {scanner : Scanner}

/-- A character that is no blank is the last mark. -/
theorem trails_solid {offset : Nat} (hc : isBlank c = false)
    (hoffset : offset + 1 = source.length) : Trails source (Fragment.collect fragment [c] offset) .out := by
  intro mark hmark
  rw [Fragment.collect_solid hc, Fragment.trimEnd_append_solid hc, List.getLast?_concat] at hmark
  obtain rfl := Option.mem_some.mp hmark
  exact ⟨source, [], (List.append_nil _).symm, hoffset, rfl⟩

theorem Trails.collect {offset : Nat} (h : Trails source fragment .out)
    (hoffset : offset = source.length) : Trails (source ++ [c]) (Fragment.collect fragment [c] offset) .out := by
  cases hc : isBlank c with
  | false =>
    refine trails_solid hc ?_
    rw [hoffset, List.length_append, List.length_singleton]
  | true =>
    have hread : Gap.out.read [c] = some .out := by simp [Gap.read, Gap.next, hc]
    have happend := h.append hread
    rwa [Trails, ← Fragment.trimEnd_collect_blank hc fragment offset] at happend

/-- Outside of comments nothing is in doubt but a slash at the end. -/
theorem Located.trails_gathering (h : Located source (initial.run source))
    (hmode : (initial.run source).mode.isComment = false) : Trails source (initial.run source).gathering .out := by
  by_cases hslash : (initial.run source).mode = .slash
  · rw [(gathering_step_star hslash).1]
    refine trails_solid (by decide) ?_
    have hplaced := h.placed hmode (by rw [hslash]; exact Mode.noConfusion)
    rw [hslash] at hplaced
    exact hplaced.trans (offset_run_initial source)
  · have htrails := h.trails
    rwa [if_neg hslash, Mode.gap_eq_out hmode hslash] at htrails

theorem located_initial : Located [] initial where
  placed := fun _ h => absurd rfl h
  begun := fun mark hmark => by cases hmark
  trails := fun mark hmark => by cases hmark
  cut := fun earlier statement later h => by simp [initial, Reading.start] at h

section

variable (h : Located source (initial.run source))
variable {outline : Outline}

include h

theorem Located.step_plain (hfollows : (initial.run source).Follows t)
    (hwell : WellFormed (initial.run source).reading.problems)
    (hmode : (initial.run source).mode.isComment = false) {scan : Scan}
    (hnext : (initial.run source).mode.scan.next c = some scan) :
    Located (source ++ [c]) ((initial.run source).step c) := by
  obtain ⟨hgathering, hplaced, hslash⟩ := gathering_step h.placed hmode hnext
  obtain ⟨-, hafter, -, pending, hreading⟩ := hfollows.step hmode hnext
  refine ⟨hplaced, ?_, ?_, ?_⟩
  · rw [hgathering, hreading]
    by_cases hnil : (initial.run source).gathering = []
    · -- the clause begins here
      intro mark hmark
      cases hc : isBlank c with
      | true =>
        rw [hnil, Fragment.collect_blank hc] at hmark
        cases hmark
      | false =>
        rw [hnil, Fragment.collect_solid hc] at hmark ⊢
        obtain rfl := Option.mem_some.mp hmark
        refine ⟨by simp, source, [c], rfl, offset_run_initial source, ⟨hmode, ⟨t, ?_, hfollows⟩, hwell⟩, _, rfl⟩
        obtain ⟨w, hw, heq⟩ := Text.exists_trimStart t
        rw [← text_gathering hfollows, hnil, Fragment.text, List.map_nil, List.append_nil] at heq
        rw [heq]
        exact hw
    · rw [Fragment.collect, if_neg hnil]
      refine h.begun.append [c] (fun mark hmark => ?_) (fun mark hmark => ?_) pending
      · rwa [List.head?_append_of_ne_nil _ hnil] at hmark
      · rcases List.mem_append.mp hmark with hmark | hmark
        · exact .inr ⟨mark, hmark, rfl⟩
        · exact .inl (by rw [List.mem_singleton.mp hmark]; exact offset_run_initial source)
  · split
    next heq =>
      obtain ⟨rfl, hpending⟩ := hslash heq
      rw [hpending, heq]
      exact (h.trails_gathering hmode).append rfl
    next hne =>
      rw [hgathering, Mode.gap_eq_out hafter hne]
      exact (h.trails_gathering hmode).collect (offset_run_initial source)
  · intro earlier statement later hstatements
    rw [hreading] at hstatements
    exact (h.cut earlier statement later hstatements).append [c]

theorem Located.step_comment {star : Bool} {read : Text} (hmode : (initial.run source).mode = .comment star read)
    (c : Char) : Located (source ++ [c]) ((initial.run source).step c) := by
  obtain ⟨hgathering, hplaced, pending, hreading⟩ := gathering_step_comment hmode c
  obtain ⟨hafter, -⟩ := step_of_comment hmode c
  refine ⟨hplaced, ?_, ?_, ?_⟩
  · rw [hgathering, hreading]
    exact h.begun.append [c] (fun mark hmark => hmark) (fun mark hmark => .inr ⟨mark, hmark, rfl⟩) pending
  · have htrails := h.trails
    rw [hmode, if_neg Mode.noConfusion] at htrails
    have hnext : Gap.read (.comment star) [c] = some ((initial.run source).step c).mode.gap := by
      rw [hafter]
      simp only [Gap.read, Gap.next, Option.bind_some]
      split <;> rfl
    have hslash : ((initial.run source).step c).mode ≠ .slash := by
      rw [hafter]
      split <;> exact Mode.noConfusion
    rw [if_neg hslash, hgathering]
    exact htrails.append hnext
  · intro earlier statement later hstatements
    rw [hreading] at hstatements
    exact (h.cut earlier statement later hstatements).append [c]

theorem Located.step_star (hmode : (initial.run source).mode = .slash) :
    Located (source ++ ['*']) ((initial.run source).step '*') := by
  obtain ⟨hgathering, hgathering', hplaced⟩ := gathering_step_star hmode
  obtain ⟨hafter, hreading⟩ := step_of_slash hmode
  refine ⟨hplaced, ?_, ?_, ?_⟩
  · rw [hgathering', hreading]
    rw [Fragment.collect_blank (by decide)]
    split
    · exact fun mark hmark => by cases hmark
    next hne =>
      have hslash : (initial.run source).gathering = _ ++ [('/', (initial.run source).first)] :=
        hgathering.trans (Fragment.collect_solid (by decide) _ _)
      refine h.begun.append ['*'] (fun mark hmark => ?_) (fun mark hmark => ?_)
        (initial.run source).reading.pending
      · rw [hslash, List.head?_append_of_ne_nil _ hne]
        rwa [List.head?_append_of_ne_nil _ hne] at hmark
      · refine .inr ?_
        rw [hslash]
        rcases List.mem_append.mp hmark with hmark | hmark
        · exact ⟨mark, List.mem_append_left _ hmark, rfl⟩
        · refine ⟨_, List.mem_append_right _ (List.mem_singleton.mpr rfl), ?_⟩
          rw [List.mem_singleton.mp hmark]
  · have htrails := h.trails
    rw [if_pos hmode, hmode] at htrails
    have happend : Trails (source ++ ['*']) _ (.comment false) := htrails.append rfl
    rw [hafter, if_neg Mode.noConfusion, hgathering', Trails, Fragment.trimEnd_collect_blank (by decide)]
    exact happend
  · intro earlier statement later hstatements
    rw [hreading] at hstatements
    exact (h.cut earlier statement later hstatements).append ['*']

/-- A clause at the top level began where the scanner was settled. -/
theorem Located.exists_start (hrests : (initial.run source).Rests t outline) (hne : Text.trim t ≠ []) :
    ∃ mark rest u v, Fragment.trimEnd (initial.run source).gathering = mark :: rest ∧
      (∀ other ∈ (initial.run source).gathering, mark.2 ≤ other.2) ∧ source = u ++ v ∧ mark.2 = u.length ∧
      (initial.run u).Settled outline ∧
      (initial.run u).reading.statements = (initial.run source).reading.statements := by
  obtain ⟨mark, rest, hmarks⟩ : ∃ mark rest, Fragment.trimEnd (initial.run source).gathering = mark :: rest := by
    refine List.exists_cons_of_ne_nil fun hnil => hne ?_
    rw [← text_trimEnd_gathering hrests.follows, hnil]
    rfl
  obtain ⟨hle, u, v, hsource, hstart, hidle, pending, hreading⟩ :=
    h.begun mark (Fragment.head?_of_trimEnd hmarks)
  refine ⟨mark, rest, u, v, hmarks, hle, hsource, hstart, ⟨hidle, ?_, hrests.top⟩, by rw [hreading]⟩
  rw [hreading]
  exact (Reading.sketch_eq_some.mp hrests.sketch).2

/-- The statement that a semicolon ends. -/
theorem Located.cut_closed (hrests : (initial.run source).Rests t outline)
    (hsign : (Text.trim t).head? = some '@') :
    Cut (source ++ [';']) (initial.run source).reading.statements
      (Reading.statementOf (Fragment.trimEnd (initial.run source).gathering) (some (source.length + 1))) := by
  have hne : Text.trim t ≠ [] := fun hnil => by
    rw [hnil] at hsign
    cases hsign
  obtain ⟨mark, rest, u, v, hmarks, -, hsource, hstart, hsettled, hstatements⟩ := h.exists_start hrests hne
  have hreaches : (initial.run source).Reaches (outline.add [Text.squeeze (Text.trim t)] .nil) := by
    refine ⟨t, outline, hrests, ?_⟩
    rw [Outline.flush_of_top hrests.top, if_neg hne, if_pos hsign]
  refine ⟨u, v ++ [';'], [], outline, ?_, ?_, hsettled, hstatements, ?_⟩
  · rw [List.append_nil, ← List.append_assoc, ← hsource]
  · rw [← List.append_assoc, ← hsource, List.length_append, hmarks, ← hstart]
    rfl
  · rw [← List.append_assoc, ← hsource, run_append]
    have hafter := hreaches.step_semicolon
    rwa [← text_trimEnd_gathering hrests.follows] at hafter

/-- The statement at the end that has no semicolon. -/
theorem Located.cut_open (hrests : (initial.run source).Rests t outline) (hne : Text.trim t ≠ []) :
    ∃ u v w, source = u ++ v ++ w ∧
      (Reading.statementOf (Fragment.trimEnd (initial.run source).gathering) none).extent =
        ⟨u.length, (u ++ v).length⟩ ∧
      (initial.run u).Settled outline ∧
      (initial.run u).reading.statements = (initial.run source).reading.statements ∧
      Gap.out.read w = some .out := by
  obtain ⟨mark, rest, u, v, hmarks, hle, hsource, hstart, hsettled, hstatements⟩ := h.exists_start hrests hne
  have hlast := List.getLast?_eq_getLast_of_ne_nil (List.cons_ne_nil mark rest)
  generalize (mark :: rest).getLast _ = last at hlast
  obtain ⟨before, w, hsource', hstop, hgap⟩ :=
    h.trails_gathering hrests.mode last (by rw [hmarks, hlast]; rfl)
  -- the last mark does not stand before the first one
  have hlength : u.length ≤ before.length := by
    have hmem := hle last ((Fragment.prefix_trimEnd _).subset (by rw [hmarks]; exact List.mem_of_getLast? hlast))
    omega
  obtain ⟨v', rfl⟩ : u <+: before :=
    List.prefix_of_prefix_length_le ⟨v, hsource.symm⟩ ⟨w, hsource'.symm⟩ hlength
  refine ⟨u, v', w, hsource', ?_, hsettled, hstatements, hgap⟩
  rw [hmarks, ← hstop, ← hstart]
  simp only [Reading.statementOf, Fragment.range, hlast, Option.getD_none, Option.map_some, Option.getD_some,
    List.head?_cons]

theorem Located.step_structural (hfollows : (initial.run source).Follows t)
    (hmode : (initial.run source).mode.isComment = false)
    (hscan : (initial.run source).mode.scan.isOutside = true) (hc : isStructural c = true)
    (hwell : WellFormed ((initial.run source).step c).reading.problems) :
    Located (source ++ [c]) ((initial.run source).step c) := by
  have hbefore : WellFormed (initial.run source).reading.problems :=
    hwell.of_prefix (grows_step _ c).problems
  have hstep := Scanner.step_structural hmode hscan hc
  have hgathering : ((initial.run source).step c).gathering = [] := by
    rw [hstep, gathering, Reading.pending_step_structural _ hc]
    rfl
  have hground : ((initial.run source).step c).mode = .ground := by rw [hstep]
  refine ⟨fun _ hne => absurd hground hne, ?_, ?_, ?_⟩
  · intro mark hmark
    rw [hgathering] at hmark
    cases hmark
  · intro mark hmark
    rw [hground, if_neg Mode.noConfusion, hgathering] at hmark
    cases hmark
  · intro earlier statement later hstatements
    rw [hstep] at hwell hstatements
    rcases Reading.statements_step hc _ hwell with hsame | ⟨rfl, hblocks, hsign, hadded⟩
    · rw [hsame] at hstatements
      exact (h.cut earlier statement later hstatements).append [c]
    · rw [hadded] at hstatements
      rcases eq_or_of_append_singleton hstatements with ⟨rfl, rfl, -⟩ | ⟨others, hothers⟩
      · rw [offset_run_initial]
        have hrests : (initial.run source).Rests t (initial.run source).reading.outline :=
          ⟨hmode, hscan, hfollows, Reading.sketch_eq_some.mpr ⟨hbefore, rfl⟩,
            Reading.blocks_outline_eq_nil.mpr hblocks⟩
        refine h.cut_closed hrests ?_
        rw [← hsign, Reading.collected, text_trimEnd_gathering hfollows]
      · exact (h.cut earlier statement others hothers).append [';']

end

theorem located_run (source : Text) (hwell : WellFormed (initial.run source).reading.problems) :
    Located source (initial.run source) := by
  induction source using List.reverseRecOn with
  | nil => exact located_initial
  | append_singleton source c ih =>
    rw [run_append] at hwell ⊢
    have hbefore : WellFormed (initial.run source).reading.problems :=
      hwell.of_prefix (grows_step _ c).problems
    have h := ih hbefore
    obtain ⟨t, hfollows⟩ := exists_follows hbefore
    cases hcomment : (initial.run source).mode.isComment with
    | true =>
      obtain ⟨read, hread⟩ := (initial.run source).mode.eq_comment hcomment
      exact h.step_comment hread c
    | false =>
      cases hnext : (initial.run source).mode.scan.next c with
      | some scan => exact h.step_plain hfollows hbefore hcomment hnext
      | none =>
        rcases of_next_eq_none hnext with ⟨hscan, hc⟩ | ⟨hslash, rfl⟩ | ⟨quote, escaped, read, hquoted, rfl⟩
        · exact h.step_structural hfollows hcomment hscan hc hwell
        · exact h.step_star hslash
        · exact absurd hwell (not_wellFormed_step_newline hquoted)

end Scanner

/-! ## Sheets -/

variable {source : Text}

theorem Scanner.Settled.statements_parse {outline : Outline} (h : (Scanner.initial.run source).Settled outline) :
    (Sheet.parse source).statements = (Scanner.initial.run source).reading.statements := by
  obtain ⟨w, hw, hfollows⟩ := h.idle.blank
  have hscan : (Scanner.initial.run source).mode.scan.isOutside = true := by
    rw [h.idle.scan]
    rfl
  have hblank : (Scanner.initial.run source).close.collected = [] := by
    rw [hfollows.collected_close h.idle.mode hscan, Text.trim, Text.trimStart_blank hw]
    rfl
  obtain ⟨pending, hclose, -⟩ := hfollows.close h.idle.mode hscan
  rw [Sheet.parse_eq]
  show (Scanner.initial.run source).close.finish.statements = _
  rw [Reading.statements_finish, Reading.flush_of_blank hblank, hclose]

section

variable {earlier later : List Statement} {statement : Statement}

/-- The extent of a statement cuts it out of its source, and the source is what is before it, the statement and what
is after it. -/
def Statement.Parts (statement : Statement) (source : Text) (earlier : List Statement) : Prop :=
  ∃ u v w outline more forest, source = u ++ v ++ w ∧ statement.extent = ⟨u.length, (u ++ v).length⟩ ∧
    (Scanner.initial.run u).Settled outline ∧ (Sheet.parse u).statements = earlier ∧ Ends w more forest ∧
    (Sheet.parse source).outline = (outline.add [statement.text] .nil).add more forest

/-- A statement with its semicolon. -/
theorem Scanner.Cut.parts (h : Scanner.Cut source earlier statement)
    (hwell : (Sheet.parse source).isMalformed = false) : statement.Parts source earlier := by
  obtain ⟨u, v, w, outline, rfl, hextent, hbefore, hearlier, hafter⟩ := h
  have hreaches := reaches_of_outline (Sheet.isMalformed_iff.mp hwell)
  rw [Scanner.run_append] at hreaches
  obtain ⟨more, forest, hends, houtline⟩ := hafter.ends hreaches
  exact ⟨u, v, w, outline, more, forest, rfl, hextent, hbefore, hbefore.statements_parse.trans hearlier, hends,
    houtline⟩

theorem Statement.parts_of_statements (h : (Sheet.parse source).isMalformed = false)
    (hstatements : (Sheet.parse source).statements = earlier ++ statement :: later) :
    statement.Parts source earlier := by
  obtain ⟨t, outline, hrests, hflush⟩ := reaches_of_outline (Sheet.isMalformed_iff.mp h)
  obtain ⟨hwell, houtline⟩ := Reading.sketch_eq_some.mp hrests.sketch
  have hlocated := Scanner.located_run source hwell
  have hclose := Scanner.close_of_outside hrests.mode hrests.outside
  have hparse : (Sheet.parse source).statements = (Reading.flush
      { (Scanner.initial.run source).reading with pending := (Scanner.initial.run source).gathering }
      none).statements := by
    rw [Sheet.parse_eq, ← hclose]
    exact Reading.statements_finish _
  rw [hparse, Reading.statements_flush] at hstatements
  split at hstatements
  case isFalse => exact (hlocated.cut earlier statement later hstatements).parts h
  next hends =>
  obtain ⟨-, hsign⟩ := hends
  rcases eq_or_of_append_singleton hstatements with ⟨rfl, rfl, -⟩ | ⟨others, hothers⟩
  · -- the statement has no semicolon
    rw [Reading.collected, Scanner.text_trimEnd_gathering hrests.follows] at hsign
    have hne : Text.trim t ≠ [] := fun hnil => by
      rw [hnil] at hsign
      cases hsign
    obtain ⟨u, v, w, hsource, hextent, hsettled, hearlier, hgap⟩ := hlocated.cut_open hrests hne
    rw [Outline.flush_of_top hrests.top, if_neg hne, if_pos hsign] at hflush
    refine ⟨u, v, w, outline, [], .nil, hsource, hextent, hsettled, hsettled.statements_parse.trans hearlier,
      ends_gap (Gap.mark_of_read hgap), ?_⟩
    rw [Outline.add_nil, ← Option.some.inj hflush, ← Scanner.text_trimEnd_gathering hrests.follows]
    rfl
  · exact (hlocated.cut earlier statement others hothers).parts h

end

end Sitewright.Style
