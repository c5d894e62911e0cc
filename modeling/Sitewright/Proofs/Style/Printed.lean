import Sitewright.Proofs.Style.Clauses

/-!
Reading printed blocks. Where a scanner is idle, that is between two blocks with nothing but blanks
collected, a printed rule adds one rule to the innermost open block, a printed block adds a rule with what
its body adds, and lines add what they add one after another (`Adds`).
-/

namespace Sitewright

namespace Style

open Lexer

/-! ## Printable parts -/

/-- The text is read as a head in a context, in the same words. -/
structure ReadsAs (context : Context) (text : Text) (head : Head) : Prop where
  plain : Plain text
  trimmed : Text.Trimmed text
  ne_nil : text ≠ []
  squeezed : Text.squeeze text = text
  reads : headOf context text = head
  meaning : head ≠ .transparent

/-- The declaration can be read back. -/
structure Declaration.Printable (declaration : Declaration) : Prop where
  property_ne : declaration.property ≠ []
  solid : ∀ c ∈ declaration.property, isBlank c = false
  colon : ':' ∉ declaration.property
  sign : declaration.property.head? ≠ some '@'
  value_ne : declaration.value ≠ []
  trimmed : Text.Trimmed declaration.value
  plain : Plain (declaration.property ++ ':' :: ' ' :: declaration.value)

/-- The text is read as a statement, in the same words. -/
structure PrintableStatement (text : Text) : Prop where
  plain : Plain text
  trimmed : Text.Trimmed text
  squeezed : Text.squeeze text = text
  sign : text.head? = some '@'

namespace Declaration.Printable

variable {declaration : Declaration}

theorem trimmed_line (h : declaration.Printable) :
    Text.Trimmed (declaration.property ++ ':' :: ' ' :: declaration.value) := by
  constructor
  · rw [List.head?_append_of_ne_nil _ h.property_ne]
    exact fun c hc => h.solid c (List.mem_of_mem_head? hc)
  · have heq : declaration.property ++ ':' :: ' ' :: declaration.value =
        (declaration.property ++ [':', ' ']) ++ declaration.value := by simp
    rw [heq, List.getLast?_append_of_ne_nil _ h.value_ne]
    exact h.trimmed.last

/-- Where a selector encloses it, the declaration is read back. -/
theorem read (h : declaration.Printable) {context : Context} (htop : context.atTop = false)
    (hselector : context.hasSelector = true) {fragment : Fragment}
    (htext : Fragment.text fragment = declaration.property ++ ':' :: ' ' :: declaration.value) :
    ∃ range findings, readDeclaration context fragment =
      (some ⟨declaration.property, declaration.value, range⟩, findings) ∧ WellFormed findings.problems := by
  obtain ⟨before, after, hsplit, hbefore, hafter⟩ := splitColon_of_text htext h.colon
  have hproperty : Text.trim (Fragment.text before) = declaration.property := by
    rw [hbefore]
    refine Text.Trimmed.trim_eq ⟨fun c hc => h.solid c (List.mem_of_mem_head? hc), fun c hc => ?_⟩
    exact h.solid c (List.mem_of_getLast? hc)
  have hvalue : Fragment.text (Fragment.trimEnd (Fragment.trimStart after)) = declaration.value := by
    rw [Reading.text_trimEnd, Fragment.text_trimStart, hafter, ← List.singleton_append,
      Text.trimStart_append_left (by decide : Text.allBlank [' '] = true)]
    exact h.trimmed.trim_eq
  have hblank : declaration.property.any isBlank = false := by
    simpa using h.solid
  refine ⟨Fragment.range fragment, variableFindings (Fragment.trimEnd (Fragment.trimStart after)), ?_,
    wellFormed_variableFindings _⟩
  simp only [readDeclaration, hsplit, hproperty, hvalue, h.property_ne, hblank, h.value_ne, htop, hselector,
    Bool.false_eq_true, or_self, if_false, if_true]

end Declaration.Printable

namespace Outline

variable {outline flushed : Outline} {text : Text}

theorem openBrace_readsAs {head : Head} (h : ReadsAs (contextOf outline.blocks) text head) :
    outline.openBrace text = some (outline.push head text) := by
  have hhead : (readHead (contextOf outline.blocks) [] text).1 = head := (readHead_fst ..).trans h.reads
  rw [openBrace, h.squeezed, h.reads, if_pos ⟨h.ne_nil, wellFormed_readHead (hhead ▸ h.meaning)⟩]

theorem flush_statement (h : PrintableStatement text) (htop : outline.blocks = []) :
    outline.flush text = some (outline.add [text] .nil) := by
  have hne : text ≠ [] := by
    rintro rfl
    cases h.sign
  rw [flush_of_top htop, if_neg hne, if_pos h.sign, h.squeezed]

theorem flush_printable {declaration : Declaration} (h : declaration.Printable)
    (htop : (contextOf outline.blocks).atTop = false) (hselector : (contextOf outline.blocks).hasSelector = true) :
    outline.flush (declaration.property ++ ':' :: ' ' :: declaration.value) =
      some (outline.declare [declaration.bare]) := by
  have hsign : (declaration.property ++ ':' :: ' ' :: declaration.value).head? ≠ some '@' := by
    rw [List.head?_append_of_ne_nil _ h.property_ne]
    exact h.sign
  obtain ⟨range, findings, hread, hfindings⟩ := h.read htop hselector (Fragment.text_zipIdx _ 0)
  rw [flush, if_neg (by simp), if_neg hsign, hread]
  exact if_pos hfindings

theorem closeBrace_of_flush (hflush : outline.flush text = some flushed)
    (htop : (contextOf outline.blocks).atTop = false) : outline.closeBrace text = some flushed.close := by
  rw [closeBrace, hflush, Option.bind_some, if_neg]
  intro hnil
  have hlength := length_blocks_of_flush hflush
  rw [hnil, List.length_nil, eq_comm, List.length_eq_zero_iff] at hlength
  rw [hlength] at htop
  cases htop

end Outline

/-! ## Idle scanners -/

theorem Plain.pad {text w w' : Text} (h : Plain text) (hw : Text.allBlank w = true)
    (hw' : Text.allBlank w' = true) : Plain (w ++ text ++ w') := by
  obtain ⟨scan, hread, hscan⟩ := plain_iff.mp h
  have hstart : Scan.out.read w = some .out := by
    rw [Scan.read_blanks rfl hw]
    split <;> rfl
  refine plain_iff.mpr ⟨if w' = [] then scan else .out, ?_, ?_⟩
  · rw [Scan.read_append, Scan.read_append, hstart, Option.bind_some, hread, Option.bind_some,
      Scan.read_blanks hscan hw']
  · split
    · exact hscan
    · rfl

namespace Scanner

/-- Nothing but blanks is collected, and nothing is malformed. -/
structure Idle (scanner : Scanner) : Prop where
  mode : scanner.mode.isComment = false
  blank : ∃ w, Text.allBlank w = true ∧ scanner.Follows w
  wellFormed : WellFormed scanner.reading.problems

theorem idle_ground {first offset : Nat} {reading : Reading} (hpending : reading.pending = [])
    (hwell : WellFormed reading.problems) : Idle ⟨.ground, first, offset, reading⟩ :=
  ⟨rfl, ⟨[], rfl, follows_nil hpending⟩, hwell⟩

variable {scanner : Scanner}

theorem Idle.pending (h : scanner.Idle) : scanner.reading.pending = [] := by
  obtain ⟨w, hw, ⟨before, hbefore, rfl⟩, -⟩ := h.blank
  rw [Text.allBlank_append, Bool.and_eq_true] at hw
  rw [Text.trimStart_blank hw.1] at hbefore
  exact List.map_eq_nil_iff.mp hbefore

theorem Idle.scan (h : scanner.Idle) : scanner.mode.scan = .out := by
  obtain ⟨w, hw, hfollows⟩ := h.blank
  have hread := hfollows.scanned
  rw [Scan.read_blanks rfl hw, Option.some.injEq] at hread
  rw [← hread]
  split <;> rfl

theorem Idle.run_blanks (h : scanner.Idle) {w : Text} (hw : Text.allBlank w = true) :
    (scanner.run w).Idle ∧ (scanner.run w).reading = scanner.reading := by
  obtain ⟨before, hbefore, hfollows⟩ := h.blank
  have hread : scanner.mode.scan.read w = some .out := by
    rw [h.scan, Scan.read_blanks rfl hw]
    split <;> rfl
  obtain ⟨hfollows, hmode, -, pending, hreading⟩ := hfollows.run h.mode hread
  have hidle : (scanner.run w).Idle := by
    refine ⟨hmode, ⟨_, ?_, hfollows⟩, ?_⟩
    · rw [Text.allBlank_append, hbefore, hw]
      rfl
    · rw [hreading]
      exact h.wellFormed
  refine ⟨hidle, ?_⟩
  have hpending := hidle.pending
  rw [hreading] at hpending ⊢
  rw [show pending = scanner.reading.pending from hpending.trans h.pending.symm]

end Scanner

/-! ## Effects of text -/

/-- Reading the text in a context has an effect on the outline. -/
def Reads (context : Context) (text : Text) (effect : Outline → Outline) : Prop :=
  ∀ scanner : Scanner, scanner.Idle → contextOf scanner.reading.blocks = context →
    (scanner.run text).Idle ∧ (scanner.run text).reading.outline = effect scanner.reading.outline

/-- Reading the text in a context adds statements and closed blocks. -/
def Adds (context : Context) (text : Text) (statements : List Text) (forest : Forest Rule) : Prop :=
  Reads context text (Outline.add statements forest)

section

variable {context : Context}
variable {head : Head} {statements : List Text} {text : Text}

theorem adds_blanks {w : Text} (hw : Text.allBlank w = true) : Adds context w [] .nil := by
  intro scanner hidle _
  obtain ⟨hrun, hreading⟩ := hidle.run_blanks hw
  exact ⟨hrun, by rw [hreading, Outline.add_nil]⟩

theorem Reads.append {a b : Text} {inner : Context} {f g : Outline → Outline} (ha : Reads context a f)
    (hinner : ∀ outline : Outline, contextOf outline.blocks = context → contextOf (f outline).blocks = inner)
    (hb : Reads inner b g) : Reads context (a ++ b) (g ∘ f) := by
  intro scanner hidle hcontext
  obtain ⟨hfirst, houtline⟩ := ha scanner hidle hcontext
  have hnext : contextOf (scanner.run a).reading.blocks = inner := by
    have h := hinner scanner.reading.outline (by rw [← hcontext]; exact contextOf_bare _)
    rw [← houtline] at h
    exact (contextOf_bare _).symm.trans h
  obtain ⟨hsecond, houtline'⟩ := hb _ hfirst hnext
  rw [Scanner.run_append, houtline', houtline]
  exact ⟨hsecond, rfl⟩

theorem Adds.append {a b : Text} {more : List Text} {f g : Forest Rule}
    (ha : Adds context a statements f) (hb : Adds context b more g) :
    Adds context (a ++ b) (statements ++ more) (f ++ g) := by
  have h := Reads.append ha (fun outline h => (outline.contextOf_add statements f).trans h) hb
  intro scanner hidle hcontext
  obtain ⟨hrun, houtline⟩ := h scanner hidle hcontext
  exact ⟨hrun, houtline.trans (Outline.add_add _ _ _ _ _)⟩

/-! ## Clauses -/

variable {w w' : Text}

/-- Text between blanks is read at the brace or semicolon after it. -/
theorem reads_clause (hplain : Plain text) (ht : Text.Trimmed text)
    (hw : Text.allBlank w = true) (hw' : Text.allBlank w' = true) {c : Char} (hc : isStructural c = true)
    {effect : Outline → Outline}
    (hclause : ∀ outline : Outline, contextOf outline.blocks = context →
      outline.clause c text = some (effect outline)) :
    Reads context (w ++ text ++ w' ++ [c]) effect := by
  intro scanner hidle hcontext
  obtain ⟨scan, hread, hscan⟩ := plain_iff.mp (hplain.pad hw hw')
  obtain ⟨blanks, hblanks, hfollows⟩ := hidle.blank
  rw [← hidle.scan] at hread
  obtain ⟨hfollows, hmode, hend, pending, hreading⟩ := hfollows.run hidle.mode hread
  obtain ⟨hground, hnone, hsketch⟩ := hfollows.sketch_step hmode (hend ▸ hscan) hc
  have hstart : (scanner.run (w ++ text ++ w')).reading.sketch = some scanner.reading.outline := by
    rw [hreading]
    exact Reading.sketch_eq_some.mpr ⟨hidle.wellFormed, rfl⟩
  rw [hstart, Option.bind_some, Text.trim_append_left hblanks, ht.trim_pad hw hw',
    hclause _ ((contextOf_bare _).trans hcontext)] at hsketch
  obtain ⟨hwell, houtline⟩ := Reading.sketch_eq_some.mp hsketch
  rw [Scanner.run_append]
  exact ⟨⟨congrArg Mode.isComment hground, ⟨[], rfl, hnone⟩, hwell⟩, houtline⟩

theorem reads_open (h : ReadsAs context text head) (hw : Text.allBlank w = true) (hw' : Text.allBlank w' = true) :
    Reads context (w ++ text ++ w' ++ ['\x7b']) (Outline.push head text) := by
  refine reads_clause h.plain h.trimmed hw hw' (by decide) ?_
  rintro outline rfl
  exact Outline.openBrace_readsAs h

theorem adds_statement (h : PrintableStatement text) (hw : Text.allBlank w = true)
    (hw' : Text.allBlank w' = true) : Adds .top (w ++ text ++ w' ++ [';']) [text] .nil := by
  refine reads_clause h.plain h.trimmed hw hw' (by decide) fun outline hcontext => Outline.flush_statement h ?_
  rw [← List.isEmpty_iff, ← atTop_contextOf, hcontext]
  rfl

section

variable {declaration : Declaration} (h : declaration.Printable) (htop : context.atTop = false)
  (hselector : context.hasSelector = true) (hw : Text.allBlank w = true) (hw' : Text.allBlank w' = true)
include h htop hselector hw hw'

theorem reads_declaration :
    Reads context (w ++ (declaration.property ++ ':' :: ' ' :: declaration.value) ++ w' ++ [';'])
      (Outline.declare [declaration.bare]) := by
  refine reads_clause h.plain h.trimmed_line hw hw' (by decide) ?_
  rintro outline rfl
  exact Outline.flush_printable h htop hselector

theorem reads_last_declaration :
    Reads context (w ++ (declaration.property ++ ':' :: ' ' :: declaration.value) ++ w' ++ ['\x7d'])
      (Outline.close ∘ Outline.declare [declaration.bare]) := by
  refine reads_clause h.plain h.trimmed_line hw hw' (by decide) ?_
  rintro outline rfl
  exact Outline.closeBrace_of_flush (Outline.flush_printable h htop hselector) htop

end

theorem reads_close (htop : context.atTop = false) (hw : Text.allBlank w = true) :
    Reads context (w ++ ['\x7d']) Outline.close := by
  have h : Reads context (w ++ [] ++ [] ++ ['\x7d']) Outline.close := by
    refine reads_clause (plain_iff.mpr ⟨.out, rfl, rfl⟩) (Text.trimmed_trim []) hw rfl (by decide) ?_
    rintro outline rfl
    exact Outline.closeBrace_of_flush (if_pos rfl) htop
  simpa using h

/-! ## Blocks -/

theorem allBlank_indent (depth : Nat) : Text.allBlank (indent depth) = true := by
  rw [indent, Text.repeated]
  induction depth with
  | zero => rfl
  | succ depth ih => rw [List.replicate_succ, List.flatten_cons, Text.allBlank_append, ih]; rfl

theorem atTop_inside (context : Context) (head : Head) : (context.inside head).atTop = false := by
  cases head <;> rfl

theorem Reads.congr {text' : Text} {f g : Outline → Outline} (h : Reads context text f)
    (htext : text' = text) (heffect : ∀ outline, f outline = g outline) : Reads context text' g := by
  obtain rfl : f = g := funext heffect
  rw [htext]
  exact h

/-- A printed block adds one rule with what its body adds. -/
theorem adds_braces {body : Text} {forest : Forest Rule} (h : ReadsAs context text head)
    (hbody : Adds (context.inside head) body [] forest) (depth : Nat) :
    Adds context (formatBraces depth text body) [] (.tree ⟨head, text, ⟨0, 0⟩, []⟩ forest) := by
  have hopen := reads_open h (allBlank_indent depth) (by decide : Text.allBlank [' '] = true)
  have hline := (adds_blanks (by decide : Text.allBlank ['\n'] = true)).append hbody
  have hclose := reads_close (atTop_inside context head)
    (by rw [Text.allBlank, List.all_cons]; exact allBlank_indent depth :
      Text.allBlank ('\n' :: indent depth) = true)
  have hinside := Reads.append hline (fun outline h => (outline.contextOf_add _ _).trans h) hclose
  have hblock := hopen.append (fun outline h => by rw [← h]; rfl) hinside
  refine hblock.congr (by simp [formatBraces]) fun outline => ?_
  have heq := outline.close_push head text [] forest
  simpa [Outline.push, Outline.declare] using heq

/-- The lines of a printed rule add its declarations, and the brace after them closes it. -/
theorem reads_declarations {declarations : List Declaration} (hne : declarations ≠ [])
    (h : ∀ declaration ∈ declarations, declaration.Printable) (htop : context.atTop = false)
    (hselector : context.hasSelector = true) (hw : Text.allBlank w = true) (hw' : Text.allBlank w' = true)
    (depth : Nat) :
    Reads context
      (w ++ Text.join ";\n".toList (declarations.map (formatDeclaration depth)) ++ w' ++ ['\x7d'])
      (Outline.close ∘ Outline.declare (declarations.map Declaration.bare)) := by
  induction declarations generalizing w with
  | nil => exact absurd rfl hne
  | cons declaration rest ih =>
    rw [List.forall_mem_cons] at h
    have hblank : Text.allBlank (w ++ indent depth) = true := by
      rw [Text.allBlank_append, hw, allBlank_indent]
      rfl
    cases rest with
    | nil =>
      refine (reads_last_declaration h.1 htop hselector hblank hw').congr ?_ fun _ => rfl
      simp [Text.join_singleton, formatDeclaration]
    | cons next others =>
      have hfirst := reads_declaration h.1 htop hselector hblank (rfl : Text.allBlank [] = true)
      have hrest := ih (List.cons_ne_nil _ _) h.2 (by decide : Text.allBlank ['\n'] = true)
      have hboth := hfirst.append (fun outline h => (outline.contextOf_declare _).trans h) hrest
      refine hboth.congr ?_ fun outline => ?_
      · simp [Text.join_cons, formatDeclaration]
      · simp only [Function.comp_apply, Outline.declare_declare]
        rfl

/-- A printed rule adds a rule with its declarations. -/
theorem adds_rule {rule : FlatRule} (h : ReadsAs context rule.selectorText head)
    (hselector : (context.inside head).hasSelector = true) (hne : rule.declarations ≠ [])
    (hprintable : ∀ declaration ∈ rule.declarations, declaration.Printable) (depth : Nat) :
    Adds context (formatRule depth rule) []
      (.tree ⟨head, rule.selectorText, ⟨0, 0⟩, rule.declarations.map Declaration.bare⟩ .nil) := by
  have hopen := reads_open h (allBlank_indent depth) (by decide : Text.allBlank [' '] = true)
  have hlines := reads_declarations hne hprintable (atTop_inside context head) hselector
    (by decide : Text.allBlank ['\n'] = true)
    (by rw [Text.allBlank, List.all_cons]; exact allBlank_indent depth :
      Text.allBlank ('\n' :: indent depth) = true) (depth + 1)
  have hblock := hopen.append (fun outline h => by rw [← h]; rfl) hlines
  refine hblock.congr (by simp [formatRule, formatBraces]) fun outline => ?_
  have heq := outline.close_push head rule.selectorText (rule.declarations.map Declaration.bare) .nil
  rw [Outline.add_nil] at heq
  exact heq

/-- Blocks with line breaks between them add what they add one after another. -/
theorem adds_join_append {a b : List Text} {more : List Text} {f g : Forest Rule}
    (ha : Adds context (Text.join ['\n'] a) statements f) (hb : Adds context (Text.join ['\n'] b) more g) :
    Adds context (Text.join ['\n'] (a ++ b)) (statements ++ more) (f ++ g) := by
  by_cases hanil : a = []
  · subst hanil
    exact ha.append hb
  by_cases hbnil : b = []
  · subst hbnil
    have h := ha.append hb
    rwa [show Text.join ['\n'] [] = [] from rfl, List.append_nil, ← List.append_nil a] at h
  · have hline := (adds_blanks (by decide : Text.allBlank ['\n'] = true)).append hb
    rw [Text.join_append hanil hbnil, List.append_assoc]
    exact ha.append hline

theorem adds_join {α : Type} {items : List α} {print : α → Text} {forest : α → Forest Rule}
    (h : ∀ item ∈ items, Adds context (print item) [] (forest item)) :
    Adds context (Text.join ['\n'] (items.map print)) [] (.concat (items.map forest)) := by
  induction items with
  | nil => exact adds_blanks rfl
  | cons item rest ih =>
    rw [List.forall_mem_cons] at h
    have hfirst : Adds context (Text.join ['\n'] [print item]) [] (forest item) := by
      rw [Text.join_singleton]
      exact h.1
    exact adds_join_append hfirst (ih h.2)

theorem adds_statements (h : ∀ text ∈ statements, PrintableStatement text) :
    Adds .top (Text.join ['\n'] (statements.map (· ++ [';']))) statements .nil := by
  induction statements with
  | nil => exact adds_blanks rfl
  | cons text rest ih =>
    rw [List.forall_mem_cons] at h
    have hfirst : Adds .top (Text.join ['\n'] [text ++ [';']]) [text] .nil := by
      have hstatement := adds_statement h.1 (rfl : Text.allBlank [] = true) (rfl : Text.allBlank [] = true)
      rw [List.nil_append, List.append_nil] at hstatement
      rw [Text.join_singleton]
      exact hstatement
    exact adds_join_append hfirst (ih h.2)

end

/-! ## Whole texts -/

theorem Sheet.isMalformed_eq_false {sheet : Sheet} :
    sheet.isMalformed = false ↔ WellFormed sheet.diagnostics.reported := by
  simp [Sheet.isMalformed, Diagnostics.hasProblems, Diagnostics.only, WellFormed]

end Style

end Sitewright
