import Sitewright.Proofs.GlobalNames
import Sitewright.Proofs.Style.Assembly
import Sitewright.Proofs.Style.Tracing

/-!
Which globals of built text were found when the sheet was read. Those of values, of media queries and of the heads
of at-rules are among the references of the sheet (`Rule.Read.cites`). Built text has these and the variables of
statements, selectors and properties, which nothing refers to (`Sheet.yields_buildOrdered`).
-/

namespace Sitewright.Style

/-! ## Squeezed text -/

namespace Quoting

/-- Strings are in single or double quotes. -/
def Real : Quoting → Prop
  | .outside => True
  | .inside quote | .escaped quote => IsQuote quote

theorem Real.next {quoting : Quoting} (h : quoting.Real) (c : Char) : (quoting.next c).Real := by
  cases quoting with
  | outside =>
    rw [Quoting.next]
    split
    next hquote => exact hquote
    next => trivial
  | inside quote =>
    rw [Quoting.next]
    split
    · exact h
    split
    · trivial
    · exact h
  | escaped quote => exact h

theorem Real.after {quoting : Quoting} (h : quoting.Real) (t : Text) : (quoting.after id t).Real := by
  induction t generalizing quoting with
  | nil => exact h
  | cons c rest ih => exact ih (h.next c)

/-- All blanks do the same. -/
theorem Real.next_of_isBlank {quoting : Quoting} (h : quoting.Real) {c : Char} (hc : isBlank c = true) :
    quoting.next c = quoting.next ' ' := by
  have hquote (quote : Char) (hquote : IsQuote quote) : c ≠ quote := by
    rintro rfl
    rcases hquote with rfl | rfl <;> exact absurd hc (by decide)
  have hslash : c ≠ '\\' := by
    rintro rfl
    exact absurd hc (by decide)
  cases quoting with
  | outside =>
    rw [Quoting.next, if_neg fun heq => heq.elim (hquote _ (.inl rfl)) (hquote _ (.inr rfl))]
    rfl
  | inside quote =>
    have hspace : ' ' ≠ quote := by
      rintro rfl
      exact absurd h (by unfold Real IsQuote; decide)
    rw [Quoting.next, if_neg hslash, if_neg (hquote quote h), Quoting.next, if_neg (by decide), if_neg hspace]
  | escaped quote => rfl

theorem Real.next_next {quoting : Quoting} (h : quoting.Real) : (quoting.next ' ').next ' ' = quoting.next ' ' := by
  cases quoting with
  | outside => rfl
  | inside quote | escaped quote =>
    have hspace : ' ' ≠ quote := by
      rintro rfl
      exact absurd h (by unfold Real IsQuote; decide)
    simp [Quoting.next, hspace]

/-- A run of blanks does what one space does. -/
theorem Real.after_blanks {quoting : Quoting} (h : quoting.Real) {c : Char} (hc : isBlank c = true) {w : Text}
    (hw : Text.allBlank w = true) : quoting.after id (c :: w) = quoting.next ' ' := by
  induction w generalizing quoting c with
  | nil => exact h.next_of_isBlank hc
  | cons d w ih =>
    rw [Text.allBlank, List.all_cons, Bool.and_eq_true] at hw
    have hnext := ih (h.next c) hw.1 hw.2
    refine hnext.trans ?_
    rw [h.next_of_isBlank hc, h.next_next]

end Quoting

theorem ne_dollar_of_isBlank {c : Char} (hc : isBlank c = true) : c ≠ '$' := by
  rintro rfl
  exact absurd hc (by decide)

/-- Squeezing changes neither the variables of a text nor the strings that it leaves open. -/
theorem namesFrom_squeeze {t : Text} (h : Text.Trimmed t) {quoting : Quoting} (hquoting : quoting.Real) :
    namesFrom quoting (Text.squeeze t) = namesFrom quoting t ∧
      quoting.after id (Text.squeeze t) = quoting.after id t := by
  revert quoting
  refine h.byWords (P := fun t => ∀ {quoting : Quoting}, quoting.Real →
    namesFrom quoting (Text.squeeze t) = namesFrom quoting t ∧
      quoting.after id (Text.squeeze t) = quoting.after id t) ?_ ?_ ?_
  · exact fun _ => ⟨rfl, rfl⟩
  · intro u hu quoting _
    rw [hu.squeeze_eq]
    exact ⟨rfl, rfl⟩
  · intro u c w rest hu hc hw hne hrest ih quoting hquoting
    have hmiddle := hquoting.after u
    obtain ⟨hnames, hafter⟩ := ih (hmiddle.next ' ')
    have hspaceEnds (b : Text) : ∀ d ∈ (' ' :: b).head?, isVariableChar d = false := by
      rintro d ⟨⟩
      decide
    have hblankEnds : ∀ d ∈ (c :: (w ++ rest)).head?, isVariableChar d = false := by
      rintro d ⟨⟩
      rw [← Bool.not_eq_true]
      intro hvariable
      simp only [isVariableChar, isAlphanum_of_isBlank hc, Bool.false_or, Bool.or_eq_true, beq_iff_eq] at hvariable
      rcases hvariable with rfl | rfl <;> exact absurd hc (by decide)
    have hspace (b : Text) :
        namesFrom (quoting.after id u) (' ' :: b) = namesFrom ((quoting.after id u).next ' ') b :=
      namesFrom_append_of_no_dollar _ (List.forall_mem_singleton.mpr (by decide)) b
    have hblanks :
        namesFrom (quoting.after id u) (c :: w ++ rest) = namesFrom ((quoting.after id u).next ' ') rest := by
      rw [namesFrom_append_of_no_dollar, hmiddle.after_blanks hc hw]
      rw [Text.allBlank, List.all_eq_true] at hw
      exact List.forall_mem_cons.mpr ⟨ne_dollar_of_isBlank hc, fun d hd => ne_dollar_of_isBlank (hw d hd)⟩
    rw [Text.squeeze_append hu hc hw hrest hne]
    constructor
    · rw [namesFrom_append _ _ (hspaceEnds _), namesFrom_append _ _ hblankEnds, hspace, hnames, ← List.cons_append,
        hblanks]
    · rw [Quoting.after_append, Quoting.after_append, ← List.cons_append, Quoting.after_append,
        hmiddle.after_blanks hc hw]
      exact hafter

theorem namesIn_squeeze {t : Text} (h : Text.Trimmed t) : namesIn id (Text.squeeze t) = namesIn id t := by
  rw [namesIn_id, namesIn_id]
  exact (@namesFrom_squeeze t h .outside trivial).1

/-! ## Plain text -/

/-- Where the cut stands when the walk through plain text is somewhere. -/
def Scan.quoting : Scan → Quoting
  | .out | .slash => .outside
  | .quoted quote false => .inside quote
  | .quoted quote true => .escaped quote

theorem Scan.quoting_opening {c : Char} {scan : Scan} (h : Scan.opening c = some scan) :
    Quoting.outside.next c = scan.quoting := by
  rw [Scan.opening] at h
  rw [Quoting.next]
  split at h
  · cases h
  split at h
  next hquote =>
    cases h
    exact if_pos hquote
  next hquote =>
    rw [if_neg hquote]
    split at h <;> cases h <;> rfl

theorem Scan.quoting_next {scan after : Scan} (hreal : scan.Real) {c : Char} (h : scan.next c = some after) :
    scan.quoting.next c = after.quoting := by
  cases scan with
  | out => exact quoting_opening h
  | slash =>
    rw [Scan.next] at h
    split at h
    · cases h
    · exact quoting_opening h
  | quoted quote escaped =>
    rw [Scan.next] at h
    split at h
    · cases h
    cases escaped with
    | true =>
      cases h
      rfl
    | false =>
      rw [Scan.quoting, Quoting.next]
      rw [if_neg Bool.false_ne_true] at h
      split at h
      next hquote =>
        cases h
        have hslash : c ≠ '\\' := by
          rw [hquote]
          rcases hreal with rfl | rfl <;> decide
        rw [if_neg hslash, if_pos hquote]
        rfl
      next hquote =>
        cases h
        by_cases hslash : c = '\\'
        · rw [if_pos hslash, hslash]
          rfl
        · have hbeq : (c == '\\') = false := by simpa using hslash
          rw [if_neg hslash, if_neg hquote, hbeq]
          rfl

theorem Scan.quoting_read {scan after : Scan} (hreal : scan.Real) {t : Text} (h : scan.read t = some after) :
    scan.quoting.after id t = after.quoting := by
  induction t generalizing scan with
  | nil =>
    cases h
    rfl
  | cons c rest ih =>
    rw [Scan.read, Option.bind_eq_some_iff] at h
    obtain ⟨between, hnext, hread⟩ := h
    rw [Quoting.after, List.foldl_cons, id, Scan.quoting_next hreal hnext]
    exact ih (hreal.next hnext) hread

theorem Plain.sealed {t : Text} (h : Plain t) : Sealed t := by
  obtain ⟨scan, hread, houtside⟩ := plain_iff.mp h
  refine (@Scan.quoting_read .out scan trivial t hread).trans ?_
  cases scan with
  | out | slash => rfl
  | quoted quote escaped => cases houtside

/-! ## What is cited -/

/-- Every global among the variables of a text is cited. -/
def Cites (cited : Text → Prop) (t : Text) : Prop :=
  ∀ name ∈ namesIn id t, Naming.isGlobalName name = true → cited name

/-- The references name a global. -/
def Cited (references : List GlobalReference) (name : Text) : Prop :=
  ∃ reference ∈ references, reference.global = name

theorem cites_of_variableFindings {references : List GlobalReference} {fragment : Fragment}
    (h : (variableFindings fragment).references ⊆ references) :
    Cites (Cited references) (Fragment.text fragment) := by
  intro name hname hglobal
  rw [Fragment.text, ← map_namesIn] at hname
  obtain ⟨marks, hmarks, rfl⟩ := List.mem_map.mp hname
  rw [← Fragment.text] at hglobal
  have hfinding : (variableFinding marks).references =
      [⟨⟨Fragment.text marks, Fragment.range marks⟩, Fragment.text marks⟩] := by
    simp only [variableFinding]
    rw [if_pos hglobal]
  refine ⟨⟨⟨Fragment.text marks, Fragment.range marks⟩, Fragment.text marks⟩, h ?_, rfl⟩
  refine List.mem_flatMap.mpr ⟨variableFinding marks, List.mem_map_of_mem hmarks, ?_⟩
  rw [hfinding]
  exact List.mem_singleton.mpr rfl

/-- The globals of a rule are cited, but for those of selectors and properties. -/
structure Rule.Cites (cited : Text → Prop) (rule : Rule) : Prop where
  media : ∀ key, rule.head = .media key → Style.Cites cited (mediaHead key)
  atRule : rule.head = .atRule → Style.Cites cited rule.text
  values : ∀ declaration ∈ rule.declarations, Style.Cites cited declaration.value

theorem Rule.Cites.imp {cited other : Text → Prop} {rule : Rule} (h : rule.Cites cited)
    (himp : ∀ name, cited name → other name) : rule.Cites other where
  media key hkey name hname hglobal := himp name (h.media key hkey name hname hglobal)
  atRule hhead name hname hglobal := himp name (h.atRule hhead name hname hglobal)
  values declaration hmem name hname hglobal := himp name (h.values declaration hmem name hname hglobal)

/-- The globals of a rule do not depend on places. -/
theorem Rule.Cites.of_bare {cited : Text → Prop} {rule other : Rule} (h : rule.Cites cited)
    (heq : other.bare = rule.bare) : other.Cites cited := by
  obtain ⟨hhead, htext, -, hdeclarations⟩ := Rule.mk.inj heq
  refine ⟨fun key hkey => h.media key (hhead ▸ hkey), fun hkind => ?_, fun declaration hmem => ?_⟩
  · rw [htext]
    exact h.atRule (hhead ▸ hkind)
  · have hbare : declaration.bare ∈ rule.declarations.map Declaration.bare :=
      hdeclarations ▸ List.mem_map_of_mem hmem
    obtain ⟨written, hwritten, hsame⟩ := List.mem_map.mp hbare
    obtain ⟨-, hvalue, -⟩ := Declaration.mk.inj hsame
    rw [← hvalue]
    exact h.values written hwritten

theorem namesIn_mediaHead_global {key : Text} (h : Naming.isGlobalName key = true) :
    namesIn id (mediaHead key) = [key] := by
  obtain ⟨name, rfl, hne, hname, -⟩ := Naming.exists_of_isGlobalName h
  have hvariable := @piecesFrom_variable _ id '$' rfl name hne fun c hc => isVariableChar_of_isAlphanum (hname c hc)
  refine (namesIn_inert_append (by decide : isInert "@media ".toList = true) _).trans ?_
  rw [namesIn_id, namesFrom, hvariable]
  rfl

/-- **What was found in a rule cites its globals.** -/
theorem Rule.Read.cites {found : Findings} {context : Context} {rule : Rule} (h : rule.Read (.tidy found) context) :
    rule.Cites (Cited found.references) where
  media key hkey := by
    obtain ⟨fragment, htidy, htext, -, hread, ⟨hreferences, -⟩⟩ :=
      h.opened.exists_fragment (by rw [hkey]; exact Head.noConfusion)
    rcases of_readHead_media (hread.symm.trans hkey) with ⟨hwritten, hfound⟩ | ⟨-, -, -, hglobal, hfound⟩
    · rw [hfound] at hreferences
      rw [Style.Cites, ← hwritten, htext, namesIn_squeeze htidy.trimmed]
      exact cites_of_variableFindings hreferences
    · intro name hname _
      rw [namesIn_mediaHead_global hglobal] at hname
      rw [hfound] at hreferences
      exact ⟨_, hreferences List.mem_cons_self, (List.mem_singleton.mp hname).symm⟩
  atRule hhead := by
    obtain ⟨fragment, htidy, htext, -, hread, ⟨hreferences, -⟩⟩ :=
      h.opened.exists_fragment (by rw [hhead]; exact Head.noConfusion)
    rw [of_readHead_atRule (hread.symm.trans hhead)] at hreferences
    rw [Style.Cites, htext, namesIn_squeeze htidy.trimmed]
    exact cites_of_variableFindings hreferences
  values declaration hmem := by
    obtain ⟨fragment, findings, -, -, hread, ⟨hreferences, -⟩⟩ := h.declarations declaration hmem
    obtain ⟨-, marks, -, -, hvalue, -, -, -, -, -, -, rfl⟩ := of_readDeclaration hread
    rw [hvalue]
    exact cites_of_variableFindings hreferences

theorem Sheet.cites_parse {source : Text} {entry : Nat × Rule} (h : entry ∈ (Sheet.parse source).rules.preorder) :
    entry.2.Cites (Cited (Sheet.parse source).references) := by
  obtain ⟨top, hrules, hread, -⟩ := Sheet.read_parse source
  rw [hrules, ← map_placedRules .top] at h
  obtain ⟨⟨context, entry⟩, hplaced, rfl⟩ := List.mem_map.mp h
  exact (forall_placedRules_of_within hread 1 _ hplaced).cites

/-! ## Flat rules -/

/-- The globals of a flat rule are cited, but for those of selectors and properties. -/
structure FlatRule.Cites (cited : Text → Prop) (heads : Nat → Text) (flat : FlatRule) : Prop where
  media : ∀ key, flat.media = some key → Style.Cites cited (mediaHead key)
  group : ∀ id, flat.group = some id → Style.Cites cited (heads id)
  values : ∀ declaration ∈ flat.declarations, Style.Cites cited declaration.value

section

variable {cited : Text → Prop} {heads : Nat → Text}

/-- The globals of the media key and of the at-rule of a scope are cited. -/
def Scope.Cites (cited : Text → Prop) (heads : Nat → Text) (scope : Scope) : Prop :=
  (∀ key, scope.media = some key → Style.Cites cited (mediaHead key)) ∧
    ∀ id, scope.group = some id → Style.Cites cited (heads id)

theorem Scope.cites_none (selectors : List Text) : Scope.Cites cited heads ⟨selectors, none, none⟩ :=
  ⟨fun _ h => (by cases h), fun _ h => (by cases h)⟩

theorem Scope.Cites.own {scope : Scope} (h : scope.Cites cited heads) {rule : Rule} (hrule : rule.Cites cited) :
    (scope.own rule).Cites cited heads := by
  rw [Scope.own]
  cases hhead : rule.head with
  | style | transparent => exact h
  | media key =>
    refine ⟨?_, h.2⟩
    rintro _ ⟨⟩
    exact hrule.media key hhead
  | atRule => exact cites_none _

theorem Scope.Cites.inside {scope : Scope} (h : scope.Cites cited heads) {rule : Rule} (hrule : rule.Cites cited)
    {id : Nat} (hid : heads id = rule.text) : (scope.inside id rule).Cites cited heads := by
  by_cases hhead : rule.head = .atRule
  · rw [Scope.inside, hhead]
    refine ⟨fun _ h => (by cases h), ?_⟩
    rintro _ ⟨⟩
    rw [hid]
    exact hrule.atRule hhead
  · rw [Scope.inside_of_ne_atRule hhead]
    exact h.own hrule

/-- Flat rules cite what the rules of a sheet cite. -/
theorem Sheet.cites_of_mem_flatRules {sheet : Sheet} (hcites : ∀ entry ∈ sheet.rules.preorder, entry.2.Cites cited)
    (hheads : ∀ entry ∈ sheet.rules.preorder, heads entry.1 = entry.2.text) :
    ∀ flat ∈ sheet.flatRules, flat.Cites cited heads := by
  have hforest : ∀ entry ∈ placedRules .top sheet.rules,
      entry.2.2.Cites cited ∧ heads entry.2.1 = entry.2.2.text := by
    intro entry hentry
    have hmem : entry.2 ∈ sheet.rules.preorder := map_placedRules .top sheet.rules ▸ List.mem_map_of_mem hentry
    exact ⟨hcites _ hmem, hheads _ hmem⟩
  refine @forall_mem_flatten (fun _ scope => scope.Cites cited heads)
    (fun _ id rule => rule.Cites cited ∧ heads id = rule.text) _ ?_ ?_ .top .top (Scope.cites_none []) _ hforest
  · rintro context scope id rule hscope ⟨hrule, -⟩ flat hflat
    obtain ⟨-, -, rfl⟩ := mem_emit hflat
    have hown := hscope.own hrule
    exact ⟨hown.1, hown.2, hrule.values⟩
  · rintro context scope id rule hscope ⟨hrule, hid⟩
    exact hscope.inside hrule hid

end

/-! ## Built text -/

/-- All that is printed of a flat rule has a property by its variables, and leaves no string open. -/
structure FlatRule.Yields (S : Text → Prop) (heads : Nat → Text) (flat : FlatRule) : Prop where
  selectors : Style.Yields S flat.selectorText
  media : ∀ key, flat.media = some key → Style.Yields S (mediaHead key)
  group : ∀ id, flat.group = some id → Style.Yields S (heads id)
  properties : ∀ declaration ∈ flat.declarations, Style.Yields S declaration.property
  values : ∀ declaration ∈ flat.declarations, Style.Yields S declaration.value

theorem isInert_indent (depth : Nat) : isInert (indent depth) = true := by
  refine List.all_eq_true.mpr fun c hc => ?_
  have hblank := List.all_eq_true.mp (allBlank_indent depth) c hc
  have hdollar := ne_dollar_of_isBlank hblank
  have hdouble : c ≠ '"' := by
    rintro rfl
    exact absurd hblank (by decide)
  have hsingle : c ≠ '\'' := by
    rintro rfl
    exact absurd hblank (by decide)
  simp [hdollar, hdouble, hsingle]

section

variable {S : Text → Prop} {heads : Nat → Text}

theorem yields_formatBraces {head body : Text} (hhead : Yields S head) (hbody : Yields S body) (depth : Nat) :
    Yields S (formatBraces depth head body) := by
  have hclosing : isSeparator ('\n' :: indent depth ++ ['\x7d']) = true := by
    have hindent := isInert_indent depth
    rw [isInert] at hindent
    simp only [isSeparator, isInert, List.cons_append, List.all_cons, List.all_append, hindent]
    rfl
  have hopening : isSeparator " \x7b\n".toList = true := by decide
  have hwhole := (hhead.separate hopening (hbody.append_separator hclosing)).inert_append (isInert_indent depth)
  simpa only [formatBraces, List.append_assoc] using hwhole

theorem yields_formatDeclaration {declaration : Declaration} (hproperty : Yields S declaration.property)
    (hvalue : Yields S declaration.value) (depth : Nat) : Yields S (formatDeclaration depth declaration) := by
  have hcolon : isSeparator ": ".toList = true := by decide
  have hwhole := (hproperty.separate hcolon hvalue).inert_append (isInert_indent depth)
  simpa only [formatDeclaration, List.append_assoc] using hwhole

theorem yields_formatRule {flat : FlatRule} (h : flat.Yields S heads) (depth : Nat) :
    Yields S (formatRule depth flat) := by
  refine yields_formatBraces h.selectors (yields_join (by decide) fun line hline => ?_) depth
  obtain ⟨declaration, hmem, rfl⟩ := List.mem_map.mp hline
  exact yields_formatDeclaration (h.properties declaration hmem) (h.values declaration hmem) _

variable {rules : List FlatRule}

theorem yields_formatRules (h : ∀ flat ∈ rules, flat.Yields S heads) (depth : Nat) :
    Yields S (formatRules depth rules) := by
  refine yields_join (by decide) fun text htext => ?_
  obtain ⟨flat, hmem, rfl⟩ := List.mem_map.mp htext
  exact yields_formatRule (h flat hmem) depth

theorem yields_mediaBlocks (h : ∀ flat ∈ rules, flat.Yields S heads) (depth : Nat) (order : List Text) :
    ∀ block ∈ mediaBlocks depth order rules, Yields S block := by
  intro block hblock
  obtain ⟨key, hkey, rfl⟩ := List.mem_map.mp hblock
  obtain ⟨flat, hflat, hmedia⟩ := mem_mediaKeys.mp (mem_orderedKeys.mp hkey)
  refine yields_formatBraces ((h flat hflat).media key hmedia) ?_ depth
  exact yields_formatRules (fun other hother => h other (List.mem_of_mem_filter hother)) _

theorem yields_formatGroup (h : ∀ flat ∈ rules, flat.Yields S heads) {head : Text} (hhead : Yields S head)
    (order : List Text) : Yields S (formatGroup order head rules) := by
  refine yields_formatBraces hhead (yields_join (by decide) (List.forall_mem_append.mpr ⟨?_, ?_⟩)) 0
  · intro text htext
    split at htext
    · cases htext
    · rw [List.mem_singleton.mp htext]
      exact yields_formatRules (fun flat hflat => h flat (List.mem_of_mem_filter hflat)) 1
  · exact yields_mediaBlocks h 1 order

theorem yields_blockOf (h : ∀ flat ∈ rules, flat.Yields S heads) {leader : FlatRule} (hleader : leader ∈ rules)
    (order : List Text) : Yields S (blockOf heads order rules leader).text := by
  rw [blockOf]
  split
  next id hgroup =>
    rw [← formatGroup_eq]
    exact yields_formatGroup (fun other hother => h other (List.mem_of_mem_filter hother))
      ((h leader hleader).group id hgroup) order
  next => exact yields_formatRule (h leader hleader) 0

/-- Built text has the variables of its parts. -/
theorem Sheet.yields_buildOrdered {sheet : Sheet}
    (hstatements : ∀ statement ∈ sheet.statements, Yields S statement.text)
    (hrules : ∀ flat ∈ sheet.flatRules, flat.Yields S (headText sheet)) (order : List Text) :
    Yields S (sheet.buildOrdered order) := by
  rw [buildOrdered]
  split
  · exact yields_nil
  refine yields_join (by decide) ?_
  simp only [blocks, List.forall_mem_append]
  refine ⟨⟨fun block hblock => ?_, fun block hblock => ?_⟩, ?_⟩
  · obtain ⟨statement, hmem, rfl⟩ := List.mem_map.mp hblock
    exact (hstatements statement hmem).append_separator (by decide)
  · have hfront := @topBlocks_eq_leadersFrom sheet order sheet.flatRules [] sheet.flatRules [] fun _ => Iff.rfl
    rw [hfront] at hblock
    obtain ⟨leader, hleader, rfl⟩ := List.mem_map.mp hblock
    obtain ⟨entry, hentry, rfl⟩ := List.mem_map.mp hleader
    exact yields_blockOf hrules (List.fst_mem_of_mem_zipIdx (List.mem_of_mem_filter hentry)) order
  · exact yields_mediaBlocks (fun flat hflat => hrules flat (List.mem_of_mem_filter hflat)) 0 order

end

/-! ## Globals of built text -/

namespace Sheet

/-- The selectors are the head of an at-rule, which has declarations of its own. -/
def IsAtRuleHead (sheet : Sheet) (selectors : List Text) : Prop :=
  ∃ entry ∈ sheet.rules.preorder, entry.2.head = .atRule ∧ selectors = [entry.2.text]

instance (sheet : Sheet) (selectors : List Text) : Decidable (sheet.IsAtRuleHead selectors) :=
  inferInstanceAs (Decidable (∃ entry ∈ sheet.rules.preorder, _))

/-- The name is a variable where nothing looks for variables: in a statement, in a selector or in a property. -/
def Overlooks (sheet : Sheet) (name : Text) : Prop :=
  (∃ statement ∈ sheet.statements, name ∈ namesIn id statement.text) ∨
  (∃ flat ∈ sheet.flatRules, ¬sheet.IsAtRuleHead flat.selectors ∧ name ∈ namesIn id flat.selectorText) ∨
  ∃ flat ∈ sheet.flatRules, ∃ declaration ∈ flat.declarations, name ∈ namesIn id declaration.property

instance (sheet : Sheet) (name : Text) : Decidable (sheet.Overlooks name) :=
  inferInstanceAs (Decidable (_ ∨ _))

/-- No selector list and no property leaves a string open. -/
def LeavesClosed (sheet : Sheet) : Prop :=
  ∀ flat ∈ sheet.flatRules, Sealed flat.selectorText ∧ ∀ declaration ∈ flat.declarations, Sealed declaration.property

instance (sheet : Sheet) : Decidable sheet.LeavesClosed :=
  inferInstanceAs (Decidable (∀ flat ∈ sheet.flatRules, _))

/-- **The globals of built text are cited or overlooked.** -/
theorem cites_buildOrdered {source : Text} (hwell : (Sheet.parse source).isMalformed = false)
    (hclosed : (Sheet.parse source).LeavesClosed) {cited : Text → Prop}
    (hcites : ∀ entry ∈ (Sheet.parse source).rules.preorder, entry.2.Cites cited) (order : List Text) :
    Style.Cites (fun name => cited name ∨ (Sheet.parse source).Overlooks name)
      ((Sheet.parse source).buildOrdered order) := by
  obtain ⟨top, hrules, hread, hstatements⟩ := Sheet.read_parse source
  have hproblems := Sheet.isMalformed_eq_false.mp hwell
  have hheads : ∀ entry ∈ (Sheet.parse source).rules.preorder,
      headText (Sheet.parse source) entry.1 = entry.2.text := fun entry => headText_of_mem hrules
  have hflat := Sheet.cites_of_mem_flatRules hcites hheads
  have hprintable : ∀ flat ∈ (Sheet.parse source).flatRules, flat.Printable ∧
      ∀ id, flat.group = some id → ReadsAs .top (headText (Sheet.parse source) id) .atRule := by
    rw [flatRules, hrules]
    rw [hrules] at hheads
    exact printable_of_flatten hread hproblems hheads (Scope.printable_none _ [])
  refine (@Sheet.yields_buildOrdered (fun name => Naming.isGlobalName name = true →
    cited name ∨ (Sheet.parse source).Overlooks name) (Sheet.parse source) (fun statement hmem => ?_)
    (fun flat hmem => ?_) order).names
  · exact ⟨((hstatements statement hmem).printable hproblems).plain.sealed,
      fun name hname _ => .inr (.inl ⟨statement, hmem, hname⟩)⟩
  · obtain ⟨hsheet, hgroup⟩ := hprintable flat hmem
    obtain ⟨hselectors, hproperties⟩ := hclosed flat hmem
    have hcited := hflat flat hmem
    refine ⟨⟨hselectors, fun name hname hglobal => ?_⟩, fun key hkey => ?_, fun id hid => ?_,
      fun declaration hdeclaration => ?_, fun declaration hdeclaration => ?_⟩
    · by_cases hhead : (Sheet.parse source).IsAtRuleHead flat.selectors
      · obtain ⟨entry, hentry, hkind, hlist⟩ := hhead
        rw [FlatRule.selectorText, hlist, Text.join_singleton] at hname
        exact .inl ((hcites entry hentry).atRule hkind name hname hglobal)
      · exact .inr (.inr (.inl ⟨flat, hmem, hhead, hname⟩))
    · exact ⟨(hsheet.media key hkey .top).plain.sealed,
        fun name hname hglobal => .inl (hcited.media key hkey name hname hglobal)⟩
    · exact ⟨(hgroup id hid).plain.sealed, fun name hname hglobal => .inl (hcited.group id hid name hname hglobal)⟩
    · exact ⟨hproperties declaration hdeclaration,
        fun name hname _ => .inr (.inr (.inr ⟨flat, hmem, declaration, hdeclaration, hname⟩))⟩
    · refine ⟨?_, fun name hname hglobal => .inl (hcited.values declaration hdeclaration name hname hglobal)⟩
      -- the line of the declaration is plain, and no string is open at its colon
      have hline := (hsheet.declarations declaration hdeclaration).plain.sealed
      rw [sealed_append (hproperties declaration hdeclaration)] at hline
      exact (sealed_append (sealed_of_isInert (by decide : isInert [':', ' '] = true))).mp hline

end Sheet

end Sitewright.Style
