import Sitewright.Proofs.Cuts
import Sitewright.Proofs.Style.Flatten
import Sitewright.Proofs.Style.Printed

/-!
What a well-formed sheet has is printable. Statements, at-rules, media queries and declarations are printed
in words that are read back as they were: squeezing and trimming a text once is enough, and neither the
blanks around the colon of a declaration nor those between words decide where a string ends. Selectors are
another matter, since they are printed inside their parents.
-/

namespace Sitewright.Style

variable {found : Findings} {context : Context}
variable {fragment : Fragment} {key text : Text} {rule : Rule}

/-! ## Heads and statements -/

theorem Tidy.plain_squeeze (h : Tidy found.problems fragment) (hwell : WellFormed found.problems) :
    Plain (Text.squeeze (Fragment.text fragment)) :=
  (h.plain hwell).squeeze h.trimmed

theorem Tidy.squeeze_ne_nil (h : Tidy found.problems fragment) :
    Text.squeeze (Fragment.text fragment) ≠ [] :=
  Text.squeeze_ne_nil h.trimmed fun hnil => h.ne_nil (List.map_eq_nil_iff.mp hnil)

theorem Statement.Read.printable {statement : Statement} (h : statement.Read (.tidy found))
    (hwell : WellFormed found.problems) : PrintableStatement statement.text := by
  obtain ⟨fragment, htidy, hsign, htext, -⟩ := h
  rw [htext]
  exact ⟨htidy.plain_squeeze hwell, Text.trimmed_squeeze htidy.trimmed, Text.squeeze_squeeze htidy.trimmed,
    (Text.head?_squeeze htidy.trimmed).trans hsign⟩

theorem Rule.Opened.readsAs (h : rule.Opened (.tidy found) context) (hwell : WellFormed found.problems)
    (hmeaning : rule.head ≠ .transparent) : ReadsAs context rule.text rule.head := by
  obtain ⟨fragment, htidy, htext, -, hhead, -⟩ := h.exists_fragment hmeaning
  rw [readHead_fst] at hhead
  refine ⟨?_, ?_, ?_, ?_, hhead.symm, hmeaning⟩
  · exact htext ▸ htidy.plain_squeeze hwell
  · exact htext ▸ Text.trimmed_squeeze htidy.trimmed
  · exact htext ▸ htidy.squeeze_ne_nil
  · rw [htext]
    exact Text.squeeze_squeeze htidy.trimmed

theorem atTop_of_headOf_atRule (h : headOf context text = .atRule) : context.atTop = true := by
  have hsays := says_readHead context [] text
  rw [headOf] at h
  generalize readHead context [] text = said at h hsays
  cases hsays with
  | block _ htop => exact htop
  | query | shorthand | selectors | dangling | nothing => cases h

/-- An at-rule stands at the top level, so it is read back there. -/
theorem Rule.Opened.atRule (h : rule.Opened (.tidy found) context) (hwell : WellFormed found.problems)
    (hhead : rule.head = .atRule) : ReadsAs .top rule.text .atRule := by
  have hreads := h.readsAs hwell (by rw [hhead]; exact Head.noConfusion)
  rw [hhead] at hreads
  have htop := atTop_of_headOf_atRule hreads.reads
  exact { hreads with reads := (headOf_congr htop.symm rule.text).trans hreads.reads }

/-! ## Media queries -/

/-- The head of the block that is printed for a media key. -/
def mediaHead (key : Text) : Text :=
  "@media ".toList ++ key

theorem headOf_mediaHead (h : key ≠ []) (context : Context) : headOf context (mediaHead key) = .media key := by
  have hsplit : splitAtRule (mediaHead key) = ("media".toList, key) := rfl
  rw [headOf, readHead_of_at rfl]
  simp only [readAtRule, hsplit, if_true, if_neg h]

theorem Scan.read_of_no_special {t : Text} (h : ∀ c ∈ t, Lexer.isSpecial c = false) :
    Scan.out.read t = some .out := by
  induction t with
  | nil => rfl
  | cons c rest ih =>
    rw [List.forall_mem_cons] at h
    rw [Scan.read, Scan.next, Lexer.opening_of_not_isSpecial h.1, Option.bind_some, ih h.2]

/-- The characters of a global are neither blank nor special. -/
theorem of_mem_global (h : Naming.isGlobalName key = true) :
    ∀ c ∈ key, isBlank c = false ∧ Lexer.isSpecial c = false := by
  have halphanum : ∀ c : Char, c.isAlphanum = true → isBlank c = false ∧ Lexer.isSpecial c = false := by
    intro c hc
    constructor
    · cases hblank : isBlank c with
      | false => rfl
      | true =>
        rw [isAlphanum_of_isBlank hblank] at hc
        cases hc
    · rw [← Bool.not_eq_true]
      intro hspecial
      simp only [Lexer.isSpecial, Bool.or_eq_true, beq_iff_eq] at hspecial
      rcases hspecial with ((((rfl | rfl) | rfl) | rfl) | rfl) | rfl <;> revert hc <;> decide
  unfold Naming.isGlobalName at h
  split at h
  next name =>
    rw [Bool.and_eq_true] at h
    obtain ⟨hcamel, -⟩ := h
    unfold Naming.isLowerCamel at hcamel
    split at hcamel
    · cases hcamel
    next first rest =>
      rw [Bool.and_eq_true, List.all_eq_true] at hcamel
      intro c hc
      rcases List.mem_cons.mp hc with rfl | hc
      · decide
      · rcases List.mem_cons.mp hc with rfl | hc
        · exact halphanum c (isAlphanum_of_isAlpha (isAlpha_of_isLower hcamel.1))
        · exact halphanum c (hcamel.2 c hc)
  · cases h

/-- A media key without special characters is printed in words that are read back. -/
theorem readsAs_mediaHead (hne : key ≠ []) (hsqueeze : Text.squeeze key = key)
    (hchars : ∀ c ∈ key, Lexer.isSpecial c = false) (context : Context) :
    ReadsAs context (mediaHead key) (.media key) := by
  have heq : mediaHead key = ['@', 'm', 'e', 'd', 'i', 'a'] ++ ' ' :: ([] ++ key) := rfl
  have hplain : Plain (mediaHead key) := by
    refine plain_iff.mpr ⟨.out, Scan.read_of_no_special fun c hc => ?_, rfl⟩
    rcases List.mem_append.mp hc with hc | hc
    · have hall : "@media ".toList.all (!Lexer.isSpecial ·) = true := by decide
      simpa using List.all_eq_true.mp hall c hc
    · exact hchars c hc
  have hsqueezed : Text.squeeze (mediaHead key) = mediaHead key := by
    rw [heq, Text.squeeze_append (Text.isWord_of_all (by decide) (by decide)) (by decide) rfl
      (Text.trimmed_of_squeeze_eq hsqueeze) hne, hsqueeze]
    rfl
  exact ⟨hplain, Text.trimmed_of_squeeze_eq hsqueezed, List.cons_ne_nil _ _, hsqueezed,
    headOf_mediaHead hne context, Head.noConfusion⟩

theorem readsAs_mediaHead_global (h : Naming.isGlobalName key = true) (context : Context) :
    ReadsAs context (mediaHead key) (.media key) := by
  have hchars := of_mem_global h
  have hne : key ≠ [] := by
    rintro rfl
    cases h
  have hword : Text.IsWord key := ⟨hne, fun c hc => (hchars c hc).1⟩
  exact readsAs_mediaHead hne hword.squeeze_eq (fun c hc => (hchars c hc).2) context

theorem splitAtRule_eq (hat : text.head? = some '@') (hne : (splitAtRule text).2 ≠ []) :
    text = '@' :: (splitAtRule text).1 ++ ' ' :: (splitAtRule text).2 := by
  obtain ⟨rest, rfl⟩ := List.head?_eq_some_iff.mp hat
  simp only [splitAtRule, List.tail_cons] at hne ⊢
  split at hne
  next name parameters hsplit =>
    exact congrArg (List.cons '@') (Text.splitOnce_eq_some hsplit).1
  next => exact absurd rfl hne

/-- A media query is printed in words that are read back, in any context. -/
theorem Rule.Opened.media (h : rule.Opened (.tidy found) context) (hwell : WellFormed found.problems)
    (hhead : rule.head = .media key) (other : Context) :
    ReadsAs other (mediaHead key) (.media key) := by
  have hreads := h.readsAs hwell (by rw [hhead]; exact Head.noConfusion)
  rw [hhead] at hreads
  have hkey := hreads.reads
  have hsays := says_readHead context [] rule.text
  rw [headOf] at hkey
  generalize readHead context [] rule.text = said at hkey hsays
  cases hsays with
  | query hat hname hne =>
    -- a query is printed as it was written
    cases hkey
    have htext : mediaHead (splitAtRule rule.text).2 = rule.text := by
      have hsplit := splitAtRule_eq hat hne
      rw [hname] at hsplit
      exact hsplit.symm
    have hmedia := headOf_mediaHead hne other
    rw [htext] at hmedia ⊢
    exact { hreads with reads := hmedia }
  | shorthand _ _ hglobal =>
    -- a shorthand is printed as a query for the global
    cases hkey
    exact readsAs_mediaHead_global hglobal other
  | block | selectors | dangling | nothing => cases hkey

/-- A media query is written out, or is the shorthand for a global. -/
theorem of_readHead_media (h : (readHead context fragment text).1 = .media key) :
    text = mediaHead key ∧ (readHead context fragment text).2 = variableFindings fragment ∨
      text.head? = some '@' ∧ (splitAtRule text).2 = [] ∧ key = '$' :: (splitAtRule text).1 ∧
        Naming.isGlobalName key = true ∧
        (readHead context fragment text).2.references = [⟨⟨text, Fragment.range fragment⟩, key⟩] := by
  have hsays := says_readHead context fragment text
  generalize readHead context fragment text = said at h hsays ⊢
  cases hsays with
  | query hat hname hne =>
    cases h
    have hsplit := splitAtRule_eq hat hne
    rw [hname] at hsplit
    exact .inl ⟨hsplit, rfl⟩
  | shorthand hat hnone hglobal =>
    cases h
    exact .inr ⟨hat, hnone, rfl, hglobal, rfl⟩
  | block | selectors | dangling | nothing => cases h

theorem of_readHead_atRule (h : (readHead context fragment text).1 = .atRule) :
    (readHead context fragment text).2 = variableFindings fragment := by
  have hsays := says_readHead context fragment text
  generalize readHead context fragment text = said at h hsays ⊢
  cases hsays with
  | block => rfl
  | query | shorthand | selectors | dangling | nothing => cases h

/-! ## Declarations -/

/-- Neither blanks before a colon nor those after it decide where the walk is. -/
theorem Scan.next_colon {scan : Scan} (h : scan.Real) :
    scan.gap.next ':' = scan.next ':' ∧ ∀ after, scan.next ':' = some after → after.gap = after := by
  cases scan with
  | out | slash =>
    refine ⟨rfl, fun after hafter => ?_⟩
    cases hafter
    rfl
  | quoted quote escaped =>
    have hquote : ':' ≠ quote := by
      rcases h with rfl | rfl <;> decide
    have hnext (escaped : Bool) : (Scan.quoted quote escaped).next ':' = some (.quoted quote false) := by
      rw [Scan.next, if_neg (by decide), if_neg hquote]
      cases escaped <;> rfl
    refine ⟨by rw [Scan.gap, hnext, hnext], fun after hafter => ?_⟩
    rw [hnext] at hafter
    cases hafter
    rfl

theorem Scan.gap_of_read_or {scan after : Scan} (h : scan.Real) {w : Text} (hw : Text.allBlank w = true)
    (hread : scan.read w = some after) : after = scan ∨ after = scan.gap := by
  by_cases hne : w = []
  · rw [hne] at hread
    cases hread
    exact .inl rfl
  · exact .inr (Scan.gap_of_read h hw hne hread)

/-- A declaration stays plain when the blanks around its colon become one space after it. -/
theorem plain_declaration {property value w w' : Text} (hw : Text.allBlank w = true)
    (hw' : Text.allBlank w' = true) (h : Plain (property ++ w ++ ':' :: (w' ++ value))) :
    Plain (property ++ ':' :: ' ' :: value) := by
  obtain ⟨scan, hread, hscan⟩ := plain_iff.mp h
  simp only [Scan.read_append, Scan.read, Option.bind_eq_some_iff] at hread
  obtain ⟨beforeColon, ⟨afterName, hname, hblanks⟩, afterColon, hcolon, afterBlanks, hblanks', hvalue⟩ := hread
  have hreal := Scan.real_of_read hname
  obtain ⟨hsame, hgap⟩ := Scan.next_colon hreal
  have hcolon' : afterName.next ':' = some afterColon := by
    rcases Scan.gap_of_read_or hreal hw hblanks with rfl | rfl
    · exact hcolon
    · rw [← hsame]
      exact hcolon
  have hafter : afterBlanks = afterColon := by
    rcases Scan.gap_of_read_or (hreal.next hcolon') hw' hblanks' with rfl | rfl
    · rfl
    · exact hgap afterColon hcolon'
  rw [hafter] at hvalue
  refine plain_iff.mpr ⟨scan, ?_, hscan⟩
  rw [Scan.read_append, hname, Option.bind_some, Scan.read, hcolon', Option.bind_some, Scan.read,
    Scan.next_space (hreal.next hcolon'), Option.bind_some, hgap afterColon hcolon', hvalue]

theorem Declaration.Read.printable {declaration : Declaration} (h : declaration.Read (.tidy found) context)
    (hwell : WellFormed found.problems) : declaration.Printable := by
  obtain ⟨fragment, findings, htidy, hsign, hread, -⟩ := h
  obtain ⟨before, after, hsplit, hproperty, hvalue, hpropertyNe, hsolid, hvalueNe, -⟩ := of_readDeclaration hread
  obtain ⟨htext, hcolon⟩ := text_of_splitColon hsplit
  replace hvalue : declaration.value = Text.trim (Fragment.text after) := by
    rw [hvalue, Reading.text_trimEnd, Fragment.text_trimStart]
    rfl
  have hword : Text.IsWord declaration.property := ⟨hpropertyNe, by simpa using hsolid⟩
  have hvalueTrimmed : Text.Trimmed declaration.value := hvalue ▸ Text.trimmed_trim _
  obtain ⟨u, w, hu, hw, hbefore⟩ := Text.exists_trim (Fragment.text before)
  obtain ⟨w', u', hw', hu', hafter⟩ := Text.exists_trim (Fragment.text after)
  rw [← hproperty] at hbefore
  rw [← hvalue] at hafter
  -- the whole text is trimmed, so no blanks stand before the property or after the value
  have hall : Fragment.text fragment = declaration.property ++ w ++ ':' :: (w' ++ declaration.value) := by
    have hmiddle : Text.Trimmed (declaration.property ++ w ++ ':' :: (w' ++ declaration.value)) := by
      constructor
      · rw [List.append_assoc, List.head?_append_of_ne_nil _ hpropertyNe]
        exact hword.trimmed.head
      · rw [← List.cons_append, ← List.append_assoc, List.getLast?_append_of_ne_nil _ hvalueNe]
        exact hvalueTrimmed.last
    rw [← hmiddle.trim_pad hu hu', ← htidy.trimmed.trim_eq, htext, hbefore, hafter]
    simp only [List.append_assoc, List.cons_append]
  have hcolon' : ':' ∉ declaration.property := by
    rw [hbefore] at hcolon
    exact fun hmem => hcolon (List.mem_append_left _ (List.mem_append_right _ hmem))
  have hsign' : declaration.property.head? ≠ some '@' := by
    rw [hall, List.append_assoc, List.head?_append_of_ne_nil _ hpropertyNe] at hsign
    exact hsign
  have hplain := htidy.plain hwell
  rw [hall] at hplain
  exact ⟨hpropertyNe, hword.solid, hcolon', hsign', hvalueNe, hvalueTrimmed, plain_declaration hw hw' hplain⟩

/-! ## Flat rules -/

/-- The declarations and the media key of a flat rule can be read back. -/
structure FlatRule.Printable (rule : FlatRule) : Prop where
  declarations_ne : rule.declarations ≠ []
  declarations : ∀ declaration ∈ rule.declarations, declaration.Printable
  media : ∀ key, rule.media = some key → ∀ other, ReadsAs other (mediaHead key) (.media key)

theorem mem_emit {selectors : List Text} {media : Option Text} {group : Option Nat}
    {flat : FlatRule} (h : flat ∈ emit selectors media group rule) :
    rule.declarations ≠ [] ∧ selectors ≠ [] ∧ flat = ⟨selectors, media, group, rule.declarations⟩ := by
  rw [emit] at h
  split at h
  · cases h
  next hne =>
    rw [not_or] at hne
    exact ⟨hne.1, hne.2, List.mem_singleton.mp h⟩

/-- The media key and the at-rule of a scope are printed in words that are read back. -/
structure Scope.Printable (heads : Nat → Text) (scope : Scope) : Prop where
  media : ∀ key, scope.media = some key → ∀ other, ReadsAs other (mediaHead key) (.media key)
  group : ∀ id, scope.group = some id → ReadsAs .top (heads id) .atRule

theorem Scope.printable_none (heads : Nat → Text) (selectors : List Text) :
    Scope.Printable heads ⟨selectors, none, none⟩ :=
  ⟨fun _ h => (by cases h), fun _ h => (by cases h)⟩

section

variable {heads : Nat → Text} {scope : Scope} {rule : Rule}

theorem Scope.Printable.own (h : scope.Printable heads) (hrule : rule.Opened (.tidy found) context)
    (hwell : WellFormed found.problems) : (scope.own rule).Printable heads := by
  rw [Scope.own]
  cases hcase : rule.head with
  | style | transparent => exact ⟨h.media, h.group⟩
  | media key =>
    refine ⟨?_, h.group⟩
    rintro _ ⟨⟩
    exact hrule.media hwell hcase
  | atRule => exact printable_none heads _

theorem Scope.Printable.inside (h : scope.Printable heads) (hrule : rule.Opened (.tidy found) context)
    (hwell : WellFormed found.problems) {id : Nat} (hhead : heads id = rule.text) :
    (scope.inside id rule).Printable heads := by
  by_cases hcase : rule.head = .atRule
  · rw [Scope.inside, hcase]
    refine ⟨fun _ h => (by cases h), ?_⟩
    rintro _ ⟨⟩
    rw [hhead]
    exact hrule.atRule hwell hcase
  · rw [Scope.inside_of_ne_atRule hcase]
    exact h.own hrule hwell

/-- The flat rules of a well-formed sheet are printable, and so are the heads of the at-rules around them. -/
theorem printable_of_flatten {forest : Forest Rule} (hread : Within (Rule.Read (.tidy found)) context forest)
    (hwell : WellFormed found.problems) {start : Nat}
    (hheads : ∀ entry ∈ (forest.number start).preorder, heads entry.1 = entry.2.text)
    (hscope : scope.Printable heads) :
    ∀ flat ∈ flatten scope.selectors scope.media scope.group (forest.number start),
      flat.Printable ∧ ∀ id, flat.group = some id → ReadsAs .top (heads id) .atRule := by
  have hforest : ∀ entry ∈ placedRules context (forest.number start),
      entry.2.2.Read (.tidy found) entry.1 ∧ heads entry.2.1 = entry.2.2.text := by
    intro entry hentry
    refine ⟨forall_placedRules_of_within hread start entry hentry, hheads entry.2 ?_⟩
    rw [← map_placedRules context]
    exact List.mem_map_of_mem hentry
  refine forall_mem_flatten (fun _ scope => scope.Printable heads)
    (fun context id rule => rule.Read (.tidy found) context ∧ heads id = rule.text) ?_ ?_ hscope hforest
  · rintro context scope id rule hscope ⟨hrule, -⟩ flat hflat
    obtain ⟨hne, -, rfl⟩ := mem_emit hflat
    have hown := hscope.own hrule.opened hwell
    exact ⟨⟨hne, fun declaration h => (hrule.declarations declaration h).printable hwell, hown.media⟩, hown.group⟩
  · rintro context scope id rule hscope ⟨hrule, hhead⟩
    exact hscope.inside hrule.opened hwell hhead

end

/-- The head of a rule is found by its number. -/
theorem headText_of_mem {sheet : Sheet} {top : Forest Rule} {start : Nat} (hrules : sheet.rules = top.number start)
    {entry : Nat × Rule} (h : entry ∈ sheet.rules.preorder) : headText sheet entry.1 = entry.2.text := by
  have hnodup : (sheet.rules.preorder.map Prod.fst).Nodup := by
    rw [hrules, Forest.preorder_number]
    exact List.nodup_range'
  have hfind : sheet.rules.preorder.find? (fun other => other.1 = entry.1) = some entry := by
    refine List.find?_eq_some_iff_append.mpr ⟨by simp, ?_⟩
    obtain ⟨before, after, heq⟩ := List.append_of_mem h
    refine ⟨before, after, heq, fun other hother => ?_⟩
    rw [heq, List.map_append, List.nodup_append] at hnodup
    simpa using hnodup.2.2 other.1 (List.mem_map_of_mem hother) entry.1 List.mem_cons_self
  rw [headText, hfind]
  rfl

end Sitewright.Style
