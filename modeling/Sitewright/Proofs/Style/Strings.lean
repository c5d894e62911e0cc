import Sitewright.Proofs.Style.Assembly
import Sitewright.Proofs.Style.Quotation

/-!
Strings in built text. A rule that is built shows the heads of the rules around it as far as they are in force:
its selectors have those of its parents, its media block has the nearest media query, and its at-rule has its
head (`Sheet.printedIn_buildOrdered`). Strings are carried along, but heads and statements are squeezed, a `&`
in a string of a selector is replaced, and a selector list is split without regard to escapes (`strings_kept`).
-/

namespace Sitewright.Style

/-! ## Lineages -/

/-- A rule and the rules around it, innermost first, each with its number. -/
abbrev Lineage := List (Nat × Rule)

/-- The lineages of the rules of a forest in document order, where `above` are the rules around the forest. -/
def lineages (above : Lineage) : Forest (Nat × Rule) → List Lineage
  | .nil => []
  | .cons entry below after => (entry :: above) :: (lineages (entry :: above) below ++ lineages above after)

/-- Whether the head of a rule leaves the head of a rule around it in force. A media query takes the place of
the one around it, and placeholders stand alone. -/
def Head.reveals : (inner outer : Head) → Bool
  | .style tokens, .style _ => tokens.any fun token => token.head? ≠ some '%'
  | .media _, .media _ => false
  | .atRule, _ => false
  | _, _ => true

namespace Lineage

/-- The scope inside the rules of a lineage. -/
def scope : Lineage → Scope
  | [] => .top
  | (id, rule) :: above => (scope above).inside id rule

/-- The flat rule of the innermost rule, if it has one. -/
def emitted : Lineage → List FlatRule
  | [] => []
  | (_, rule) :: above =>
    let own := (scope above).own rule
    emit own.selectors own.media own.group rule

/-- The rules of a lineage whose heads are in force for the innermost rule. -/
def contributors : Lineage → List Rule
  | [] => []
  | (_, rule) :: above => rule :: (contributors above).filter fun outer => rule.head.reveals outer.head

end Lineage

theorem flatten_eq_flatMap_emitted (above : Lineage) (forest : Forest (Nat × Rule)) :
    flatten above.scope.selectors above.scope.media above.scope.group forest =
      (lineages above forest).flatMap Lineage.emitted := by
  induction forest generalizing above with
  | nil => rfl
  | cons entry below after ihbelow ihafter =>
    rw [flatten_cons, lineages, List.flatMap_cons, List.flatMap_append, ← ihbelow, ← ihafter, ← List.append_assoc]
    rfl

/-- The rules of a sheet with the rules around them. -/
def Sheet.lineages (sheet : Sheet) : List Lineage :=
  Style.lineages [] sheet.rules

theorem Sheet.flatRules_eq_flatMap_emitted (sheet : Sheet) :
    sheet.flatRules = sheet.lineages.flatMap Lineage.emitted :=
  flatten_eq_flatMap_emitted [] sheet.rules

variable {lineage : Lineage}

theorem mem_preorder_of_mem_lineages {above : Lineage} {forest : Forest (Nat × Rule)}
    (h : lineage ∈ lineages above forest) : ∀ entry ∈ lineage, entry ∈ above ∨ entry ∈ forest.preorder := by
  induction forest generalizing above with
  | nil => cases h
  | cons first below after ihbelow ihafter =>
    intro entry hentry
    rw [Forest.preorder, List.mem_cons, List.mem_append]
    rcases List.mem_cons.mp h with rfl | h
    · rcases List.mem_cons.mp hentry with rfl | hentry
      · exact .inr (.inl rfl)
      · exact .inl hentry
    · rcases List.mem_append.mp h with h | h
      · rcases ihbelow h entry hentry with hentry | hentry
        · rcases List.mem_cons.mp hentry with rfl | hentry
          · exact .inr (.inl rfl)
          · exact .inl hentry
        · exact .inr (.inr (.inl hentry))
      · exact (ihafter h entry hentry).imp_right fun hentry => .inr (.inr hentry)

theorem Sheet.mem_preorder_of_mem_lineages {sheet : Sheet} (h : lineage ∈ sheet.lineages)
    {entry : Nat × Rule} (hentry : entry ∈ lineage) : entry ∈ sheet.rules.preorder :=
  (Style.mem_preorder_of_mem_lineages h entry hentry).resolve_left List.not_mem_nil

theorem Lineage.exists_mem_of_mem_contributors {rule : Rule} (h : rule ∈ lineage.contributors) :
    ∃ id, (id, rule) ∈ lineage := by
  induction lineage with
  | nil => cases h
  | cons entry above ih =>
    obtain ⟨id, inner⟩ := entry
    rcases List.mem_cons.mp h with rfl | h
    · exact ⟨id, List.mem_cons_self⟩
    · obtain ⟨outer, hmem⟩ := ih (List.mem_of_mem_filter h)
      exact ⟨outer, List.mem_cons_of_mem _ hmem⟩

/-! ## Selectors inside selectors -/

section

variable {s : Text}

theorem infix_replace {c : Char} {t : Text} (hs : c ∉ s) (h : s <:+: t) (substitute : Text) :
    ∃ a b, Text.replace c substitute t = a ++ s ++ b := by
  obtain ⟨a, b, rfl⟩ := h
  refine ⟨Text.replace c substitute a, Text.replace c substitute b, ?_⟩
  have hself : s.flatMap (fun d => if d = c then substitute else [d]) = s := replace_eq_self hs
  rw [Text.replace, List.flatMap_append, List.flatMap_append, hself]
  rfl

/-- Text without `&` in a selector is in what the selector makes inside its parents. -/
theorem exists_mem_expandSelector (hne : s ≠ []) (htrimmed : Text.Trimmed s) (hs : '&' ∉ s) {token : Text}
    (h : s <:+: token) (parents : List Text) : ∃ selector ∈ expandSelector parents token, s <:+: selector := by
  rw [expandSelector]
  split
  · exact ⟨token, List.mem_singleton.mpr rfl, h⟩
  split
  · obtain ⟨a, b, heq⟩ := infix_replace hs h []
    refine ⟨_, List.mem_singleton.mpr rfl, ?_⟩
    rw [heq, Text.trim_append_append hne htrimmed]
    exact ⟨_, _, rfl⟩
  next hparents =>
    obtain ⟨parent, hparent⟩ := List.exists_mem_of_ne_nil parents hparents
    split
    · obtain ⟨a, b, heq⟩ := infix_replace hs h parent
      exact ⟨_, List.mem_map_of_mem hparent, ⟨a, b, heq.symm⟩⟩
    · exact ⟨_, List.mem_map_of_mem hparent, h.trans ⟨parent ++ [' '], [], by simp⟩⟩

/-- A selector that is no placeholder has every parent in what it makes. -/
theorem exists_mem_expandSelector_of_parent {parents : List Text} {parent token : Text} (hparent : parent ∈ parents)
    (htoken : token.head? ≠ some '%') : ∃ selector ∈ expandSelector parents token, parent <:+: selector := by
  rw [expandSelector, if_neg htoken, if_neg (List.ne_nil_of_mem hparent)]
  split
  next hand =>
    rw [List.contains_iff_mem] at hand
    obtain ⟨a, b, rfl⟩ := List.append_of_mem hand
    refine ⟨_, List.mem_map_of_mem hparent, ⟨Text.replace '&' parent a, Text.replace '&' parent b, ?_⟩⟩
    rw [Text.replace, Text.replace, Text.replace, List.flatMap_append, List.flatMap_cons, if_pos rfl,
      List.append_assoc]
  · exact ⟨_, List.mem_map_of_mem hparent, (List.prefix_append _ _).isInfix⟩

theorem ne_nil_of_part {t : Text} (hne : s ≠ []) (h : s <:+: t) : t ≠ [] := by
  rintro rfl
  exact hne (List.infix_nil.mp h)

end

/-! ## What a scope keeps -/

/-- The head of a rule is in force in a scope: its text `s` is in a selector, its key is the media key, or its
number is that of the at-rule. -/
def Scope.Keeps (heads : Nat → Text) (scope : Scope) (rule : Rule) (s : Text) : Prop :=
  match rule.head with
  | .style _ => ∃ selector ∈ scope.selectors, s <:+: selector
  | .media key => scope.media = some key
  | .atRule => ∃ id, scope.group = some id ∧ heads id = rule.text
  | .transparent => True

section

variable {heads : Nat → Text} {scope : Scope} {s : Text}

/-- A head that is revealed stays in force. -/
theorem Scope.Keeps.inside {outer inner : Rule} (h : scope.Keeps heads outer s) (hne : s ≠ [])
    (hreveals : inner.head.reveals outer.head = true) (id : Nat) : (scope.inside id inner).Keeps heads outer s := by
  have hatRule : inner.head ≠ .atRule := by
    intro hhead
    rw [hhead] at hreveals
    cases houter : outer.head <;> rw [houter] at hreveals <;> cases hreveals
  rw [Scope.inside_of_ne_atRule hatRule]
  cases hinner : inner.head with
  | atRule => exact absurd hinner hatRule
  | transparent =>
    simp only [Scope.own, hinner]
    exact h
  | media key =>
    rw [hinner] at hreveals
    simp only [Scope.Keeps, Scope.own, hinner] at h ⊢
    cases houter : outer.head with
    | media other => rw [houter] at hreveals; cases hreveals
    | transparent => simp only
    | style _ | atRule =>
      simp only [houter] at h ⊢
      exact h
  | style tokens =>
    rw [hinner] at hreveals
    simp only [Scope.Keeps, Scope.own, hinner] at h ⊢
    cases houter : outer.head with
    | transparent => simp only
    | media _ | atRule =>
      simp only [houter] at h ⊢
      exact h
    | style _ =>
      rw [houter] at hreveals
      simp only [houter] at h ⊢
      obtain ⟨parent, hparent, hpart⟩ := h
      obtain ⟨token, htoken, hplaceholder⟩ := List.any_eq_true.mp hreveals
      obtain ⟨selector, hselector, hmade⟩ :=
        exists_mem_expandSelector_of_parent hparent (of_decide_eq_true hplaceholder)
      have hwhole := hpart.trans hmade
      exact ⟨selector, mem_combine.mpr ⟨ne_nil_of_part hne hwhole, token, htoken, hselector⟩, hwhole⟩

/-- The head of a rule is in force in the scope inside it. -/
theorem Scope.keeps_inside (hne : s ≠ []) (htrimmed : Text.Trimmed s) {rule : Rule}
    (hstyle : ∀ tokens, rule.head = .style tokens → '&' ∉ s ∧ ∃ token ∈ tokens, s <:+: token) {id : Nat}
    (hid : heads id = rule.text) (scope : Scope) : (scope.inside id rule).Keeps heads rule s := by
  cases hhead : rule.head with
  | atRule =>
    simp only [Scope.Keeps, Scope.inside, hhead]
    exact ⟨id, rfl, hid⟩
  | transparent | media key => simp only [Scope.Keeps, Scope.inside, Scope.own, hhead]
  | style tokens =>
    obtain ⟨hand, token, htoken, hpart⟩ := hstyle tokens hhead
    simp only [Scope.Keeps, Scope.inside, Scope.own, hhead]
    obtain ⟨selector, hselector, hmade⟩ := exists_mem_expandSelector hne htrimmed hand hpart scope.selectors
    exact ⟨selector, mem_combine.mpr ⟨ne_nil_of_part hne hmade, token, htoken, hselector⟩, hmade⟩

/-- The heads of the contributors of a lineage are in force inside it. -/
theorem Lineage.keeps_scope (hne : s ≠ []) (htrimmed : Text.Trimmed s) {rule : Rule}
    (hstyle : ∀ tokens, rule.head = .style tokens → '&' ∉ s ∧ ∃ token ∈ tokens, s <:+: token) {lineage : Lineage}
    (hheads : ∀ entry ∈ lineage, heads entry.1 = entry.2.text) (hmem : rule ∈ lineage.contributors) :
    lineage.scope.Keeps heads rule s := by
  induction lineage with
  | nil => cases hmem
  | cons entry above ih =>
    obtain ⟨id, inner⟩ := entry
    rw [List.forall_mem_cons] at hheads
    rcases List.mem_cons.mp hmem with rfl | hmem
    · exact Scope.keeps_inside hne htrimmed hstyle hheads.1 (scope above)
    · obtain ⟨hmem, hreveals⟩ := List.mem_filter.mp hmem
      exact (ih hheads.2 hmem).inside hne hreveals id

end

/-! ## Printed rules -/

/-- A flat rule is printed in a text, with its heads. -/
structure FlatRule.PrintedIn (heads : Nat → Text) (flat : FlatRule) (text : Text) : Prop where
  selectors : ∀ selector ∈ flat.selectors, selector <:+: text
  media : ∀ key, flat.media = some key → mediaHead key <:+: text
  group : ∀ id, flat.group = some id → heads id <:+: text
  declarations : ∀ declaration ∈ flat.declarations, declaration.property <:+: text ∧ declaration.value <:+: text

theorem head_infix_formatBraces (depth : Nat) (head body : Text) : head <:+: formatBraces depth head body :=
  ⟨indent depth, _, by simp only [formatBraces, List.append_assoc]; rfl⟩

theorem body_infix_formatBraces (depth : Nat) (head body : Text) : body <:+: formatBraces depth head body :=
  ⟨indent depth ++ head ++ " \x7b\n".toList, '\n' :: indent depth ++ ['\x7d'], by
    simp only [formatBraces, List.append_assoc, List.cons_append]⟩

section

variable {flat : FlatRule} {rules : List FlatRule}

theorem infix_mediaText (hflat : flat ∈ rules) (key : Text) (depth : Nat) :
    mediaHead key <:+: PrintedBlock.mediaText depth (key, rules) ∧
      formatRule (depth + 1) flat <:+: PrintedBlock.mediaText depth (key, rules) := by
  refine ⟨head_infix_formatBraces _ _ _, ?_⟩
  have hrule := Text.infix_join_of_mem ['\n'] (List.mem_map_of_mem (f := formatRule (depth + 1)) hflat)
  exact hrule.trans (body_infix_formatBraces _ _ _)

/-- A rule is printed wherever its own text, its media query and its at-rule are. -/
theorem FlatRule.printedIn_of_part {heads : Nat → Text} (depth : Nat) {text : Text}
    (hrule : formatRule depth flat <:+: text) (hmedia : ∀ key, flat.media = some key → mediaHead key <:+: text)
    (hgroup : ∀ id, flat.group = some id → heads id <:+: text) : flat.PrintedIn heads text where
  selectors selector hselector :=
    (Text.infix_join_of_mem _ hselector).trans ((head_infix_formatBraces depth _ _).trans hrule)
  media := hmedia
  group := hgroup
  declarations declaration hdeclaration := by
    have hline : formatDeclaration (depth + 1) declaration <:+: text :=
      (Text.infix_join_of_mem _ (List.mem_map_of_mem hdeclaration)).trans
        ((body_infix_formatBraces depth _ _).trans hrule)
    have hproperty : declaration.property <:+: formatDeclaration (depth + 1) declaration :=
      ⟨indent (depth + 1), ": ".toList ++ declaration.value, by rw [formatDeclaration, ← List.append_assoc]⟩
    exact ⟨hproperty.trans hline, (List.suffix_append _ _).isInfix.trans hline⟩

theorem mem_scopes {key : Text} (hflat : flat ∈ rules) (hmedia : flat.media = some key) (order : List Text) :
    (key, rules.filter fun rule => rule.media = some key) ∈ scopes order rules := by
  refine List.mem_map.mpr ⟨key, ?_, rfl⟩
  exact ((keySequence_orderedKeys order rules).mem_iff key).mpr ⟨flat, hflat, hmedia⟩

theorem mem_filter_media {key : Text} (hflat : flat ∈ rules) (hmedia : flat.media = some key) :
    flat ∈ rules.filter fun rule => rule.media = some key :=
  List.mem_filter.mpr ⟨hflat, decide_eq_true hmedia⟩

/-- A rule in an at-rule is printed in the block of the at-rule. -/
theorem printedIn_group {heads : Nat → Text} {id : Nat} (hflat : flat ∈ rules) (hgroup : flat.group = some id)
    (order : List Text) :
    flat.PrintedIn heads
      (PrintedBlock.group (heads id) (rules.filter fun rule => rule.media = none) (scopes order rules)).text := by
  have hhead (other : Nat) (hother : flat.group = some other) : heads other <:+:
      (PrintedBlock.group (heads id) (rules.filter fun rule => rule.media = none) (scopes order rules)).text := by
    rw [hgroup] at hother
    cases hother
    exact head_infix_formatBraces _ _ _
  cases hmedia : flat.media with
  | none =>
    refine FlatRule.printedIn_of_part 1 ?_ (fun key hkey => by rw [hmedia] at hkey; cases hkey) hhead
    have hplain : flat ∈ rules.filter fun rule => rule.media = none :=
      List.mem_filter.mpr ⟨hflat, decide_eq_true hmedia⟩
    exact (Text.infix_join_of_mem _ (List.mem_append_left _ (List.mem_map_of_mem hplain))).trans
      (body_infix_formatBraces _ _ _)
  | some key =>
    obtain ⟨hquery, hrule⟩ := infix_mediaText (mem_filter_media hflat hmedia) key 1
    have hblock : PrintedBlock.mediaText 1 (key, rules.filter fun rule => rule.media = some key) <:+:
        (PrintedBlock.group (heads id) (rules.filter fun rule => rule.media = none) (scopes order rules)).text :=
      (Text.infix_join_of_mem _ (List.mem_append_right _ (List.mem_map_of_mem (mem_scopes hflat hmedia order)))).trans
        (body_infix_formatBraces _ _ _)
    refine FlatRule.printedIn_of_part 2 (hrule.trans hblock) (fun other hother => ?_) hhead
    rw [hmedia] at hother
    cases hother
    exact hquery.trans hblock

end

/-- **Every flat rule of a sheet is printed**, with its selectors and declarations and with the heads of the
blocks around it. -/
theorem Sheet.printedIn_buildOrdered {sheet : Sheet} (h : sheet.isMalformed = false) (order : List Text)
    {flat : FlatRule} (hflat : flat ∈ sheet.flatRules) :
    flat.PrintedIn (headText sheet) (sheet.buildOrdered order) := by
  -- some block has the rule
  obtain ⟨block, hblock, hprinted⟩ : ∃ block ∈ sheet.assembly order, flat.PrintedIn (headText sheet) block.text := by
    cases hgroup : flat.group with
    | some id =>
      have hid : id ∈ (leaders sheet.flatRules).filterMap FlatRule.group := by
        rw [filterMap_leaders, List.mem_eraseDups]
        exact List.mem_filterMap.mpr ⟨flat, hflat, hgroup⟩
      obtain ⟨leader, hleader, hid⟩ := List.mem_filterMap.mp hid
      refine ⟨_, List.mem_append_left _ (List.mem_map_of_mem hleader), ?_⟩
      simp only [blockOf, hid]
      exact printedIn_group (List.mem_filter.mpr ⟨hflat, decide_eq_true hgroup⟩) hgroup order
    | none =>
      cases hmedia : flat.media with
      | none =>
        have hleader : flat ∈ (leaders sheet.flatRules).filter fun rule => rule.group = none := by
          rw [filter_leaders]
          exact List.mem_filter.mpr ⟨hflat, decide_eq_true ⟨hgroup, hmedia⟩⟩
        refine ⟨_, List.mem_append_left _ (List.mem_map_of_mem (List.mem_of_mem_filter hleader)), ?_⟩
        simp only [blockOf, hgroup]
        exact FlatRule.printedIn_of_part 0 List.infix_rfl (fun key hkey => by rw [hmedia] at hkey; cases hkey)
          fun id hid => by rw [hgroup] at hid; cases hid
      | some key =>
        have houtside : flat ∈ sheet.flatRules.filter fun rule => rule.group = none :=
          List.mem_filter.mpr ⟨hflat, decide_eq_true hgroup⟩
        obtain ⟨hquery, hrule⟩ := infix_mediaText (mem_filter_media houtside hmedia) key 0
        refine ⟨_, List.mem_append_right _ (List.mem_map_of_mem (mem_scopes houtside hmedia order)), ?_⟩
        refine FlatRule.printedIn_of_part 1 hrule (fun other hother => ?_) fun id hid => ?_
        · rw [hmedia] at hother
          cases hother
          exact hquery
        · rw [hgroup] at hid
          cases hid
  have hbuilt : block.text <:+: sheet.buildOrdered order := by
    rw [buildOrdered, h, blocks_eq]
    exact Text.infix_join_of_mem _ (List.mem_append_right _ (List.mem_map_of_mem hblock))
  exact ⟨fun selector hselector => (hprinted.selectors selector hselector).trans hbuilt,
    fun key hkey => (hprinted.media key hkey).trans hbuilt, fun id hid => (hprinted.group id hid).trans hbuilt,
    fun declaration hmem => (hprinted.declarations declaration hmem).imp (·.trans hbuilt) (·.trans hbuilt)⟩

/-! ## Strings of heads -/

/-- The strings of a source. -/
def strings (source : Text) : List Lexeme :=
  (lexemes source).filter fun lexeme => lexeme.kind = .quoted

section

variable {source : Text} {token : Lexeme}

theorem of_mem_strings (h : token ∈ strings source) :
    token ∈ lexemes source ∧ token.kind = .quoted ∧
      ∃ quote inner, IsQuote quote ∧ token.text = quote :: (inner ++ [quote]) := by
  obtain ⟨hmem, hkind⟩ := List.mem_filter.mp h
  have hkind : token.kind = .quoted := of_decide_eq_true hkind
  obtain ⟨⟨-, hform⟩, -⟩ := of_mem_lexemes hmem
  rw [hkind] at hform
  exact ⟨hmem, hkind, hform⟩

/-- A string that is squeezed is printable text of its own: it is not empty, has no blanks around it, and begins
with a quote. -/
theorem squeeze_of_mem_strings (h : token ∈ strings source) :
    Text.squeeze token.text ≠ [] ∧ Text.Trimmed (Text.squeeze token.text) ∧
      ∃ quote ∈ Text.squeeze token.text, IsQuote quote := by
  obtain ⟨-, -, quote, inner, hquote, htext⟩ := of_mem_strings h
  obtain ⟨squeezed, hsqueeze, -⟩ := squeeze_string hquote inner
  rw [htext, hsqueeze]
  exact ⟨List.cons_ne_nil _ _, trimmed_string hquote squeezed, quote, List.mem_cons_self, hquote⟩

theorem Excerpt.squeeze_within {fragment : Fragment} (h : Excerpt (lexemes source) fragment)
    (htoken : token ∈ strings source) (hin : token.StandsIn (Fragment.range fragment)) :
    Text.squeeze token.text <:+: Text.squeeze (Fragment.text fragment) := by
  obtain ⟨hmem, hkind, quote, inner, hquote, htext⟩ := of_mem_strings htoken
  obtain ⟨a, b, heq, -⟩ := h.exists_split hmem hkind hin
  have htrimmed := h.trimmed
  rw [heq] at htrimmed ⊢
  obtain ⟨after, hsqueeze⟩ := Text.squeeze_append_append htrimmed (htext ▸ trimmed_string hquote inner)
  exact ⟨_, after, hsqueeze.symm⟩

variable {context : Context} {rule : Rule}

theorem Rule.Opened.infix_text (h : rule.Opened (.source source) context)
    (hhead : rule.head ≠ .transparent) (htoken : token ∈ strings source) (hin : token.StandsIn rule.range) :
    Text.squeeze token.text <:+: rule.text := by
  obtain ⟨fragment, hexcerpt, htext, hrange, -⟩ := h.exists_fragment hhead
  rw [htext]
  exact hexcerpt.squeeze_within htoken (hrange ▸ hin)

/-- A string of a selector list is in one of the selectors, if no string of the list has its own quote inside. -/
theorem Rule.Opened.exists_selector (h : rule.Opened (.source source) context)
    (hwell : (Sheet.parse source).isMalformed = false) {tokens : List Text} (hhead : rule.head = .style tokens)
    (htoken : token ∈ strings source) (hin : token.StandsIn rule.range)
    (hsimple : ∀ other ∈ strings source, other.StandsIn rule.range → other.Simple) :
    ∃ selector ∈ tokens, Text.squeeze token.text <:+: selector := by
  obtain ⟨fragment, hexcerpt, htext, hrange, hread, -⟩ := h.exists_fragment (by rw [hhead]; exact Head.noConfusion)
  obtain ⟨-, hlist, -⟩ := of_readHead_style (hread.symm.trans hhead)
  obtain ⟨hmem, hkind, quote, inner, hquote, hstring⟩ := of_mem_strings htoken
  rw [hrange] at hin hsimple
  obtain ⟨a, b, heq, hbefore⟩ := hexcerpt.exists_split hmem hkind hin
  have hopen : quoteAfter none a = none := hbefore hwell fun other hother hquoted hstands =>
    hsimple other (List.mem_filter.mpr ⟨hother, decide_eq_true hquoted⟩) hstands
  -- squeezing leaves the quotes where they are
  have htrimmed := hexcerpt.trimmed
  rw [heq] at htrimmed
  obtain ⟨after, hsqueeze⟩ := Text.squeeze_append_append htrimmed (hstring ▸ trimmed_string hquote inner)
  obtain ⟨squeezed, hsqueezed, hchars⟩ := squeeze_string hquote inner
  have hinner : quote ∉ squeezed := by
    intro hquoteMem
    rcases hchars quote hquoteMem with rfl | hold
    · exact absurd hquote (by unfold IsQuote; decide)
    · exact hsimple token htoken hin quote inner hstring hold
  have hnone : quoteAfter none (Text.compress false a) = none := by
    rw [quoteAfter_compress fun q hq => by cases hq]
    exact hopen
  rw [hstring, hsqueezed] at hsqueeze ⊢
  rw [hlist, htext, heq, hstring, hsqueeze]
  exact exists_mem_splitSelectors hquote hinner _ _ 0 hnone []

/-- A shorthand for a media query has no quote. -/
theorem not_isQuote_of_shorthand {text : Text} (hat : text.head? = some '@') (hnone : (splitAtRule text).2 = [])
    (hglobal : Naming.isGlobalName ('$' :: (splitAtRule text).1) = true) : ∀ c ∈ text, ¬IsQuote c := by
  have hname (c : Char) (hc : c ∈ (splitAtRule text).1) : ¬IsQuote c := by
    have hspecial := (of_mem_global hglobal c (List.mem_cons_of_mem _ hc)).2
    rintro (rfl | rfl) <;> cases hspecial
  obtain ⟨rest, rfl⟩ := List.head?_eq_some_iff.mp hat
  have hrest : ∀ c ∈ rest, c = ' ' ∨ c ∈ (splitAtRule ('@' :: rest)).1 := by
    intro c hc
    simp only [splitAtRule, List.tail_cons] at hnone ⊢
    split
    next name parameters hsplit =>
      rw [hsplit] at hnone
      have hparameters : parameters = [] := hnone
      rw [(Text.splitOnce_eq_some hsplit).1, List.mem_append, List.mem_cons, hparameters] at hc
      exact hc.symm.imp_left fun hc => hc.resolve_right List.not_mem_nil
    next => exact .inr hc
  intro c hc
  rcases List.mem_cons.mp hc with rfl | hc
  · unfold IsQuote
    decide
  · rcases hrest c hc with rfl | hc
    · unfold IsQuote
      decide
    · exact hname c hc

/-- A string of a media query is in the query that is printed. -/
theorem Rule.Opened.infix_mediaHead (h : rule.Opened (.source source) context) {key : Text}
    (hhead : rule.head = .media key) (htoken : token ∈ strings source) (hin : token.StandsIn rule.range) :
    Text.squeeze token.text <:+: mediaHead key := by
  have hmeaning : rule.head ≠ .transparent := by rw [hhead]; exact Head.noConfusion
  have hpart := h.infix_text hmeaning htoken hin
  obtain ⟨fragment, -, -, -, hread, -⟩ := h.exists_fragment hmeaning
  rw [hread] at hhead
  rcases of_readHead_media hhead with ⟨htext, -⟩ | ⟨hat, hnone, hkey, hglobal, -⟩
  · rwa [htext] at hpart
  · obtain ⟨quote, hmem, hquote⟩ := (squeeze_of_mem_strings htoken).2.2
    rw [hkey] at hglobal
    exact absurd hquote (not_isQuote_of_shorthand hat hnone hglobal quote (hpart.subset hmem))

end

/-! ## Strings of declarations -/

/-- The first colon of a declaration stands in a string, so that the string is divided between the property
and the value. -/
def Declaration.Divides (declaration : Declaration) (s : Text) : Prop :=
  ∃ u v, s = u ++ ':' :: v ∧ u ≠ [] ∧ Text.trimEnd u <:+ declaration.property ∧
    Text.trimStart v <+: declaration.value

section

variable {quote : Char} {inner : Text}

theorem infix_trim_string (hquote : IsQuote quote) (a b : Text) :
    quote :: (inner ++ [quote]) <:+: Text.trim (a ++ quote :: (inner ++ [quote]) ++ b) := by
  rw [Text.trim_append_append (List.cons_ne_nil _ _) (trimmed_string hquote inner)]
  exact ⟨_, _, rfl⟩

theorem trimmed_quote (hquote : IsQuote quote) : Text.Trimmed [quote] := by
  have hblank := isBlank_of_isQuote hquote
  constructor <;> rintro c ⟨⟩ <;> exact hblank

/-- A part from the beginning of a string is at the end of what stands before its own end. -/
theorem trimEnd_suffix_trim (hquote : IsQuote quote) (a u : Text) :
    Text.trimEnd (quote :: u) <:+ Text.trim (a ++ quote :: u) := by
  have htrimmed := trimmed_quote hquote
  have hwhole := Text.trim_append_append (a := a) (b := u) (List.cons_ne_nil quote []) htrimmed
  have hpart := Text.trimEnd_append_of_last (b := u) htrimmed.last
  rw [List.append_assoc, List.singleton_append, List.append_assoc] at hwhole
  rw [List.singleton_append] at hpart
  rw [hwhole, hpart]
  exact List.suffix_append _ _

/-- A part up to the end of a string is at the beginning of what stands after its own beginning. -/
theorem trimStart_prefix_trim (hquote : IsQuote quote) (v b : Text) :
    Text.trimStart (v ++ [quote]) <+: Text.trim (v ++ [quote] ++ b) := by
  have htrimmed := trimmed_quote hquote
  rw [Text.trim_append_append (List.cons_ne_nil quote []) htrimmed, Text.trimStart_append_of_head htrimmed.head]
  exact List.prefix_append _ _

/-- Where a text is divided at a colon, a string of it is on one side or is divided itself. -/
theorem infix_or_divides (hquote : IsQuote quote) {a b x y : Text}
    (heq : a ++ quote :: (inner ++ [quote]) ++ b = x ++ ':' :: y) {declaration : Declaration}
    (hproperty : declaration.property = Text.trim x) (hvalue : declaration.value = Text.trim y) :
    quote :: (inner ++ [quote]) <:+: declaration.property ∨ quote :: (inner ++ [quote]) <:+: declaration.value ∨
      declaration.Divides (quote :: (inner ++ [quote])) := by
  have hcolon : quote ≠ ':' := by
    rintro rfl
    exact absurd hquote (by unfold IsQuote; decide)
  rw [hproperty, hvalue]
  rcases List.append_eq_append_iff.mp heq with ⟨r, rfl, -⟩ | ⟨r, hr, hrest⟩
  · exact .inl (infix_trim_string hquote a r)
  cases r with
  | nil =>
    have hpart := @infix_trim_string quote inner hquote a []
    rw [List.append_nil] at hr hpart
    exact .inl (hr ▸ hpart)
  | cons c r =>
    rw [List.cons_append, List.cons.injEq] at hrest
    obtain ⟨rfl, rfl⟩ := hrest
    rcases List.append_eq_append_iff.mp hr with ⟨u, rfl, hstring⟩ | ⟨w, -, hw⟩
    · -- the colon is in the string
      refine .inr (.inr ?_)
      cases u with
      | nil => exact absurd (List.cons.inj hstring).1 hcolon
      | cons d u =>
        have hparts := hstring
        rw [List.cons_append, List.cons.injEq] at hparts
        obtain ⟨rfl, hinner⟩ := hparts
        rcases List.eq_nil_or_concat r with rfl | ⟨v, last, rfl⟩
        · exact absurd (List.append_inj' hinner rfl).2 (by simpa using hcolon)
        · rw [List.concat_eq_append] at *
          rw [← List.cons_append, ← List.append_assoc] at hinner
          cases (List.append_inj' hinner rfl).2
          refine ⟨quote :: u, v ++ [quote], hstring, List.cons_ne_nil _ _, ?_, ?_⟩
          · exact hproperty ▸ trimEnd_suffix_trim hquote a u
          · exact hvalue ▸ trimStart_prefix_trim hquote v b
    · cases w with
      | nil => exact absurd (List.cons.inj hw).1.symm hcolon
      | cons d w =>
        obtain ⟨rfl, rfl⟩ := List.cons.inj hw
        exact .inr (.inl (infix_trim_string hquote w b))

end

/-- A string of a declaration is in its property or in its value, or is divided between them. -/
theorem Declaration.Read.infix_or_divides {source : Text} {context : Context} {declaration : Declaration}
    (h : declaration.Read (.source source) context) {token : Lexeme} (htoken : token ∈ strings source)
    (hin : token.StandsIn declaration.range) :
    token.text <:+: declaration.property ∨ token.text <:+: declaration.value ∨ declaration.Divides token.text := by
  obtain ⟨fragment, findings, hexcerpt, -, hread, -⟩ := h
  obtain ⟨hmem, hkind, quote, inner, hquote, htext⟩ := of_mem_strings htoken
  obtain ⟨before, after, hsplit, hproperty, hvalue, -, -, -, -, -, hrange, -⟩ := of_readDeclaration hread
  rw [hrange] at hin
  obtain ⟨a, b, heq, -⟩ := hexcerpt.exists_split hmem hkind hin
  rw [(text_of_splitColon hsplit).1] at heq
  rw [Reading.text_trimEnd, Fragment.text_trimStart] at hvalue
  rw [htext] at heq ⊢
  exact Style.infix_or_divides hquote heq.symm hproperty hvalue

/-! ## Strings in built text -/

/-- What becomes of a string of a source in the text that is built from it. -/
structure KeepsString (source : Text) (order : List Text) (token : Lexeme) : Prop where
  /-- A string with single spaces is not changed by squeezing. -/
  squeeze_eq_iff : Text.squeeze token.text = token.text ↔ Text.Spaced token.text
  /-- A string of a statement is squeezed. -/
  statements : ∀ statement ∈ (Sheet.parse source).statements, token.StandsIn statement.range →
    Text.squeeze token.text <:+: (Sheet.parse source).buildOrdered order
  /-- A string of a head that is in force for a flat rule is squeezed. In a selector list it must have no `&`, and
  no string may have its own quote inside. -/
  heads : ∀ lineage ∈ (Sheet.parse source).lineages, lineage.emitted ≠ [] → ∀ rule ∈ lineage.contributors,
    rule.head ≠ .transparent → token.StandsIn rule.range →
    (∀ selectors, rule.head = .style selectors → '&' ∉ token.text ∧
      ∀ other ∈ strings source, other.StandsIn rule.range → other.Simple) →
    Text.squeeze token.text <:+: (Sheet.parse source).buildOrdered order
  /-- A string of a declaration is built as it is written, unless the first colon stands in it. -/
  declarations : ∀ flat ∈ (Sheet.parse source).flatRules, ∀ declaration ∈ flat.declarations,
    token.StandsIn declaration.range →
    token.text <:+: (Sheet.parse source).buildOrdered order ∨ declaration.Divides token.text

section

variable {source : Text} {token : Lexeme}

/-- A string of a head that is in force for a flat rule is printed with it. -/
theorem Lineage.squeeze_within (hwell : (Sheet.parse source).isMalformed = false) (order : List Text)
    (htoken : token ∈ strings source) {lineage : Lineage} (hlineage : lineage ∈ (Sheet.parse source).lineages)
    (hemitted : lineage.emitted ≠ []) {rule : Rule} (hrule : rule ∈ lineage.contributors)
    (hhead : rule.head ≠ .transparent) (hin : token.StandsIn rule.range)
    (hstyle : ∀ selectors, rule.head = .style selectors → '&' ∉ token.text ∧
      ∀ other ∈ strings source, other.StandsIn rule.range → other.Simple) :
    Text.squeeze token.text <:+: (Sheet.parse source).buildOrdered order := by
  obtain ⟨hne, htrimmed, -⟩ := squeeze_of_mem_strings htoken
  obtain ⟨top, hrules, -, -⟩ := Sheet.read_parse source
  obtain ⟨number, hmem⟩ := exists_mem_of_mem_contributors hrule
  obtain ⟨context, hread⟩ := Sheet.exists_read_rule (Sheet.mem_preorder_of_mem_lineages hlineage hmem)
  have htext := hread.opened.infix_text hhead htoken hin
  -- the flat rule keeps what the scope inside the lineage keeps
  obtain ⟨flat, hflat⟩ := List.exists_mem_of_ne_nil _ hemitted
  have hflatRule : flat ∈ (Sheet.parse source).flatRules := by
    rw [Sheet.flatRules_eq_flatMap_emitted]
    exact List.mem_flatMap.mpr ⟨lineage, hlineage, hflat⟩
  have hprinted := Sheet.printedIn_buildOrdered hwell order hflatRule
  have hkeeps : lineage.scope.Keeps (headText (Sheet.parse source)) rule (Text.squeeze token.text) := by
    refine keeps_scope hne htrimmed (fun tokens htokens => ?_) (fun entry hentry => ?_) hrule
    · obtain ⟨hand, hsimple⟩ := hstyle tokens htokens
      refine ⟨?_, hread.opened.exists_selector hwell htokens htoken hin hsimple⟩
      obtain ⟨-, -, quote, inner, hquote, hstring⟩ := of_mem_strings htoken
      rw [hstring] at hand ⊢
      obtain ⟨squeezed, hsqueeze, hchars⟩ := squeeze_string hquote inner
      rw [hsqueeze]
      simp only [List.mem_cons, List.mem_append, List.not_mem_nil, or_false, not_or] at hand ⊢
      refine ⟨hand.1, fun hmem => ?_, hand.2.2⟩
      exact (hchars '&' hmem).elim (by decide) hand.2.1
    · exact headText_of_mem hrules (Sheet.mem_preorder_of_mem_lineages hlineage hentry)
  cases lineage with
  | nil => cases hrule
  | cons entry above =>
    obtain ⟨id, innermost⟩ := entry
    obtain ⟨-, -, rfl⟩ := mem_emit hflat
    by_cases hatRule : innermost.head = .atRule
    · -- the head of an at-rule stands over its own declarations as a selector
      have hself : rule = innermost := by
        rcases List.mem_cons.mp hrule with hself | houter
        · exact hself
        · have hreveals := (List.mem_filter.mp houter).2
          rw [hatRule] at hreveals
          cases hother : rule.head <;> rw [hother] at hreveals <;> cases hreveals
      refine htext.trans (hprinted.selectors rule.text ?_)
      simp only [Scope.own, hatRule, hself, List.mem_singleton]
    · have hscope : scope ((id, innermost) :: above) = (scope above).own innermost :=
        Scope.inside_of_ne_atRule hatRule _ id
      rw [hscope] at hkeeps
      unfold Scope.Keeps at hkeeps
      split at hkeeps
      next =>
        obtain ⟨selector, hselector, hpart⟩ := hkeeps
        exact hpart.trans (hprinted.selectors selector hselector)
      next key hkey =>
        exact (hread.opened.infix_mediaHead hkey htoken hin).trans (hprinted.media key hkeeps)
      next =>
        obtain ⟨group, hgroup, heq⟩ := hkeeps
        rw [← heq] at htext
        exact htext.trans (hprinted.group group hgroup)
      next htransparent => exact absurd htransparent hhead

end

/-- **Strings are carried into built text, squeezed where they stand in heads and statements.** -/
theorem strings_kept (source : Text) (h : (Sheet.parse source).isMalformed = false) (order : List Text)
    (token : Lexeme) (htoken : token ∈ strings source) : KeepsString source order token where
  squeeze_eq_iff := by
    obtain ⟨-, -, quote, inner, hquote, htext⟩ := of_mem_strings htoken
    have htrimmed : Text.Trimmed token.text := htext ▸ trimmed_string hquote inner
    exact ⟨fun heq => heq ▸ Text.spaced_squeeze htrimmed, Text.squeeze_eq_self htrimmed⟩
  statements statement hstatement hin := by
    obtain ⟨fragment, hexcerpt, -, htext, hrange⟩ := (Reading.keeps_source source).statements statement hstatement
    have hpart := Excerpt.squeeze_within hexcerpt htoken (hrange ▸ hin)
    rw [← htext] at hpart
    rw [Sheet.buildOrdered, h, Sheet.blocks_eq]
    refine (hpart.trans (List.prefix_append _ [';']).isInfix).trans (Text.infix_join_of_mem _ ?_)
    exact List.mem_append_left _ (List.mem_map_of_mem (f := fun statement => statement.text ++ [';']) hstatement)
  heads _ hlineage hemitted _ hrule hhead hin hstyle :=
    Lineage.squeeze_within h order htoken hlineage hemitted hrule hhead hin hstyle
  declarations flat hflat declaration hdeclaration hin := by
    have hprinted := (Sheet.printedIn_buildOrdered h order hflat).declarations declaration hdeclaration
    rw [Sheet.flatRules_eq_flatMap_emitted] at hflat
    obtain ⟨lineage, hlineage, hflat⟩ := List.mem_flatMap.mp hflat
    cases lineage with
    | nil => cases hflat
    | cons entry above =>
      obtain ⟨-, -, rfl⟩ := mem_emit hflat
      obtain ⟨context, hread⟩ :=
        Sheet.exists_read_rule (Sheet.mem_preorder_of_mem_lineages hlineage List.mem_cons_self)
      rcases (hread.declarations declaration hdeclaration).infix_or_divides htoken hin with hin | hin | hdivides
      · exact .inl (hin.trans hprinted.1)
      · exact .inl (hin.trans hprinted.2)
      · exact .inr hdivides

/-- A sheet with strings in a statement, in a media query, in a selector and in a declaration. -/
def quoted : Text :=
  "@import \"a  b\"; @media \"c\" \x7b [d=\"e, f\"] \x7b &:g \x7b h: \"i;  j\" \x7d \x7d \x7d".toList

/-- The string of the selector is in the rule that stands inside it. -/
theorem strings_kept_of_quoted :
    (Sheet.parse quoted).isMalformed = false ∧
      (strings quoted).map Lexeme.text =
        ["\"a  b\"".toList, "\"c\"".toList, "\"e, f\"".toList, "\"i;  j\"".toList] ∧
      (∀ token ∈ strings quoted, KeepsString quoted [] token) ∧
      "\"e, f\"".toList <:+: (Sheet.parse quoted).build := by
  have hfacts : (Sheet.parse quoted).isMalformed = false ∧
      (strings quoted).map Lexeme.text =
        ["\"a  b\"".toList, "\"c\"".toList, "\"e, f\"".toList, "\"i;  j\"".toList] ∧
      ⟨.quoted, "\"e, f\"".toList, 32⟩ ∈ strings quoted ∧
      (∀ token ∈ strings quoted, token.Simple) ∧
      ∃ lineage ∈ (Sheet.parse quoted).lineages, lineage.emitted ≠ [] ∧ ∃ rule ∈ lineage.contributors,
        rule.head ≠ .transparent ∧ Lexeme.StandsIn ⟨.quoted, "\"e, f\"".toList, 32⟩ rule.range := by
    decide +kernel
  obtain ⟨hwell, htexts, htoken, hsimple, lineage, hlineage, hemitted, rule, hrule, hhead, hin⟩ := hfacts
  refine ⟨hwell, htexts, fun token => strings_kept quoted hwell [] token, ?_⟩
  exact (strings_kept quoted hwell [] _ htoken).heads lineage hlineage hemitted rule hrule hhead hin
    fun _ _ => ⟨by decide, fun other hother _ => hsimple other hother⟩

/-- A sheet without problems has a string in a rule that is built, and the string is not in the built text. -/
def AltersString (source : Text) : Prop :=
  (Sheet.parse source).diagnostics.reported = [] ∧
    ∃ token ∈ strings source, ∃ lineage ∈ (Sheet.parse source).lineages, lineage.emitted ≠ [] ∧
      ∃ rule ∈ lineage.contributors, token.StandsIn rule.range ∧ ¬token.text <:+: (Sheet.parse source).build

instance (source : Text) : Decidable (AltersString source) :=
  inferInstanceAs (Decidable (_ ∧ _))

/-- Three strings of selectors that are not built as they are written: two spaces become one, `&` becomes the
parent, and a comma after an escaped quote divides selectors. -/
theorem strings_altered :
    AltersString "a[b=\"x  y\"] \x7b c: d \x7d".toList ∧
      AltersString ".a \x7b [x=\"&\"] \x7b c: d \x7d \x7d".toList ∧
      AltersString "\"a\\\",b\" \x7b c: d \x7d".toList := by
  decide +kernel

end Sitewright.Style
