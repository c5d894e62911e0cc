import Sitewright.Proofs.Style.Heads

/-!
Flattening keeps declarations. In a sheet without problems a rule has declarations only where a selector or
an at-rule encloses it. Flattening asks for selectors, and a media rule that stands in an at-rule with no
selector between has none: its declarations are lost (`declarations_lost`). All other declarations are
kept, in one flat rule for each rule that has some.
-/

namespace Sitewright.Style

/-! ## Rules and their contexts -/

/-- The rules of a forest in document order, each with the context in which it stands. -/
def placedRules (context : Context) : Forest (Nat × Rule) → List (Context × Nat × Rule)
  | .nil => []
  | .cons (id, rule) below after =>
    (context, id, rule) :: (placedRules (context.inside rule.head) below ++ placedRules context after)

theorem map_placedRules (context : Context) (forest : Forest (Nat × Rule)) :
    (placedRules context forest).map Prod.snd = forest.preorder := by
  induction forest generalizing context with
  | nil => rfl
  | cons entry below after ihbelow ihafter =>
    simp only [placedRules, Forest.preorder, List.map_cons, List.map_append, ihbelow, ihafter]

theorem forall_placedRules_of_within {P : Context → Rule → Prop} {context : Context} {forest : Forest Rule}
    (h : Within P context forest) (start : Nat) :
    ∀ entry ∈ placedRules context (forest.number start), P entry.1 entry.2.2 := by
  induction forest generalizing context start with
  | nil =>
    intro entry hentry
    cases hentry
  | cons rule below after ihbelow ihafter =>
    obtain ⟨hrule, hbelow, hafter⟩ := h
    simp only [Forest.number, placedRules, List.forall_mem_cons, List.forall_mem_append]
    exact ⟨hrule, ihbelow hbelow _, ihafter hafter _⟩

/-! ## Scopes -/

/-- What a rule takes from the rules around it. -/
structure Scope where
  selectors : List Text
  media : Option Text
  group : Option Nat

namespace Scope

/-- The scope of the declarations of a rule. -/
def own (scope : Scope) (rule : Rule) : Scope :=
  match rule.head with
  | .style tokens => { scope with selectors := combine scope.selectors tokens }
  | .media key => { scope with media := some key }
  | .transparent => scope
  | .atRule => ⟨[rule.text], none, none⟩

/-- The scope of the rules inside a rule with a number. -/
def inside (scope : Scope) (id : Nat) (rule : Rule) : Scope :=
  match rule.head with
  | .atRule => ⟨[], none, some id⟩
  | _ => scope.own rule

theorem inside_of_ne_atRule {rule : Rule} (h : rule.head ≠ .atRule) (scope : Scope) (id : Nat) :
    scope.inside id rule = scope.own rule := by
  rw [inside]
  split
  next hhead => exact absurd hhead h
  next => rfl

end Scope

theorem flatten_cons (scope : Scope) (id : Nat) (rule : Rule) (below after : Forest (Nat × Rule)) :
    flatten scope.selectors scope.media scope.group (.cons (id, rule) below after) =
      emit (scope.own rule).selectors (scope.own rule).media (scope.own rule).group rule ++
        flatten (scope.inside id rule).selectors (scope.inside id rule).media (scope.inside id rule).group below ++
        flatten scope.selectors scope.media scope.group after := by
  rw [flatten, Scope.inside, Scope.own]
  cases rule.head <;> rfl

/-- What is `passed` on by rules that are `fit` holds in every scope, and what their own flat rules have from
it, all flat rules have. -/
theorem forall_mem_flatten (passed : Context → Scope → Prop) (fit : Context → Nat → Rule → Prop)
    {P : FlatRule → Prop}
    (hemit : ∀ context scope id rule, passed context scope → fit context id rule →
      ∀ flat ∈ emit (scope.own rule).selectors (scope.own rule).media (scope.own rule).group rule, P flat)
    (hinside : ∀ context scope id rule, passed context scope → fit context id rule →
      passed (context.inside rule.head) (scope.inside id rule))
    {context : Context} {scope : Scope} (hscope : passed context scope) {forest : Forest (Nat × Rule)}
    (hforest : ∀ entry ∈ placedRules context forest, fit entry.1 entry.2.1 entry.2.2) :
    ∀ flat ∈ flatten scope.selectors scope.media scope.group forest, P flat := by
  induction forest generalizing context scope with
  | nil =>
    intro flat hflat
    cases hflat
  | cons entry below after ihbelow ihafter =>
    obtain ⟨id, rule⟩ := entry
    rw [placedRules, List.forall_mem_cons, List.forall_mem_append] at hforest
    obtain ⟨hrule, hbelow, hafter⟩ := hforest
    rw [flatten_cons, List.forall_mem_append, List.forall_mem_append]
    exact ⟨⟨hemit context scope id rule hscope hrule, ihbelow (hinside context scope id rule hscope hrule) hbelow⟩,
      ihafter hscope hafter⟩

/-- A media rule in an at-rule, with no selector between them. -/
def isDetached (context : Context) (rule : Rule) : Bool :=
  rule.mediaKey?.isSome && context.hasSelector && !context.hasParent

/-- The declarations of the rules that have some and are not detached. -/
def keptDeclarations (placed : List (Context × Nat × Rule)) : List (List Declaration) :=
  (placed.filter fun (context, _, rule) => !isDetached context rule && rule.declarations ≠ []).map
    fun (_, _, rule) => rule.declarations

theorem keptDeclarations_append (a b : List (Context × Nat × Rule)) :
    keptDeclarations (a ++ b) = keptDeclarations a ++ keptDeclarations b := by
  rw [keptDeclarations, List.filter_append, List.map_append]
  rfl

theorem keptDeclarations_cons (entry : Context × Nat × Rule) (placed : List (Context × Nat × Rule)) :
    keptDeclarations (entry :: placed) = keptDeclarations [entry] ++ keptDeclarations placed :=
  keptDeclarations_append [entry] placed

/-! ## What a rule without problems is -/

section

variable {origin : Origin} {context : Context} {rule : Rule}

theorem Rule.Read.ne_transparent (h : rule.Read origin context) (hsilent : origin.found.problems = []) :
    rule.head ≠ .transparent := by
  intro hhead
  cases h.opened with
  | bare _ _ hproblem =>
    rw [hsilent] at hproblem
    cases hproblem
  | written fragment _ _ _ hread hfound =>
    exact problems_of_transparent (hread.symm.trans hhead) (List.eq_nil_of_subset_nil (hsilent ▸ hfound.problems))

theorem Rule.Read.hasSelector (h : rule.Read origin context)
    (hne : rule.declarations ≠ []) : (context.inside rule.head).hasSelector = true := by
  obtain ⟨declaration, hmem⟩ := List.exists_mem_of_ne_nil _ hne
  obtain ⟨fragment, findings, -, -, hread, -⟩ := h.declarations declaration hmem
  obtain ⟨-, -, -, -, -, -, -, -, -, hselector, -⟩ := of_readDeclaration hread
  exact hselector

/-- The selectors of a rule make some inside the selectors of its parents. -/
theorem Rule.Read.combine_ne_nil {tokens : List Text} (h : rule.Read origin context)
    (hsilent : origin.found.problems = []) (hhead : rule.head = .style tokens) {parents : List Text}
    (hparent : parents ≠ [] ↔ context.hasParent = true) (hempty : [] ∉ parents) :
    combine parents tokens ≠ [] := by
  obtain ⟨fragment, -, -, -, hread, hfound⟩ := h.opened.exists_fragment (h.ne_transparent hsilent)
  obtain ⟨-, htokens, hnil, hdangling⟩ := of_readHead_style (hread.symm.trans hhead)
  refine Style.combine_ne_nil hempty ?_ hnil ?_ fun hexists => hparent.mpr (hdangling ?_ hexists)
  · rw [htokens]
    exact splitSelectors_ne_nil 0 none [] rule.text
  · intro token hmem
    rw [htokens] at hmem
    exact trimmed_of_mem_selectorList hmem
  · exact List.eq_nil_of_subset_nil (hsilent ▸ hfound.problems)

end

/-! ## Flattening -/

section

variable {origin : Origin} {context : Context} {rule : Rule} {selectors : List Text}

theorem map_emit (h : selectors ≠ []) (hattached : isDetached context rule = false) (media : Option Text)
    (group : Option Nat) (id : Nat) :
    (emit selectors media group rule).map FlatRule.declarations = keptDeclarations [(context, id, rule)] := by
  by_cases hdeclarations : rule.declarations = []
  · simp [emit, keptDeclarations, hdeclarations]
  · simp [emit, keptDeclarations, hdeclarations, h, hattached]

/-- A media rule says something under its selectors, and it is detached if it has declarations and no
selectors. -/
theorem map_emit_media {key : Text} (hread : rule.Read origin context) (hhead : rule.head = .media key)
    (hparent : selectors ≠ [] ↔ context.hasParent = true) (media : Option Text) (group : Option Nat)
    (id : Nat) :
    (emit selectors media group rule).map FlatRule.declarations = keptDeclarations [(context, id, rule)] := by
  by_cases hselectors : selectors = []
  · have hempty : emit selectors media group rule = [] := if_pos (.inr hselectors)
    rw [hempty]
    by_cases hdeclarations : rule.declarations = []
    · simp [keptDeclarations, hdeclarations]
    · have hselector := hread.hasSelector hdeclarations
      rw [hhead] at hselector
      have hnone : context.hasParent = false := by
        rw [← Bool.not_eq_true, ← hparent]
        exact fun h => h hselectors
      have hdetached : isDetached context rule = true := by
        simp only [isDetached, Rule.mediaKey?, hhead, hnone, Option.isSome_some, Bool.true_and,
          Bool.not_false, Bool.and_true]
        exact hselector
      simp [keptDeclarations, hdetached]
  · refine map_emit hselectors ?_ media group id
    rw [isDetached, hparent.mp hselectors, Bool.not_true, Bool.and_false]

/-- Flattening keeps the declarations of a forest, in document order. -/
theorem map_flatten {forest : Forest Rule} (hread : Within (Rule.Read origin) context forest)
    (hsilent : origin.found.problems = []) (hparent : selectors ≠ [] ↔ context.hasParent = true)
    (hempty : [] ∉ selectors) (media : Option Text) (group : Option Nat) (start : Nat) :
    (flatten selectors media group (forest.number start)).map FlatRule.declarations =
      keptDeclarations (placedRules context (forest.number start)) := by
  induction forest generalizing context selectors media group start with
  | nil => rfl
  | cons rule below after ihbelow ihafter =>
    obtain ⟨hrule, hbelow, hafter⟩ := hread
    rw [Forest.number, flatten, placedRules, List.map_append, ihafter hafter hparent hempty,
      keptDeclarations_cons, keptDeclarations_append, ← List.append_assoc]
    congr 1
    cases hhead : rule.head with
    | style tokens =>
      have hattached : isDetached context rule = false := by
        rw [isDetached, Rule.mediaKey?, hhead]
        rfl
      have hcombine := hrule.combine_ne_nil hsilent hhead hparent hempty
      have hemit := map_emit hcombine hattached media group start
      rw [hhead] at hbelow
      have hinside := ihbelow hbelow ⟨fun _ => rfl, fun _ => hcombine⟩
        (nil_not_mem_combine selectors tokens) media group (start + 1)
      simp only [List.map_append, hemit, hinside]
    | media key =>
      have hemit := map_emit_media hrule hhead hparent (some key) group start
      rw [hhead] at hbelow
      have hinside := ihbelow hbelow hparent hempty (some key) group (start + 1)
      simp only [List.map_append, hemit, hinside]
    | atRule =>
      have hattached : isDetached context rule = false := by
        rw [isDetached, Rule.mediaKey?, hhead]
        rfl
      have hemit := map_emit (List.cons_ne_nil rule.text []) hattached none none start
      rw [hhead] at hbelow
      have hinside := ihbelow hbelow ⟨fun h => absurd rfl h, fun h => by cases h⟩ List.not_mem_nil
        none (some start) (start + 1)
      simp only [List.map_append, hemit, hinside]
    | transparent => exact absurd hhead (hrule.ne_transparent hsilent)

end

theorem flatten_keptDeclarations_singleton (context : Context) (id : Nat) (rule : Rule) :
    (keptDeclarations [(context, id, rule)]).flatten =
      if isDetached context rule then [] else rule.declarations := by
  by_cases hdeclarations : rule.declarations = []
  · simp [keptDeclarations, hdeclarations]
  · cases hdetached : isDetached context rule <;> simp [keptDeclarations, hdeclarations, hdetached]

theorem sublist_flatten_keptDeclarations (placed : List (Context × Nat × Rule)) :
    List.Sublist (keptDeclarations placed).flatten
      (placed.flatMap fun entry => entry.2.2.declarations) := by
  induction placed with
  | nil => exact .slnil
  | cons entry placed ih =>
    rw [keptDeclarations_cons, List.flatten_append, List.flatMap_cons, flatten_keptDeclarations_singleton]
    refine List.Sublist.append ?_ ih
    split
    · exact List.nil_sublist _
    · exact List.Sublist.refl _

/-- Nothing is lost if the detached rules have no declarations, and only then. -/
theorem flatten_keptDeclarations (placed : List (Context × Nat × Rule)) :
    (keptDeclarations placed).flatten = placed.flatMap (fun entry => entry.2.2.declarations) ↔
      ∀ entry ∈ placed, isDetached entry.1 entry.2.2 = true → entry.2.2.declarations = [] := by
  induction placed with
  | nil => simp [keptDeclarations]
  | cons entry placed ih =>
    rw [keptDeclarations_cons, List.flatten_append, List.flatMap_cons, flatten_keptDeclarations_singleton,
      List.forall_mem_cons]
    cases hdetached : isDetached entry.1 entry.2.2 with
    | false => simpa using ih
    | true =>
      have hle := (sublist_flatten_keptDeclarations placed).length_le
      simp only [if_true, List.nil_append, forall_const]
      constructor
      · intro heq
        have hlength := congrArg List.length heq
        rw [List.length_append] at hlength
        have hnil : entry.2.2.declarations = [] := List.eq_nil_of_length_eq_zero (by omega)
        rw [hnil, List.nil_append, ih] at heq
        exact ⟨hnil, heq⟩
      · rintro ⟨hnil, hrest⟩
        rw [hnil, List.nil_append, ih]
        exact hrest

/-- **Flattening keeps the declarations of a sheet without problems, except those of detached rules.** There
is one flat rule for each rule that has declarations and is not a media rule in an at-rule without a selector
between, with the same declarations and in the order of the numbers. So nothing is lost exactly if the
detached rules have no declarations. -/
theorem declarations_kept (source : Text) (h : (Sheet.parse source).diagnostics.reported = []) :
    (Sheet.parse source).rules.preorder = (placedRules .top (Sheet.parse source).rules).map Prod.snd ∧
    (Sheet.parse source).rules.preorder.map Prod.fst =
      List.range' 1 (Sheet.parse source).rules.preorder.length ∧
    (Sheet.parse source).flatRules.map FlatRule.declarations =
      keptDeclarations (placedRules .top (Sheet.parse source).rules) ∧
    ((Sheet.parse source).flatRules.flatMap FlatRule.declarations =
        (Sheet.parse source).rules.preorder.flatMap (fun entry => entry.2.declarations) ↔
      ∀ entry ∈ placedRules .top (Sheet.parse source).rules,
        isDetached entry.1 entry.2.2 = true → entry.2.2.declarations = []) := by
  obtain ⟨top, hrules, hread, -⟩ := Sheet.read_parse source
  have hflat : (Sheet.parse source).flatRules.map FlatRule.declarations =
      keptDeclarations (placedRules .top (Sheet.parse source).rules) := by
    rw [Sheet.flatRules, hrules]
    exact map_flatten hread h (by decide) List.not_mem_nil none none 1
  refine ⟨(map_placedRules _ _).symm, ?_, hflat, ?_⟩
  · rw [hrules, Forest.preorder_number, Forest.length_preorder, Forest.size_number]
  · rw [List.flatMap_def, hflat, ← map_placedRules .top, List.flatMap_map]
    exact flatten_keptDeclarations _

/-- A sheet with rules of each kind: selectors in selectors and in an at-rule, and media rules in both. -/
def layered : Text :=
  ".a \x7b b: c; @sm \x7b d: e; &:f \x7b g: h \x7d \x7d \x7d @i j \x7b k: l; @m \x7b .n \x7b o: p \x7d \x7d \x7d".toList

/-- All five declarations of the sheet are kept. -/
theorem declarations_kept_of_layered :
    (Sheet.parse layered).diagnostics.reported = [] ∧
      (Sheet.parse layered).flatRules.flatMap FlatRule.declarations =
        (Sheet.parse layered).rules.preorder.flatMap (fun entry => entry.2.declarations) ∧
      ((Sheet.parse layered).flatRules.flatMap FlatRule.declarations).length = 5 := by
  have hfacts : (Sheet.parse layered).diagnostics.reported = [] ∧
      (∀ entry ∈ placedRules .top (Sheet.parse layered).rules,
        isDetached entry.1 entry.2.2 = true → entry.2.2.declarations = []) ∧
      ((Sheet.parse layered).flatRules.flatMap FlatRule.declarations).length = 5 := by
    decide +kernel
  obtain ⟨hproblems, hattached, hlength⟩ := hfacts
  exact ⟨hproblems, (declarations_kept layered hproblems).2.2.2.mpr hattached, hlength⟩

/-- A media rule in an at-rule loses its declaration, and there is no problem to report. -/
theorem declarations_lost :
    let sheet := Sheet.parse "@font-face \x7b @sm \x7b src: x \x7d \x7d".toList
    sheet.diagnostics.reported = [] ∧ sheet.flatRules = [] ∧
      (sheet.rules.preorder.flatMap fun entry => entry.2.declarations) =
        [⟨"src".toList, "x".toList, ⟨19, 25⟩⟩] := by
  decide +kernel

end Sitewright.Style
