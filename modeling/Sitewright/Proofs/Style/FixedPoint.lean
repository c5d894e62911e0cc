import Sitewright.Proofs.Style.Concatenation
import Sitewright.Proofs.Style.Selectors

/-!
Building again. The text that is built from a sheet is read as a sheet that builds the same text, if its
selectors are legible. They are if the selectors of its rules are in order: strings and brackets closed, no
slashes outside of strings, no backslashes in them, and `&` neither in a string nor in a placeholder nor
where there is no parent. Without these conditions a selector may be taken for another one, for two, for a
comment or for a string without end (`build_changes`).
-/

namespace Sitewright.Style

variable {sheet : Sheet}

/-! ## Places do not show -/

/-- A flat rule without the places of its declarations. -/
def FlatRule.bare (rule : FlatRule) : FlatRule :=
  { rule with declarations := rule.declarations.map Declaration.bare }

/-- A sheet without the places of its rules. -/
def Sheet.bare (sheet : Sheet) : Sheet :=
  { sheet with rules := sheet.rules.map fun entry => (entry.1, entry.2.bare) }

theorem FlatRule.looksLike_bare (rule : FlatRule) : rule.bare.LooksLike rule := by
  refine ⟨rfl, fun depth => ?_⟩
  rw [formatRule, bare, List.map_map]
  rfl

theorem emit_bare (selectors : List Text) (media : Option Text) (group : Option Nat) (rule : Rule) :
    emit selectors media group rule.bare = (emit selectors media group rule).map FlatRule.bare := by
  simp only [emit, Rule.bare, List.map_eq_nil_iff]
  split <;> rfl

theorem flatten_bare (selectors : List Text) (media : Option Text) (group : Option Nat)
    (forest : Forest (Nat × Rule)) :
    flatten selectors media group (forest.map fun entry => (entry.1, entry.2.bare)) =
      (flatten selectors media group forest).map FlatRule.bare := by
  induction forest generalizing selectors media group with
  | nil => rfl
  | cons entry below after ihbelow ihafter =>
    obtain ⟨id, rule⟩ := entry
    have hhead : rule.bare.head = rule.head := rfl
    have htext : rule.bare.text = rule.text := rfl
    simp only [Forest.map, flatten, hhead, htext, emit_bare, ihbelow, ihafter, List.map_append]
    cases rule.head <;> simp only [List.map_append]

theorem Sheet.flatRules_bare (sheet : Sheet) : sheet.bare.flatRules = sheet.flatRules.map FlatRule.bare :=
  flatten_bare [] none none sheet.rules

theorem topBlocks_congr {other : Sheet} (h : headText other = headText sheet) (order : List Text)
    (all : List FlatRule) (seen : List Nat) (rules : List FlatRule) :
    topBlocks other order all seen rules = topBlocks sheet order all seen rules := by
  induction rules generalizing seen with
  | nil => rfl
  | cons rule rest ih => simp only [topBlocks, h, ih]

/-- A sheet is built from what its rules and statements say. -/
theorem Sheet.buildOrdered_of_bare {other : Sheet} (hrules : other.rules = sheet.bare.rules)
    (hstatements : other.statements.map Statement.text = sheet.statements.map Statement.text)
    (hmalformed : other.isMalformed = sheet.isMalformed) (order : List Text) :
    other.buildOrdered order = sheet.buildOrdered order := by
  have hflat : other.flatRules = sheet.flatRules.map FlatRule.bare := by
    rw [flatRules, hrules]
    exact sheet.flatRules_bare
  have hheads : headText other = headText sheet := by
    funext id
    rw [headText, hrules, bare, Forest.preorder_map, List.find?_map, headText, Option.map_map]
    rfl
  have hfilter : (sheet.flatRules.map FlatRule.bare).filter (fun rule => rule.group = none) =
      (sheet.flatRules.filter fun rule => rule.group = none).map FlatRule.bare :=
    List.filter_map
  have hprinted : (other.statements.map fun statement => statement.text ++ [';']) =
      sheet.statements.map fun statement => statement.text ++ [';'] := by
    have hmap := congrArg (List.map (· ++ [';'])) hstatements
    rwa [List.map_map, List.map_map] at hmap
  have hblocks : other.blocks order = sheet.blocks order := by
    simp only [blocks, hflat, hprinted, topBlocks_congr hheads, hfilter,
      topBlocks_map FlatRule.looksLike_bare (fun _ => rfl), mediaBlocks_map fun rule _ => rule.looksLike_bare]
  rw [buildOrdered, buildOrdered, hblocks, hmalformed]

theorem Sheet.build_bare (sheet : Sheet) : sheet.bare.build = sheet.build :=
  buildOrdered_of_bare rfl rfl rfl []

/-! ## Items that are read back -/

theorem readsBack_of_mem_topItems {heads : Nat → Text} {all : List FlatRule}
    (hall : ∀ rule ∈ all, rule.ReadsBack ∧ ∀ id, rule.group = some id → ReadsAs .top (heads id) .atRule)
    (seen : List Nat) {rules : List FlatRule} (hrules : ∀ rule ∈ rules, rule ∈ all) :
    ∀ item ∈ topItems heads all seen rules, item.ReadsBack := by
  induction rules generalizing seen with
  | nil =>
    intro item hitem
    cases hitem
  | cons rule rest ih =>
    rw [List.forall_mem_cons] at hrules
    obtain ⟨hreads, hgroup⟩ := hall rule hrules.1
    intro item hitem
    cases hcase : rule.group with
    | some id =>
      simp only [topItems, hcase] at hitem
      split at hitem
      · exact ih seen hrules.2 item hitem
      rcases List.mem_cons.mp hitem with rfl | hitem
      · refine ⟨hgroup id hcase, List.ne_nil_of_mem (List.mem_filter.mpr ⟨hrules.1, by simpa using hcase⟩), ?_⟩
        intro other hother
        obtain ⟨hmem, hid⟩ := List.mem_filter.mp hother
        refine ⟨(hall other hmem).1, ?_⟩
        rw [of_decide_eq_true hid]
        exact Option.some_ne_none id
      · exact ih _ hrules.2 item hitem
    | none =>
      simp only [topItems, hcase] at hitem
      split at hitem
      next hmedia =>
        rcases List.mem_cons.mp hitem with rfl | hitem
        · exact ⟨hreads, hcase, hmedia⟩
        · exact ih seen hrules.2 item hitem
      next => exact ih seen hrules.2 item hitem

/-- The items of a sheet. -/
def Sheet.items (sheet : Sheet) : List Item :=
  topItems (headText sheet) sheet.flatRules [] sheet.flatRules

/-- The rules of a sheet in no at-rule. -/
def Sheet.outside (sheet : Sheet) : List FlatRule :=
  sheet.flatRules.filter fun rule => rule.group = none

theorem Sheet.build_eq (h : sheet.isMalformed = false) :
    sheet.build = Text.join ['\n'] ((sheet.statements.map Statement.text).map (· ++ [';']) ++
      sheet.items.map Item.format ++ mediaBlocks 0 [] sheet.outside) := by
  simp only [build, buildOrdered, blocks, h, Bool.false_eq_true, if_false, topBlocks_eq, List.map_map]
  rfl

section

variable {sheet : Sheet} {items : List Item} {outside : List FlatRule}
  (hrules : sheet.rules = (Forest.concat (items.map Item.forest) ++ mediaForest outside).number 1)
  (hitems : ∀ item ∈ items, item.ReadsBack) (houtside : ∀ rule ∈ outside, rule.ReadsBack)
include hrules hitems houtside

theorem Sheet.flatRules_of_rules :
    sheet.flatRules = (rereadItems 1 items).flatMap (fun entry => entry.2.rules) ++
      (keyed outside).map (FlatRule.reread none) := by
  rw [Sheet.flatRules, hrules, Forest.number_append, flatten_append, flatten_items hitems,
    flatten_mediaForest houtside]

/-- A sheet of the rules of printed items and media blocks has the same items and media blocks. -/
theorem Sheet.blocks_of_rules :
    sheet.items.map Item.format = items.map Item.format ∧
      mediaBlocks 0 [] sheet.outside = mediaBlocks 0 [] outside := by
  have hflat := Sheet.flatRules_of_rules hrules hitems houtside
  have hnumbered : ∀ entry ∈ rereadItems 1 items, entry.2.Numbered (headText sheet) entry.1 := by
    refine numbered_rereadItems hitems fun entry hentry => headText_of_mem hrules ?_
    rw [hrules, Forest.number_append, Forest.preorder_append]
    exact List.mem_append_left _ hentry
  have hkeyed : ∀ rule ∈ (keyed outside).map (FlatRule.reread none), rule.group = none ∧ rule.media ≠ none := by
    intro rule hrule
    obtain ⟨old, hold, rfl⟩ := List.mem_map.mp hrule
    exact ⟨rfl, (mem_keyed.mp hold).2⟩
  constructor
  · rw [Sheet.items, hflat, topItems_rules (nodup_rereadItems items 1) hnumbered hkeyed,
      map_format_rereadItems hitems]
  · have hlooks : ∀ rule ∈ keyed outside, (rule.reread none).LooksLike rule :=
      fun rule hrule => (houtside rule (mem_keyed.mp hrule).1).legible.looksLike none
    rw [Sheet.outside, hflat, List.filter_append, mediaBlocks_append, List.filter_eq_self.mpr,
      mediaBlocks_map hlooks, mediaBlocks_keyed]
    · intro rule hrule
      simpa using (hkeyed rule hrule).1
    · -- what stands outside of at-rules among the items has no media key
      intro rule hrule
      obtain ⟨hmem, hgroup⟩ := List.mem_filter.mp hrule
      obtain ⟨entry, hentry, hmem⟩ := List.mem_flatMap.mp hmem
      have hentry := hnumbered entry hentry
      cases hcase : entry.2 with
      | single other =>
        rw [hcase] at hentry hmem
        rw [List.mem_singleton.mp hmem]
        exact hentry.2
      | block head rules =>
        rw [hcase] at hentry hmem
        rw [hentry.2.2 rule hmem] at hgroup
        cases hgroup

end

/-- A sheet that is read from printed items and media blocks builds them. -/
theorem Sheet.build_of_rules (h : sheet.isMalformed = false) {items : List Item} {outside : List FlatRule}
    (hrules : sheet.bare.rules = (Forest.concat (items.map Item.forest) ++ mediaForest outside).number 1)
    (hitems : ∀ item ∈ items, item.ReadsBack) (houtside : ∀ rule ∈ outside, rule.ReadsBack) :
    sheet.build = Text.join ['\n'] ((sheet.statements.map Statement.text).map (· ++ [';']) ++
      items.map Item.format ++ mediaBlocks 0 [] outside) := by
  obtain ⟨hformat, hmedia⟩ := Sheet.blocks_of_rules hrules hitems houtside
  have hmalformed : sheet.bare.isMalformed = false := h
  rw [← Sheet.build_bare, Sheet.build_eq hmalformed, hformat, hmedia]
  rfl

theorem adds_build (h : sheet.isMalformed = false)
    (hstatements : ∀ text ∈ sheet.statements.map Statement.text, PrintableStatement text)
    (hitems : ∀ item ∈ sheet.items, item.ReadsBack) (houtside : ∀ rule ∈ sheet.outside, rule.ReadsBack) :
    Adds .top sheet.build (sheet.statements.map Statement.text)
      (.concat (sheet.items.map Item.forest) ++ mediaForest sheet.outside) := by
  have hblocks := adds_join_append
    (adds_join_append (adds_statements hstatements) (adds_join fun item hitem => adds_item (hitems item hitem)))
    (adds_mediaBlocks houtside .top 0)
  rw [List.append_nil, List.append_nil, Forest.nil_append] at hblocks
  rw [Sheet.build_eq h]
  exact hblocks

theorem build_parse_build {source : Text} (hmalformed : (Sheet.parse source).isMalformed = false)
    (h : ∀ rule ∈ (Sheet.parse source).flatRules, rule.Legible) :
    (Sheet.parse (Sheet.parse source).build).isMalformed = false ∧
      (Sheet.parse (Sheet.parse source).build).build = (Sheet.parse source).build := by
  have hwell := Sheet.isMalformed_eq_false.mp hmalformed
  obtain ⟨top, hrules, hread, hstatements⟩ := Sheet.read_parse source
  have hheads : ∀ entry ∈ (top.number 1).preorder, headText (Sheet.parse source) entry.1 = entry.2.text := by
    intro entry hentry
    refine headText_of_mem hrules ?_
    rw [hrules]
    exact hentry
  have hall : ∀ rule ∈ (Sheet.parse source).flatRules, rule.ReadsBack ∧
      ∀ id, rule.group = some id → ReadsAs .top (headText (Sheet.parse source) id) .atRule := by
    intro rule hrule
    have hlegible := h rule hrule
    rw [Sheet.flatRules, hrules] at hrule
    obtain ⟨hprintable, hgroup⟩ :=
      printable_of_flatten hread hwell hheads (Scope.printable_none _ []) rule hrule
    exact ⟨⟨hprintable, hlegible⟩, hgroup⟩
  have hitems : ∀ item ∈ (Sheet.parse source).items, item.ReadsBack :=
    readsBack_of_mem_topItems hall [] fun _ h => h
  have houtside : ∀ rule ∈ (Sheet.parse source).outside, rule.ReadsBack :=
    fun rule hrule => (hall rule (List.mem_of_mem_filter hrule)).1
  have hprinted : ∀ text ∈ (Sheet.parse source).statements.map Statement.text, PrintableStatement text := by
    intro text htext
    obtain ⟨statement, hmem, rfl⟩ := List.mem_map.mp htext
    exact (hstatements statement hmem).printable hwell
  obtain ⟨hrules', hstatements', hmalformed'⟩ :=
    Sheet.parse_of_adds (adds_build hmalformed hprinted hitems houtside)
  generalize Sheet.parse (Sheet.parse source).build = second at hrules' hstatements' hmalformed' ⊢
  refine ⟨hmalformed', ?_⟩
  rw [Sheet.build_of_rules hmalformed' hrules' hitems houtside, hstatements', Sheet.build_eq hmalformed]

/-- **Building is a fixed point where selectors are legible**, and so where the selectors of all rules are in
order: what is built is well-formed, and it builds itself. -/
theorem build_fixed_point (source : Text)
    (h : (∀ rule ∈ (Sheet.parse source).flatRules, rule.Legible) ∨
      ∀ entry ∈ placedRules .top (Sheet.parse source).rules, ∀ token ∈ entry.2.2.selectors,
        Orderly entry.1 token) :
    (Sheet.parse (Sheet.parse source).build).isMalformed = false ∧
      (Sheet.parse (Sheet.parse source).build).build = (Sheet.parse source).build := by
  cases hmalformed : (Sheet.parse source).isMalformed with
  | true =>
    have hbuild : (Sheet.parse source).build = [] := by
      rw [Sheet.build, Sheet.buildOrdered, hmalformed]
      rfl
    rw [hbuild]
    decide
  | false =>
    refine build_parse_build hmalformed (h.elim id fun horderly => ?_)
    obtain ⟨top, hrules, hread, -⟩ := Sheet.read_parse source
    rw [hrules] at horderly
    rw [Sheet.flatRules, hrules]
    have hscope : Inherited .top (Scope.mk [] none none).selectors := inherited_nil rfl
    exact legible_of_flatten hread (Sheet.isMalformed_eq_false.mp hmalformed) horderly hscope

/-- A sheet with a statement, selectors in selectors, strings and brackets, and media rules in a rule and in
an at-rule. -/
def assorted : Text :=
  "@a b; .c, .d \x7b e: f; &:is(g, h) \x7b i: j \x7d @k \x7b [l=\"m, n\"] & \x7b o: p \x7d \x7d \x7d".toList ++
    "@q r \x7b s \x7b t: u; @v \x7b w: x \x7d \x7d \x7d".toList

/-- A bracket that is not closed is not in order, and yet legible. -/
def unclosed : Text :=
  ".a( \x7b b: c \x7d".toList

theorem build_fixed_point_of_assorted :
    ((Sheet.parse assorted).flatRules.length = 5 ∧
      (Sheet.parse (Sheet.parse assorted).build).build = (Sheet.parse assorted).build) ∧
    (¬Orderly .top ".a(".toList ∧
      (Sheet.parse (Sheet.parse unclosed).build).build = (Sheet.parse unclosed).build) := by
  have horderly : ∀ entry ∈ placedRules .top (Sheet.parse assorted).rules, ∀ token ∈ entry.2.2.selectors,
      Orderly entry.1 token := by
    decide +kernel
  have hlegible : ∀ rule ∈ (Sheet.parse unclosed).flatRules, rule.Legible := by
    decide +kernel
  exact ⟨⟨by decide +kernel, (build_fixed_point assorted (.inr horderly)).2⟩, by decide,
    (build_fixed_point unclosed (.inl hlegible)).2⟩

/-- Sheets that build another text when they are built again: with `&` in a placeholder, a slash, a backslash
in a string, a bracket that is not closed, and `&` in a string. -/
def unstable : List Text :=
  [".a \x7b %p& \x7b b& \x7b x: y \x7d \x7d \x7d", "* \x7b /& \x7b x: y \x7d \x7d",
    "\"a\\\", b\" \x7b & & \x7b x: y \x7d \x7d", "%b( \x7b &, %c), %b(, %c) \x7b x: y \x7d \x7d",
    "\"a,b\" \x7b x\"&\" \x7b y: z \x7d \x7d"].map String.toList

/-- There is no problem to report with any of them; and `&` without a parent, which is one, leaves two
spaces behind. -/
theorem build_changes :
    (∀ source ∈ unstable, (Sheet.parse source).diagnostics.reported = [] ∧
      (Sheet.parse (Sheet.parse source).build).build ≠ (Sheet.parse source).build) ∧
    (Sheet.parse "a & b \x7b x: y \x7d".toList).build = "a  b \x7b\n  x: y\n\x7d".toList ∧
    (Sheet.parse "a  b \x7b\n  x: y\n\x7d".toList).build = "a b \x7b\n  x: y\n\x7d".toList := by
  decide +kernel

end Sitewright.Style
