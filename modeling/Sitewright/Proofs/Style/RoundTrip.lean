import Sitewright.Proofs.Style.FixedPoint

/-!
Flat sheets are read as they are printed. A flat sheet has rules and media groups, and no nesting: what is
printed for it is read as the same rules, and they build the same text again (`FlatSheet.read_print`).
Outside of strings, braces, semicolons and comments are all that could be taken for something else, so a
flat sheet has none of them; a selector has neither brackets nor commas, and no `&`.
-/

namespace Sitewright.Style

variable {text : Text}

/-! ## Flat sheets -/

/-- The text has none of some characters. -/
def Without (characters : String) (text : Text) : Prop :=
  ∀ c ∈ text, c ∉ characters.toList

instance (characters : String) (text : Text) : Decidable (Without characters text) :=
  List.decidableBAll (fun c => c ∉ characters.toList) text

/-- A selector that stands for itself. -/
structure FlatSelector (selector : Text) : Prop where
  ne_nil : selector ≠ []
  squeezed : Text.squeeze selector = selector
  sign : selector.head? ≠ some '@'
  characters : Without "\x7b\x7d;,\"'/\\&()[]" selector

instance (selector : Text) : Decidable (FlatSelector selector) :=
  decidable_of_iff (selector ≠ [] ∧ Text.squeeze selector = selector ∧ selector.head? ≠ some '@' ∧
      Without "\x7b\x7d;,\"'/\\&()[]" selector)
    ⟨fun h => ⟨h.1, h.2.1, h.2.2.1, h.2.2.2⟩, fun h => ⟨h.ne_nil, h.squeezed, h.sign, h.characters⟩⟩

/-- A media key without strings, comments and braces. -/
structure FlatKey (key : Text) : Prop where
  ne_nil : key ≠ []
  squeezed : Text.squeeze key = key
  characters : Without "\x7b\x7d;\"'/" key

instance (key : Text) : Decidable (FlatKey key) :=
  decidable_of_iff (key ≠ [] ∧ Text.squeeze key = key ∧ Without "\x7b\x7d;\"'/" key)
    ⟨fun h => ⟨h.1, h.2.1, h.2.2⟩, fun h => ⟨h.ne_nil, h.squeezed, h.characters⟩⟩

/-- A declaration without strings, comments and braces. -/
structure FlatDeclaration (declaration : Declaration) : Prop where
  property_ne : declaration.property ≠ []
  solid : ∀ c ∈ declaration.property, isBlank c = false
  sign : declaration.property.head? ≠ some '@'
  property : Without "\x7b\x7d;:\"'/" declaration.property
  value_ne : declaration.value ≠ []
  trimmed : Text.trim declaration.value = declaration.value
  value : Without "\x7b\x7d;\"'" declaration.value
  comment : ¬"/*".toList <:+: declaration.value

instance (declaration : Declaration) : Decidable (FlatDeclaration declaration) :=
  have := List.decidableBAll (fun c => isBlank c = false) declaration.property
  decidable_of_iff ((declaration.property ≠ [] ∧ (∀ c ∈ declaration.property, isBlank c = false) ∧
      declaration.property.head? ≠ some '@' ∧ Without "\x7b\x7d;:\"'/" declaration.property) ∧
      declaration.value ≠ [] ∧ Text.trim declaration.value = declaration.value ∧
      Without "\x7b\x7d;\"'" declaration.value ∧ ¬"/*".toList <:+: declaration.value)
    ⟨fun h => ⟨h.1.1, h.1.2.1, h.1.2.2.1, h.1.2.2.2, h.2.1, h.2.2.1, h.2.2.2.1, h.2.2.2.2⟩,
      fun h => ⟨⟨h.property_ne, h.solid, h.sign, h.property⟩, h.value_ne, h.trimmed, h.value, h.comment⟩⟩

/-- A rule of a flat sheet, in the media group of a key or in none. -/
structure FlatRule.InGroup (media : Option Text) (rule : FlatRule) : Prop where
  media : rule.media = media
  group : rule.group = none
  selectors_ne : rule.selectors ≠ []
  nodup : rule.selectors.Nodup
  selectors : ∀ selector ∈ rule.selectors, FlatSelector selector
  declarations_ne : rule.declarations ≠ []
  declarations : ∀ declaration ∈ rule.declarations, FlatDeclaration declaration

instance (media : Option Text) (rule : FlatRule) : Decidable (rule.InGroup media) :=
  decidable_of_iff ((rule.media = media ∧ rule.group = none) ∧
      (rule.selectors ≠ [] ∧ rule.selectors.Nodup ∧ ∀ selector ∈ rule.selectors, FlatSelector selector) ∧
      rule.declarations ≠ [] ∧ ∀ declaration ∈ rule.declarations, FlatDeclaration declaration)
    ⟨fun h => ⟨h.1.1, h.1.2, h.2.1.1, h.2.1.2.1, h.2.1.2.2, h.2.2.1, h.2.2.2⟩,
      fun h => ⟨⟨h.media, h.group⟩, ⟨h.selectors_ne, h.nodup, h.selectors⟩, h.declarations_ne, h.declarations⟩⟩

/-- Rules, and then media groups: a key for each, and its rules. -/
structure FlatSheet where
  plain : List FlatRule
  groups : List (Text × List FlatRule)
  plain_rules : ∀ rule ∈ plain, rule.InGroup none
  group_keys : ∀ group ∈ groups, FlatKey group.1
  group_ne : ∀ group ∈ groups, group.2 ≠ []
  group_rules : ∀ group ∈ groups, ∀ rule ∈ group.2, rule.InGroup (some group.1)
  distinct : (groups.map Prod.fst).Nodup

namespace FlatSheet

/-- The rules of all groups. -/
def keyed (sheet : FlatSheet) : List FlatRule :=
  sheet.groups.flatMap Prod.snd

/-- The rules in the order in which they are printed. -/
def rules (sheet : FlatSheet) : List FlatRule :=
  sheet.plain ++ sheet.keyed

/-- The text of the sheet: a block for each rule, and one for each group. -/
def print (sheet : FlatSheet) : Text :=
  Text.join ['\n'] (sheet.plain.map (formatRule 0) ++
    sheet.groups.map fun group => formatBlock 0 (mediaHead group.1) group.2)

end FlatSheet

/-! ## Each part is read back -/

theorem Without.isSpecial (h : Without "\x7b\x7d;\"'/" text) : ∀ c ∈ text, Lexer.isSpecial c = false := by
  intro c hc
  have hnot := h c hc
  simp only [Lexer.isSpecial, Bool.or_eq_false_iff, beq_eq_false_iff_ne]
  simpa [and_assoc] using hnot

theorem Without.mono {some more : String} (h : Without more text)
    (hsub : some.toList ⊆ more.toList) : Without some text :=
  fun c hc hmem => h c hc (hsub hmem)

theorem FlatSelector.closed {selector : Text} (h : FlatSelector selector) : Closed selector := by
  have hnext (c : Char) (hc : c ∉ "\x7b\x7d;,\"'/\\&()[]".toList) :
      Nesting.ground.next c = some .ground := by
    simp only [String.reduceToList, List.mem_cons, List.not_mem_nil, or_false, not_or] at hc
    simp [Nesting.next, Nesting.ground, Lexer.isSpecial, hc]
  have hread (text : Text) (htext : Without "\x7b\x7d;,\"'/\\&()[]" text) :
      Nesting.ground.read text = some .ground := by
    induction text with
    | nil => rfl
    | cons c rest ih =>
      have hhead := hnext c (htext c List.mem_cons_self)
      have hrest := ih fun d hd => htext d (List.mem_cons_of_mem c hd)
      rw [Nesting.read, hhead, Option.bind_some, hrest]
  exact hread selector h.characters

theorem FlatSelector.standing {selector : Text} (h : FlatSelector selector) : Standing selector := by
  have htrimmed := Text.trimmed_of_squeeze_eq h.squeezed
  refine ⟨h.ne_nil, h.closed, fun hmem => h.characters _ hmem (by decide), htrimmed, ?_⟩
  have hspaced := Text.spaced_squeeze htrimmed
  rwa [h.squeezed] at hspaced

theorem FlatKey.readsAs {key : Text} (h : FlatKey key) (context : Context) :
    ReadsAs context (mediaHead key) (.media key) :=
  readsAs_mediaHead h.ne_nil h.squeezed h.characters.isSpecial context

/-- Text without strings, braces and semicolons is plain if no comment begins in it. -/
theorem Scan.exists_read {scan : Scan} (hscan : scan.isOutside = true)
    (htext : Without "\x7b\x7d;\"'" text) (hcomment : ¬"/*".toList <:+: text)
    (hstar : scan = .slash → text.head? ≠ some '*') :
    ∃ after, scan.read text = some after ∧ after.isOutside = true := by
  induction text generalizing scan with
  | nil => exact ⟨scan, rfl, hscan⟩
  | cons c rest ih =>
    have hc := htext c List.mem_cons_self
    simp only [String.reduceToList, List.mem_cons, List.not_mem_nil, or_false, not_or] at hc
    have hopening : Scan.opening c = some (if c = '/' then .slash else .out) := by
      simp only [Scan.opening, isStructural, hc, beq_iff_eq, Bool.or_eq_true, or_self, if_false]
      split <;> rfl
    have hnext : scan.next c = some (if c = '/' then .slash else .out) := by
      cases scan with
      | out => exact hopening
      | slash =>
        have hne : c ≠ '*' := fun heq => hstar rfl (by rw [heq]; rfl)
        rw [Scan.next, if_neg hne, hopening]
      | quoted quote escaped => cases hscan
    have hrest : ¬"/*".toList <:+: rest :=
      fun hpart => hcomment (hpart.trans (List.suffix_cons c rest).isInfix)
    have houtside : Scan.isOutside (if c = '/' then .slash else .out) = true := by
      split <;> rfl
    have hhead : (if c = '/' then Scan.slash else .out) = .slash → rest.head? ≠ some '*' := by
      split
      next hslash =>
        intro _ hhead
        obtain ⟨others, rfl⟩ := List.head?_eq_some_iff.mp hhead
        exact hcomment ⟨[], others, by rw [hslash]; rfl⟩
      next =>
        intro hslash
        cases hslash
    obtain ⟨after, hread, hafter⟩ :=
      ih houtside (fun d hd => htext d (List.mem_cons_of_mem c hd)) hrest hhead
    exact ⟨after, by rw [Scan.read, hnext, Option.bind_some, hread], hafter⟩

theorem FlatDeclaration.printable {declaration : Declaration} (h : FlatDeclaration declaration) :
    declaration.Printable := by
  have hspecial := (h.property.mono (by decide : "\x7b\x7d;\"'/".toList ⊆ _)).isSpecial
  obtain ⟨scan, hread, hscan⟩ := Scan.exists_read (rfl : Scan.out.isOutside = true) h.value h.comment nofun
  refine ⟨h.property_ne, h.solid, fun hmem => h.property _ hmem (by decide), h.sign, h.value_ne,
    h.trimmed ▸ Text.trimmed_trim _, plain_iff.mpr ⟨scan, ?_, hscan⟩⟩
  have hcolon : Scan.out.read [':', ' '] = some .out := by decide
  have happend : declaration.property ++ ':' :: ' ' :: declaration.value =
      declaration.property ++ ([':', ' '] ++ declaration.value) := rfl
  rw [happend, Scan.read_append, Scan.read_of_no_special hspecial, Option.bind_some, Scan.read_append, hcolon,
    Option.bind_some, hread]

namespace FlatRule.InGroup

variable {rule : FlatRule} {media : Option Text}

theorem inherited (h : rule.InGroup media) : Inherited ⟨false, true, true⟩ rule.selectors := by
  refine ⟨fun selector hselector => (h.selectors selector hselector).standing, h.nodup, ?_,
    fun _ => rfl, fun _ => h.selectors_ne⟩
  exact fun selector hselector => (h.selectors selector (List.mem_of_mem_head? hselector)).sign

theorem readsBack (h : rule.InGroup media) (hkey : ∀ key, media = some key → FlatKey key) : rule.ReadsBack := by
  refine ⟨⟨h.declarations_ne, fun declaration hmem => (h.declarations declaration hmem).printable, ?_⟩,
    h.inherited.legible h.selectors_ne rfl⟩
  exact fun key hmedia => (hkey key (h.media.symm.trans hmedia)).readsAs

/-- The rule is read as it is, but for places. -/
theorem reread_eq (h : rule.InGroup media) : rule.reread none = rule.bare := by
  rw [FlatRule.reread, h.inherited.outermost h.selectors_ne rfl, FlatRule.bare, h.group]
  rfl

end FlatRule.InGroup

/-! ## Whole sheets -/

namespace FlatSheet

variable (sheet : FlatSheet)

theorem readsBack_plain : ∀ rule ∈ sheet.plain, rule.ReadsBack :=
  fun rule hrule => (sheet.plain_rules rule hrule).readsBack nofun

theorem inGroup_of_mem_keyed {rule : FlatRule} (h : rule ∈ sheet.keyed) :
    ∃ group ∈ sheet.groups, rule.InGroup (some group.1) := by
  obtain ⟨group, hgroup, hrule⟩ := List.mem_flatMap.mp h
  exact ⟨group, hgroup, sheet.group_rules group hgroup rule hrule⟩

theorem readsBack_keyed : ∀ rule ∈ sheet.keyed, rule.ReadsBack := by
  intro rule hrule
  obtain ⟨group, hgroup, hrule⟩ := sheet.inGroup_of_mem_keyed hrule
  refine hrule.readsBack fun key hkey => ?_
  cases hkey
  exact sheet.group_keys group hgroup

/-- The groups are the media keys of their rules. -/
theorem mediaKeys_keyed : mediaKeys sheet.keyed = sheet.groups.map Prod.fst := by
  rw [mediaKeys, FlatSheet.keyed, List.filterMap_flatMap]
  refine eraseDups_flatMap_runs sheet.distinct fun group hgroup => ⟨?_, fun key hkey => ?_⟩
  · obtain ⟨rule, hrule⟩ := List.exists_mem_of_ne_nil _ (sheet.group_ne group hgroup)
    have hmedia := (sheet.group_rules group hgroup rule hrule).media
    exact List.ne_nil_of_mem (List.mem_filterMap.mpr ⟨rule, hrule, hmedia⟩)
  · obtain ⟨rule, hrule, hmedia⟩ := List.mem_filterMap.mp hkey
    rw [(sheet.group_rules group hgroup rule hrule).media] at hmedia
    exact (Option.some.inj hmedia).symm

/-- The rules of a group are those with its key. -/
theorem filter_keyed {group : Text × List FlatRule} (hgroup : group ∈ sheet.groups) :
    sheet.keyed.filter (fun rule => rule.media = some group.1) = group.2 := by
  refine filter_flatMap_of_mem sheet.distinct.of_map hgroup (fun rule hrule => ?_)
    fun other hother hne rule hrule => ?_
  · simpa using (sheet.group_rules group hgroup rule hrule).media
  · have hkey : other.1 ≠ group.1 :=
      fun heq => hne (List.inj_on_of_nodup_map sheet.distinct hother hgroup heq)
    simp [(sheet.group_rules other hother rule hrule).media, hkey]

theorem mediaBlocks_keyed :
    mediaBlocks 0 [] sheet.keyed = sheet.groups.map fun group => formatBlock 0 (mediaHead group.1) group.2 := by
  rw [mediaBlocks_nil, mediaKeys_keyed, List.map_map]
  refine List.map_congr_left fun group hgroup => ?_
  rw [Function.comp_apply, filter_keyed sheet hgroup]
  rfl

theorem keyed_keyed : Style.keyed sheet.keyed = sheet.keyed := by
  rw [Style.keyed, mediaKeys_keyed, List.flatMap_map, FlatSheet.keyed]
  exact List.flatMap_congr fun group hgroup => filter_keyed sheet hgroup

theorem print_eq : sheet.print =
    Text.join ['\n'] ((sheet.plain.map Item.single).map Item.format ++ mediaBlocks 0 [] sheet.keyed) := by
  rw [print, mediaBlocks_keyed, List.map_map]
  rfl

theorem readsBack_items : ∀ item ∈ sheet.plain.map Item.single, item.ReadsBack := by
  intro item hitem
  obtain ⟨rule, hrule, rfl⟩ := List.mem_map.mp hitem
  have hplain := sheet.plain_rules rule hrule
  exact ⟨sheet.readsBack_plain rule hrule, hplain.group, hplain.media⟩

theorem rules_rereadItems {rules : List FlatRule} (h : ∀ rule ∈ rules, rule.reread none = rule.bare) (start : Nat) :
    (rereadItems start (rules.map Item.single)).flatMap (fun entry => entry.2.rules) = rules.map FlatRule.bare := by
  induction rules generalizing start with
  | nil => rfl
  | cons rule rest ih =>
    rw [List.forall_mem_cons] at h
    rw [List.map_cons, rereadItems, List.flatMap_cons, ih h.2, List.map_cons, ← h.1]
    rfl

/-- **A flat sheet is read as it was printed.** Its text is well-formed; it is read as the rules of the sheet,
in order and with their selectors, media keys, properties and values, and as no statement; and it is what
these rules build. -/
theorem read_print :
    (Sheet.parse sheet.print).isMalformed = false ∧
      (Sheet.parse sheet.print).statements = [] ∧
      (Sheet.parse sheet.print).flatRules.map FlatRule.bare = sheet.rules.map FlatRule.bare ∧
      (Sheet.parse sheet.print).build = sheet.print := by
  have hadds : Adds .top sheet.print []
      (.concat ((sheet.plain.map Item.single).map Item.forest) ++ mediaForest sheet.keyed) := by
    rw [print_eq]
    exact adds_join_append (adds_join fun item hitem => adds_item (sheet.readsBack_items item hitem))
      (adds_mediaBlocks sheet.readsBack_keyed .top 0)
  obtain ⟨hrules, hstatements, hmalformed⟩ := Sheet.parse_of_adds hadds
  have hbare : (Sheet.parse sheet.print).bare.rules =
      (Forest.concat ((sheet.plain.map Item.single).map Item.forest) ++ mediaForest sheet.keyed).number 1 := hrules
  refine ⟨hmalformed, List.map_eq_nil_iff.mp hstatements, ?_, ?_⟩
  · have hplain : ∀ rule ∈ sheet.plain, rule.reread none = rule.bare :=
      fun rule hrule => (sheet.plain_rules rule hrule).reread_eq
    have hkeyed : sheet.keyed.map (FlatRule.reread none) = sheet.keyed.map FlatRule.bare := by
      refine List.map_congr_left fun rule hrule => ?_
      obtain ⟨group, -, hrule⟩ := sheet.inGroup_of_mem_keyed hrule
      exact hrule.reread_eq
    rw [← Sheet.flatRules_bare, Sheet.flatRules_of_rules hbare sheet.readsBack_items sheet.readsBack_keyed,
      rules_rereadItems hplain, keyed_keyed, hkeyed, rules, List.map_append]
  · rw [Sheet.build_of_rules hmalformed hbare sheet.readsBack_items sheet.readsBack_keyed, hstatements, print_eq]
    rfl

/-- A flat sheet with a slash and a line break in values, a placeholder, and letters beyond ASCII. -/
def leaflet : FlatSheet where
  plain :=
    [⟨[".a > b".toList, "%é".toList], none, none,
        [⟨"font".toList, "1em/2 $größe".toList, ⟨0, 0⟩⟩, ⟨"--x".toList, "a\n  b:c".toList, ⟨0, 0⟩⟩]⟩,
      ⟨["b".toList], none, none, [⟨"c".toList, "/".toList, ⟨0, 0⟩⟩]⟩]
  groups :=
    [("$wide".toList, [⟨["b".toList], some "$wide".toList, none, [⟨"c".toList, "@d".toList, ⟨0, 0⟩⟩]⟩]),
      ("print and (x)".toList,
        [⟨["b".toList], some "print and (x)".toList, none, [⟨"c".toList, "d".toList, ⟨0, 0⟩⟩]⟩,
          ⟨["*".toList], some "print and (x)".toList, none, [⟨"c".toList, "d".toList, ⟨0, 0⟩⟩]⟩])]
  plain_rules := by decide +kernel
  group_keys := by decide +kernel
  group_ne := by decide +kernel
  group_rules := by decide +kernel
  distinct := by decide +kernel

theorem read_print_leaflet :
    (Sheet.parse leaflet.print).flatRules.length = 5 ∧
      (Sheet.parse leaflet.print).flatRules.map FlatRule.bare = leaflet.rules ∧
      (Sheet.parse leaflet.print).build = leaflet.print := by
  obtain ⟨-, -, hrules, hbuild⟩ := read_print leaflet
  have hbare : leaflet.rules.map FlatRule.bare = leaflet.rules := rfl
  rw [hbare] at hrules
  refine ⟨?_, hrules, hbuild⟩
  rw [← List.length_map FlatRule.bare, hrules]
  rfl

end FlatSheet

end Sitewright.Style
