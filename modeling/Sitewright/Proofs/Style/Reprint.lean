import Sitewright.Proofs.Style.Layout
import Sitewright.Proofs.Style.Printable

/-!
Built text read again. Where selectors are legible, each item of a built text adds one tree of rules, and
flattening these trees gives the rules of the items again, in the order in which they were printed and with
new numbers for the at-rules. So the items that are found in the second text print as the first.
-/

namespace Sitewright.Style

variable {items : List Item} {rule : FlatRule} {rules : List FlatRule}

/-! ## Legible selectors -/

/-- Where a flat rule is printed. -/
def FlatRule.place (rule : FlatRule) : Context :=
  ⟨rule.media.isNone && rule.group.isNone, false, false⟩

theorem FlatRule.atTop_place : rule.place.atTop = true ↔ rule.media = none ∧ rule.group = none := by
  simp [place]

theorem FlatRule.atTop_place_of_media (h : rule.media ≠ none) : rule.place.atTop = false := by
  rw [← Bool.not_eq_true, atTop_place]
  exact fun hplace => h hplace.1

theorem FlatRule.atTop_place_of_group (h : rule.group ≠ none) : rule.place.atTop = false := by
  rw [← Bool.not_eq_true, atTop_place]
  exact fun hplace => h hplace.2

/-- The selectors that a rule with a head gives its declarations, where no selectors enclose it. -/
def Head.outermost (text : Text) : Head → Option (List Text)
  | .style tokens => some (combine [] tokens)
  | .atRule => some [text]
  | .media _ | .transparent => none

/-- The selectors of a flat rule are printed in words that are read as selectors with the same words. -/
def FlatRule.Legible (rule : FlatRule) : Prop :=
  Plain rule.selectorText ∧ Text.squeeze rule.selectorText = rule.selectorText ∧
    ((headOf rule.place rule.selectorText).outermost rule.selectorText).map (Text.join ", ".toList) =
      some rule.selectorText

instance (rule : FlatRule) : Decidable rule.Legible :=
  inferInstanceAs (Decidable (_ ∧ _ ∧ _))

/-- The flat rule can be read back. -/
structure FlatRule.ReadsBack (rule : FlatRule) : Prop where
  printable : rule.Printable
  legible : rule.Legible

/-- The rule that a printed flat rule is read as. -/
def FlatRule.asRule (rule : FlatRule) : Rule :=
  ⟨headOf rule.place rule.selectorText, rule.selectorText, ⟨0, 0⟩, rule.declarations.map Declaration.bare⟩

/-- The flat rule with its selectors as they are read, and in the at-rule with another number. -/
def FlatRule.reread (group : Option Nat) (rule : FlatRule) : FlatRule :=
  ⟨((headOf rule.place rule.selectorText).outermost rule.selectorText).getD [], rule.media, group,
    rule.declarations.map Declaration.bare⟩

namespace FlatRule.Legible

variable {rule : FlatRule}

theorem exists_outermost (h : rule.Legible) :
    ∃ selectors, (headOf rule.place rule.selectorText).outermost rule.selectorText = some selectors ∧
      Text.join ", ".toList selectors = rule.selectorText :=
  Option.map_eq_some_iff.mp h.2.2

theorem selectorText_ne_nil (h : rule.Legible) : rule.selectorText ≠ [] := by
  intro hnil
  obtain ⟨selectors, hselectors, -⟩ := h.exists_outermost
  rw [hnil] at hselectors
  cases hselectors

theorem selectorText_reread (h : rule.Legible) (group : Option Nat) :
    (rule.reread group).selectorText = rule.selectorText := by
  obtain ⟨selectors, hselectors, hjoin⟩ := h.exists_outermost
  rw [selectorText, reread, hselectors]
  exact hjoin

theorem looksLike (h : rule.Legible) (group : Option Nat) : (rule.reread group).LooksLike rule := by
  refine ⟨rfl, fun depth => ?_⟩
  rw [formatRule, formatRule, h.selectorText_reread, reread, List.map_map]
  rfl

theorem readsAs (h : rule.Legible) {context : Context} (hplace : context.atTop = rule.place.atTop) :
    ReadsAs context rule.selectorText rule.asRule.head := by
  obtain ⟨selectors, hselectors, -⟩ := h.exists_outermost
  refine ⟨h.1, Text.trimmed_of_squeeze_eq h.2.1, h.selectorText_ne_nil, h.2.1,
    headOf_congr hplace _, fun hhead => ?_⟩
  rw [show headOf rule.place rule.selectorText = .transparent from hhead] at hselectors
  cases hselectors

theorem hasSelector (h : rule.Legible) (context : Context) :
    (context.inside rule.asRule.head).hasSelector = true := by
  obtain ⟨selectors, hselectors, -⟩ := h.exists_outermost
  rw [asRule]
  cases hhead : headOf rule.place rule.selectorText with
  | style | atRule => rfl
  | media | transparent =>
    rw [hhead] at hselectors
    cases hselectors

end FlatRule.Legible

/-! ## The rules of printed text -/

/-- The rules that printed flat rules are read as. -/
def rulesForest (rules : List FlatRule) : Forest Rule :=
  .concat (rules.map fun rule => .tree rule.asRule .nil)

/-- The rule that the media block of a key is read as, with those inside it. -/
def mediaTree (rules : List FlatRule) (key : Text) : Forest Rule :=
  .tree ⟨.media key, mediaHead key, ⟨0, 0⟩, []⟩ (rulesForest (rules.filter fun rule => rule.media = some key))

/-- The rules that printed media blocks are read as. -/
def mediaForest (rules : List FlatRule) : Forest Rule :=
  .concat ((mediaKeys rules).map (mediaTree rules))

/-- The rules that a printed item is read as. -/
def Item.forest : Item → Forest Rule
  | .single rule => .tree rule.asRule .nil
  | .block head rules =>
    .tree ⟨.atRule, head, ⟨0, 0⟩, []⟩
      (rulesForest (rules.filter fun rule => rule.media = none) ++ mediaForest rules)

/-- The item can be read back. -/
def Item.ReadsBack : Item → Prop
  | .single rule => rule.ReadsBack ∧ rule.group = none ∧ rule.media = none
  | .block head rules =>
    ReadsAs .top head .atRule ∧ rules ≠ [] ∧ ∀ rule ∈ rules, rule.ReadsBack ∧ rule.group ≠ none

section

variable {context : Context} {rules : List FlatRule}

theorem adds_flatRule {rule : FlatRule} (h : rule.ReadsBack) (hplace : context.atTop = rule.place.atTop)
    (depth : Nat) : Adds context (formatRule depth rule) [] (.tree rule.asRule .nil) :=
  adds_rule (h.legible.readsAs hplace) (h.legible.hasSelector context) h.printable.declarations_ne
    h.printable.declarations depth

theorem adds_formatRules (h : ∀ rule ∈ rules, rule.ReadsBack ∧ context.atTop = rule.place.atTop) (depth : Nat) :
    Adds context (formatRules depth rules) [] (rulesForest rules) :=
  adds_join fun rule hrule => adds_flatRule (h rule hrule).1 (h rule hrule).2 depth

theorem adds_mediaBlocks (h : ∀ rule ∈ rules, rule.ReadsBack) (context : Context) (depth : Nat) :
    Adds context (Text.join ['\n'] (mediaBlocks depth [] rules)) [] (mediaForest rules) := by
  rw [mediaBlocks_nil]
  refine adds_join fun key hkey => ?_
  obtain ⟨rule, hrule, hmedia⟩ := mem_mediaKeys.mp hkey
  refine adds_braces ((h rule hrule).printable.media key hmedia context) (adds_formatRules ?_ _) depth
  intro rule hrule
  obtain ⟨hmem, hmedia⟩ := List.mem_filter.mp hrule
  have hsome : rule.media ≠ none := by
    rw [of_decide_eq_true hmedia]
    exact Option.some_ne_none key
  exact ⟨h rule hmem, by rw [FlatRule.atTop_place_of_media hsome, atTop_inside]⟩

theorem adds_item {item : Item} (h : item.ReadsBack) : Adds .top item.format [] item.forest := by
  cases item with
  | single rule =>
    obtain ⟨hrule, hgroup, hmedia⟩ := h
    exact adds_flatRule hrule (FlatRule.atTop_place.mpr ⟨hmedia, hgroup⟩).symm 0
  | block head rules =>
    obtain ⟨hhead, -, hrules⟩ := h
    have hplain : Adds (Context.top.inside .atRule)
        (formatRules 1 (rules.filter fun rule => rule.media = none)) []
        (rulesForest (rules.filter fun rule => rule.media = none)) := by
      refine adds_formatRules (fun rule hrule => ?_) 1
      obtain ⟨hreads, hgroup⟩ := hrules rule (List.mem_of_mem_filter hrule)
      exact ⟨hreads, by rw [FlatRule.atTop_place_of_group hgroup, atTop_inside]⟩
    have hfirst : Adds (Context.top.inside .atRule)
        (Text.join ['\n'] (if (rules.filter fun rule => rule.media = none) = [] then []
          else [formatRules 1 (rules.filter fun rule => rule.media = none)])) []
        (rulesForest (rules.filter fun rule => rule.media = none)) := by
      split
      next hnil =>
        rw [hnil] at hplain ⊢
        exact hplain
      next =>
        rw [Text.join_singleton]
        exact hplain
    have hmedia := adds_mediaBlocks (fun rule hrule => (hrules rule hrule).1) (Context.top.inside .atRule) 1
    exact adds_braces hhead (adds_join_append hfirst hmedia) 0

end

/-! ## Flattening them again -/

theorem flatten_append (selectors : List Text) (media : Option Text) (group : Option Nat)
    (f g : Forest (Nat × Rule)) :
    flatten selectors media group (f ++ g) = flatten selectors media group f ++ flatten selectors media group g := by
  induction f with
  | nil => rfl
  | cons entry below after _ ih => rw [Forest.cons_append, flatten, ih, flatten, List.append_assoc]

theorem flatten_asRule (h : rule.ReadsBack) {group : Option Nat}
    (hgroup : rule.place.atTop = true → group = none) (id : Nat) :
    flatten [] rule.media group (.tree (id, rule.asRule) .nil) = [rule.reread group] := by
  obtain ⟨selectors, hselectors, hjoin⟩ := h.legible.exists_outermost
  have hne : selectors ≠ [] := by
    rintro rfl
    exact h.legible.selectorText_ne_nil hjoin.symm
  have hemit (media : Option Text) (group : Option Nat) :
      emit selectors media group rule.asRule = [⟨selectors, media, group, rule.asRule.declarations⟩] := by
    refine if_neg ?_
    rw [not_or]
    exact ⟨fun hnil => h.printable.declarations_ne (List.map_eq_nil_iff.mp hnil), hne⟩
  have hreread : rule.reread group = ⟨selectors, rule.media, group, rule.asRule.declarations⟩ := by
    rw [FlatRule.reread, hselectors]
    rfl
  have hhead : rule.asRule.head = headOf rule.place rule.selectorText := rfl
  rw [hreread, Forest.tree, flatten, hhead]
  cases hcase : headOf rule.place rule.selectorText with
  | style tokens =>
    rw [hcase] at hselectors
    cases hselectors
    simp only [hemit, flatten, List.append_nil]
  | atRule =>
    -- only at the top level is a head read as one of an at-rule, and there the rule has no media key
    have htop := atTop_of_headOf_atRule hcase
    have hmedia := (FlatRule.atTop_place.mp htop).1
    rw [hcase] at hselectors
    cases hselectors
    have htext : rule.asRule.text = rule.selectorText := rfl
    simp only [htext, hemit, flatten, List.append_nil, hmedia, hgroup htop]
  | media key | transparent =>
    rw [hcase] at hselectors
    cases hselectors

theorem flatten_rulesForest {media : Option Text} {group : Option Nat}
    (h : ∀ rule ∈ rules, rule.ReadsBack ∧ rule.media = media ∧ (rule.place.atTop = true → group = none))
    (start : Nat) :
    flatten [] media group ((rulesForest rules).number start) = rules.map (FlatRule.reread group) := by
  induction rules generalizing start with
  | nil => rfl
  | cons rule rest ih =>
    rw [List.forall_mem_cons] at h
    obtain ⟨⟨hrule, rfl, hgroup⟩, hrest⟩ := h
    have hfirst := flatten_asRule hrule hgroup start
    have hothers := ih hrest (start + (Forest.tree rule.asRule .nil).size)
    rw [rulesForest] at hothers
    rw [rulesForest, List.map_cons, Forest.concat_cons, Forest.number_append, flatten_append, hothers]
    exact congrArg (· ++ _) hfirst

theorem flatten_mediaTree (h : ∀ rule ∈ rules, rule.ReadsBack) (group : Option Nat) (key : Text) (start : Nat) :
    flatten [] none group ((mediaTree rules key).number start) =
      (rules.filter fun rule => rule.media = some key).map (FlatRule.reread group) := by
  have hrules : ∀ rule ∈ rules.filter fun rule => rule.media = some key,
      rule.ReadsBack ∧ rule.media = some key ∧ (rule.place.atTop = true → group = none) := by
    intro rule hrule
    obtain ⟨hmem, hmedia⟩ := List.mem_filter.mp hrule
    refine ⟨h rule hmem, of_decide_eq_true hmedia, fun htop => ?_⟩
    rw [(FlatRule.atTop_place.mp htop).1] at hmedia
    cases hmedia
  have hbelow := flatten_rulesForest hrules (start + 1)
  simp only [mediaTree, Forest.tree, Forest.number, flatten, emit, true_or, if_true, List.nil_append,
    List.append_nil, hbelow]

theorem flatten_mediaForest (h : ∀ rule ∈ rules, rule.ReadsBack) (group : Option Nat) (start : Nat) :
    flatten [] none group ((mediaForest rules).number start) = (keyed rules).map (FlatRule.reread group) := by
  rw [mediaForest, keyed]
  induction mediaKeys rules generalizing start with
  | nil => rfl
  | cons key keys ih =>
    rw [List.map_cons, Forest.concat_cons, Forest.number_append, flatten_append, flatten_mediaTree h, ih,
      List.flatMap_cons, List.map_append]

/-- The item as it is read again, where its rule has a number. -/
def Item.reread (id : Nat) : Item → Item
  | .single rule => .single (rule.reread none)
  | .block head rules => .block head ((arranged rules).map (FlatRule.reread (some id)))

theorem Item.format_reread {item : Item} (h : item.ReadsBack) (id : Nat) : (item.reread id).format = item.format := by
  cases item with
  | single rule => exact (h.1.legible.looksLike none).format 0
  | block head rules =>
    have hlooks : ∀ rule ∈ arranged rules, (rule.reread (some id)).LooksLike rule :=
      fun rule hrule => (h.2.2 rule (mem_arranged.mp hrule)).1.legible.looksLike (some id)
    exact (formatGroup_map hlooks [] head).trans (formatGroup_arranged head)

theorem flatten_item {item : Item} (h : item.ReadsBack) (start : Nat) :
    flatten [] none none (item.forest.number start) = (item.reread start).rules := by
  cases item with
  | single rule =>
    obtain ⟨hrule, -, hmedia⟩ := h
    have hflatten := flatten_asRule hrule (fun _ => rfl : rule.place.atTop = true → none = none) start
    rw [hmedia] at hflatten
    exact hflatten
  | block head rules =>
    obtain ⟨-, -, hrules⟩ := h
    have hplain : ∀ rule ∈ rules.filter fun rule => rule.media = none,
        rule.ReadsBack ∧ rule.media = none ∧ (rule.place.atTop = true → some start = none) := by
      intro rule hrule
      obtain ⟨hmem, hmedia⟩ := List.mem_filter.mp hrule
      refine ⟨(hrules rule hmem).1, of_decide_eq_true hmedia, fun htop => ?_⟩
      exact absurd (FlatRule.atTop_place.mp htop).2 (hrules rule hmem).2
    have hbelow : flatten [] none (some start)
        ((rulesForest (rules.filter fun rule => rule.media = none) ++ mediaForest rules).number (start + 1)) =
          (arranged rules).map (FlatRule.reread (some start)) := by
      rw [Forest.number_append, flatten_append, flatten_rulesForest hplain,
        flatten_mediaForest fun rule hrule => (hrules rule hrule).1, ← List.map_append]
      rfl
    simp only [Item.forest, Forest.tree, Forest.number, flatten, emit, true_or, if_true, List.nil_append,
      List.append_nil, hbelow]
    rfl

/-- The items as they are read again, with the numbers of their rules. -/
def rereadItems : Nat → List Item → List (Nat × Item)
  | _, [] => []
  | start, item :: rest => (start, item.reread start) :: rereadItems (start + item.forest.size) rest

theorem flatten_items (h : ∀ item ∈ items, item.ReadsBack) (start : Nat) :
    flatten [] none none ((Forest.concat (items.map Item.forest)).number start) =
      (rereadItems start items).flatMap fun entry => entry.2.rules := by
  induction items generalizing start with
  | nil => rfl
  | cons item rest ih =>
    rw [List.forall_mem_cons] at h
    rw [List.map_cons, Forest.concat_cons, Forest.number_append, flatten_append, flatten_item h.1, ih h.2]
    rfl

theorem map_format_rereadItems (h : ∀ item ∈ items, item.ReadsBack) (start : Nat) :
    ((rereadItems start items).map Prod.snd).map Item.format = items.map Item.format := by
  induction items generalizing start with
  | nil => rfl
  | cons item rest ih =>
    rw [List.forall_mem_cons] at h
    rw [rereadItems, List.map_cons, List.map_cons, Item.format_reread h.1, ih h.2, List.map_cons]

theorem le_of_mem_rereadItems {start : Nat} {entry : Nat × Item}
    (h : entry ∈ rereadItems start items) : start ≤ entry.1 := by
  induction items generalizing start with
  | nil => cases h
  | cons item rest ih =>
    rcases List.mem_cons.mp h with rfl | h
    · exact Nat.le_refl start
    · exact Nat.le_trans (Nat.le_add_right _ _) (ih h)

theorem Item.size_forest_pos (item : Item) : 0 < item.forest.size := by
  cases item <;> exact Nat.succ_pos _

theorem nodup_rereadItems (items : List Item) (start : Nat) : ((rereadItems start items).map Prod.fst).Nodup := by
  induction items generalizing start with
  | nil => exact .nil
  | cons item rest ih =>
    rw [rereadItems, List.map_cons, List.nodup_cons]
    refine ⟨fun hmem => ?_, ih _⟩
    obtain ⟨entry, hentry, heq⟩ := List.mem_map.mp hmem
    have hle := le_of_mem_rereadItems hentry
    have hpos := item.size_forest_pos
    rw [heq] at hle
    exact absurd hle (by simp only; omega)

theorem numbered_rereadItems (h : ∀ item ∈ items, item.ReadsBack) {heads : Nat → Text} {start : Nat}
    (hheads : ∀ entry ∈ ((Forest.concat (items.map Item.forest)).number start).preorder,
      heads entry.1 = entry.2.text) :
    ∀ entry ∈ rereadItems start items, entry.2.Numbered heads entry.1 := by
  induction items generalizing start with
  | nil =>
    intro entry hentry
    cases hentry
  | cons item rest ih =>
    rw [List.forall_mem_cons] at h
    rw [List.map_cons, Forest.concat_cons, Forest.number_append, Forest.preorder_append,
      List.forall_mem_append] at hheads
    rw [rereadItems, List.forall_mem_cons]
    refine ⟨?_, ih h.2 hheads.2⟩
    cases item with
    | single rule => exact ⟨rfl, h.1.2.2⟩
    | block head rules =>
      refine ⟨(hheads.1 _ List.mem_cons_self).symm, ?_, fun rule hrule => ?_⟩
      · obtain ⟨rule, hrule⟩ := List.exists_mem_of_ne_nil rules h.1.2.1
        exact List.ne_nil_of_mem (List.mem_map_of_mem (mem_arranged.mpr hrule))
      · obtain ⟨old, -, rfl⟩ := List.mem_map.mp hrule
        rfl

end Sitewright.Style
