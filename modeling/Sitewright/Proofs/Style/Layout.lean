import Mathlib.Data.List.Nodup
import Sitewright.Style.Build

/-!
How built text is laid out. Before the `@media` blocks come items, each a rule or the block of an at-rule.
Rules may be put in the order in which they are printed, first those without media key and then key by key,
and print the same; and items that are taken apart into their rules are found again.
-/

namespace Sitewright.Style

/-! ## Lists without repetitions -/

section

variable {α β : Type} [BEq α] [LawfulBEq α]

theorem nodup_eraseDups (l : List α) : l.eraseDups.Nodup := by
  induction hlength : l.length using Nat.strongRecOn generalizing l with
  | ind length ih =>
    cases l with
    | nil => exact .nil
    | cons a rest =>
      have hle := List.length_filter_le (fun b => !b == a) rest
      rw [List.length_cons] at hlength
      rw [List.eraseDups_cons, List.nodup_cons]
      refine ⟨?_, ih _ (by omega) _ rfl⟩
      rw [List.mem_eraseDups]
      simp

theorem eraseDups_eq_self {l : List α} (h : l.Nodup) : l.eraseDups = l := by
  induction l with
  | nil => rfl
  | cons a rest ih =>
    rw [List.nodup_cons] at h
    have hfilter : (rest.filter fun b => !b == a) = rest := by
      refine List.filter_eq_self.mpr fun b hb => ?_
      simp only [Bool.not_eq_eq_eq_not, Bool.not_true, beq_eq_false_iff_ne]
      rintro rfl
      exact h.1 hb
    rw [List.eraseDups_cons, hfilter, ih h.2]

/-- Runs of the same key count as one. -/
theorem eraseDups_flatMap_runs {items : List β} {key : β → α} (hnodup : (items.map key).Nodup)
    {runs : β → List α} (h : ∀ item ∈ items, runs item ≠ [] ∧ ∀ x ∈ runs item, x = key item) :
    (items.flatMap runs).eraseDups = items.map key := by
  induction items with
  | nil => rfl
  | cons item items ih =>
    rw [List.map_cons, List.nodup_cons] at hnodup
    rw [List.forall_mem_cons] at h
    obtain ⟨⟨hne, hsame⟩, hrest⟩ := h
    obtain ⟨first, run, hrun⟩ := List.exists_cons_of_ne_nil hne
    rw [hrun, List.forall_mem_cons] at hsame
    have hgone : (run.filter fun b => !b == key item) = [] := by
      refine List.filter_eq_nil_iff.mpr fun b hb => ?_
      simp [hsame.2 b hb]
    have hkept : ((items.flatMap runs).filter fun b => !b == key item) = items.flatMap runs := by
      refine List.filter_eq_self.mpr fun b hb => ?_
      obtain ⟨other, hother, hb⟩ := List.mem_flatMap.mp hb
      simp only [Bool.not_eq_eq_eq_not, Bool.not_true, beq_eq_false_iff_ne]
      rintro rfl
      exact hnodup.1 (List.mem_map.mpr ⟨other, hother, ((hrest other hother).2 _ hb).symm⟩)
    rw [List.flatMap_cons, hrun, List.cons_append, hsame.1, List.eraseDups_cons, List.filter_append, hgone,
      hkept, List.nil_append, ih hnodup.2 hrest, List.map_cons]

omit [BEq α] [LawfulBEq α] in
/-- What only one part has is found there. -/
theorem filter_flatMap_of_mem {l : List α} (hnodup : l.Nodup) {f : α → List β} {p : β → Bool} {a : α}
    (ha : a ∈ l) (hall : ∀ b ∈ f a, p b = true) (hothers : ∀ x ∈ l, x ≠ a → ∀ b ∈ f x, p b = false) :
    (l.flatMap f).filter p = f a := by
  obtain ⟨before, after, rfl⟩ := List.append_of_mem ha
  rw [List.nodup_middle, List.nodup_cons, List.mem_append, not_or] at hnodup
  have hnone (part : List α) (hpart : a ∉ part) (hsub : ∀ x ∈ part, x ∈ before ++ a :: after) :
      (part.flatMap f).filter p = [] := by
    refine List.filter_eq_nil_iff.mpr fun b hb => ?_
    obtain ⟨x, hx, hb⟩ := List.mem_flatMap.mp hb
    have hne : x ≠ a := by
      rintro rfl
      exact hpart hx
    rw [hothers x (hsub x hx) hne b hb]
    exact Bool.false_ne_true
  rw [List.flatMap_append, List.flatMap_cons, List.filter_append, List.filter_append,
    hnone before hnodup.1.1 fun x hx => List.mem_append_left _ hx,
    hnone after hnodup.1.2 fun x hx => List.mem_append_right _ (List.mem_cons_of_mem a hx),
    List.filter_eq_self.mpr hall, List.nil_append, List.append_nil]

end

/-! ## Rules that look the same -/

/-- Two rules are printed in the same way and under the same media key. -/
structure FlatRule.LooksLike (rule other : FlatRule) : Prop where
  media : rule.media = other.media
  format : ∀ depth, formatRule depth rule = formatRule depth other

section

variable {f : FlatRule → FlatRule} {rules : List FlatRule} (h : ∀ rule ∈ rules, (f rule).LooksLike rule)
include h

theorem formatRules_map (depth : Nat) : formatRules depth (rules.map f) = formatRules depth rules := by
  rw [formatRules, List.map_map, formatRules]
  exact congrArg _ (List.map_congr_left fun rule hrule => (h rule hrule).format depth)

theorem filter_media_map (p : Option Text → Bool) :
    (rules.map f).filter (fun rule => p rule.media) = (rules.filter fun rule => p rule.media).map f := by
  rw [List.filter_map]
  refine congrArg _ (List.filter_congr fun rule hrule => ?_)
  rw [Function.comp_apply, (h rule hrule).media]

theorem mediaKeys_map : mediaKeys (rules.map f) = mediaKeys rules := by
  rw [mediaKeys, List.filterMap_map, mediaKeys]
  refine congrArg _ (List.filterMap_congr fun rule hrule => ?_)
  rw [Function.comp_apply, (h rule hrule).media]

theorem mediaBlocks_map (depth : Nat) (order : List Text) :
    mediaBlocks depth order (rules.map f) = mediaBlocks depth order rules := by
  rw [mediaBlocks, mediaKeys_map h, mediaBlocks]
  refine List.map_congr_left fun key _ => ?_
  have hfilter := filter_media_map h fun media => decide (media = some key)
  rw [hfilter, formatBlock, formatBlock,
    formatRules_map fun rule hrule => h rule (List.mem_of_mem_filter hrule)]

theorem formatGroup_map (order : List Text) (head : Text) :
    formatGroup order head (rules.map f) = formatGroup order head rules := by
  have hfilter := filter_media_map h fun media => decide (media = none)
  have hplain := formatRules_map (fun rule hrule => h rule (List.mem_of_mem_filter hrule) :
    ∀ rule ∈ rules.filter fun rule => rule.media = none, (f rule).LooksLike rule) 1
  simp only [formatGroup, hfilter, hplain, mediaBlocks_map h, List.map_eq_nil_iff]

end

theorem topBlocks_map {f : FlatRule → FlatRule} (h : ∀ rule, (f rule).LooksLike rule)
    (hgroup : ∀ rule, (f rule).group = rule.group) (sheet : Sheet) (order : List Text)
    (all : List FlatRule) (seen : List Nat) (rules : List FlatRule) :
    topBlocks sheet order (all.map f) seen (rules.map f) = topBlocks sheet order all seen rules := by
  have hfilter (id : Nat) : (all.map f).filter (fun rule => rule.group = some id) =
      (all.filter fun rule => rule.group = some id).map f := by
    rw [List.filter_map]
    refine congrArg _ (List.filter_congr fun rule _ => ?_)
    rw [Function.comp_apply, hgroup]
  induction rules generalizing seen with
  | nil => rfl
  | cons rule rest ih =>
    simp only [List.map_cons, topBlocks, hgroup, (h rule).media, (h rule).format, ih, hfilter,
      formatGroup_map fun rule _ => h rule]

/-! ## Printing order -/

/-- The rules with a media key, key by key. -/
def keyed (rules : List FlatRule) : List FlatRule :=
  (mediaKeys rules).flatMap fun key => rules.filter fun rule => rule.media = some key

/-- The rules in the order in which they are printed in a block. -/
def arranged (rules : List FlatRule) : List FlatRule :=
  (rules.filter fun rule => rule.media = none) ++ keyed rules

section

variable {rules : List FlatRule}

theorem nodup_mediaKeys (rules : List FlatRule) : (mediaKeys rules).Nodup :=
  nodup_eraseDups _

theorem mem_mediaKeys {key : Text} : key ∈ mediaKeys rules ↔ ∃ rule ∈ rules, rule.media = some key := by
  rw [mediaKeys, List.mem_eraseDups, List.mem_filterMap]

theorem mem_keyed {rule : FlatRule} : rule ∈ keyed rules ↔ rule ∈ rules ∧ rule.media ≠ none := by
  simp only [keyed, List.mem_flatMap, List.mem_filter, decide_eq_true_eq, mem_mediaKeys]
  constructor
  · rintro ⟨key, -, hmem, hmedia⟩
    exact ⟨hmem, by rw [hmedia]; exact Option.some_ne_none key⟩
  · rintro ⟨hmem, hmedia⟩
    obtain ⟨key, hkey⟩ := Option.ne_none_iff_exists'.mp hmedia
    exact ⟨key, ⟨rule, hmem, hkey⟩, hmem, hkey⟩

theorem mem_arranged {rule : FlatRule} : rule ∈ arranged rules ↔ rule ∈ rules := by
  rw [arranged, List.mem_append, List.mem_filter, mem_keyed, decide_eq_true_eq, ← and_or_left]
  exact and_iff_left (Decidable.em _)

theorem filter_keyed (key : Text) :
    (keyed rules).filter (fun rule => rule.media = some key) = rules.filter fun rule => rule.media = some key := by
  by_cases hkey : key ∈ mediaKeys rules
  · refine filter_flatMap_of_mem (nodup_mediaKeys rules) hkey (fun rule hrule => ?_) fun other _ hne rule hrule => ?_
    · exact (List.mem_filter.mp hrule).2
    · have hmedia : rule.media = some other := by simpa using (List.mem_filter.mp hrule).2
      simp [hmedia, hne]
  · have hnone (rule : FlatRule) (hrule : rule ∈ rules) : ¬rule.media = some key :=
      fun hmedia => hkey (mem_mediaKeys.mpr ⟨rule, hrule, hmedia⟩)
    rw [List.filter_eq_nil_iff.mpr, List.filter_eq_nil_iff.mpr]
    · intro rule hrule
      simpa using hnone rule hrule
    · intro rule hrule
      simpa using hnone rule (mem_keyed.mp hrule).1

theorem mediaKeys_keyed : mediaKeys (keyed rules) = mediaKeys rules := by
  have hnodup : ((mediaKeys rules).map id).Nodup := by
    rw [List.map_id]
    exact nodup_mediaKeys rules
  rw [mediaKeys, keyed, List.filterMap_flatMap]
  refine (eraseDups_flatMap_runs hnodup fun key hkey => ⟨?_, fun other hother => ?_⟩).trans (List.map_id _)
  · obtain ⟨rule, hrule, hmedia⟩ := mem_mediaKeys.mp hkey
    refine List.ne_nil_of_mem (List.mem_filterMap.mpr ⟨rule, ?_, hmedia⟩)
    simp [hrule, hmedia]
  · obtain ⟨rule, hrule, hmedia⟩ := List.mem_filterMap.mp hother
    have hkey : rule.media = some key := by simpa using (List.mem_filter.mp hrule).2
    rw [hkey] at hmedia
    exact (Option.some.inj hmedia).symm

theorem orderedKeys_nil (keys : List Text) : orderedKeys [] keys = keys :=
  List.filter_eq_self.mpr fun _ _ => rfl

theorem mediaBlocks_nil (depth : Nat) (rules : List FlatRule) :
    mediaBlocks depth [] rules = (mediaKeys rules).map fun key =>
      formatBlock depth ("@media ".toList ++ key) (rules.filter fun rule => rule.media = some key) := by
  rw [mediaBlocks, orderedKeys_nil]

theorem mediaBlocks_keyed (depth : Nat) : mediaBlocks depth [] (keyed rules) = mediaBlocks depth [] rules := by
  simp only [mediaBlocks_nil, mediaKeys_keyed, filter_keyed]

/-- Rules without media key are in no media block. -/
theorem mediaBlocks_append {plain : List FlatRule} (hplain : ∀ rule ∈ plain, rule.media = none) (depth : Nat) :
    mediaBlocks depth [] (plain ++ rules) = mediaBlocks depth [] rules := by
  have hkeys : mediaKeys (plain ++ rules) = mediaKeys rules := by
    rw [mediaKeys, List.filterMap_append, List.filterMap_eq_nil_iff.mpr hplain, List.nil_append]
    rfl
  have hfilter (key : Text) : (plain ++ rules).filter (fun rule => rule.media = some key) =
      rules.filter fun rule => rule.media = some key := by
    rw [List.filter_append, List.filter_eq_nil_iff.mpr, List.nil_append]
    intro rule hrule
    simp [hplain rule hrule]
  simp only [mediaBlocks_nil, hkeys, hfilter]

/-- The block of an at-rule has its rules in printing order. -/
theorem formatGroup_arranged (head : Text) :
    formatGroup [] head (arranged rules) = formatGroup [] head rules := by
  have hplain : (arranged rules).filter (fun rule => rule.media = none) =
      rules.filter fun rule => rule.media = none := by
    have hkeyed : ((keyed rules).filter fun rule => rule.media = none) = [] := by
      refine List.filter_eq_nil_iff.mpr fun rule hrule => ?_
      simpa using (mem_keyed.mp hrule).2
    rw [arranged, List.filter_append, List.filter_filter, hkeyed, List.append_nil]
    simp only [Bool.and_self]
  have hmedia : mediaBlocks 1 [] (arranged rules) = mediaBlocks 1 [] rules := by
    rw [arranged, mediaBlocks_append, mediaBlocks_keyed]
    intro rule hrule
    simpa using (List.mem_filter.mp hrule).2
  simp only [formatGroup, hplain, hmedia]

end

/-! ## Items -/

/-- What is printed before the `@media` blocks: a rule, or the block of an at-rule with its rules. -/
inductive Item where
  | single (rule : FlatRule)
  | block (head : Text) (rules : List FlatRule)

namespace Item

/-- The text of an item. -/
def format : Item → Text
  | .single rule => formatRule 0 rule
  | .block head rules => formatGroup [] head rules

/-- The rules of an item. -/
def rules : Item → List FlatRule
  | .single rule => [rule]
  | .block _ rules => rules

/-- The item is a rule at the top level, or the block of the at-rule with a number. -/
def Numbered (heads : Nat → Text) (id : Nat) : Item → Prop
  | .single rule => rule.group = none ∧ rule.media = none
  | .block head rules => head = heads id ∧ rules ≠ [] ∧ ∀ rule ∈ rules, rule.group = some id

end Item

/-- The items of rules, where `heads` are the heads of at-rules by number and `seen` the at-rules that
already have their block. -/
def topItems (heads : Nat → Text) (all : List FlatRule) : List Nat → List FlatRule → List Item
  | _, [] => []
  | seen, rule :: rest =>
    match rule.group with
    | some id =>
      if seen.contains id then topItems heads all seen rest
      else .block (heads id) (all.filter fun rule => rule.group = some id) :: topItems heads all (id :: seen) rest
    | none =>
      if rule.media = none then .single rule :: topItems heads all seen rest else topItems heads all seen rest

theorem topBlocks_eq (sheet : Sheet) (all : List FlatRule) (seen : List Nat) (rules : List FlatRule) :
    topBlocks sheet [] all seen rules = (topItems (headText sheet) all seen rules).map Item.format := by
  induction rules generalizing seen with
  | nil => rfl
  | cons rule rest ih =>
    rw [topBlocks, topItems]
    cases rule.group with
    | some id =>
      dsimp only
      split
      · exact ih seen
      · rw [List.map_cons, ih]
        rfl
    | none =>
      dsimp only
      split
      · rw [List.map_cons, ih]
        rfl
      · exact ih seen

section

variable {heads : Nat → Text} {all : List FlatRule}
variable {rules : List FlatRule} {seen : List Nat}

/-- The other rules of an at-rule that has its block are passed over. -/
theorem topItems_append_of_seen {id : Nat} (hseen : id ∈ seen)
    (h : ∀ rule ∈ rules, rule.group = some id) (rest : List FlatRule) :
    topItems heads all seen (rules ++ rest) = topItems heads all seen rest := by
  induction rules with
  | nil => rfl
  | cons rule rules ih =>
    rw [List.forall_mem_cons] at h
    have hcontains : seen.contains id = true := by simpa using hseen
    simp only [List.cons_append, topItems, h.1, hcontains, if_true]
    exact ih h.2

/-- The rules of an at-rule give its block. -/
theorem topItems_block {id : Nat} (hnew : id ∉ seen)
    (hne : rules ≠ []) (h : ∀ rule ∈ rules, rule.group = some id) (rest : List FlatRule) :
    topItems heads all seen (rules ++ rest) =
      .block (heads id) (all.filter fun rule => rule.group = some id) :: topItems heads all (id :: seen) rest := by
  obtain ⟨first, others, rfl⟩ := List.exists_cons_of_ne_nil hne
  rw [List.forall_mem_cons] at h
  have hcontains : seen.contains id = false := by simpa using hnew
  simp only [List.cons_append, topItems, h.1, hcontains, Bool.false_eq_true, if_false]
  rw [topItems_append_of_seen List.mem_cons_self h.2]

theorem topItems_eq_nil
    (h : ∀ rule ∈ rules, rule.group = none ∧ rule.media ≠ none) : topItems heads all seen rules = [] := by
  induction rules with
  | nil => rfl
  | cons rule rules ih =>
    rw [List.forall_mem_cons] at h
    simp only [topItems, h.1.1, if_neg h.1.2]
    exact ih h.2

theorem topItems_flatMap {items : List (Nat × Item)} {others : List FlatRule}
    (hnodup : (items.map Prod.fst).Nodup) (hseen : ∀ entry ∈ items, entry.1 ∉ seen)
    (hitems : ∀ entry ∈ items, entry.2.Numbered heads entry.1)
    (hgroups : ∀ entry ∈ items, ∀ head rules, entry.2 = .block head rules →
      (all.filter fun rule => rule.group = some entry.1) = rules)
    (hothers : ∀ rule ∈ others, rule.group = none ∧ rule.media ≠ none) :
    topItems heads all seen (items.flatMap (fun entry => entry.2.rules) ++ others) = items.map Prod.snd := by
  induction items generalizing seen with
  | nil => exact topItems_eq_nil hothers
  | cons entry items ih =>
    obtain ⟨id, item⟩ := entry
    rw [List.map_cons, List.nodup_cons] at hnodup
    rw [List.forall_mem_cons] at hseen hitems hgroups
    rw [List.flatMap_cons, List.append_assoc]
    cases item with
    | single rule =>
      have hfirst (rest : List FlatRule) :
          topItems heads all seen ([rule] ++ rest) = .single rule :: topItems heads all seen rest := by
        simp only [List.singleton_append, topItems, hitems.1.1, hitems.1.2, if_true]
      exact (hfirst _).trans (congrArg _ (ih hnodup.2 hseen.2 hitems.2 hgroups.2))
    | block head rules =>
      -- the first rule gives the block and the others are passed over; from then on the number is seen
      obtain ⟨hhead, hne, hgroup⟩ := hitems.1
      have hrest : ∀ entry ∈ items, entry.1 ∉ id :: seen := by
        intro entry hentry hmem
        rcases List.mem_cons.mp hmem with heq | hmem
        · exact hnodup.1 (List.mem_map.mpr ⟨entry, hentry, heq⟩)
        · exact hseen.2 entry hentry hmem
      have hfirst (rest : List FlatRule) :
          topItems heads all seen (rules ++ rest) = .block head rules :: topItems heads all (id :: seen) rest := by
        rw [topItems_block hseen.1 hne hgroup, hgroups.1 _ _ rfl, hhead]
      exact (hfirst _).trans (congrArg _ (ih hnodup.2 hrest hitems.2 hgroups.2))

/-- Items are found again in their rules. -/
theorem topItems_rules {items : List (Nat × Item)} {others : List FlatRule}
    (hnodup : (items.map Prod.fst).Nodup) (hitems : ∀ entry ∈ items, entry.2.Numbered heads entry.1)
    (hothers : ∀ rule ∈ others, rule.group = none ∧ rule.media ≠ none) :
    let all := items.flatMap (fun entry => entry.2.rules) ++ others
    topItems heads all [] all = items.map Prod.snd := by
  refine topItems_flatMap hnodup (fun _ _ => List.not_mem_nil) hitems ?_ hothers
  intro entry hentry head rules hitem
  have hnone : (others.filter fun rule => rule.group = some entry.1) = [] := by
    refine List.filter_eq_nil_iff.mpr fun rule hrule => ?_
    simp [(hothers rule hrule).1]
  rw [List.filter_append, hnone, List.append_nil]
  refine (filter_flatMap_of_mem hnodup.of_map hentry ?_ ?_).trans ?_
  · intro rule hrule
    have hgroup := hitems entry hentry
    rw [hitem] at hgroup hrule
    simpa using hgroup.2.2 rule hrule
  · intro other hother hne rule hrule
    have hid : other.1 ≠ entry.1 := fun heq => hne (List.inj_on_of_nodup_map hnodup hother hentry heq)
    have hgroup := hitems other hother
    cases hcase : other.2 with
    | single rule' =>
      rw [hcase] at hgroup hrule
      rw [List.mem_singleton.mp hrule]
      simp [hgroup.1]
    | block head' rules' =>
      rw [hcase] at hgroup hrule
      simp [hgroup.2.2 rule hrule, hid]
  · rw [hitem]
    rfl

end

end Sitewright.Style
