import Mathlib.Data.List.Forall2
import Mathlib.Data.List.Perm.Basic
import Sitewright.Proofs.Style.Layout
import Sitewright.Proofs.Style.Printable

/-!
What built text is put together from. `Sheet.assembly` is the list of the blocks of a sheet after its
statements, each with the flat rules that it has: first the rules of the top level and the blocks of at-rules,
then one block for every media key. Every flat rule is in one block and in one place of it, and an order of
media keys moves media blocks and nothing else (`assembled_parse`).
-/

namespace Sitewright.Style

variable {keys : List Text}

/-! ## The order of media keys -/

/-- A key comes before another one: those that `order` names first, as they appear in it, and then the others
as they appear in `keys`. -/
def KeyPrecedes (order keys : List Text) (key other : Text) : Prop :=
  (key ∈ order → other ∈ order → order.idxOf key < order.idxOf other) ∧
    (key ∉ order → other ∉ order ∧ keys.idxOf key < keys.idxOf other)

/-- The media keys of some rules in a given order. At most one list of keys is that. -/
structure KeySequence (order : List Text) (rules : List FlatRule) (keys : List Text) : Prop where
  nodup : keys.Nodup
  mem_iff : ∀ key, key ∈ keys ↔ ∃ rule ∈ rules, rule.media = some key
  sorted : keys.Pairwise (KeyPrecedes order (rules.filterMap FlatRule.media))

section

variable {α : Type} [BEq α] [LawfulBEq α]

theorem idxOf_cons_lt {a b c : α} {l : List α} (ha : a ≠ c) (hb : b ≠ c) (h : l.idxOf a < l.idxOf b) :
    (c :: l).idxOf a < (c :: l).idxOf b := by
  rw [List.idxOf_cons_ne l ha.symm, List.idxOf_cons_ne l hb.symm]
  exact Nat.succ_lt_succ h

/-- Without repetitions, the members of a list stand as they first appear. -/
theorem pairwise_eraseDups_filter (l : List α) (p : α → Bool) :
    (l.filter p).eraseDups.Pairwise fun a b => l.idxOf a < l.idxOf b := by
  induction l generalizing p with
  | nil => exact .nil
  | cons c rest ih =>
    -- the rest without `c` stands as it does in the rest
    have hrest (q : α → Bool) (hq : q c = false) :
        (rest.filter q).eraseDups.Pairwise fun a b => (c :: rest).idxOf a < (c :: rest).idxOf b := by
      have hne {a : α} (ha : a ∈ (rest.filter q).eraseDups) : a ≠ c := by
        rintro rfl
        rw [List.mem_eraseDups, List.mem_filter, hq] at ha
        exact Bool.false_ne_true ha.2
      exact (ih q).imp_of_mem fun ha hb hlt => idxOf_cons_lt (hne ha) (hne hb) hlt
    cases hp : p c with
    | false =>
      rw [List.filter_cons_of_neg (by rw [hp]; exact Bool.false_ne_true)]
      exact hrest p hp
    | true =>
      rw [List.filter_cons_of_pos hp, List.eraseDups_cons, List.filter_filter, List.pairwise_cons]
      refine ⟨fun b hb => ?_, hrest _ (by simp)⟩
      have hne : c ≠ b := by
        rintro rfl
        simp [List.mem_eraseDups] at hb
      rw [List.idxOf_cons_self, List.idxOf_cons_ne rest hne]
      exact Nat.succ_pos _

theorem pairwise_eraseDups (l : List α) : l.eraseDups.Pairwise fun a b => l.idxOf a < l.idxOf b := by
  have h := pairwise_eraseDups_filter l fun _ => true
  rwa [List.filter_eq_self.mpr fun _ _ => rfl] at h

end

theorem mem_orderedKeys {order : List Text} {key : Text} : key ∈ orderedKeys order keys ↔ key ∈ keys := by
  by_cases h : key ∈ order <;> simp [orderedKeys, List.mem_eraseDups, h]

theorem nodup_orderedKeys (order : List Text) (h : keys.Nodup) : (orderedKeys order keys).Nodup := by
  refine List.nodup_append.mpr ⟨nodup_eraseDups _, h.filter _, ?_⟩
  rintro key hkey other hother rfl
  simp only [List.mem_eraseDups, List.mem_filter] at hkey hother
  simp [hkey.1] at hother

theorem keySequence_orderedKeys (order : List Text) (rules : List FlatRule) :
    KeySequence order rules (orderedKeys order (mediaKeys rules)) where
  nodup := nodup_orderedKeys order (nodup_mediaKeys rules)
  mem_iff key := by rw [mem_orderedKeys, mem_mediaKeys]
  sorted := by
    refine List.pairwise_append.mpr ⟨?_, ?_, ?_⟩
    · refine (pairwise_eraseDups_filter order _).imp_of_mem fun hkey _ hlt => ⟨fun _ _ => hlt, fun hnot => ?_⟩
      exact absurd (List.mem_of_mem_filter (List.mem_eraseDups.mp hkey)) hnot
    · have hkeys := (pairwise_eraseDups (rules.filterMap FlatRule.media)).filter (!order.contains ·)
      refine hkeys.imp_of_mem fun hkey hother hlt => ?_
      simp only [List.mem_filter, Bool.not_eq_true', List.contains_eq_mem, decide_eq_false_iff_not] at hkey hother
      exact ⟨fun h => absurd h hkey.2, fun _ => ⟨hother.2, hlt⟩⟩
    · intro key hkey other hother
      simp only [List.mem_filter, Bool.not_eq_true', List.contains_eq_mem, decide_eq_false_iff_not] at hother
      refine ⟨fun _ h => absurd h hother.2, fun hnot => ?_⟩
      exact absurd (List.mem_of_mem_filter (List.mem_eraseDups.mp hkey)) hnot

theorem perm_orderedKeys (order : List Text) (h : keys.Nodup) : (orderedKeys order keys).Perm keys :=
  (List.perm_ext_iff_of_nodup (nodup_orderedKeys order h) h).mpr fun _ => mem_orderedKeys

/-! ## Blocks -/

/-- The rules with a media key, key by key. -/
def scopes (order : List Text) (rules : List FlatRule) : List (Text × List FlatRule) :=
  (orderedKeys order (mediaKeys rules)).map fun key => (key, rules.filter fun rule => rule.media = some key)

/-- A block at the top level of built text. -/
inductive PrintedBlock where
  | single (rule : FlatRule)
  /-- The block of an at-rule: its rules without media key, then the others by their keys. -/
  | group (head : Text) (plain : List FlatRule) (byKey : List (Text × List FlatRule))
  | media (key : Text) (rules : List FlatRule)

namespace PrintedBlock

/-- The text of a media block. -/
def mediaText (depth : Nat) (scope : Text × List FlatRule) : Text :=
  formatBlock depth ("@media ".toList ++ scope.1) scope.2

/-- The text of a block. -/
def text : PrintedBlock → Text
  | .single rule => formatRule 0 rule
  | .group head plain byKey =>
    formatBraces 0 head (Text.join ['\n'] (plain.map (formatRule 1) ++ byKey.map (mediaText 1)))
  | .media key rules => mediaText 0 (key, rules)

/-- The flat rules of a block, from the first to the last. -/
def rules : PrintedBlock → List FlatRule
  | .single rule => [rule]
  | .group _ plain byKey => plain ++ byKey.flatMap Prod.snd
  | .media _ rules => rules

/-- The rule of a block that is a rule. -/
def rule? : PrintedBlock → Option FlatRule
  | .single rule => some rule
  | _ => none

/-- Two blocks are the same, up to the order of the media blocks inside an at-rule. -/
inductive Alike : PrintedBlock → PrintedBlock → Prop
  | single (rule : FlatRule) : Alike (.single rule) (.single rule)
  | group (head : Text) (plain : List FlatRule) {byKey other : List (Text × List FlatRule)}
    (h : byKey.Perm other) : Alike (.group head plain byKey) (.group head plain other)

end PrintedBlock

/-- Whether a rule begins a block before the media blocks: it is the first of its at-rule, or it has no at-rule
and no media key. -/
def beginsBlock (earlier : List FlatRule) (rule : FlatRule) : Bool :=
  match rule.group with
  | some id => id ∉ earlier.filterMap FlatRule.group
  | none => rule.media.isNone

/-- The rules that begin a block before the media blocks. -/
def leaders (rules : List FlatRule) : List FlatRule :=
  (rules.zipIdx.filter fun entry => beginsBlock (rules.take entry.2) entry.1).map Prod.fst

/-- The block that a rule begins. -/
def blockOf (heads : Nat → Text) (order : List Text) (rules : List FlatRule) (leader : FlatRule) : PrintedBlock :=
  match leader.group with
  | some id =>
    let inner := rules.filter fun rule => rule.group = some id
    .group (heads id) (inner.filter fun rule => rule.media = none) (scopes order inner)
  | none => .single leader

/-- The blocks of a sheet before the media blocks. -/
def Sheet.frontBlocks (sheet : Sheet) (order : List Text) : List PrintedBlock :=
  (leaders sheet.flatRules).map (blockOf (headText sheet) order sheet.flatRules)

/-- The media blocks of a sheet. -/
def Sheet.mediaSections (sheet : Sheet) (order : List Text) : List PrintedBlock :=
  (scopes order (sheet.flatRules.filter fun rule => rule.group = none)).map fun scope => .media scope.1 scope.2

/-- The blocks of a sheet after its statements. -/
def Sheet.assembly (sheet : Sheet) (order : List Text) : List PrintedBlock :=
  sheet.frontBlocks order ++ sheet.mediaSections order

/-! ## Leaders -/

/-- The leaders among the rules after some others. -/
def leadersFrom (before rest : List FlatRule) : List FlatRule :=
  ((rest.zipIdx before.length).filter fun entry => beginsBlock ((before ++ rest).take entry.2) entry.1).map Prod.fst

section

variable {before : List FlatRule} {rule : FlatRule}

theorem beginsBlock_of_group {id : Nat} (h : rule.group = some id) :
    beginsBlock before rule = decide (id ∉ before.filterMap FlatRule.group) := by
  rw [beginsBlock, h]

theorem beginsBlock_of_no_group (h : rule.group = none) : beginsBlock before rule = rule.media.isNone := by
  rw [beginsBlock, h]

theorem leadersFrom_cons (before : List FlatRule) (rule : FlatRule) (rest : List FlatRule) :
    leadersFrom before (rule :: rest) =
      if beginsBlock before rule then rule :: leadersFrom (before ++ [rule]) rest
      else leadersFrom (before ++ [rule]) rest := by
  rw [leadersFrom, List.zipIdx_cons, leadersFrom, List.length_append, List.append_assoc, List.filter_cons,
    List.take_left]
  split <;> rfl

end

theorem filter_leadersFrom (before rest : List FlatRule) :
    (leadersFrom before rest).filter (fun rule => rule.group = none) =
      rest.filter fun rule => rule.group = none ∧ rule.media = none := by
  induction rest generalizing before with
  | nil => rfl
  | cons rule rest ih =>
    rw [leadersFrom_cons, List.filter_cons]
    cases hgroup : rule.group with
    | some id => split <;> simp [hgroup, ih]
    | none =>
      rw [beginsBlock_of_no_group hgroup]
      cases hmedia : rule.media <;> simp [hgroup, ih]

/-- An at-rule has one leader, its first rule. -/
theorem filterMap_leadersFrom (before rest : List FlatRule) :
    (leadersFrom before rest).filterMap FlatRule.group =
      ((rest.filterMap FlatRule.group).filter fun id => id ∉ before.filterMap FlatRule.group).eraseDups := by
  induction rest generalizing before with
  | nil => rfl
  | cons rule rest ih =>
    rw [leadersFrom_cons]
    cases hgroup : rule.group with
    | none =>
      have hrest := ih (before ++ [rule])
      rw [List.filterMap_append, List.filterMap_cons_none hgroup, List.filterMap_nil, List.append_nil] at hrest
      rw [List.filterMap_cons_none hgroup, ← hrest]
      split
      · exact List.filterMap_cons_none hgroup
      · rfl
    | some id =>
      have hrest := ih (before ++ [rule])
      rw [List.filterMap_append, List.filterMap_cons_some hgroup, List.filterMap_nil] at hrest
      rw [beginsBlock_of_group hgroup, List.filterMap_cons_some hgroup]
      by_cases hnew : id ∈ before.filterMap FlatRule.group
      · rw [if_neg (by simpa using hnew), hrest, List.filter_cons_of_neg (by simpa using hnew)]
        refine congrArg _ (List.filter_congr fun other _ => ?_)
        by_cases hother : other = id <;> simp_all
      · rw [if_pos (by simpa using hnew), List.filterMap_cons_some hgroup, hrest,
          List.filter_cons_of_pos (by simpa using hnew), List.eraseDups_cons, List.filter_filter]
        refine congrArg (id :: List.eraseDups ·) (List.filter_congr fun other _ => ?_)
        by_cases hother : other = id <;> simp [hother]

theorem filter_leaders (rules : List FlatRule) :
    (leaders rules).filter (fun rule => rule.group = none) =
      rules.filter fun rule => rule.group = none ∧ rule.media = none :=
  filter_leadersFrom [] rules

theorem filterMap_leaders (rules : List FlatRule) :
    (leaders rules).filterMap FlatRule.group = (rules.filterMap FlatRule.group).eraseDups := by
  refine (filterMap_leadersFrom [] rules).trans (congrArg _ ?_)
  exact List.filter_eq_self.mpr fun _ _ => rfl

/-! ## The text of the blocks -/

theorem mediaBlocks_eq (depth : Nat) (order : List Text) (rules : List FlatRule) :
    mediaBlocks depth order rules = (scopes order rules).map (PrintedBlock.mediaText depth) := by
  rw [mediaBlocks, scopes, List.map_map]
  rfl

/-- Rules that are printed in a row may be taken one by one. -/
theorem join_formatRules (rules : List FlatRule) (blocks : List Text) :
    Text.join ['\n'] ((if rules = [] then [] else [formatRules 1 rules]) ++ blocks) =
      Text.join ['\n'] (rules.map (formatRule 1) ++ blocks) := by
  by_cases hrules : rules = []
  · rw [hrules]
    rfl
  · rw [if_neg hrules]
    by_cases hblocks : blocks = []
    · rw [hblocks, List.append_nil, List.append_nil, Text.join_singleton]
      rfl
    · have hmap : rules.map (formatRule 1) ≠ [] := mt List.map_eq_nil_iff.mp hrules
      rw [Text.join_append (List.cons_ne_nil _ _) hblocks, Text.join_append hmap hblocks, Text.join_singleton]
      rfl

theorem formatGroup_eq (order : List Text) (head : Text) (rules : List FlatRule) :
    formatGroup order head rules =
      (PrintedBlock.group head (rules.filter fun rule => rule.media = none) (scopes order rules)).text := by
  simp only [formatGroup, join_formatRules, mediaBlocks_eq, PrintedBlock.text]

theorem topBlocks_eq_leadersFrom (sheet : Sheet) (order : List Text) (all before rest : List FlatRule)
    {seen : List Nat} (hseen : ∀ id, id ∈ seen ↔ id ∈ before.filterMap FlatRule.group) :
    topBlocks sheet order all seen rest =
      (leadersFrom before rest).map fun leader => (blockOf (headText sheet) order all leader).text := by
  induction rest generalizing before seen with
  | nil => rfl
  | cons rule rest ih =>
    rw [topBlocks, leadersFrom_cons]
    cases hgroup : rule.group with
    | none =>
      have hrest := @ih (before ++ [rule]) seen fun id => by
        rw [hseen, List.filterMap_append, List.filterMap_cons_none hgroup, List.filterMap_nil, List.append_nil]
      dsimp only
      rw [hrest, beginsBlock_of_no_group hgroup]
      cases rule.media <;> simp [blockOf, hgroup, PrintedBlock.text]
    | some id =>
      have hafter : (before ++ [rule]).filterMap FlatRule.group = before.filterMap FlatRule.group ++ [id] := by
        rw [List.filterMap_append, List.filterMap_cons_some hgroup, List.filterMap_nil]
      dsimp only
      rw [beginsBlock_of_group hgroup]
      by_cases hmem : id ∈ seen
      · have hrest := @ih (before ++ [rule]) seen fun other => by
          rw [hafter, List.mem_append, List.mem_singleton, ← hseen]
          exact ⟨.inl, fun h => h.elim (fun h => h) fun h => h ▸ hmem⟩
        have hold := (hseen id).mp hmem
        rw [if_pos (by simpa using hmem), if_neg (by simpa using hold), hrest]
      · have hrest := @ih (before ++ [rule]) (id :: seen) fun other => by
          rw [hafter, List.mem_append, List.mem_singleton, ← hseen, List.mem_cons, or_comm]
        have hnew := mt (hseen id).mpr hmem
        rw [if_neg (by simpa using hmem), if_pos (by simpa using hnew), hrest, List.map_cons, formatGroup_eq]
        simp only [blockOf, hgroup]

theorem Sheet.blocks_eq (sheet : Sheet) (order : List Text) :
    sheet.blocks order =
      sheet.statements.map (fun statement => statement.text ++ [';']) ++
        (sheet.assembly order).map PrintedBlock.text := by
  rw [blocks, assembly, frontBlocks, mediaSections, List.map_append, List.map_map, List.map_map, List.append_assoc]
  congr 2
  · exact topBlocks_eq_leadersFrom sheet order sheet.flatRules [] sheet.flatRules fun _ => Iff.rfl
  · exact mediaBlocks_eq 0 order _

/-! ## Every rule once -/

section

variable {α κ : Type} [DecidableEq κ]

/-- The members of a list by their keys, for some of the keys. -/
theorem perm_flatMap_filter {keys : List κ} (hnodup : keys.Nodup) (key? : α → Option κ) (l : List α) :
    (keys.flatMap fun key => l.filter fun a => key? a = some key).Perm
      (l.filter fun a => (key? a).any keys.contains) := by
  induction keys with
  | nil =>
    rw [List.filter_eq_nil_iff.mpr]
    · exact .nil
    · intro a _
      cases key? a <;> exact Bool.false_ne_true
  | cons key keys ih =>
    rw [List.nodup_cons] at hnodup
    have hsplit := List.filter_append_perm (fun a => key? a = some key)
      (l.filter fun a => (key? a).any (key :: keys).contains)
    have hkey : (l.filter fun a => (key? a).any (key :: keys).contains).filter (fun a => key? a = some key) =
        l.filter fun a => key? a = some key := by
      rw [List.filter_filter]
      refine List.filter_congr fun a _ => ?_
      by_cases ha : key? a = some key <;> simp [ha]
    have hothers : (l.filter fun a => (key? a).any (key :: keys).contains).filter (fun a => !(key? a = some key)) =
        l.filter fun a => (key? a).any keys.contains := by
      rw [List.filter_filter]
      refine List.filter_congr fun a _ => ?_
      cases key? a with
      | none => rfl
      | some other => by_cases hother : other = key <;> simp_all
    rw [hkey, hothers] at hsplit
    exact ((ih hnodup.2).append_left _).trans hsplit

/-- The members of a list that have a key, by their keys. -/
theorem perm_flatMap_filter_of_mem_iff {keys : List κ} (hnodup : keys.Nodup) {key? : α → Option κ} {l : List α}
    (hkeys : ∀ key, key ∈ keys ↔ ∃ a ∈ l, key? a = some key) :
    (keys.flatMap fun key => l.filter fun a => key? a = some key).Perm (l.filter fun a => key? a ≠ none) := by
  refine (perm_flatMap_filter hnodup key? l).trans (.of_eq (List.filter_congr fun a ha => ?_))
  cases hkey : key? a with
  | none => rfl
  | some key => simpa using (hkeys key).mpr ⟨a, ha, hkey⟩

end

theorem perm_scopes (order : List Text) (rules : List FlatRule) :
    ((scopes order rules).flatMap Prod.snd).Perm (rules.filter fun rule => rule.media ≠ none) := by
  rw [scopes, List.flatMap_map]
  have hkeys := keySequence_orderedKeys order rules
  exact perm_flatMap_filter_of_mem_iff hkeys.nodup hkeys.mem_iff

theorem perm_rules_group (order : List Text) (head : Text) (rules : List FlatRule) :
    (PrintedBlock.group head (rules.filter fun rule => rule.media = none) (scopes order rules)).rules.Perm rules := by
  refine ((perm_scopes order rules).append_left _).trans ?_
  simpa using List.filter_append_perm (fun rule => rule.media = none) rules

theorem perm_flatMap_blockOf (heads : Nat → Text) (order : List Text) (rules leaders : List FlatRule) :
    ((leaders.map (blockOf heads order rules)).flatMap PrintedBlock.rules).Perm
      ((leaders.filter fun rule => rule.group = none) ++
        (leaders.filterMap FlatRule.group).flatMap fun id => rules.filter fun rule => rule.group = some id) := by
  induction leaders with
  | nil => exact .nil
  | cons leader leaders ih =>
    rw [List.map_cons, List.flatMap_cons, blockOf]
    cases hgroup : leader.group with
    | none =>
      rw [List.filter_cons_of_pos (by simpa using hgroup), List.filterMap_cons_none hgroup]
      exact ih.cons leader
    | some id =>
      rw [List.filter_cons_of_neg (by simp [hgroup]), List.filterMap_cons_some hgroup, List.flatMap_cons]
      refine ((perm_rules_group order (heads id) _).append ih).trans ?_
      rw [← List.append_assoc, ← List.append_assoc]
      exact List.perm_append_comm.append_right _

theorem Sheet.perm_frontBlocks (sheet : Sheet) (order : List Text) :
    ((sheet.frontBlocks order).flatMap PrintedBlock.rules).Perm
      ((sheet.flatRules.filter fun rule => rule.group = none ∧ rule.media = none) ++
        sheet.flatRules.filter fun rule => rule.group ≠ none) := by
  refine (perm_flatMap_blockOf _ order _ _).trans ?_
  rw [filter_leaders, filterMap_leaders]
  refine List.Perm.append_left _ (perm_flatMap_filter_of_mem_iff (nodup_eraseDups _) fun id => ?_)
  rw [List.mem_eraseDups, List.mem_filterMap]

theorem Sheet.perm_assembly (sheet : Sheet) (order : List Text) :
    ((sheet.assembly order).flatMap PrintedBlock.rules).Perm sheet.flatRules := by
  have hmedia : ((sheet.mediaSections order).flatMap PrintedBlock.rules).Perm
      (sheet.flatRules.filter fun rule => rule.group = none ∧ rule.media ≠ none) := by
    rw [mediaSections, List.flatMap_map]
    refine (perm_scopes order _).trans (.of_eq ?_)
    rw [List.filter_filter]
    exact List.filter_congr fun rule _ => by simp [Bool.and_comm]
  rw [assembly, List.flatMap_append]
  refine ((sheet.perm_frontBlocks order).append hmedia).trans ?_
  rw [List.append_assoc]
  refine (List.perm_append_comm.append_left _).trans ?_
  rw [← List.append_assoc]
  -- those outside of at-rules, by whether they have a media key, and then the others
  have houtside := List.filter_append_perm (fun rule => rule.media = none)
    (sheet.flatRules.filter fun rule => rule.group = none)
  simp only [List.filter_filter] at houtside
  have hall := List.filter_append_perm (fun rule => rule.group = none) sheet.flatRules
  refine List.Perm.trans ?_ hall
  refine List.Perm.append ?_ (.of_eq (List.filter_congr fun rule _ => by simp))
  refine List.Perm.trans (.of_eq ?_) houtside
  congr 1
  · exact List.filter_congr fun rule _ => by simp [Bool.and_comm]
  · exact List.filter_congr fun rule _ => by simp [Bool.and_comm]

theorem filterMap_blockOf (heads : Nat → Text) (order : List Text) (rules leaders : List FlatRule) :
    (leaders.map (blockOf heads order rules)).filterMap PrintedBlock.rule? =
      leaders.filter fun rule => rule.group = none := by
  induction leaders with
  | nil => rfl
  | cons leader leaders ih =>
    rw [List.map_cons, List.filter_cons, ← ih, blockOf]
    cases hgroup : leader.group with
    | none => rfl
    | some id => rfl

theorem Sheet.filterMap_assembly (sheet : Sheet) (order : List Text) :
    (sheet.assembly order).filterMap PrintedBlock.rule? =
      sheet.flatRules.filter fun rule => rule.group = none ∧ rule.media = none := by
  have hmedia : (sheet.mediaSections order).filterMap PrintedBlock.rule? = [] := by
    refine List.filterMap_eq_nil_iff.mpr fun block hblock => ?_
    obtain ⟨scope, -, rfl⟩ := List.mem_map.mp hblock
    rfl
  rw [assembly, List.filterMap_append, hmedia, List.append_nil, frontBlocks, filterMap_blockOf, filter_leaders]

/-! ## At-rules -/

/-- The flat rules of a tree, from the scope around it. -/
def Scope.treeRules (scope : Scope) (tree : (Nat × Rule) × Forest (Nat × Rule)) : List FlatRule :=
  let own := scope.own tree.1.2
  let inside := scope.inside tree.1.1 tree.1.2
  emit own.selectors own.media own.group tree.1.2 ++ flatten inside.selectors inside.media inside.group tree.2

theorem flatten_eq_flatMap (scope : Scope) (forest : Forest (Nat × Rule)) :
    flatten scope.selectors scope.media scope.group forest = forest.trees.flatMap scope.treeRules := by
  induction forest with
  | nil => rfl
  | cons entry below after _ ih => rw [flatten_cons, ih, Forest.trees, List.flatMap_cons, Scope.treeRules]

theorem Scope.group_own {rule : Rule} (h : rule.head ≠ .atRule) (scope : Scope) :
    (scope.own rule).group = scope.group := by
  rw [Scope.own]
  split <;> first | rfl | contradiction

theorem Rule.Read.atTop_of_atRule {origin : Origin} {context : Context} {rule : Rule} (h : rule.Read origin context)
    (hhead : rule.head = .atRule) : context.atTop = true := by
  obtain ⟨fragment, -, -, -, hread, -⟩ := h.opened.exists_fragment (by rw [hhead]; exact Head.noConfusion)
  rw [hread, readHead_fst] at hhead
  exact atTop_of_headOf_atRule hhead

/-- At-rules stand only at the top level. -/
def AtRulesOnTop (context : Context) (forest : Forest (Nat × Rule)) : Prop :=
  ∀ entry ∈ placedRules context forest, entry.2.2.head = .atRule → entry.1.atTop = true

theorem Sheet.atRulesOnTop_parse (source : Text) : AtRulesOnTop .top (Sheet.parse source).rules := by
  obtain ⟨top, hrules, hread, -⟩ := Sheet.read_parse source
  intro entry hentry hhead
  rw [hrules] at hentry
  exact (forall_placedRules_of_within hread 1 entry hentry).atTop_of_atRule hhead

/-- Without at-rules, the rules of a forest are in the at-rule around it. -/
theorem group_of_mem_flatten {context : Context} (htop : context.atTop = false) {forest : Forest (Nat × Rule)}
    (h : AtRulesOnTop context forest) (scope : Scope) :
    ∀ flat ∈ flatten scope.selectors scope.media scope.group forest, flat.group = scope.group := by
  refine forall_mem_flatten (fun context inner => context.atTop = false ∧ inner.group = scope.group)
    (fun context _ rule => rule.head = .atRule → context.atTop = true) ?_ ?_ ⟨htop, rfl⟩ h
  · rintro context inner id rule ⟨htop, hgroup⟩ hrule flat hflat
    have hhead : rule.head ≠ .atRule := fun hhead => by rw [hrule hhead] at htop; cases htop
    obtain ⟨-, -, rfl⟩ := mem_emit hflat
    exact (Scope.group_own hhead inner).trans hgroup
  · rintro context inner id rule ⟨htop, hgroup⟩ hrule
    have hhead : rule.head ≠ .atRule := fun hhead => by rw [hrule hhead] at htop; cases htop
    rw [Scope.inside_of_ne_atRule hhead, Scope.group_own hhead]
    exact ⟨atTop_inside context rule.head, hgroup⟩

theorem AtRulesOnTop.below {context : Context} {forest : Forest (Nat × Rule)} (h : AtRulesOnTop context forest)
    {tree : (Nat × Rule) × Forest (Nat × Rule)} (htree : tree ∈ forest.trees) :
    AtRulesOnTop (context.inside tree.1.2.head) tree.2 := by
  induction forest with
  | nil => cases htree
  | cons entry below after _ ih =>
    rw [AtRulesOnTop, placedRules, List.forall_mem_cons, List.forall_mem_append] at h
    rcases List.mem_cons.mp htree with rfl | htree
    · exact h.2.1
    · exact ih h.2.2 htree

/-- The scope outside of every rule. -/
def Scope.top : Scope := ⟨[], none, none⟩

theorem Scope.group_own_top (rule : Rule) : (Scope.top.own rule).group = none := by
  rw [Scope.own]
  split <;> rfl

/-- A tree at the top level has rules in an at-rule only if it is one, and these are the rules inside it. -/
theorem filter_treeRules {tree : (Nat × Rule) × Forest (Nat × Rule)}
    (h : AtRulesOnTop (Context.top.inside tree.1.2.head) tree.2) (id : Nat) :
    (Scope.top.treeRules tree).filter (fun flat => flat.group = some id) =
      if tree.1.2.head = .atRule ∧ tree.1.1 = id then flatten [] none (some id) tree.2 else [] := by
  obtain ⟨⟨number, rule⟩, below⟩ := tree
  have hown : (emit (Scope.top.own rule).selectors (Scope.top.own rule).media (Scope.top.own rule).group rule).filter
      (fun flat => flat.group = some id) = [] := by
    refine List.filter_eq_nil_iff.mpr fun flat hflat => ?_
    obtain ⟨-, -, rfl⟩ := mem_emit hflat
    simp [Scope.group_own_top]
  have hinside := group_of_mem_flatten (atTop_inside .top rule.head) h (Scope.top.inside number rule)
  rw [Scope.treeRules, List.filter_append, hown, List.nil_append]
  by_cases hhead : rule.head = .atRule
  · have hscope : Scope.top.inside number rule = ⟨[], none, some number⟩ := by rw [Scope.inside, hhead]
    rw [hscope] at hinside ⊢
    by_cases hid : number = id
    · subst hid
      rw [if_pos ⟨hhead, rfl⟩]
      exact List.filter_eq_self.mpr fun flat hflat => by simp [hinside flat hflat]
    · rw [if_neg fun hboth => hid hboth.2]
      exact List.filter_eq_nil_iff.mpr fun flat hflat => by simp [hinside flat hflat, hid]
  · rw [if_neg fun hboth => hhead hboth.1]
    rw [Scope.inside_of_ne_atRule hhead, Scope.group_own_top] at hinside
    rw [Scope.inside_of_ne_atRule hhead, Scope.group_own_top]
    exact List.filter_eq_nil_iff.mpr fun flat hflat => by simp [hinside flat hflat]

theorem sublist_trees {α : Type} (forest : Forest α) :
    (forest.trees.map Prod.fst).Sublist forest.preorder := by
  induction forest with
  | nil => exact .slnil
  | cons label below after _ ih => exact (ih.trans (List.sublist_append_right _ _)).cons_cons label

/-- The rules in an at-rule are those that stand inside it, under its head. -/
structure Sheet.InAtRule (sheet : Sheet) (id : Nat) (rule : Rule) (below : Forest (Nat × Rule)) : Prop where
  mem : ((id, rule), below) ∈ sheet.rules.trees
  head : rule.head = .atRule
  text : headText sheet id = rule.text
  rules : (sheet.flatRules.filter fun flat => flat.group = some id) = flatten [] none (some id) below

theorem Sheet.inAtRule_of_mem (source : Text) {flat : FlatRule} (hflat : flat ∈ (Sheet.parse source).flatRules)
    {id : Nat} (hgroup : flat.group = some id) : ∃ rule below, (Sheet.parse source).InAtRule id rule below := by
  have htop := Sheet.atRulesOnTop_parse source
  obtain ⟨top, hrules, -, -⟩ := Sheet.read_parse source
  generalize Sheet.parse source = sheet at *
  have hnodup : (sheet.rules.trees.map fun tree => tree.1.1).Nodup := by
    have hpreorder : (sheet.rules.preorder.map Prod.fst).Nodup := by
      rw [hrules, Forest.preorder_number]
      exact List.nodup_range'
    have hsub := (sublist_trees sheet.rules).map Prod.fst
    rw [List.map_map] at hsub
    exact hsub.nodup hpreorder
  have hfilter (tree) (htree : tree ∈ sheet.rules.trees) := filter_treeRules (htop.below htree) id
  have hflatRules : sheet.flatRules = sheet.rules.trees.flatMap Scope.top.treeRules := flatten_eq_flatMap .top _
  rw [hflatRules] at hflat
  obtain ⟨⟨⟨number, rule⟩, below⟩, htree, hflat⟩ := List.mem_flatMap.mp hflat
  obtain ⟨hhead, rfl⟩ : rule.head = .atRule ∧ number = id := by
    by_contra hother
    have hmem : flat ∈ (Scope.top.treeRules ((number, rule), below)).filter fun flat => flat.group = some id :=
      List.mem_filter.mpr ⟨hflat, decide_eq_true hgroup⟩
    rw [hfilter _ htree, if_neg hother] at hmem
    cases hmem
  refine ⟨rule, below, htree, hhead, ?_, ?_⟩
  · exact headText_of_mem hrules ((sublist_trees _).subset (List.mem_map_of_mem htree))
  · have hself := hfilter _ htree
    rw [if_pos ⟨hhead, rfl⟩] at hself
    rw [hflatRules, List.filter_flatMap, ← hself]
    have hone := filter_flatMap_of_mem hnodup.of_map (p := fun flat => flat.group = some number)
      (f := fun tree => (Scope.top.treeRules tree).filter fun flat => flat.group = some number) htree
      (fun flat hflat => (List.mem_filter.mp hflat).2) fun other hother hne flat hflat => by
        rw [hfilter other hother, if_neg] at hflat
        · cases hflat
        · exact fun hboth => hne (List.inj_on_of_nodup_map hnodup hother htree hboth.2)
    rw [List.filter_eq_self.mpr] at hone
    · exact hone
    · intro flat hflat
      obtain ⟨tree, -, hflat⟩ := List.mem_flatMap.mp hflat
      exact (List.mem_filter.mp hflat).2

/-! ## Two orders -/

theorem perm_scopes_scopes (order other : List Text) (rules : List FlatRule) :
    (scopes order rules).Perm (scopes other rules) := by
  have hnodup := nodup_mediaKeys rules
  exact ((perm_orderedKeys order hnodup).trans (perm_orderedKeys other hnodup).symm).map _

theorem alike_blockOf (heads : Nat → Text) (order other : List Text) (rules : List FlatRule) (leader : FlatRule) :
    (blockOf heads order rules leader).Alike (blockOf heads other rules leader) := by
  rw [blockOf, blockOf]
  cases leader.group with
  | none => exact .single leader
  | some id => exact .group _ _ (perm_scopes_scopes order other _)

theorem Sheet.alike_frontBlocks (sheet : Sheet) (order other : List Text) :
    List.Forall₂ PrintedBlock.Alike (sheet.frontBlocks order) (sheet.frontBlocks other) := by
  rw [frontBlocks, frontBlocks, List.forall₂_map_left_iff, List.forall₂_map_right_iff, List.forall₂_same]
  exact fun leader _ => alike_blockOf _ order other _ leader

/-! ## Assembly -/

/-- What the text of a sheet is put together from, with media keys in a given order. -/
structure Sheet.Assembled (sheet : Sheet) (order : List Text) : Prop where
  /-- The text is that of the statements and then of the blocks. -/
  text : sheet.buildOrdered order = Text.join ['\n']
    (sheet.statements.map (fun statement => statement.text ++ [';']) ++ (sheet.assembly order).map PrintedBlock.text)
  /-- Every flat rule is in one place. -/
  perm : ((sheet.assembly order).flatMap PrintedBlock.rules).Perm sheet.flatRules
  /-- The rules of the top level are blocks, in document order. -/
  singles : (sheet.assembly order).filterMap PrintedBlock.rule? =
    sheet.flatRules.filter fun rule => rule.group = none ∧ rule.media = none
  /-- An at-rule has one block, in the place of its first rule. -/
  groups : (leaders sheet.flatRules).filterMap FlatRule.group = (sheet.flatRules.filterMap FlatRule.group).eraseDups
  /-- The at-rule of a rule is that in which it stands. -/
  atRules : ∀ rule ∈ sheet.flatRules, ∀ id, rule.group = some id → ∃ head below, sheet.InAtRule id head below
  /-- There is one media block for each key, outside of at-rules and in each of them. -/
  keys : ∀ group, KeySequence order (sheet.flatRules.filter fun rule => rule.group = group)
    ((scopes order (sheet.flatRules.filter fun rule => rule.group = group)).map Prod.fst)
  /-- Another order moves media blocks and nothing else. -/
  orders : ∀ other, List.Forall₂ PrintedBlock.Alike (sheet.frontBlocks order) (sheet.frontBlocks other) ∧
    (sheet.mediaSections order).Perm (sheet.mediaSections other)

/-- **Assembly is a stable partition of the flat rules, and an order of media keys only permutes media blocks.** -/
theorem assembled_parse (source : Text) (order : List Text) (h : (Sheet.parse source).isMalformed = false) :
    (Sheet.parse source).Assembled order where
  text := by rw [Sheet.buildOrdered, h, Sheet.blocks_eq]; rfl
  perm := Sheet.perm_assembly _ order
  singles := Sheet.filterMap_assembly _ order
  groups := filterMap_leaders _
  atRules _ hrule _ hgroup := Sheet.inAtRule_of_mem source hrule hgroup
  keys group := by
    rw [scopes, List.map_map]
    exact (List.map_id _).symm ▸ keySequence_orderedKeys order _
  orders other := ⟨Sheet.alike_frontBlocks _ order other, (perm_scopes_scopes order other _).map _⟩

/-- A sheet with two media keys, outside of an at-rule and in one. -/
def scattered : Text :=
  (".a \x7b b: c; @sm \x7b d: e \x7d @m \x7b f: g \x7d \x7d " ++
    "@i j \x7b .k \x7b @sm \x7b l: m \x7d @m \x7b n: o \x7d p: q \x7d \x7d .r \x7b @m \x7b s: t \x7d \x7d").toList

/-- The key `$m` goes first, as the order has it, though the order repeats it and has a key of no rule. -/
theorem assembled_scattered :
    (Sheet.parse scattered).isMalformed = false ∧ (Sheet.parse scattered).flatRules.length = 7 ∧
      ((scopes ["$x".toList, "$m".toList, "$m".toList] ((Sheet.parse scattered).flatRules.filter
        fun rule => rule.group = none)).map Prod.fst) = ["$m".toList, "$sm".toList] ∧
      (Sheet.parse scattered).Assembled ["$x".toList, "$m".toList, "$m".toList] := by
  have hfacts : (Sheet.parse scattered).isMalformed = false ∧ (Sheet.parse scattered).flatRules.length = 7 ∧
      ((scopes ["$x".toList, "$m".toList, "$m".toList] ((Sheet.parse scattered).flatRules.filter
        fun rule => rule.group = none)).map Prod.fst) = ["$m".toList, "$sm".toList] := by
    decide +kernel
  exact ⟨hfacts.1, hfacts.2.1, hfacts.2.2, assembled_parse scattered _ hfacts.1⟩

end Sitewright.Style
