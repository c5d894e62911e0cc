import Sitewright.Proofs.Style.Ranges

/-!
Collected text with a table of patches. Instead of a place for each character, collected text may be kept with one
entry for each patch that was added to it: the byte index where the patch begins in the text, and the byte offset
where it begins in the source. A byte index is then looked up in the last patch that does not begin after it. The
table has an entry as soon as there is text, and looking up both ends of a part gives the range of its marks
(`Patchwork.Locates`), although the space for a comment is a patch of one byte for a piece of any size.
-/

namespace Sitewright.Style

/-- Collected text, and for each patch of it the byte index in the text and the byte offset in the source. -/
structure Patchwork where
  text : Text
  table : List (Nat × Nat)
  deriving DecidableEq, Repr

namespace Patchwork

/-- No text yet. -/
def empty : Patchwork := ⟨[], []⟩

/-- Adds a text that begins at a byte offset of the source. Blanks at the very beginning are left out. -/
def push (patchwork : Patchwork) (added : Text) (start : Nat) : Patchwork :=
  if patchwork.text = [] then
    let solid := Text.trimStart added
    if solid = [] then patchwork
    else ⟨solid, patchwork.table ++ [(0, start + Text.byteSize added - Text.byteSize solid)]⟩
  else ⟨patchwork.text ++ added, patchwork.table ++ [(Text.byteSize patchwork.text, start)]⟩

/-- Adds a space for a comment that begins at a byte offset of the source. -/
def pushGap (patchwork : Patchwork) (start : Nat) : Patchwork :=
  if patchwork.text = [] then patchwork
  else ⟨patchwork.text ++ [' '], patchwork.table ++ [(Text.byteSize patchwork.text, start)]⟩

/-- Reads one lexeme of a source. -/
def step (source : Text) (patchwork : Patchwork) (lexeme : Lexeme) : Patchwork :=
  let start := source.byteOffset lexeme.start
  match lexeme.kind with
  | .opening | .closing | .semicolon => empty
  | .comment => patchwork.pushGap start
  | .unterminatedComment => patchwork
  | .quoted | .slash | .text | .unterminatedString => patchwork.push lexeme.text start

/-- The byte offset in the source of a byte index of the text, if the table has an entry to look it up in. -/
def sourceOffset? (patchwork : Patchwork) (index : Nat) : Option Nat :=
  let position := (patchwork.table.takeWhile fun entry => entry.1 ≤ index).length
  patchwork.table[position - 1]?.map fun entry => entry.2 + (index - entry.1)

/-- The patchwork finds the places of a fragment. -/
structure Locates (source : Text) (patchwork : Patchwork) (fragment : Fragment) : Prop where
  text : patchwork.text = Fragment.text fragment
  /-- If there is text, then every lookup succeeds. -/
  total : patchwork.text ≠ [] → ∀ index, (patchwork.sourceOffset? index).isSome = true
  /-- Looking up both ends of a part gives its range, provided the part does not end with a blank. -/
  range : ∀ before part after, fragment = before ++ part ++ after → part ≠ [] →
    (∀ mark ∈ part.getLast?, isBlank mark.1 = false) →
    ∃ start stop, patchwork.sourceOffset? (Text.byteSize (Fragment.text before)) = some start ∧
      patchwork.sourceOffset? (Text.byteSize (Fragment.text (before ++ part))) = some stop ∧
      source.charRange ⟨start, stop⟩ = Fragment.range part

end Patchwork

/-! ## Patches -/

/-- A text with the character offset where it begins. -/
abbrev Patch := Text × Nat

/-- The marks of patches. -/
def marksOfPatches (patches : List Patch) : Fragment :=
  patches.flatMap fun patch => patch.1.zipIdx patch.2

/-- The table of patches, the first of which begins at a byte index. -/
def tableFrom (source : Text) : Nat → List Patch → List (Nat × Nat)
  | _, [] => []
  | index, patch :: rest =>
    (index, source.byteOffset patch.2) :: tableFrom source (index + Text.byteSize patch.1) rest

theorem text_marksOfPatches (patch : Patch) (rest : List Patch) :
    Fragment.text (marksOfPatches (patch :: rest)) = patch.1 ++ Fragment.text (marksOfPatches rest) := by
  rw [marksOfPatches, List.flatMap_cons, Fragment.text_append, Fragment.text_zipIdx]
  rfl

theorem marksOfPatches_append (a b : List Patch) :
    marksOfPatches (a ++ b) = marksOfPatches a ++ marksOfPatches b :=
  List.flatMap_append

theorem marksOfPatches_singleton (patch : Patch) : marksOfPatches [patch] = patch.1.zipIdx patch.2 :=
  List.flatMap_singleton _ _

section

variable (source : Text) (index : Nat)

theorem tableFrom_append (a b : List Patch) :
    tableFrom source index (a ++ b) =
      tableFrom source index a ++ tableFrom source (index + Text.byteSize (Fragment.text (marksOfPatches a))) b := by
  induction a generalizing index with
  | nil => rfl
  | cons patch a ih =>
    rw [List.cons_append, tableFrom, ih, text_marksOfPatches, Text.byteSize_append, tableFrom, List.cons_append,
      Nat.add_assoc]

theorem length_tableFrom (patches : List Patch) : (tableFrom source index patches).length = patches.length := by
  induction patches generalizing index with
  | nil => rfl
  | cons patch rest ih => rw [tableFrom, List.length_cons, ih, List.length_cons]

theorem le_of_mem_tableFrom {patches : List Patch} {entry : Nat × Nat} (h : entry ∈ tableFrom source index patches) :
    entry.1 ≤ index + Text.byteSize (Fragment.text (marksOfPatches patches)) := by
  induction patches generalizing index with
  | nil => cases h
  | cons patch rest ih =>
    rw [text_marksOfPatches, Text.byteSize_append, ← Nat.add_assoc]
    rcases List.mem_cons.mp h with rfl | hrest
    · exact Nat.le_trans (Nat.le_add_right _ _) (Nat.le_add_right _ _)
    · exact ih _ hrest

end

/-- An index inside a patch, or at the end of the last one, is looked up in that patch. -/
theorem sourceOffset?_of_patches {source : Text} {patchwork : Patchwork} {a b : List Patch} {patch : Patch}
    (htable : patchwork.table = tableFrom source 0 (a ++ patch :: b)) {u v : Text} (hpatch : patch.1 = u ++ v)
    (hv : v ≠ [] ∨ b = []) :
    patchwork.sourceOffset? (Text.byteSize (Fragment.text (marksOfPatches a)) + Text.byteSize u) =
      some (source.byteOffset patch.2 + Text.byteSize u) := by
  have hle {entry : Nat × Nat} (hentry : entry ∈ tableFrom source 0 a) :
      entry.1 ≤ Text.byteSize (Fragment.text (marksOfPatches a)) := by
    have hle := le_of_mem_tableFrom source 0 hentry
    rwa [Nat.zero_add] at hle
  rw [tableFrom_append, Nat.zero_add, tableFrom] at htable
  generalize Text.byteSize (Fragment.text (marksOfPatches a)) = index at htable hle ⊢
  have hbefore : ∀ entry ∈ tableFrom source 0 a, decide (entry.1 ≤ index + Text.byteSize u) = true :=
    fun entry hentry => decide_eq_true (Nat.le_trans (hle hentry) (Nat.le_add_right _ _))
  have hhere : decide ((index, source.byteOffset patch.2).1 ≤ index + Text.byteSize u) = true :=
    decide_eq_true (Nat.le_add_right _ _)
  -- the next patch, if there is one, begins after the index
  have hafter : (tableFrom source (index + Text.byteSize patch.1) b).takeWhile
      (fun entry => entry.1 ≤ index + Text.byteSize u) = [] := by
    cases b with
    | nil => rfl
    | cons next b =>
      have hpositive := Text.byteSize_pos (hv.resolve_right (List.cons_ne_nil _ _))
      rw [tableFrom, List.takeWhile_cons_of_neg]
      rw [hpatch, Text.byteSize_append, decide_eq_true_eq]
      omega
  have hposition : (patchwork.table.takeWhile fun entry => entry.1 ≤ index + Text.byteSize u).length =
      a.length + 1 := by
    rw [htable, List.takeWhile_append_of_pos hbefore, List.takeWhile_cons, if_pos hhere, hafter, List.length_append,
      length_tableFrom, List.length_singleton]
  have hentry : patchwork.table[a.length]? = some (index, source.byteOffset patch.2) := by
    rw [htable, ← length_tableFrom source 0 a, List.getElem?_append_right (Nat.le_refl _), Nat.sub_self]
    rfl
  rw [Patchwork.sourceOffset?, hposition, Nat.add_sub_cancel, hentry, Option.map_some, Nat.add_sub_cancel_left]

/-- A mark stands in one of the patches. -/
theorem exists_patch {patches : List Patch} {before after : Fragment} {mark : Char × Nat}
    (h : marksOfPatches patches = before ++ mark :: after) :
    ∃ a patch b u v, patches = a ++ patch :: b ∧ patch.1 = u ++ mark.1 :: v ∧ mark.2 = patch.2 + u.length ∧
      Fragment.text before = Fragment.text (marksOfPatches a) ++ u := by
  induction patches generalizing before with
  | nil => exact absurd h (by simp [marksOfPatches])
  | cons patch patches ih =>
    rw [marksOfPatches, List.flatMap_cons, ← marksOfPatches] at h
    have hlater {more : Fragment} (hbefore : before = patch.1.zipIdx patch.2 ++ more)
        (hrest : marksOfPatches patches = more ++ mark :: after) :
        ∃ a found b u v, patch :: patches = a ++ found :: b ∧ found.1 = u ++ mark.1 :: v ∧
          mark.2 = found.2 + u.length ∧ Fragment.text before = Fragment.text (marksOfPatches a) ++ u := by
      obtain ⟨a, found, b, u, v, rfl, hfound, hplace, htext⟩ := ih hrest
      refine ⟨patch :: a, found, b, u, v, rfl, hfound, hplace, ?_⟩
      rw [hbefore, Fragment.text_append, Fragment.text_zipIdx, htext, text_marksOfPatches, List.append_assoc]
    rcases List.append_eq_append_iff.mp h with ⟨more, hbefore, hrest⟩ | ⟨more, hpatch, hrest⟩
    · exact hlater hbefore hrest
    cases more with
    | nil => exact @hlater [] (by rw [hpatch, List.append_nil, List.append_nil]) hrest.symm
    | cons first more =>
      obtain rfl : mark = first := (List.cons.inj hrest).1
      have htext := congrArg Fragment.text hpatch
      rw [Fragment.text_zipIdx, Fragment.text_append] at htext
      have hget : (patch.1.zipIdx patch.2)[before.length]? = some mark := by
        rw [hpatch, List.getElem?_append_right (Nat.le_refl _), Nat.sub_self]
        rfl
      rw [List.getElem?_zipIdx, Option.map_eq_some_iff] at hget
      obtain ⟨c, -, rfl⟩ := hget
      refine ⟨[], patch, patches, Fragment.text before, Fragment.text more, rfl, htext, ?_, rfl⟩
      rw [Fragment.text, List.length_map]

/-! ## The patchwork of a fragment -/

/-- The patchwork is made of patches that stand in the source, or for a comment. -/
structure Patchwork.MadeOf (source : Text) (patchwork : Patchwork) (patches : List Patch) : Prop where
  text : patchwork.text = Fragment.text (marksOfPatches patches)
  table : patchwork.table = tableFrom source 0 patches
  patches : ∀ patch ∈ patches, patch.1 ≠ [] ∧ (patch.1 <+: source.drop patch.2 ∨ patch.1 = [' '])

namespace Patchwork.MadeOf

variable {source : Text} {patchwork : Patchwork} {patches : List Patch} (h : patchwork.MadeOf source patches)
include h

/-- A mark is looked up where it stands. -/
theorem sourceOffset?_mark {before after : Fragment} {mark : Char × Nat}
    (hmark : marksOfPatches patches = before ++ mark :: after) :
    patchwork.sourceOffset? (Text.byteSize (Fragment.text before)) = some (source.byteOffset mark.2) := by
  obtain ⟨a, patch, b, u, v, rfl, hpatch, hplace, hbefore⟩ := exists_patch hmark
  have hlookup := sourceOffset?_of_patches h.table hpatch (.inl (List.cons_ne_nil _ _))
  rw [hbefore, Text.byteSize_append, hlookup, hplace]
  have hstands := (h.patches patch (List.mem_append_right _ List.mem_cons_self)).2
  rw [hpatch] at hstands
  rcases hstands with hprefix | hspace
  · rw [Text.byteOffset_add ((List.prefix_append u _).trans hprefix)]
  · obtain ⟨rfl, -⟩ | ⟨-, hcons⟩ := List.append_eq_singleton_iff.mp hspace
    · rfl
    · cases hcons

/-- The end is looked up after the last mark, unless that is the space for a comment. -/
theorem sourceOffset?_end {before : Fragment} {mark : Char × Nat}
    (hmark : marksOfPatches patches = before ++ [mark]) (hsolid : isBlank mark.1 = false) :
    patchwork.sourceOffset? (Text.byteSize (Fragment.text (before ++ [mark]))) =
      some (source.byteOffset (mark.2 + 1)) := by
  obtain ⟨a, patch, b, u, v, rfl, hpatch, hplace, hbefore⟩ := exists_patch hmark
  -- the patch of the last mark is the last one, and ends with it
  have hrest : v ++ Fragment.text (marksOfPatches b) = [] := by
    have htext := congrArg Fragment.text hmark
    rw [marksOfPatches_append, Fragment.text_append, text_marksOfPatches, hpatch, Fragment.text_append,
      hbefore] at htext
    simpa [Fragment.text] using htext
  obtain ⟨rfl, hb⟩ := List.append_eq_nil_iff.mp hrest
  obtain rfl : b = [] := by
    cases b with
    | nil => rfl
    | cons next b =>
      rw [text_marksOfPatches] at hb
      exact absurd (List.append_eq_nil_iff.mp hb).1 (h.patches next (by simp)).1
  have hlookup := sourceOffset?_of_patches h.table (List.append_nil patch.1).symm (.inr rfl)
  have hindex : Fragment.text (before ++ [mark]) = Fragment.text (marksOfPatches a) ++ patch.1 := by
    rw [Fragment.text_append, hbefore, hpatch, List.append_assoc]
    rfl
  have hprefix : patch.1 <+: source.drop patch.2 := by
    refine (h.patches patch (by simp)).2.resolve_right fun hspace => ?_
    have hlast := congrArg List.getLast? (hpatch.symm.trans hspace)
    rw [List.getLast?_append] at hlast
    rw [(Option.some.inj hlast : mark.1 = ' ')] at hsolid
    exact absurd hsolid (by decide)
  rw [hindex, Text.byteSize_append, hlookup, ← Text.byteOffset_add hprefix, hplace, hpatch, List.length_append,
    List.length_singleton, Nat.add_assoc]

theorem isSome_sourceOffset? (hne : patches ≠ []) (index : Nat) : (patchwork.sourceOffset? index).isSome = true := by
  obtain ⟨patch, rest, rfl⟩ := List.exists_cons_of_ne_nil hne
  -- the first patch begins at index zero
  have hposition : (patchwork.table.takeWhile fun entry => entry.1 ≤ index).length - 1 < patchwork.table.length := by
    have hle := (List.takeWhile_prefix (l := patchwork.table) fun entry => decide (entry.1 ≤ index)).length_le
    have htable : 0 < patchwork.table.length := by
      rw [h.table]
      exact Nat.succ_pos _
    omega
  rw [sourceOffset?, List.getElem?_eq_getElem hposition]
  rfl

theorem locates (hsited : (marksOfPatches patches).Sited source) :
    patchwork.Locates source (marksOfPatches patches) := by
  refine ⟨h.text, fun htext => h.isSome_sourceOffset? ?_, fun before part after hfragment hpart hlast => ?_⟩
  · rintro rfl
    exact htext h.text
  have hpartSited : part.Sited source := hsited.subfragment ⟨before, after, hfragment.symm⟩
  have hrange := Text.charRange_byteSpan hpartSited.inside
  have hsplit : part.dropLast ++ [part.getLast hpart] = part := List.dropLast_append_getLast hpart
  have hsolid := hlast _ (List.getLast?_eq_getLast_of_ne_nil hpart)
  have hstop : (Fragment.range part).stop = (part.getLast hpart).2 + 1 := by
    rw [Fragment.range, List.getLast?_eq_getLast_of_ne_nil hpart]
    rfl
  refine ⟨source.byteOffset (Fragment.range part).start, source.byteOffset (Fragment.range part).stop, ?_, ?_, hrange⟩
  · obtain ⟨first, more, rfl⟩ := List.exists_cons_of_ne_nil hpart
    rw [List.append_assoc] at hfragment
    exact h.sourceOffset?_mark hfragment
  rw [hstop]
  cases after with
  | nil =>
    rw [List.append_nil, ← hsplit, ← List.append_assoc] at hfragment
    have hend := h.sourceOffset?_end hfragment hsolid
    rwa [List.append_assoc, hsplit] at hend
  | cons next after =>
    -- what follows the last mark begins right after it
    have hnext : next.2 = (part.getLast hpart).2 + 1 := by
      have hadjacent : [part.getLast hpart, next] <:+: marksOfPatches patches := by
        refine ⟨before ++ part.dropLast, after, ?_⟩
        rw [hfragment]
        nth_rewrite 3 [← hsplit]
        simp
      exact (List.isChain_cons_cons.mp (hsited.subfragment hadjacent).chain).1.2 hsolid
    rw [h.sourceOffset?_mark hfragment, hnext]

end Patchwork.MadeOf

/-! ## Reading a source -/

theorem trimStart_zipIdx {blanks solid : Text} (hblanks : Text.allBlank blanks = true)
    (hsolid : ∀ c ∈ solid.head?, isBlank c = false) (start : Nat) :
    Fragment.trimStart ((blanks ++ solid).zipIdx start) = solid.zipIdx (start + blanks.length) := by
  have hdropped : ∀ mark ∈ blanks.zipIdx start, isBlank mark.1 = true :=
    fun mark hmark => List.all_eq_true.mp hblanks mark.1 (List.fst_mem_of_mem_zipIdx hmark)
  rw [Fragment.trimStart, List.zipIdx_append, List.dropWhile_append_of_pos hdropped]
  cases solid with
  | nil => rfl
  | cons c solid =>
    have hc : isBlank c = false := hsolid c rfl
    rw [List.zipIdx_cons, List.dropWhile_cons, hc]
    rfl

namespace Patchwork.MadeOf

variable {source : Text} {patchwork : Patchwork} {patches : List Patch} (h : patchwork.MadeOf source patches)
include h

theorem text_eq_nil : patchwork.text = [] ↔ patches = [] := by
  refine ⟨fun htext => ?_, fun hpatches => ?_⟩
  · cases patches with
    | nil => rfl
    | cons patch rest =>
      rw [h.text, text_marksOfPatches] at htext
      exact absurd (List.append_eq_nil_iff.mp htext).1 (h.patches patch List.mem_cons_self).1
  · rw [h.text, hpatches]
    rfl

theorem marks_ne_nil (htext : patchwork.text ≠ []) : marksOfPatches patches ≠ [] := by
  intro hnil
  rw [h.text, hnil] at htext
  exact htext rfl

theorem add {added : Text} {start : Nat} (hadded : added ≠ [] ∧ (added <+: source.drop start ∨ added = [' '])) :
    MadeOf source ⟨patchwork.text ++ added,
      patchwork.table ++ [(Text.byteSize patchwork.text, source.byteOffset start)]⟩ (patches ++ [(added, start)]) where
  text := by
    rw [marksOfPatches_append, marksOfPatches_singleton, Fragment.text_append, Fragment.text_zipIdx, ← h.text]
  table := by
    rw [tableFrom_append, ← h.table, ← h.text, Nat.zero_add]
    rfl
  patches := List.forall_mem_append.mpr ⟨h.patches, List.forall_mem_singleton.mpr hadded⟩

theorem push {added : Text} {start : Nat} (hne : added ≠ []) (hadded : added <+: source.drop start) :
    ∃ patches', (patchwork.push added (source.byteOffset start)).MadeOf source patches' ∧
      marksOfPatches patches' = Fragment.collect (marksOfPatches patches) added start := by
  by_cases htext : patchwork.text = []
  case neg =>
    refine ⟨patches ++ [(added, start)], ?_, ?_⟩
    · rw [Patchwork.push, if_neg htext]
      exact h.add ⟨hne, .inl hadded⟩
    · rw [marksOfPatches_append, marksOfPatches_singleton, Fragment.collect, if_neg (h.marks_ne_nil htext)]
  obtain rfl := h.text_eq_nil.mp htext
  obtain ⟨blanks, hblanks, hsplit⟩ := Text.exists_trimStart added
  have hcollect : Fragment.collect (marksOfPatches []) added start =
      (Text.trimStart added).zipIdx (start + blanks.length) := by
    have hnil : marksOfPatches [] = [] := rfl
    rw [hnil, Fragment.collect, if_pos rfl]
    nth_rewrite 1 [hsplit]
    exact trimStart_zipIdx hblanks (Text.head?_trimStart added) start
  rw [hcollect, Patchwork.push, if_pos htext]
  dsimp only
  by_cases hsolid : Text.trimStart added = []
  · rw [if_pos hsolid, hsolid]
    exact ⟨[], h, rfl⟩
  rw [if_neg hsolid]
  -- the blanks that are left out move the place
  have hstart : source.byteOffset start + Text.byteSize added - Text.byteSize (Text.trimStart added) =
      source.byteOffset (start + blanks.length) := by
    rw [Text.byteOffset_add ((List.prefix_append blanks _).trans (hsplit ▸ hadded))]
    nth_rewrite 1 [hsplit]
    rw [Text.byteSize_append]
    omega
  have hprefix : Text.trimStart added <+: source.drop (start + blanks.length) :=
    Text.prefix_drop_add (hsplit ▸ hadded)
  refine ⟨[(Text.trimStart added, start + blanks.length)], ?_, marksOfPatches_singleton _⟩
  have hadd := h.add ⟨hsolid, .inl hprefix⟩
  rw [htext] at hadd
  rw [hstart]
  exact hadd

theorem pushGap (start : Nat) :
    ∃ patches', (patchwork.pushGap (source.byteOffset start)).MadeOf source patches' ∧
      marksOfPatches patches' = Fragment.collectGap (marksOfPatches patches) start := by
  by_cases htext : patchwork.text = []
  · obtain rfl := h.text_eq_nil.mp htext
    rw [Patchwork.pushGap, if_pos htext]
    exact ⟨[], h, rfl⟩
  · refine ⟨patches ++ [([' '], start)], ?_, ?_⟩
    · rw [Patchwork.pushGap, if_neg htext]
      exact h.add ⟨List.cons_ne_nil _ _, .inr rfl⟩
    · rw [marksOfPatches_append, marksOfPatches_singleton, Fragment.collectGap,
        if_neg (h.marks_ne_nil htext)]
      rfl

/-- The patchwork keeps up with the reading. -/
theorem step {reading : Reading} (hpending : marksOfPatches patches = reading.pending) {lexeme : Lexeme}
    (hlexeme : lexeme ∈ lexemes source) :
    ∃ patches', (patchwork.step source lexeme).MadeOf source patches' ∧
      marksOfPatches patches' = (reading.step lexeme).pending := by
  obtain ⟨⟨hne, -⟩, hprefix⟩ := of_mem_lexemes hlexeme
  have hempty : Patchwork.empty.MadeOf source [] := ⟨rfl, rfl, fun _ h => (List.not_mem_nil h).elim⟩
  have hpush := h.push hne hprefix
  have hgap := h.pushGap lexeme.start
  rw [hpending] at hpush hgap
  obtain ⟨kind, text, start⟩ := lexeme
  cases kind with
  | opening => exact ⟨[], hempty, (Reading.pending_openBrace _ _).symm⟩
  | closing => exact ⟨[], hempty, (Reading.pending_closeBrace _ _).symm⟩
  | semicolon => exact ⟨[], hempty, (Reading.pending_flush _ _).symm⟩
  | comment => exact hgap
  | unterminatedComment => exact ⟨patches, h, hpending⟩
  | quoted | unterminatedString | slash | text => exact hpush

theorem foldl {reading : Reading} (hpending : marksOfPatches patches = reading.pending) {done : List Lexeme}
    (hdone : done ⊆ lexemes source) :
    ∃ patches', (done.foldl (Patchwork.step source) patchwork).MadeOf source patches' ∧
      marksOfPatches patches' = (done.foldl Reading.step reading).pending := by
  induction done generalizing reading patchwork patches with
  | nil => exact ⟨patches, h, hpending⟩
  | cons lexeme done ih =>
    rw [List.cons_subset] at hdone
    obtain ⟨patches', hstep, hpending'⟩ := h.step hpending hdone.1
    exact ih hstep hpending' hdone.2

end Patchwork.MadeOf

/-- **The ranges of references are exact.** In every source, well-formed or not, each reference of the sheet selects
exactly what it says; it is a global, or a shorthand for one. And at every point of the reading a table of patches finds
the same places as the marks; no lookup in it fails. -/
theorem reference_ranges_exact (source : Text) :
    (∀ reference ∈ (Sheet.parse source).references,
      source.slice reference.part.range = reference.part.text ∧ Naming.isGlobalName reference.global = true ∧
        (reference.part.text = reference.global ∨
          ∃ name, reference.part.text = '@' :: name ∧ reference.global = '$' :: name)) ∧
    ∀ done rest, lexemes source = done ++ rest →
      (done.foldl (Patchwork.step source) .empty).Locates source (done.foldl Reading.step .start).pending := by
  constructor
  · intro reference hreference
    have hexact := (Sheet.sited_parse source).1 reference hreference
    exact ⟨hexact.selects, hexact.named, hexact.written⟩
  · intro done rest hall
    have hempty : Patchwork.empty.MadeOf source [] := ⟨rfl, rfl, fun _ h => (List.not_mem_nil h).elim⟩
    have hstart : Reading.start.Collects [] := Reading.collects_of_nil rfl
    have hdone : done ⊆ lexemes source := hall ▸ List.subset_append_left done rest
    obtain ⟨patches, hmade, hpending⟩ := @Patchwork.MadeOf.foldl source .empty [] hempty .start rfl done hdone
    rw [← hpending]
    refine hmade.locates ?_
    rw [hpending]
    exact (hstart.foldl done).sited (hall ▸ List.prefix_append done rest)

/-- Characters of several bytes, comments next to variables and between them, a shorthand, and a string without an
end. -/
def peppered : Text :=
  "é \x7b /* ü */ x: /**/$a/* $b */$c \"$d\" \x7d @sm/* */ \x7b y: €$e'".toList

theorem reference_ranges_exact_of_peppered :
    ((Sheet.parse peppered).references.map GlobalReference.global = ["$a", "$c", "$sm", "$e"].map String.toList ∧
      ∀ reference ∈ (Sheet.parse peppered).references,
        peppered.slice reference.part.range = reference.part.text) ∧
    ((lexemes peppered).foldl (Patchwork.step peppered) .empty).text ≠ [] ∧
      (((lexemes peppered).foldl (Patchwork.step peppered) .empty).sourceOffset? 9).isSome = true := by
  have htext : ((lexemes peppered).foldl (Patchwork.step peppered) .empty).text ≠ [] := by
    decide +kernel
  obtain ⟨hreferences, hlocates⟩ := reference_ranges_exact peppered
  refine ⟨⟨by decide +kernel, fun reference hreference => (hreferences reference hreference).1⟩, htext, ?_⟩
  exact (hlocates (lexemes peppered) [] (List.append_nil _).symm).total htext 9

end Sitewright.Style
