import Mathlib.Data.List.Nodup
import Sitewright.Proofs.Rows
import Sitewright.Proofs.Markup.Canonical

/-!
Documents are trees. The numbers of the nodes are those below `next`, each once, and a parent has a smaller number than
its children; replacing what stands below a node keeps this (`Sound.replaceChildren`). So child lists, parents and the
forest that the document is made of say the same, for nodes in the document and for nodes that were replaced.
-/

namespace Sitewright.Markup.Node

end Sitewright.Markup.Node

namespace Sitewright.Markup.Document

open Forest

variable {document : Document} {id : Nat} {row : Row Node}

/-- The document and what was replaced in it, each with the number that it is or was below. -/
def sites (document : Document) : List (Nat × Forest (Nat × Node)) :=
  (0, document.forest) :: document.retired

theorem siteRows_sites (document : Document) : siteRows document.sites = document.rowsUnordered := rfl

/-- Every number below `next` but zero has one row, and parents have smaller numbers. -/
structure Sound (document : Document) : Prop where
  ids : (document.rowsUnordered.map Row.id).Perm (List.range' 1 (document.next - 1))
  next_pos : 0 < document.next
  parent_lt : ∀ row ∈ document.rowsUnordered, row.parent < row.id

namespace Sound

theorem nodup_ids (h : document.Sound) : (document.rowsUnordered.map Row.id).Nodup :=
  h.ids.nodup_iff.mpr List.nodup_range'

theorem mem_ids (h : document.Sound) : id ∈ document.rowsUnordered.map Row.id ↔ 0 < id ∧ id < document.next := by
  have hpos := h.next_pos
  rw [h.ids.mem_iff, List.mem_range'_1]
  omega

theorem row?_eq_some_iff (h : document.Sound) :
    document.row? id = some row ↔ row ∈ document.rowsUnordered ∧ row.id = id := by
  constructor
  · intro hrow
    exact ⟨List.mem_of_find?_eq_some hrow, by simpa using List.find?_some hrow⟩
  · rintro ⟨hrow, rfl⟩
    obtain ⟨found, hfound⟩ : ∃ found, document.row? row.id = some found :=
      Option.isSome_iff_exists.mp (List.find?_isSome.mpr ⟨row, hrow, by simp⟩)
    have hid : found.id = row.id := by simpa using List.find?_some hfound
    rw [hfound, List.inj_on_of_nodup_map h.nodup_ids (List.mem_of_find?_eq_some hfound) hrow hid]

theorem row?_eq_none_iff (h : document.Sound) : document.row? id = none ↔ ¬ (0 < id ∧ id < document.next) := by
  rw [← h.mem_ids, row?, List.find?_eq_none]
  simp

end Sound

theorem below_eq (document : Document) (hid : id ≠ 0) : document.below id = (siteBelow? id document.sites).getD .nil := by
  rw [below, if_neg hid, siteBelow?, sites, List.findSome?_cons, List.findSome?_cons, List.findSome?_map]
  rfl

/-- The nodes that come in, numbered on from where the document stops. -/
def copies (document : Document) (nodes : Forest Node) (span : ByteSpan) : Forest (Nat × Node) :=
  (nodes.map (Node.synthesized span)).number document.next

theorem numbers_copies (document : Document) (nodes : Forest Node) (span : ByteSpan) :
    (document.copies nodes span).numbers = List.range' document.next nodes.size := by
  rw [← size_map (Node.synthesized span) nodes]
  exact preorder_number document.next _

theorem sites_replaceChildren (document : Document) (hid : id ≠ 0) (nodes : Forest Node) (span : ByteSpan) :
    (document.replaceChildren id nodes span).sites =
      replaceSites id (document.copies nodes span) document.sites ++ [(id, document.below id)] := by
  rw [replaceChildren, if_neg hid]
  rfl

theorem Sound.siteBelow? (h : document.Sound) (hid : id ≠ 0) (hnext : id < document.next) :
    Forest.siteBelow? id document.sites = some (document.below id) := by
  rw [below_eq document hid]
  cases hsite : Forest.siteBelow? id document.sites with
  | some _ => rfl
  | none =>
    have hids := not_mem_siteRows_of_siteBelow? hsite
    rw [siteRows_sites, h.mem_ids] at hids
    omega

/-- The node gets other children and their rows come in. All other rows stay, also those that are replaced. -/
theorem Sound.perm_replaceChildren (h : document.Sound) (hnext : id < document.next) (nodes : Forest Node)
    (span : ByteSpan) :
    (document.replaceChildren id nodes span).rowsUnordered.Perm
      (document.rowsUnordered.map (Row.withChildren id (document.copies nodes span).heads) ++
        (document.copies nodes span).rows id) := by
  by_cases hid : id = 0
  · subst hid
    have hzero : 0 ∉ document.rowsUnordered.map Row.id := by
      rw [h.mem_ids]
      omega
    rw [Row.map_withChildren_of_not_mem hzero]
    have hrows : (document.replaceChildren 0 nodes span).rowsUnordered =
        (document.copies nodes span).rows 0 ++ (siteRows document.retired ++ document.forest.rows 0) := by
      simp [replaceChildren, rowsUnordered, siteRows, copies, below]
    rw [hrows]
    exact List.perm_append_comm.trans (List.perm_append_comm.append_right _)
  · rw [← siteRows_sites, sites_replaceChildren document hid, ← siteRows_sites]
    have hrows : siteRows (replaceSites id (document.copies nodes span) document.sites ++ [(id, document.below id)]) =
        siteRows (replaceSites id (document.copies nodes span) document.sites) ++ (document.below id).rows id := by
      simp [siteRows]
    rw [hrows]
    exact perm_siteRows_replaceSites h.nodup_ids (h.siteBelow? hid hnext) _

theorem next_replaceChildren (document : Document) (id : Nat) (nodes : Forest Node) (span : ByteSpan) :
    (document.replaceChildren id nodes span).next = document.next + nodes.size := by
  rw [replaceChildren]
  split <;> rfl

theorem Sound.replaceChildren (h : document.Sound) (hnext : id < document.next) (nodes : Forest Node)
    (span : ByteSpan) : (document.replaceChildren id nodes span).Sound := by
  have hperm := h.perm_replaceChildren hnext nodes span
  have hpos := h.next_pos
  constructor
  · have hids := hperm.map Row.id
    have hsame : Row.id ∘ Row.withChildren id (document.copies nodes span).heads = (Row.id : Row Node → Nat) := by
      funext row
      exact row.id_withChildren id _
    rw [List.map_append, List.map_map, hsame, map_id_rows, numbers_copies] at hids
    have hrange : List.range' 1 (document.next - 1) ++ List.range' document.next nodes.size =
        List.range' 1 (document.next - 1 + nodes.size) := by
      have hstart : document.next = 1 + (document.next - 1) := by omega
      nth_rewrite 2 [hstart]
      exact List.range'_append_1
    have hcount : document.next + nodes.size - 1 = document.next - 1 + nodes.size := by omega
    rw [next_replaceChildren, hcount, ← hrange]
    exact hids.trans (h.ids.append_right _)
  · rw [next_replaceChildren]
    omega
  · intro row hrow
    rw [hperm.mem_iff, List.mem_append, List.mem_map] at hrow
    rcases hrow with ⟨before, hbefore, rfl⟩ | hrow
    · rw [Row.id_withChildren, Row.parent_withChildren]
      exact h.parent_lt before hbefore
    · exact parent_lt_of_mem_rows_number hnext hrow

/-- The forest read off the rows: the listed nodes below a parent, each with what is read off its own children. -/
inductive Holds (document : Document) : Nat → List Nat → Forest (Nat × Node) → Prop where
  | nil {parent : Nat} : Holds document parent [] .nil
  | cons {parent id : Nat} {node : Node} {children rest : List Nat} {below after : Forest (Nat × Node)}
    (hrow : document.row? id = some ⟨id, parent, children, node⟩) (hbelow : Holds document id children below)
    (hafter : Holds document parent rest after) : Holds document parent (id :: rest) (.cons (id, node) below after)

theorem Sound.holds (h : document.Sound) {parent : Nat} {forest : Forest (Nat × Node)}
    (hrows : (forest.rows parent).Sublist document.rowsUnordered) : Holds document parent forest.heads forest := by
  induction forest generalizing parent with
  | nil => exact .nil
  | cons label below after ihbelow ihafter =>
    rw [Forest.rows] at hrows
    have htail := (List.sublist_cons_self _ _).trans hrows
    exact .cons (h.row?_eq_some_iff.mpr ⟨hrows.subset List.mem_cons_self, rfl⟩)
      (ihbelow ((List.sublist_append_left _ _).trans htail))
      (ihafter ((List.sublist_append_right _ _).trans htail))

theorem Sound.map_id_filterMap (h : document.Sound) {ids : List Nat} (hids : ∀ id ∈ ids, 0 < id ∧ id < document.next) :
    (ids.filterMap document.row?).map Row.id = ids := by
  induction ids with
  | nil => rfl
  | cons id rest ih =>
    rw [List.forall_mem_cons] at hids
    obtain ⟨row, hrow, rfl⟩ := List.mem_map.mp (h.mem_ids.mpr hids.1)
    rw [List.filterMap_cons_some (h.row?_eq_some_iff.mpr ⟨hrow, rfl⟩), List.map_cons, ih hids.2]

theorem Sound.map_id_rows (h : document.Sound) : document.rows.map Row.id = List.range' 1 (document.next - 1) := by
  have hpos := h.next_pos
  have hsplit : List.range document.next = 0 :: List.range' 1 (document.next - 1) := by
    obtain ⟨count, hcount⟩ : ∃ count, document.next = count + 1 := ⟨document.next - 1, by omega⟩
    rw [hcount, List.range_eq_range', List.range'_succ]
    rfl
  have hzero : document.row? 0 = none := h.row?_eq_none_iff.mpr (by omega)
  rw [Document.rows, hsplit, List.filterMap_cons_none hzero]
  refine h.map_id_filterMap fun id hid => ?_
  rw [List.mem_range'_1] at hid
  omega

end Sitewright.Markup.Document
