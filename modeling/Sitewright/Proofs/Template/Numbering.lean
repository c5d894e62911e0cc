import Sitewright.Template.Basic

/-!
The nodes of a document have different numbers, also after the content of elements was converted: the
new nodes are numbered on from where the document had stopped.
-/

namespace Sitewright

open Markup

namespace Forest

variable {α : Type} {id : Nat} {new forest : Forest (Nat × α)}

/-- The numbers of a numbered forest, in document order. -/
def numbers (forest : Forest (Nat × α)) : List Nat :=
  forest.preorder.map Prod.fst

@[simp] theorem numbers_cons (label : Nat × α) (below after : Forest (Nat × α)) :
    (cons label below after).numbers = label.1 :: (below.numbers ++ after.numbers) := by
  simp [numbers, preorder]

theorem replaceBelow_of_not_mem (h : id ∉ forest.numbers) : replaceBelow id new forest = forest := by
  induction forest with
  | nil => rfl
  | cons label below after ihbelow ihafter =>
    simp only [numbers_cons, List.mem_cons, List.mem_append, not_or] at h
    rw [replaceBelow, if_neg (Ne.symm h.1), ihbelow h.2.1, ihafter h.2.2]

theorem mem_numbers_replaceBelow {n : Nat} (h : n ∈ (replaceBelow id new forest).numbers) :
    n ∈ forest.numbers ∨ n ∈ new.numbers := by
  induction forest with
  | nil => exact .inl h
  | cons label below after ihbelow ihafter =>
    rw [replaceBelow] at h
    split at h
    · simp only [numbers_cons, List.mem_cons, List.mem_append] at h ⊢
      rcases h with h | h | h
      · exact .inl (.inl h)
      · exact .inr h
      · exact .inl (.inr (.inr h))
    · simp only [numbers_cons, List.mem_cons, List.mem_append] at h ⊢
      rcases h with h | h | h
      · exact .inl (.inl h)
      · exact (ihbelow h).imp (fun h => .inr (.inl h)) fun h => h
      · exact (ihafter h).imp (fun h => .inr (.inr h)) fun h => h

/-- Only one label has the number, so the new forest comes in at most once. -/
theorem nodup_replaceBelow (hforest : forest.numbers.Nodup) (hnew : new.numbers.Nodup)
    (hfresh : ∀ n ∈ forest.numbers, n ∉ new.numbers) : (replaceBelow id new forest).numbers.Nodup := by
  induction forest with
  | nil => exact hforest
  | cons label below after ihbelow ihafter =>
    simp only [numbers_cons, List.nodup_cons, List.mem_append, not_or, List.nodup_append] at hforest
    obtain ⟨⟨hbelow, hafter⟩, hnodupBelow, hnodupAfter, hdisjoint⟩ := hforest
    simp only [numbers_cons, List.mem_cons, List.mem_append] at hfresh
    have hlabel : label.1 ∉ new.numbers := hfresh _ (.inl rfl)
    have hfreshBelow : ∀ n ∈ below.numbers, n ∉ new.numbers := fun n hn => hfresh n (.inr (.inl hn))
    have hfreshAfter : ∀ n ∈ after.numbers, n ∉ new.numbers := fun n hn => hfresh n (.inr (.inr hn))
    rw [replaceBelow]
    split
    · simp only [numbers_cons, List.nodup_cons, List.mem_append, not_or, List.nodup_append]
      exact ⟨⟨hlabel, hafter⟩, hnew, hnodupAfter, fun a ha b hb heq => hfreshAfter b hb (heq ▸ ha)⟩
    · simp only [numbers_cons, List.nodup_cons, List.mem_append, not_or, List.nodup_append]
      refine ⟨⟨fun h => (mem_numbers_replaceBelow h).elim hbelow hlabel,
        fun h => (mem_numbers_replaceBelow h).elim hafter hlabel⟩,
        ihbelow hnodupBelow hfreshBelow, ihafter hnodupAfter hfreshAfter, ?_⟩
      intro a ha b hb heq
      by_cases hid : id ∈ below.numbers
      · have hother : id ∉ after.numbers := fun h => hdisjoint id hid id h rfl
        rw [replaceBelow_of_not_mem hother] at hb
        rcases mem_numbers_replaceBelow ha with ha | ha
        · exact hdisjoint a ha b hb heq
        · exact hfreshAfter b hb (heq ▸ ha)
      · rw [replaceBelow_of_not_mem hid] at ha
        rcases mem_numbers_replaceBelow hb with hb | hb
        · exact hdisjoint a ha b hb heq
        · exact hfreshBelow a ha (heq ▸ hb)

end Forest

namespace Markup.Document

/-- The nodes of a document have different numbers, and the next number is free. -/
structure Numbered (document : Document) : Prop where
  nodup : document.forest.numbers.Nodup
  lt_next : ∀ n ∈ document.forest.numbers, n < document.next

theorem numbered_ofForest (length : Nat) (nodes : Forest Node) : (ofForest length nodes).Numbered := by
  have hnumbers : (ofForest length nodes).forest.numbers = List.range' 1 nodes.size :=
    Forest.preorder_number 1 nodes
  constructor
  · rw [hnumbers]
    exact List.nodup_range'
  · intro n hn
    rw [hnumbers, List.mem_range'_1] at hn
    show n < nodes.size + 1
    omega

theorem Numbered.replaceChildren {document : Document} (h : document.Numbered) (id : Nat)
    (nodes : Forest Node) (span : ByteSpan) : (document.replaceChildren id nodes span).Numbered := by
  have hnew : ((nodes.map (Node.synthesized span)).number document.next).numbers =
      List.range' document.next nodes.size := by
    rw [← Forest.size_map (Node.synthesized span) nodes]
    exact Forest.preorder_number document.next _
  have hnodup : ((nodes.map (Node.synthesized span)).number document.next).numbers.Nodup := by
    rw [hnew]
    exact List.nodup_range'
  have hlt : ∀ n ∈ ((nodes.map (Node.synthesized span)).number document.next).numbers,
      document.next ≤ n ∧ n < document.next + nodes.size := by
    intro n hn
    rwa [hnew, List.mem_range'_1] at hn
  rw [Document.replaceChildren]
  split
  · exact ⟨hnodup, fun n hn => (hlt n hn).2⟩
  · constructor
    · refine Forest.nodup_replaceBelow h.nodup hnodup fun n hn hmem => ?_
      have hold := h.lt_next n hn
      have hnext := (hlt n hmem).1
      omega
    · intro n hn
      show n < document.next + nodes.size
      rcases Forest.mem_numbers_replaceBelow hn with hn | hn
      · have hold := h.lt_next n hn
        omega
      · exact (hlt n hn).2

end Markup.Document

namespace Template

theorem numbered_foldl_convertElement (source : Text) (targets : List (Nat × Element))
    {conversion : Conversion} (h : conversion.document.Numbered) :
    (targets.foldl (convertElement source) conversion).document.Numbered := by
  induction targets generalizing conversion with
  | nil => exact h
  | cons target rest ih => exact ih (h.replaceChildren _ _ _)

theorem numbered_document (template : Template) : template.document.Numbered :=
  numbered_foldl_convertElement _ _ (Document.numbered_ofForest _ _)

/-- A number belongs to one node. -/
theorem nodup_nodes (template : Template) : (template.document.nodes.map Prod.fst).Nodup :=
  template.numbered_document.nodup

end Template

end Sitewright
