import Mathlib.Data.List.Nodup
import Mathlib.Data.List.Perm.Basic
import Sitewright.Proofs.Template.Numbering
import Sitewright.Template.Binding

/-!
Where the directives of an element end up. Each of them is kept in the markup, or declares one of the
states of the template, or moves into the registration of the element, and never two of these
(`perm_directives`). The attributes that leave the markup are those of the last two kinds
(`mem_removed`), whether an element has an entry in the bindings of its document or not.
-/

namespace Sitewright

open Markup

namespace Directive

variable {element : Element} {entry : Attribute × Nat}

/-- The directives of an element, each with its index. -/
def directives (element : Element) : List (Attribute × Nat) :=
  element.attributes.zipIdx.filter fun entry => Naming.looksLikeDirective entry.1.name

/-- The directives that declare states. -/
def declaring (element : Element) : List (Attribute × Nat) :=
  placed element .state

/-- The directives that move into the registration of the element, as they are listed there. -/
def moving (element : Element) : List (Attribute × Nat) :=
  (if placed element .move = [] then [] else (placed element .bare).getLast?.toList)
    ++ placed element .move

/-- The directives that do neither. -/
def keeping (element : Element) : List (Attribute × Nat) :=
  (directives element).filter fun entry => entry ∉ declaring element ++ moving element

/-! ## One place for each directive -/

theorem mem_placed {goal : Place} :
    entry ∈ placed element goal ↔ entry ∈ element.attributes.zipIdx ∧ place entry.1.name = goal := by
  simp [placed]

theorem looksLikeDirective_of_place {name : Text} (h : place name ≠ .stay) :
    Naming.looksLikeDirective name = true := by
  by_contra hplain
  rw [place, if_neg hplain] at h
  exact h rfl

theorem mem_directives_of_mem_placed {goal : Place} (hgoal : goal ≠ .stay)
    (h : entry ∈ placed element goal) : entry ∈ directives element := by
  obtain ⟨hmem, rfl⟩ := mem_placed.mp h
  exact List.mem_filter.mpr ⟨hmem, looksLikeDirective_of_place hgoal⟩

theorem nodup_zipIdx (attributes : List Attribute) : attributes.zipIdx.Nodup := by
  refine List.Nodup.of_map Prod.snd ?_
  rw [List.zipIdx_map_snd]
  exact List.nodup_range'

theorem eq_of_mem_zipIdx {attributes : List Attribute} {other : Attribute × Nat}
    (h : entry ∈ attributes.zipIdx) (hother : other ∈ attributes.zipIdx) (hindex : entry.2 = other.2) :
    entry = other := by
  have hget := List.mem_zipIdx_iff_getElem?.mp h
  have hget' := List.mem_zipIdx_iff_getElem?.mp hother
  rw [hindex, hget', Option.some.injEq] at hget
  exact Prod.ext hget.symm hindex

theorem nodup_placed (goal : Place) : (placed element goal).Nodup :=
  (nodup_zipIdx element.attributes).filter _

theorem place_of_mem_moving (h : entry ∈ moving element) :
    place entry.1.name = .bare ∨ place entry.1.name = .move := by
  rcases List.mem_append.mp h with h | h
  · split at h
    · cases h
    · have hlast := List.mem_of_getLast? (Option.mem_toList.mp h)
      exact .inl (mem_placed.mp hlast).2
  · exact .inr (mem_placed.mp h).2

theorem mem_zipIdx_of_mem_moving (h : entry ∈ moving element) : entry ∈ element.attributes.zipIdx := by
  rcases List.mem_append.mp h with h | h
  · split at h
    · cases h
    · exact (mem_placed.mp (List.mem_of_getLast? (Option.mem_toList.mp h))).1
  · exact (mem_placed.mp h).1

theorem nodup_moving (element : Element) : (moving element).Nodup := by
  rw [moving, List.nodup_append]
  refine ⟨?_, nodup_placed .move, ?_⟩
  · split
    · exact List.nodup_nil
    · cases (placed element .bare).getLast? <;> simp
  · intro a ha b hb heq
    split at ha
    · cases ha
    · have hbare := (mem_placed.mp (List.mem_of_getLast? (Option.mem_toList.mp ha))).2
      have hmove := (mem_placed.mp hb).2
      rw [heq, hmove] at hbare
      cases hbare

theorem family_of_mem_declaring (h : entry ∈ declaring element) :
    family entry.1.name = some "x-data".toList := by
  have hplace := (mem_placed.mp h).2
  rw [place] at hplace
  split at hplace
  · split at hplace
    · cases hplace
    · next base hfamily =>
      split at hplace
      · next hbase => rw [hfamily, hbase]
      · split at hplace
        · cases hplace
        · split at hplace <;> cases hplace
  · cases hplace

theorem mem_directives_of_leaving (h : entry ∈ declaring element ++ moving element) :
    entry ∈ directives element := by
  rcases List.mem_append.mp h with h | h
  · exact mem_directives_of_mem_placed (by decide) h
  · refine List.mem_filter.mpr ⟨mem_zipIdx_of_mem_moving h, looksLikeDirective_of_place ?_⟩
    rcases place_of_mem_moving h with hplace | hplace <;> rw [hplace] <;> decide

theorem nodup_leaving (element : Element) : (declaring element ++ moving element).Nodup := by
  rw [List.nodup_append]
  refine ⟨nodup_placed .state, nodup_moving element, ?_⟩
  rintro a ha b hb rfl
  have hstate := (mem_placed.mp ha).2
  rcases place_of_mem_moving hb with hplace | hplace <;> rw [hstate] at hplace <;> cases hplace

/-- No directive is lost, and none has two places. -/
theorem perm_directives (element : Element) :
    (keeping element ++ (declaring element ++ moving element)).Perm (directives element) := by
  have hdirectives : (directives element).Nodup := (nodup_zipIdx element.attributes).filter _
  refine (List.perm_ext_iff_of_nodup ?_ hdirectives).mpr fun entry => ?_
  · rw [List.nodup_append]
    refine ⟨hdirectives.filter _, nodup_leaving element, ?_⟩
    rintro a ha b hb rfl
    exact of_decide_eq_true (List.mem_filter.mp ha).2 hb
  · rw [List.mem_append, keeping, List.mem_filter, decide_eq_true_eq]
    constructor
    · rintro (⟨h, -⟩ | h)
      · exact h
      · exact mem_directives_of_leaving h
    · intro h
      by_cases hleaving : entry ∈ declaring element ++ moving element
      · exact .inr hleaving
      · exact .inl ⟨h, hleaving⟩

/-! ## What leaves the markup -/

theorem states_binding (id : Nat) (element : Element) :
    (binding id element).states = (declaring element).map fun entry => stateText entry.1 := rfl

theorem moved_binding (id : Nat) (element : Element) :
    (binding id element).moved =
      (moving element).map fun entry => (entry.1.name, entry.1.valueOrEmpty) := rfl

theorem mem_removed_binding {id index : Nat} :
    index ∈ (binding id element).removed ↔
      ∃ entry ∈ declaring element ++ moving element, entry.2 = index := by
  simp only [binding, List.mem_map, List.mem_filter, List.any_eq_true, beq_iff_eq]
  constructor
  · rintro ⟨_, ⟨_, other, hother, hindex⟩, rfl⟩
    refine ⟨other, ?_, hindex⟩
    simp only [declaring, moving, List.mem_append] at hother ⊢
    rcases hother with (hstate | hmove) | hbare
    · exact .inl hstate
    · exact .inr (.inr hmove)
    · exact .inr (.inl hbare)
  · rintro ⟨entry, hentry, rfl⟩
    refine ⟨entry, ⟨(List.mem_filter.mp (mem_directives_of_leaving hentry)).1, entry, ?_, rfl⟩, rfl⟩
    simp only [declaring, moving, List.mem_append] at hentry ⊢
    rcases hentry with hstate | hbare | hmove
    · exact .inl (.inl hstate)
    · exact .inr hbare
    · exact .inl (.inr hmove)

/-- Among bindings of different elements the one of an element is found, unless it was left out. -/
theorem find?_binding {elements : List (Nat × Element)} (hnodup : (elements.map Prod.fst).Nodup) {id : Nat}
    (hmem : (id, element) ∈ elements) (p : Binding → Bool) :
    find? ((elements.map fun entry => binding entry.1 entry.2).filter p) id =
      if p (binding id element) then some (binding id element) else none := by
  have hnode (other : Nat × Element) : (binding other.1 other.2).node = other.1 := rfl
  induction elements with
  | nil => cases hmem
  | cons first rest ih =>
    rw [List.map_cons, List.nodup_cons] at hnodup
    simp only [find?, List.map_cons, List.filter_cons] at ih ⊢
    rcases List.mem_cons.mp hmem with rfl | hrest
    · -- the later ones have other numbers
      have hlater : ((rest.map fun entry => binding entry.1 entry.2).filter p).find?
          (fun b => decide (b.node = id)) = none := by
        simp only [List.find?_eq_none, List.mem_filter, List.mem_map, decide_eq_true_eq]
        rintro b ⟨⟨later, hlater, rfl⟩, -⟩ hid
        exact hnodup.1 (List.mem_map.mpr ⟨later, hlater, hid⟩)
      split
      · rw [List.find?_cons, hnode, decide_eq_true rfl]
      · exact hlater
    · have hfirst : decide ((binding first.1 first.2).node = id) = false :=
        decide_eq_false fun heq => hnodup.1 (List.mem_map.mpr ⟨_, hrest, heq.symm⟩)
      have hih := ih hnodup.2 hrest
      split
      · rw [List.find?_cons, hfirst]
        exact hih
      · exact hih

end Directive

namespace Template

open Directive

variable {template : Template} {id : Nat} {element : Element}

/-- The elements of a template with their numbers, in document order. -/
def elements (template : Template) : List (Nat × Element) :=
  template.document.nodes.filterMap fun entry => entry.2.element?.map fun element => (entry.1, element)

/-- The indices of the attributes that the element with a number loses. -/
def removed (template : Template) (id : Nat) : List Nat :=
  ((find? (bindings template.document) id).map Binding.removed).getD []

theorem mem_elements : (id, element) ∈ template.elements ↔
    ∃ node, (id, node) ∈ template.document.nodes ∧ node.element? = some element := by
  rw [elements, List.mem_filterMap]
  constructor
  · rintro ⟨⟨other, node⟩, hnode, helement⟩
    obtain ⟨element, helement, heq⟩ := Option.map_eq_some_iff.mp helement
    cases heq
    exact ⟨node, hnode, helement⟩
  · rintro ⟨node, hnode, helement⟩
    exact ⟨(id, node), hnode, Option.map_eq_some_iff.mpr ⟨element, helement, rfl⟩⟩

theorem nodup_elements (template : Template) : (template.elements.map Prod.fst).Nodup := by
  refine template.nodup_nodes.sublist ?_
  rw [elements]
  induction template.document.nodes with
  | nil => exact .slnil
  | cons first rest ih =>
    rw [List.filterMap_cons, List.map_cons]
    split
    · exact ih.cons _
    · next entry hentry =>
      obtain ⟨element, -, rfl⟩ := Option.map_eq_some_iff.mp hentry
      exact ih.cons_cons _

theorem bindings_eq (template : Template) :
    bindings template.document =
      (template.elements.map fun entry => binding entry.1 entry.2).filter fun binding =>
        binding.states != [] || binding.moved != [] := by
  rw [bindings, elements, List.map_filterMap]
  simp only [Option.map_map]
  rfl

theorem find?_bindings (h : (id, element) ∈ template.elements) :
    find? (bindings template.document) id =
      if declaring element ++ moving element = [] then none else some (binding id element) := by
  rw [bindings_eq, find?_binding template.nodup_elements h, states_binding, moved_binding]
  cases declaring element with
  | cons entry rest => simp
  | nil => cases moving element <;> simp

/-- What an element loses are the directives that declare states or move. -/
theorem mem_removed (h : (id, element) ∈ template.elements) {index : Nat} :
    index ∈ template.removed id ↔ ∃ entry ∈ declaring element ++ moving element, entry.2 = index := by
  rw [removed, find?_bindings h]
  split
  · next hnone => simp [hnone]
  · exact mem_removed_binding

theorem mem_removed_of_mem_directives (h : (id, element) ∈ template.elements) {entry : Attribute × Nat}
    (hentry : entry ∈ directives element) :
    entry.2 ∈ template.removed id ↔ entry ∈ declaring element ++ moving element := by
  rw [mem_removed h]
  constructor
  · rintro ⟨other, hother, hindex⟩
    have hmem := (List.mem_filter.mp hentry).1
    have hmem' := (List.mem_filter.mp (mem_directives_of_leaving hother)).1
    exact eq_of_mem_zipIdx hmem' hmem hindex ▸ hother
  · intro hleaving
    exact ⟨entry, hleaving, rfl⟩

/-! ## What is registered -/

/-- The states that the elements of a template declare, in document order. -/
def states (template : Template) : List Text :=
  template.elements.flatMap fun entry => (declaring entry.2).map fun declared => stateText declared.1

theorem states_eq (template : Template) :
    (bindings template.document).flatMap Binding.states = template.states := by
  rw [bindings_eq, states]
  induction template.elements with
  | nil => rfl
  | cons first rest ih =>
    obtain ⟨id, element⟩ := first
    rw [List.map_cons, List.filter_cons, List.flatMap_cons, ← ih, ← states_binding id element]
    split
    · rfl
    · next hnone =>
      have hstates : (binding id element).states = [] := by
        by_contra hstates
        exact hnone (by simp [hstates])
      rw [hstates, List.nil_append]

/-- The registrations of a template: one of all its states, and one for each element with directives
that move. -/
theorem registration_eq (template : Template) (key : Text) :
    registration key (bindings template.document) =
      (if template.states = [] then [] else [stateLine key template.states]) ++
        (template.elements.filter fun entry => moving entry.2 != []).map fun entry =>
          bindingLine key (binding entry.1 entry.2) := by
  rw [registration, states_eq, bindings_eq, List.filter_filter]
  congr 1
  induction template.elements with
  | nil => rfl
  | cons first rest ih =>
    obtain ⟨id, element⟩ := first
    have hmoved : ((binding id element).moved != []) = (moving element != []) := by
      rw [moved_binding]
      cases moving element <;> rfl
    rw [List.map_cons, List.filter_cons, List.filter_cons, hmoved]
    cases hempty : moving element != [] with
    | false => simpa [hempty] using ih
    | true =>
      simp only [Bool.or_true, Bool.and_true, if_true, List.map_cons, ih]

end Template

end Sitewright
