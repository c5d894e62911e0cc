import Mathlib.Data.List.Flatten
import Sitewright.Project.Script
import Sitewright.Proofs.Project.History
import Sitewright.Proofs.Project.Keys
import Sitewright.Proofs.Render.Origin
import Sitewright.Proofs.Render.Termination
import Sitewright.Proofs.Template.References

/-!
Markup and script in production. The key of a template tells its kind and its place among those of its
kind, so no two templates register one name (`nodup_references`), and every name that a rendering writes
is registered by one line.
-/

namespace Sitewright

open Markup

namespace Project

open Directive

variable {project : Project}
variable {element : Element} {template : Template}

/-! ## Keys -/

theorem exists_position?_of_mem (h : template ∈ project.templates) :
    ∃ position, project.position? template.id = some position := by
  rcases List.mem_append.mp h with h | h
  all_goals
    obtain ⟨⟨name, source⟩, hentry, rfl⟩ := List.mem_map.mp h
    have hkey := Table.mem_keys.mpr ⟨source, Table.mem_entries.mp hentry⟩
    exact Option.isSome_iff_exists.mp (Table.isSome_position?.mpr hkey)

theorem nodup_templates (project : Project) : (project.templates.map Template.id).Nodup := by
  rw [templates, List.map_append, List.map_map, List.map_map, List.nodup_append]
  refine ⟨?_, ?_, ?_⟩
  · have h := project.components.nodup.map (f := TemplateId.component) fun _ _ h => TemplateId.component.inj h
    rwa [List.map_map] at h
  · have h := project.pages.nodup.map (f := TemplateId.page) fun _ _ h => TemplateId.page.inj h
    rwa [List.map_map] at h
  · intro a ha b hb heq
    obtain ⟨component, -, rfl⟩ := List.mem_map.mp ha
    obtain ⟨page, -, rfl⟩ := List.mem_map.mp hb
    cases heq

theorem exists_key_eq (hproduction : project.environment = .production) (h : template ∈ project.templates) :
    ∃ position, project.position? template.id = some position ∧
      project.key template.id = productionKey template.id position := by
  obtain ⟨position, hposition⟩ := exists_position?_of_mem h
  refine ⟨position, hposition, ?_⟩
  simp only [key, key?, hposition, Option.map_some, Option.getD_some, hproduction]

theorem key_cons (hproduction : project.environment = .production) (h : template ∈ project.templates) :
    ∃ letter position, project.key template.id = letter :: Text.ofNat position ∧
      (letter = 'c' ∨ letter = 'p') := by
  obtain ⟨position, -, hkey⟩ := exists_key_eq hproduction h
  rw [hkey]
  cases template.id with
  | component name => exact ⟨'c', position, rfl, .inl rfl⟩
  | page path => exact ⟨'p', position, rfl, .inr rfl⟩

theorem isBare_key (hproduction : project.environment = .production)
    (h : template ∈ project.templates) : Text.IsBare (project.key template.id) := by
  obtain ⟨letter, position, hkey, hletter⟩ := key_cons hproduction h
  rw [hkey]
  intro c hc
  rcases List.mem_cons.mp hc with rfl | hc
  · rcases hletter with rfl | rfl <;> decide
  · exact Text.isBare_ofNat position c hc

theorem not_mem_key (hproduction : project.environment = .production)
    (h : template ∈ project.templates) : 'b' ∉ project.key template.id := by
  obtain ⟨letter, position, hkey, hletter⟩ := key_cons hproduction h
  rw [hkey, List.mem_cons, not_or]
  refine ⟨by rcases hletter with rfl | rfl <;> decide, fun hmem => ?_⟩
  exact absurd (Text.isDigit_of_mem_ofNat hmem) (by decide)

/-- The key of a template tells its kind and its place, and these tell the template. -/
theorem key_injective (hproduction : project.environment = .production) {other : Template}
    (h : template ∈ project.templates) (hother : other ∈ project.templates)
    (hkey : project.key template.id = project.key other.id) : template.id = other.id := by
  obtain ⟨position, hposition, hkeyEq⟩ := exists_key_eq hproduction h
  obtain ⟨position', hposition', hkeyEq'⟩ := exists_key_eq hproduction hother
  rw [hkeyEq, hkeyEq'] at hkey
  obtain ⟨hkind, rfl⟩ := productionKey_injective hkey
  exact position?_injective hkind hposition hposition'

/-! ## One line for each reference -/

/-- What the registrations of a project are for, one after another. -/
def references (project : Project) : List Reference :=
  project.templates.flatMap fun template => template.references (project.key template.id)

theorem key_eq_of_mem_references (hproduction : project.environment = .production)
    {other : Template} (h : template ∈ project.templates) {reference : Reference}
    (hmem : reference ∈ template.references (project.key template.id))
    (hmem' : reference ∈ other.references (project.key other.id)) :
    project.key template.id = project.key other.id := by
  rcases Template.mem_references hmem with rfl | ⟨id, rfl⟩
  · rcases Template.mem_references hmem' with heq | ⟨id, heq⟩
    · exact Reference.data.inj heq
    · cases heq
  · rcases Template.mem_references hmem' with heq | ⟨id', heq⟩
    · cases heq
    · exact (bindName_injective (not_mem_key hproduction h) (Reference.bind.inj heq)).1

/-- No name is registered twice. -/
theorem nodup_references (hproduction : project.environment = .production) : project.references.Nodup := by
  rw [references, List.nodup_flatMap]
  refine ⟨fun template h => Template.nodup_references (not_mem_key hproduction h), ?_⟩
  have hpairwise := List.pairwise_map.mp project.nodup_templates
  refine hpairwise.imp_of_mem ?_
  intro template other h hother hne reference hmem hmem'
  exact hne (key_injective hproduction h hother (key_eq_of_mem_references hproduction h hmem hmem'))

theorem countP_registrations (hproduction : project.environment = .production) (reference : Reference) :
    project.registrations.countP reference.registeredBy = project.references.count reference := by
  unfold registrations references
  rw [List.countP_flatMap, List.count_flatMap]
  refine congrArg List.sum (List.map_congr_left fun template h => ?_)
  rw [Function.comp_apply, Function.comp_apply]
  exact Template.countP_registration (isBare_key hproduction h) reference

theorem countP_registrations_of_mem (hproduction : project.environment = .production)
    {reference : Reference} (h : template ∈ project.templates)
    (hmem : reference ∈ template.references (project.key template.id)) :
    project.registrations.countP reference.registeredBy = 1 := by
  rw [countP_registrations hproduction]
  exact List.count_eq_one_of_mem (nodup_references hproduction) (List.mem_flatMap.mpr ⟨template, h, hmem⟩)

/-- What production makes of the directives of an element. -/
structure Accounts (project : Project) (template : Template) (id : Nat) (element : Element) : Prop where
  /-- Each directive is kept, or it declares a state, or it moves, and it does one of these once. -/
  perm : (keeping element ++ (declaring element ++ moving element)).Perm (directives element)
  /-- Those that are kept are those that the element does not lose. -/
  mem_keeping : ∀ entry ∈ directives element, entry ∈ keeping element ↔ entry.2 ∉ template.removed id
  /-- The element loses nothing but directives. -/
  mem_removed : ∀ index, index ∈ template.removed id ↔
    ∃ entry ∈ declaring element ++ moving element, entry.2 = index
  /-- Those that declare states are of the family `x-data`, -/
  family : ∀ entry ∈ declaring element, family entry.1.name = some "x-data".toList
  /-- and their template registers all states. -/
  states : declaring element ≠ [] →
    stateLine (project.key template.id) template.states ∈ project.registrations
  /-- Those that move are registered for the element. -/
  entries : moving element ≠ [] →
    entriesLine (bindName (project.key template.id) id)
      ((moving element).map fun entry => (entry.1.name, entry.1.valueOrEmpty)) ∈ project.registrations

theorem accounts (htemplate : template ∈ project.templates) {id : Nat}
    (h : (id, element) ∈ template.elements) : project.Accounts template id element where
  perm := perm_directives element
  mem_keeping := by
    intro entry hentry
    rw [Template.mem_removed_of_mem_directives h hentry, keeping, List.mem_filter, decide_eq_true_eq]
    exact and_iff_right hentry
  mem_removed := fun _ => Template.mem_removed h
  family := fun _ hentry => family_of_mem_declaring hentry
  states := by
    intro hdeclaring
    refine List.mem_flatMap.mpr ⟨template, htemplate, ?_⟩
    rw [Template.registration_eq, if_neg (Template.states_ne_nil h hdeclaring)]
    exact List.mem_append_left _ (List.mem_singleton.mpr rfl)
  entries := by
    intro hmoving
    refine List.mem_flatMap.mpr ⟨template, htemplate, ?_⟩
    rw [Template.registration_eq]
    have hmem : (id, element) ∈ template.elements.filter fun entry => moving entry.2 != [] :=
      List.mem_filter.mpr ⟨h, bne_iff_ne.mpr hmoving⟩
    exact List.mem_append_right _ (List.mem_map.mpr ⟨_, hmem, bindingLine_eq _ _ _⟩)

/-- Whether an element of a name is written, and not what it stands for. -/
def isWritten (name : Text) : Bool :=
  !(["include", "outlet", "inject", "style"].map String.toList).contains name

/-- What the visit of an element writes first: its opening tag, with its attributes and references. -/
structure Opens (project : Project) (call : Call) (template : Template) (element : Element)
    (attributes : List Output) (references : List Reference) : Prop where
  registered : template ∈ project.templates
  mem_elements : (call.place.id, element) ∈ template.elements
  tasks : ∀ mark, ∃ rest, call.tasks project.site mark =
    .write (.ofText ('<' :: element.name) ++ .concat attributes
      ++ .ofText (references.flatMap Reference.written ++ ['>'])) :: rest
  /-- The directives that are kept are written, and no others. -/
  directives : ∀ attr index, (attr, index) ∈ directives element → attributes[index]? =
    some (if (attr, index) ∈ keeping element then Output.ofText (written attr) else Output.empty)
  /-- Every name that is referred to is registered by one line. -/
  references : ∀ reference ∈ references, project.registrations.countP reference.registeredBy = 1

theorem tasks_of_isWritten (site : Site) {call : Call}
    (helement : call.place.node.element? = some element) (h : isWritten element.name = true) (mark : Nat) :
    ∃ rest, call.tasks site mark =
      .write (call.layer.bare.openingTag site call.place.id call.place.node element) :: rest := by
  rw [isWritten, Bool.not_eq_true', List.contains_eq_mem, decide_eq_false_iff_not] at h
  simp only [List.map_cons, List.map_nil, List.mem_cons, List.not_mem_nil, or_false, not_or] at h
  obtain ⟨hinclude, houtlet, hinject, hstyle⟩ := h
  have hneither :
      ¬(decide (element.name = "inject".toList) || decide (element.name = "style".toList)) = true := by
    rw [Bool.or_eq_true, decide_eq_true_eq, decide_eq_true_eq, not_or]
    exact ⟨hinject, hstyle⟩
  have hkind : call.place.node.kind = .element element := by
    rw [Node.element?] at helement
    split at helement
    · next hkind => rw [hkind, Option.some.inj helement]
    · cases helement
  simp only [Call.tasks, hkind]
  rw [Call.elementTasks, if_neg hinclude, if_neg houtlet, if_neg hneither]
  exact ⟨_, rfl⟩

theorem opens (hproduction : project.environment = .production) {page : Template}
    (hpage : page ∈ project.templates) {machine : Machine} {call : Call}
    (hruns : Machine.Runs project.site (.start page) machine) (hcall : .visit call ∈ machine.tasks)
    (helement : call.place.node.element? = some element) (hwritten : isWritten element.name = true) :
    ∃ template attributes references, project.Opens call template element attributes references := by
  have horigin := originates_of_runs hpage hruns hcall
  obtain ⟨template, htemplate, hcompiled⟩ := horigin.layered.draws
  have hnode : (call.place.id, call.place.node) ∈ template.document.nodes := by
    have hmem := horigin.within.subset List.mem_cons_self
    rwa [hcompiled] at hmem
  have hmem : (call.place.id, element) ∈ template.elements := Template.mem_elements.mpr ⟨_, hnode, helement⟩
  have htasks := tasks_of_isWritten project.site helement hwritten
  rw [Frame.openingTag_eq hproduction hcompiled hmem] at htasks
  refine ⟨template, _, _, htemplate, hmem, htasks, ?_, ?_⟩
  · intro attr index hdirective
    obtain ⟨hentry, hlooks⟩ := List.mem_filter.mp hdirective
    have hget := List.mem_zipIdx_iff_getElem?.mp hentry
    have hkeeping := (accounts htemplate hmem).mem_keeping (attr, index) hdirective
    rw [List.getElem?_map, List.getElem?_zipIdx, hget, Option.map_some, Option.map_some, Nat.zero_add,
      Frame.renderAttribute_of_directive hlooks]
    by_cases hkept : (attr, index) ∈ keeping element
    · rw [if_pos hkept, if_neg (hkeeping.mp hkept)]
    · rw [if_neg hkept, if_pos (not_not.mp fun hnot => hkept (hkeeping.mpr hnot))]
  · intro reference hreference
    exact countP_registrations_of_mem hproduction htemplate (Template.references_subset hmem hreference)

end Project

end Sitewright
