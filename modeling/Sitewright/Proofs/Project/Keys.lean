import Sitewright.Proofs.Naming
import Sitewright.Proofs.Project.Refusal
import Sitewright.Proofs.Template.References

/-!
Keys of templates. In development a key is the name with its slashes written as two underscores; names have no underscore,
so the name can be read back, and the one in front tells pages from components. In production a key counts the templates
of its kind. Tables keep the order of registrations through every operation (`Arranged`), so the count has no gaps.
-/

namespace Sitewright

/-- A replacement that begins with a character of its own can be taken back. -/
theorem Text.replace_injective {c mark : Char} {tail a b : Text} (ha : mark ∉ a) (hb : mark ∉ b)
    (h : Text.replace c (mark :: tail) a = Text.replace c (mark :: tail) b) : a = b := by
  have hcons (d : Char) (t : Text) : Text.replace c (mark :: tail) (d :: t) =
      (if d = c then mark :: tail else [d]) ++ Text.replace c (mark :: tail) t := rfl
  have hne (d : Char) (t : Text) : [] ≠ Text.replace c (mark :: tail) (d :: t) := by
    rw [hcons]
    split <;> simp
  induction a generalizing b with
  | nil =>
    cases b with
    | nil => rfl
    | cons e b => exact absurd h (hne e b)
  | cons d a ih =>
    cases b with
    | nil => exact absurd h.symm (hne d a)
    | cons e b =>
      rw [List.mem_cons, not_or] at ha hb
      rw [hcons, hcons] at h
      split at h <;> split at h
      next hd he => rw [hd, he, ih ha.2 hb.2 (List.append_cancel_left h)]
      next => exact absurd (List.cons.inj h).1 hb.1
      next => exact absurd (List.cons.inj h).1.symm ha.1
      next => rw [(List.cons.inj h).1, ih ha.2 hb.2 (List.cons.inj h).2]

open Naming in
theorem TemplateId.developmentKey_injective {id other : TemplateId} (hid : id.Valid) (hother : other.Valid)
    (h : id.developmentKey = other.developmentKey) : id = other := by
  have hunderscore {value : Text} (h : ∀ c ∈ value, isPathLetter c = true) : '_' ∉ value :=
    not_mem_of_pathLetters h (by decide)
  -- a component name begins with a letter that is written as it is
  have hapart {name path : Text} (hname : isComponentName name = true) (hpath : isPagePath path = true) :
      (component name).developmentKey ≠ (page path).developmentKey := by
    obtain ⟨hletters, first, rest, rfl, hslash⟩ := of_isComponentName hname
    obtain ⟨tail, rfl, -⟩ := of_isPagePath hpath
    intro h
    simp only [developmentKey, Text.replace, List.flatMap_cons, if_neg hslash] at h
    exact hunderscore hletters ((List.cons.inj h).1 ▸ List.mem_cons_self)
  cases id with
  | component name =>
    cases other with
    | component name' =>
      have hname := (of_isComponentName hid).1
      have hname' := (of_isComponentName hother).1
      rw [Text.replace_injective (hunderscore hname) (hunderscore hname') h]
    | page path => exact absurd h (hapart hid hother)
  | page path =>
    cases other with
    | component name => exact absurd h.symm (hapart hother hid)
    | page path' =>
      obtain ⟨rest, rfl, hrest⟩ := of_isPagePath hid
      obtain ⟨rest', rfl, hrest'⟩ := of_isPagePath hother
      rw [Text.replace_injective (hunderscore hrest) (hunderscore hrest') (List.cons.inj h).2]

namespace Project

variable {project next : Project} {id other : TemplateId} {key : Text} {position : Nat}

/-! ## Keys -/

theorem productionKey_injective {position' : Nat} (h : productionKey id position = productionKey other position') :
    id.kind = other.kind ∧ position = position' := by
  cases id <;> cases other <;> obtain ⟨hletter, hposition⟩ := List.cons.inj h
  · exact ⟨rfl, Text.ofNat_injective hposition⟩
  · exact absurd hletter (by decide)
  · exact absurd hletter (by decide)
  · exact ⟨rfl, Text.ofNat_injective hposition⟩

theorem position?_injective (hkind : id.kind = other.kind) (h : project.position? id = some position)
    (hother : project.position? other = some position) : id = other := by
  cases id with
  | component name =>
    cases other with
    | component name' => rw [Table.position?_injective h hother]
    | page path => cases hkind
  | page path =>
    cases other with
    | component name => cases hkind
    | page path' => rw [Table.position?_injective h hother]

theorem isSome_position? : (project.position? id).isSome = true ↔ project.Has id := by
  cases id with
  | component name => rw [position?, Table.isSome_position?, Table.mem_keys, Has, ← contains_component, Table.contains_iff]
  | page path => rw [position?, Table.isSome_position?, Table.mem_keys, Has, ← contains_page, Table.contains_iff]

theorem isSome_key? : (project.key? id).isSome = true ↔ project.Has id := by
  rw [key?, Option.isSome_map, isSome_position?]

/-- Two templates with valid names have different keys, in either environment. -/
theorem key?_injective (hvalid : ∀ id, project.Has id → id.Valid) (h : project.key? id = some key)
    (hother : project.key? other = some key) : id = other := by
  have hid := hvalid id (isSome_key?.mp (Option.isSome_of_eq_some h))
  have hid' := hvalid other (isSome_key?.mp (Option.isSome_of_eq_some hother))
  obtain ⟨position, hposition, rfl⟩ := Option.map_eq_some_iff.mp h
  obtain ⟨position', hposition', hkey⟩ := Option.map_eq_some_iff.mp hother
  cases henvironment : project.environment with
  | development =>
    simp only [henvironment] at hkey
    exact TemplateId.developmentKey_injective hid hid' hkey.symm
  | production =>
    simp only [henvironment] at hkey
    obtain ⟨hkind, rfl⟩ := productionKey_injective hkey
    exact position?_injective hkind.symm hposition hposition'

/-! ## Order -/

variable {order : List TemplateId} {options : Options} {kind : TemplateKind} {name source : Text}

/-- The templates in the order of their registrations, after an operation that was not refused: what is registered goes to
the end, and what is removed is taken out. -/
def Operation.arrange (order : List TemplateId) : Operation → List TemplateId
  | .addComponent name _ => order ++ [.component name]
  | .addPage path _ => order ++ [.page path]
  | .removeComponent name => order.filter (· ≠ .component name)
  | .removePage path => order.filter (· ≠ .page path)
  | .reset options => options.registrations.filterMap Registration.id?
  | _ => order

/-- The registrations that survive a history, in order. -/
def survivors (project : Project) (order : List TemplateId) : List Operation → List TemplateId
  | [] => order
  | operation :: rest =>
    match project.attempt operation with
    | .ok next => next.survivors (operation.arrange order) rest
    | .error _ => project.survivors order rest

theorem namesOf_filter_ne (order : List TemplateId) : namesOf kind (order.filter (· ≠ id)) =
    if kind = id.kind then (namesOf kind order).filter (· ≠ id.name) else namesOf kind order := by
  split
  next hkind =>
    subst hkind
    rw [namesOf, namesOf, List.filter_map, List.filter_filter, List.filter_filter]
    refine congrArg _ (List.filter_congr fun other _ => ?_)
    by_cases hkind : other.kind = id.kind
    · have hiff : other = id ↔ other.name = id.name :=
        ⟨fun h => h ▸ rfl, TemplateId.eq_of_name hkind⟩
      simp [hkind, hiff]
    · simp [hkind]
  next hkind =>
    rw [namesOf, namesOf, List.filter_filter]
    refine congrArg _ (List.filter_congr fun other _ => ?_)
    by_cases hother : other.kind = kind
    · have hne : other ≠ id := fun heq => hkind (hother ▸ heq ▸ rfl)
      simp [hne]
    · simp [hother]

namespace Arranged

theorem update (h : project.Arranged order) (id : TemplateId) (hupdate : project.update id source = .ok next) :
    next.Arranged order := by
  have hknown {table : Table Text Text} {key value : Text} (hsome : table.get? key = some value) :
      (table.insert key source).keys = table.keys := by
    rw [Table.keys_insert, if_pos (Table.mem_keys.mpr ⟨value, hsome⟩)]
  obtain ⟨⟨template, htemplate⟩, rfl⟩ := update_eq_ok hupdate
  cases id with
  | component name =>
    obtain ⟨_, hsome, -⟩ := Option.map_eq_some_iff.mp htemplate
    exact ⟨(hknown hsome).trans h.components, h.pages⟩
  | page path =>
    obtain ⟨_, hsome, -⟩ := Option.map_eq_some_iff.mp htemplate
    exact ⟨h.components, (hknown hsome).trans h.pages⟩

theorem remove (h : project.Arranged order) (id : TemplateId) (hremove : project.remove id = .ok next) :
    next.Arranged (order.filter (· ≠ id)) := by
  rw [remove_eq_ok hremove]
  cases id with
  | component name =>
    constructor <;> rw [namesOf_filter_ne]
    · exact (Table.keys_erase _ name).trans (h.components ▸ rfl)
    · exact h.pages
  | page path =>
    constructor <;> rw [namesOf_filter_ne]
    · exact h.components
    · exact (Table.keys_erase _ path).trans (h.pages ▸ rfl)

theorem ofOptions (h : Project.ofOptions options = .ok project) :
    project.Arranged (options.registrations.filterMap Registration.id?) := by
  rw [ofOptions_eq_foldlM] at h
  exact (arranged_bare options).foldlM_register h

theorem templateDiagnostics (h : project.Arranged order) (id : TemplateId) :
    (project.templateDiagnostics id).2.Arranged order := by
  rw [Project.templateDiagnostics]
  split
  · exact ⟨h.components, h.pages⟩
  · split
    · exact h
    · exact ⟨h.components, h.pages⟩

theorem diagnosticsOf (h : project.Arranged order) (ids : List TemplateId) :
    (project.diagnosticsOf ids).2.Arranged order := by
  induction ids generalizing project with
  | nil => exact h
  | cons id rest ih => exact ih (h.templateDiagnostics id)

/-- Every operation keeps the tables in the order of registrations. -/
theorem attempt (h : project.Arranged order) {operation : Operation} (hattempt : project.attempt operation = .ok next) :
    next.Arranged (operation.arrange order) := by
  cases operation with
  | setEnvironment | setCss | setJs => cases hattempt; exact ⟨h.components, h.pages⟩
  | setGlobals globals => cases hattempt; exact h.setGlobals globals
  | removeGlobal | removeAsset =>
    cases hattempt
    simp only [removeGlobal, removeAsset]
    split
    · exact ⟨h.components, h.pages⟩
    · exact h
  | addComponent name source => exact h.add (.component name) hattempt
  | addPage path source => exact h.add (.page path) hattempt
  | addAsset path => exact h.addAsset hattempt
  | updateComponent name source => exact h.update (.component name) hattempt
  | updatePage path source => exact h.update (.page path) hattempt
  | removeComponent name => exact h.remove (.component name) hattempt
  | removePage path => exact h.remove (.page path) hattempt
  | reset options => exact ofOptions hattempt
  | inspectTemplate id => cases hattempt; exact h.templateDiagnostics id
  | inspect => cases hattempt; exact h.diagnosticsOf _

theorem run (h : project.Arranged order) (operations : List Operation) :
    (project.run operations).Arranged (project.survivors order operations) := by
  induction operations generalizing project order with
  | nil => exact h
  | cons operation rest ih =>
    show Arranged ((project.perform operation).run rest) _
    rw [survivors, perform]
    cases hattempt : project.attempt operation with
    | ok next => exact ih (h.attempt hattempt)
    | error error => exact ih h

end Arranged

/-- **Keys tell templates apart.** Whatever was added, updated and removed before, in either environment exactly the
registered templates have a key, and no two of them the same. In production the components, in the order of the
registrations that survive, have the keys `c0`, `c1` and so on, and the pages `p0`, `p1` and so on. -/
theorem keys_unique {start : Project} (h : ofOptions options = .ok start) {operations : List Operation}
    (hproject : start.run operations = project)
    (horder : start.survivors (options.registrations.filterMap Registration.id?) operations = order) :
    (∀ id, (project.key? id).isSome = true ↔ (project.template? id).isSome = true) ∧
      (∀ id, (project.template? id).isSome = true ↔ id ∈ order) ∧
      (∀ id other key, project.key? id = some key → project.key? other = some key → id = other) ∧
      (project.environment = .production → ∀ position name,
        ((namesOf .component order)[position]? = some name →
            project.key? (.component name) = some ('c' :: Text.ofNat position)) ∧
          ((namesOf .page order)[position]? = some name →
            project.key? (.page name) = some ('p' :: Text.ofNat position))) := by
  subst hproject horder
  have hvalid (id : TemplateId) (hhas : (start.run operations).Has id) : id.Valid := by
    obtain ⟨template, htemplate⟩ := Option.isSome_iff_exists.mp hhas
    exact ((Reachable.made h).run operations).coherent.templates id template htemplate
  have harranged := (Arranged.ofOptions h).run operations
  refine ⟨fun id => isSome_key?, fun id => harranged.has_iff, fun id other key => key?_injective hvalid,
    fun hproduction position name => ⟨fun hname => ?_, fun hname => ?_⟩⟩
  · rw [← harranged.components] at hname
    simp only [key?, position?, Table.position?_of_getElem? hname, hproduction, Option.map_some, productionKey]
  · rw [← harranged.pages] at hname
    simp only [key?, position?, Table.position?_of_getElem? hname, hproduction, Option.map_some, productionKey]

/-- The first of two components is removed and registered again. -/
def reshuffle : List Operation :=
  [.setEnvironment .production, .addComponent "head".toList [], .addComponent "2/col".toList [], .addPage "/".toList [],
    .removeComponent "head".toList, .updateComponent "2/col".toList "x".toList, .addComponent "head".toList []]

/-- The component that was second takes the first key, and the other comes after it. -/
theorem keys_unique_of_reshuffle :
    Project.empty.survivors [] reshuffle = [.component "2/col".toList, .page "/".toList, .component "head".toList] ∧
      (Project.empty.run reshuffle).key? (.component "2/col".toList) = some "c0".toList ∧
      (Project.empty.run reshuffle).key? (.page "/".toList) = some "p0".toList ∧
      (Project.empty.run reshuffle).key? (.component "head".toList) = some "c1".toList := by
  have horder : Project.empty.survivors [] reshuffle =
    [.component "2/col".toList, .page "/".toList, .component "head".toList] := by decide +kernel
  have hproduction : (Project.empty.run reshuffle).environment = .production := by decide +kernel
  obtain ⟨-, -, -, hkeys⟩ := keys_unique (show ofOptions Options.empty = .ok Project.empty from rfl) rfl horder
  exact ⟨horder, (hkeys hproduction 0 _).1 rfl, (hkeys hproduction 0 _).2 rfl, (hkeys hproduction 1 _).1 rfl⟩

end Project

end Sitewright
