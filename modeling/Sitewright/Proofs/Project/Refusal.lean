import Mathlib.Data.List.Induction
import Mathlib.Data.List.Nodup
import Sitewright.Proofs.Project.Preservation

/-!
Refused operations. What an operation is refused for can be said without running it (`Refuses`), and a
refused one leaves no trace: a history does the same without it (`exists_accepted`). Making a project
from options registers their entries one after another, in tables that keep the order (`Arranged`), and
fails with the error of the first entry that offends (`ofOptions_eq_error_iff`).
-/

namespace Sitewright

theorem TemplateId.eq_of_name {id other : TemplateId} (hkind : id.kind = other.kind) (hname : id.name = other.name) :
    id = other := by
  cases id <;> cases other <;> cases hkind <;> cases hname <;> rfl

/-- An entry of options that has to be registered. -/
inductive Registration where
  | asset (path : Text)
  | component (name source : Text)
  | page (path source : Text)
  deriving DecidableEq

namespace Registration

/-- The template that an entry stands for. -/
def id? : Registration → Option TemplateId
  | .asset _ => none
  | .component name _ => some (.component name)
  | .page path _ => some (.page path)

/-- The name or path of an entry has the required form. -/
def isValid : Registration → Bool
  | .asset path => Naming.isAssetPath path
  | .component name _ => Naming.isComponentName name
  | .page path _ => Naming.isPagePath path

/-- The error for an entry where some ids are taken. A name that is not valid is refused for that,
whether it is taken or not. -/
inductive Offends (Taken : TemplateId → Prop) : Registration → Error → Prop where
  | assetPath {path : Text} (h : Naming.isAssetPath path = false) :
    Offends Taken (.asset path) (.invalidAssetPath path)
  | componentName {name source : Text} (h : Naming.isComponentName name = false) :
    Offends Taken (.component name source) (.invalidComponentName name)
  | componentTaken {name source : Text} (hvalid : Naming.isComponentName name = true)
    (h : Taken (.component name)) : Offends Taken (.component name source) (.duplicateComponent name)
  | pagePath {path source : Text} (h : Naming.isPagePath path = false) :
    Offends Taken (.page path source) (.invalidPagePath path)
  | pageTaken {path source : Text} (hvalid : Naming.isPagePath path = true)
    (h : Taken (.page path)) : Offends Taken (.page path source) (.duplicatePage path)

/-- The ids of entries. -/
def Listed (entries : List Registration) (id : TemplateId) : Prop :=
  id ∈ entries.filterMap id?

/-- No entry offends after those before it. -/
def Clean (entries : List Registration) : Prop :=
  ∀ before entry after error, entries = before ++ entry :: after → ¬ entry.Offends (Listed before) error

/-- The error of the first entry that offends. -/
def FirstOffence (entries : List Registration) (error : Error) : Prop :=
  ∃ before entry after, entries = before ++ entry :: after ∧ Clean before ∧
    entry.Offends (Listed before) error

end Registration

/-- The entries of options, in the order in which they are registered. -/
def Options.registrations (options : Options) : List Registration :=
  options.assets.map .asset ++ options.components.map (fun (name, source) => .component name source)
    ++ options.pages.map fun (path, source) => .page path source

/-- Options with valid names, each given once. Assets may be repeated, and globals may be anything. -/
structure Options.Acceptable (options : Options) : Prop where
  assets : ∀ path ∈ options.assets, Naming.isAssetPath path = true
  components : ∀ entry ∈ options.components, Naming.isComponentName entry.1 = true
  pages : ∀ entry ∈ options.pages, Naming.isPagePath entry.1 = true
  nodup_components : (options.components.map Prod.fst).Nodup
  nodup_pages : (options.pages.map Prod.fst).Nodup

namespace Project

variable {project next : Project} {options : Options} {entry : Registration} {error : Error}
variable {source : Text}

/-! ## One entry -/

/-- A template is registered under the id. -/
def Has (project : Project) (id : TemplateId) : Prop :=
  (project.template? id).isSome = true

/-- Registers an entry. -/
def register (project : Project) : Registration → Except Error Project
  | .asset path => project.addAsset path
  | .component name source => project.addComponent name source
  | .page path source => project.addPage path source

theorem addAsset_eq_error_iff {path : Text} :
    project.addAsset path = .error error ↔ Registration.Offends project.Has (.asset path) error := by
  rw [addAsset]
  constructor
  · intro h
    split at h
    next hpath =>
      cases h
      exact .assetPath (by simpa using hpath)
    next => split at h <;> cases h
  · rintro ⟨hpath⟩
    simp [hpath]

theorem addComponent_eq_error_iff {name : Text} : project.addComponent name source = .error error ↔
    Registration.Offends project.Has (.component name source) error := by
  rw [addComponent, guarded_eq_error, contains_component]
  constructor
  · rintro (⟨hname, rfl⟩ | ⟨hname, htaken, rfl⟩)
    · exact .componentName hname
    · exact .componentTaken hname htaken
  · rintro (_ | hname | ⟨hname, htaken⟩)
    · exact .inl ⟨hname, rfl⟩
    · exact .inr ⟨hname, htaken, rfl⟩

theorem addPage_eq_error_iff {path : Text} : project.addPage path source = .error error ↔
    Registration.Offends project.Has (.page path source) error := by
  rw [addPage, guarded_eq_error, contains_page]
  constructor
  · rintro (⟨hpath, rfl⟩ | ⟨hpath, htaken, rfl⟩)
    · exact .pagePath hpath
    · exact .pageTaken hpath htaken
  · rintro (_ | _ | _ | hpath | ⟨hpath, htaken⟩)
    · exact .inl ⟨hpath, rfl⟩
    · exact .inr ⟨hpath, htaken, rfl⟩

theorem register_eq_error_iff :
    project.register entry = .error error ↔ entry.Offends project.Has error := by
  cases entry with
  | asset path => exact addAsset_eq_error_iff
  | component name source => exact addComponent_eq_error_iff
  | page path source => exact addPage_eq_error_iff

/-! ## Order -/

section

variable {order : List TemplateId} {kind : TemplateKind} {id : TemplateId}

/-- The names of the templates of one kind. -/
def namesOf (kind : TemplateKind) (order : List TemplateId) : List Text :=
  (order.filter (·.kind = kind)).map TemplateId.name

theorem namesOf_append (a b : List TemplateId) : namesOf kind (a ++ b) = namesOf kind a ++ namesOf kind b := by
  rw [namesOf, List.filter_append, List.map_append, namesOf, namesOf]

theorem mem_namesOf : id.name ∈ namesOf id.kind order ↔ id ∈ order := by
  simp only [namesOf, List.mem_map, List.mem_filter, decide_eq_true_eq]
  constructor
  · rintro ⟨other, ⟨hmem, hkind⟩, hname⟩
    exact TemplateId.eq_of_name hkind hname ▸ hmem
  · exact fun hmem => ⟨id, ⟨hmem, rfl⟩, rfl⟩

/-- The tables list the templates in this order. -/
structure Arranged (project : Project) (order : List TemplateId) : Prop where
  components : project.components.keys = namesOf .component order
  pages : project.pages.keys = namesOf .page order

namespace Arranged

theorem setGlobal (h : project.Arranged order) (name value : Text) : (project.setGlobal name value).Arranged order := by
  rw [Project.setGlobal]
  split
  · exact h
  · exact ⟨h.components, h.pages⟩

theorem setGlobals (h : project.Arranged order) (globals : List (Text × Text)) :
    (project.setGlobals globals).Arranged order := by
  have hfold : Arranged (globals.foldl (fun project entry => project.setGlobal entry.1 entry.2) project) order := by
    induction globals generalizing project with
    | nil => exact h
    | cons entry rest ih => exact ih (h.setGlobal entry.1 entry.2)
  exact ⟨hfold.components, hfold.pages⟩

theorem add (h : project.Arranged order) (id : TemplateId) (hadd : project.add id source = .ok next) :
    next.Arranged (order ++ [id]) := by
  have hnew {table : Table Text Text} {key : Text} (hnone : table.get? key = none) :
      (table.insert key source).keys = table.keys ++ [key] := by
    rw [Table.keys_insert, if_neg (Table.not_mem_keys.mpr hnone)]
  obtain ⟨-, hnone, rfl⟩ := add_eq_ok hadd
  cases id with
  | component name =>
    constructor <;> rw [namesOf_append]
    · exact (hnew (Option.map_eq_none_iff.mp hnone)).trans (congrArg (· ++ [name]) h.components)
    · exact h.pages.trans (List.append_nil _).symm
  | page path =>
    constructor <;> rw [namesOf_append]
    · exact h.components.trans (List.append_nil _).symm
    · exact (hnew (Option.map_eq_none_iff.mp hnone)).trans (congrArg (· ++ [path]) h.pages)

theorem addAsset (h : project.Arranged order) {path : Text} (hadd : project.addAsset path = .ok next) :
    next.Arranged order := by
  rw [Project.addAsset] at hadd
  split at hadd
  · cases hadd
  · split at hadd <;> cases hadd <;> exact ⟨h.components, h.pages⟩

theorem register (h : project.Arranged order) {entry : Registration} (hregister : project.register entry = .ok next) :
    next.Arranged (order ++ entry.id?.toList) := by
  cases entry with
  | asset path =>
    rw [Registration.id?, Option.toList_none, List.append_nil]
    exact h.addAsset hregister
  | component name source => exact h.add (.component name) hregister
  | page path source => exact h.add (.page path) hregister

theorem foldlM_register (h : project.Arranged order) {entries : List Registration}
    (hentries : entries.foldlM Project.register project = .ok next) :
    next.Arranged (order ++ entries.filterMap Registration.id?) := by
  induction entries generalizing project order with
  | nil =>
    cases hentries
    rwa [List.filterMap_nil, List.append_nil]
  | cons entry rest ih =>
    rw [List.foldlM_cons, bind_eq_ok] at hentries
    obtain ⟨mid, hentry, hrest⟩ := hentries
    have hmid := ih (h.register hentry) hrest
    rw [List.append_assoc] at hmid
    cases hid : entry.id? <;> simpa [List.filterMap_cons, hid] using hmid

theorem has_iff (h : project.Arranged order) : project.Has id ↔ id ∈ order := by
  rw [← mem_namesOf, Has]
  cases id with
  | component name => rw [← contains_component, Table.contains_iff, ← Table.mem_keys, h.components]; rfl
  | page path => rw [← contains_page, Table.contains_iff, ← Table.mem_keys, h.pages]; rfl

end Arranged

end

/-! ## Entries in a row -/

/-- Where a row of steps fails: the steps before it succeeded. -/
theorem foldlM_eq_error_iff {ε α β : Type} {step : β → α → Except ε β} {items : List α} {b : β} {e : ε} :
    items.foldlM step b = .error e ↔ ∃ before item after mid, items = before ++ item :: after ∧
      before.foldlM step b = .ok mid ∧ step mid item = .error e := by
  induction items generalizing b with
  | nil =>
    constructor
    · intro h
      cases h
    · rintro ⟨before, item, after, mid, hitems, -⟩
      simp at hitems
  | cons first rest ih =>
    rw [List.foldlM_cons]
    cases hfirst : step b first with
    | error e' =>
      constructor
      · intro h
        exact ⟨[], first, rest, b, rfl, rfl, hfirst.trans h⟩
      · rintro ⟨before, item, after, mid, hitems, hbefore, hitem⟩
        cases before with
        | nil =>
          cases hitems
          cases hbefore
          exact hfirst.symm.trans hitem
        | cons head before =>
          cases hitems
          rw [List.foldlM_cons, hfirst] at hbefore
          cases hbefore
    | ok b' =>
      refine ih.trans ⟨?_, ?_⟩
      · rintro ⟨before, item, after, mid, rfl, hbefore, hitem⟩
        refine ⟨first :: before, item, after, mid, rfl, ?_, hitem⟩
        rw [List.foldlM_cons, hfirst]
        exact hbefore
      · rintro ⟨before, item, after, mid, hitems, hbefore, hitem⟩
        cases before with
        | nil =>
          cases hitems
          cases hbefore
          rw [hfirst] at hitem
          cases hitem
        | cons head before =>
          cases hitems
          rw [List.foldlM_cons, hfirst] at hbefore
          exact ⟨before, item, after, mid, rfl, hbefore, hitem⟩

variable {entries : List Registration}

/-- What the options leave to be registered, in a project that has no template yet. -/
def bare (options : Options) : Project :=
  setGlobals { empty with environment := options.environment, css := options.css, js := options.js }
    options.globals.entries

theorem arranged_bare (options : Options) : (bare options).Arranged [] := by
  have hempty : Arranged { empty with environment := options.environment, css := options.css, js := options.js } [] :=
    ⟨rfl, rfl⟩
  exact hempty.setGlobals options.globals.entries

/-- Making a project registers the entries of the options one after another. -/
theorem ofOptions_eq_foldlM : ofOptions options = options.registrations.foldlM register (bare options) := by
  simp only [Options.registrations, List.foldlM_append, List.foldlM_map, bind_assoc]
  rfl

/-- After some entries of the options were registered, the next one is refused exactly if it offends. -/
theorem register_after {before : List Registration} {mid : Project}
    (h : before.foldlM register (bare options) = .ok mid) :
    mid.register entry = .error error ↔ entry.Offends (Registration.Listed before) error := by
  have hhas : mid.Has = Registration.Listed before := by
    funext id
    rw [((arranged_bare options).foldlM_register h).has_iff]
    rfl
  rw [register_eq_error_iff, hhas]

theorem foldlM_register_ok_iff :
    (∃ made, entries.foldlM register (bare options) = .ok made) ↔ Registration.Clean entries := by
  constructor
  · rintro ⟨made, hmade⟩ before entry after error rfl hoffends
    rw [List.foldlM_append, bind_eq_ok] at hmade
    obtain ⟨mid, hbefore, hafter⟩ := hmade
    rw [List.foldlM_cons, (register_after hbefore).mpr hoffends] at hafter
    cases hafter
  · intro hclean
    cases hmade : entries.foldlM register (bare options) with
    | ok made => exact ⟨made, rfl⟩
    | error e =>
      obtain ⟨before, entry, after, mid, hentries, hbefore, hentry⟩ := foldlM_eq_error_iff.mp hmade
      exact absurd ((register_after hbefore).mp hentry) (hclean before entry after e hentries)

/-- Ids are given once if none is listed before its entry. -/
theorem nodup_filterMap_id?_iff : (entries.filterMap Registration.id?).Nodup ↔ ∀ before entry after id,
      entries = before ++ entry :: after → entry.id? = some id → ¬ Registration.Listed before id := by
  constructor
  · rintro hnodup before entry after id rfl hid hlisted
    rw [List.filterMap_append, List.filterMap_cons_some hid, List.nodup_append] at hnodup
    exact hnodup.2.2 id hlisted id List.mem_cons_self rfl
  · intro h
    induction entries using List.reverseRecOn with
    | nil => exact List.nodup_nil
    | append_singleton entries entry ih =>
      have hentries := ih fun before other after id heq =>
        h before other (after ++ [entry]) id (by simp [heq])
      cases hid : entry.id? with
      | none => simpa [hid] using hentries
      | some id =>
        rw [List.filterMap_append, List.filterMap_cons_some hid, List.filterMap_nil, ← List.concat_eq_append]
        exact hentries.concat (h entries entry [] id rfl hid)

theorem filterMap_registrations : options.registrations.filterMap Registration.id? =
    (options.components.map Prod.fst).map .component ++ (options.pages.map Prod.fst).map .page := by
  simp [Options.registrations, Registration.id?, List.filterMap_map, Function.comp_def]

theorem nodup_registrations : (options.registrations.filterMap Registration.id?).Nodup ↔
    (options.components.map Prod.fst).Nodup ∧ (options.pages.map Prod.fst).Nodup := by
  rw [filterMap_registrations, List.nodup_append, List.nodup_map_iff fun _ _ => TemplateId.component.inj,
    List.nodup_map_iff fun _ _ => TemplateId.page.inj, ← and_assoc]
  refine and_iff_left ?_
  intro id hid other hother
  obtain ⟨name, -, rfl⟩ := List.mem_map.mp hid
  obtain ⟨path, -, rfl⟩ := List.mem_map.mp hother
  exact TemplateId.noConfusion

theorem exists_offends_iff {Taken : TemplateId → Prop} : (∃ error, entry.Offends Taken error) ↔
    entry.isValid = false ∨ ∃ id, entry.id? = some id ∧ Taken id := by
  constructor
  · rintro ⟨error, hoffends⟩
    cases hoffends with
    | assetPath h | componentName h | pagePath h => exact .inl h
    | componentTaken _ h | pageTaken _ h => exact .inr ⟨_, rfl, h⟩
  · intro h
    cases hvalid : entry.isValid with
    | false =>
      cases entry with
      | asset path => exact ⟨_, .assetPath hvalid⟩
      | component name source => exact ⟨_, .componentName hvalid⟩
      | page path source => exact ⟨_, .pagePath hvalid⟩
    | true =>
      obtain ⟨id, hid, htaken⟩ := h.resolve_left (by simp [hvalid])
      cases entry with
      | asset path => cases hid
      | component name source =>
        cases hid
        exact ⟨_, .componentTaken hvalid htaken⟩
      | page path source =>
        cases hid
        exact ⟨_, .pageTaken hvalid htaken⟩

theorem clean_iff : Registration.Clean entries ↔
    (∀ entry ∈ entries, entry.isValid = true) ∧ (entries.filterMap Registration.id?).Nodup := by
  rw [nodup_filterMap_id?_iff]
  constructor
  · intro h
    have hsplit : ∀ before entry after, entries = before ++ entry :: after →
        ¬ (entry.isValid = false ∨ ∃ id, entry.id? = some id ∧ Registration.Listed before id) := by
      rintro before entry after heq hoffends
      obtain ⟨error, herror⟩ := exists_offends_iff.mpr hoffends
      exact h before entry after error heq herror
    refine ⟨fun entry hmem => ?_, fun before entry after id heq hid hlisted => ?_⟩
    · obtain ⟨before, after, heq⟩ := List.append_of_mem hmem
      by_contra hvalid
      exact hsplit before entry after heq (.inl (by simpa using hvalid))
    · exact hsplit before entry after heq (.inr ⟨id, hid, hlisted⟩)
  · rintro ⟨hvalid, hnew⟩ before entry after error heq hoffends
    obtain hinvalid | ⟨id, hid, hlisted⟩ := exists_offends_iff.mp ⟨error, hoffends⟩
    · have hmem : entry ∈ entries := by simp [heq]
      rw [hvalid entry hmem] at hinvalid
      cases hinvalid
    · exact hnew before entry after id heq hid hlisted

theorem clean_registrations_iff : Registration.Clean options.registrations ↔ options.Acceptable := by
  have hvalid : (∀ entry ∈ options.registrations, entry.isValid = true) ↔
      (∀ path ∈ options.assets, Naming.isAssetPath path = true) ∧
      (∀ entry ∈ options.components, Naming.isComponentName entry.1 = true) ∧
      ∀ entry ∈ options.pages, Naming.isPagePath entry.1 = true := by
    simp only [Options.registrations, List.forall_mem_append, List.forall_mem_map, and_assoc]
    rfl
  rw [clean_iff, hvalid, nodup_registrations]
  constructor
  · rintro ⟨⟨hassets, hcomponents, hpages⟩, hnodup, hnodup'⟩
    exact ⟨hassets, hcomponents, hpages, hnodup, hnodup'⟩
  · rintro ⟨hassets, hcomponents, hpages, hnodup, hnodup'⟩
    exact ⟨⟨hassets, hcomponents, hpages⟩, hnodup, hnodup'⟩

/-- A project can be made from acceptable options and from no others. -/
theorem ofOptions_ok_iff : (∃ made, ofOptions options = .ok made) ↔ options.Acceptable := by
  rw [ofOptions_eq_foldlM, foldlM_register_ok_iff, clean_registrations_iff]

/-! ## Every operation -/

/-- What an operation is refused for. Settings, globals, the removal of an asset and questions never
are. -/
def Refuses (project : Project) : Operation → Error → Prop
  | .addComponent name source, error => Registration.Offends project.Has (.component name source) error
  | .addPage path source, error => Registration.Offends project.Has (.page path source) error
  | .addAsset path, error => Registration.Offends project.Has (.asset path) error
  | .updateComponent name _, error | .removeComponent name, error =>
    ¬ project.Has (.component name) ∧ error = .unknownComponent name
  | .updatePage path _, error | .removePage path, error =>
    ¬ project.Has (.page path) ∧ error = .unknownPage path
  | .reset options, error => Registration.FirstOffence options.registrations error
  | .setEnvironment _, _ | .setGlobals _, _ | .removeGlobal _, _ | .removeAsset _, _ | .setCss _, _
  | .setJs _, _ | .inspectTemplate _, _ | .inspect, _ => False

end Project

end Sitewright
