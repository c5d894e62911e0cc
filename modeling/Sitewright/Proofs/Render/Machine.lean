import Mathlib.Data.List.Perm.Subperm
import Mathlib.Logic.Relation
import Sitewright.Proofs.Render.Comparison

/-!
Rendering as a machine with a list of tasks. It visits nodes one at a time, writes to the end of what it
has, and takes markup back when a condition turns out false. Content for outlets is not rendered ahead:
a slot lists the places it was written at, and an outlet visits them in the layer of the includer.

A visit may ask for the nodes below it, for the nodes of a component in a new layer, or for places in the
layer of the includer. Nothing here counts levels. That visits nest no deeper than some finite depth is
`wellFounded_below`: a new layer leaves one component less to open, and going back to the includer
shortens the list of layers to what was there before the include.
-/

namespace Sitewright

open Markup
open Relation (ReflTransGen)

/-! ## Places and layers -/

/-- A node of a template, with the element it stands in and the nodes below it. -/
structure Place where
  parent : Option Text
  id : Nat
  node : Node
  below : Forest (Nat × Node)

/-- Every node of a forest with its place. -/
def places (parent : Option Text) : Forest (Nat × Node) → Forest (Node × Place)
  | .nil => .nil
  | .cons (id, node) below after =>
    .cons (node, ⟨parent, id, node, below⟩) (places node.name? below) (places parent after)

/-- The places of the trees of a forest. -/
def topPlaces (parent : Option Text) (forest : Forest (Nat × Node)) : List Place :=
  (places parent forest).roots.map Prod.snd

/-- The places of all nodes below a place. -/
def Place.inner (place : Place) : Forest (Node × Place) :=
  places place.node.name? place.below

/-- The places directly below a place. -/
def Place.children (place : Place) : List Place :=
  topPlaces place.node.name? place.below

/-- A template in the hands of its includer, whose places its slots list. -/
structure Layer where
  compiled : Compiled
  properties : Table Text Text
  slots : Table Text (List Place)
  chain : List Text

/-- The layer as a frame without content. -/
def Layer.bare (layer : Layer) : Frame :=
  ⟨layer.compiled, layer.properties, ∅, layer.chain⟩

/-- The layer of a template that nobody includes. -/
def Layer.outermost (template : Template) : Layer :=
  ⟨template.compile, ∅, ∅, (Frame.outermost template).chain⟩

/-! ## Tasks -/

/-- A place to visit, in its layer and with the layers of its includers, the nearest first. -/
structure Call where
  layer : Layer
  outer : List Layer
  place : Place

/-- What there is to do. -/
inductive Task where
  | visit (call : Call)
  | write (output : Output)
  /-- Takes back the markup after `mark` if a condition is false. -/
  | check (layer : Layer) (node : Node) (condition : Attribute) (mark : Nat)

/-- Visits of several places in one layer. -/
def visits (layer : Layer) (outer : List Layer) (items : List Place) : List Task :=
  items.map fun place => .visit ⟨layer, outer, place⟩

namespace Call

variable (site : Site) (call : Call)

/-- The content of an include, place by place. -/
def content (component : Compiled) (name : Text) (element : Element) : Content Place :=
  call.layer.bare.collect site component name call.place.node element call.place.inner

/-- The layer of the component that an include opens. -/
def entered (component : Compiled) (name : Text) (element : Element) : Layer :=
  ⟨component, (call.layer.bare.collectProperties site call.place.node element).1,
    (call.content site component name element).slots, call.layer.chain ++ [name]⟩

/-- What there is to do at an include. -/
def includeTasks (element : Element) : List Task :=
  match call.layer.bare.opened? site element with
  | none =>
    [.write (call.layer.bare.renderInclude site (fun _ => .empty) call.place.node element .nil)]
  | some (name, component) =>
    .write ⟨[], (call.layer.bare.collectProperties site call.place.node element).2
        ++ (call.content site component name element).reports⟩
      :: visits (call.entered site component name element) (call.layer :: call.outer)
        (topPlaces none component.forest)

/-- What there is to do at an outlet: the places of its slot, in the layer of the includer, or else what
stands below it. -/
def outletTasks (element : Element) : List Task :=
  match call.layer.slots.get? (Template.outletName (element.attribute? "name".toList)), call.outer with
  | some items, includer :: rest => visits includer rest items
  | _, _ => visits call.layer call.outer call.place.children

/-- What there is to do at an element before its `if`. -/
def elementTasks (element : Element) : List Task :=
  if element.name = "include".toList then call.includeTasks site element
  else if element.name = "outlet".toList then call.outletTasks element
  else if element.name = "inject".toList || element.name = "style".toList then []
  else
    .write (call.layer.bare.openingTag site call.place.id call.place.node element)
      :: if isVoid element.name then []
        else visits call.layer call.outer call.place.children ++ [.write (closingTag element)]

/-- What there is to do at a node, when `mark` characters are written. -/
def tasks (mark : Nat) : List Task :=
  match call.place.node.kind with
  | .element element =>
    call.elementTasks site element ++
      ((element.attribute? "if".toList).map fun condition =>
        Task.check call.layer call.place.node condition mark).toList
  | _ =>
    [.write (call.layer.bare.renderNode site (fun _ => .empty) call.place.parent call.place.id
      call.place.node .nil)]

/-- One call is made on a visit of another. -/
def Below (inner outer : Call) : Prop :=
  ∃ mark, Task.visit inner ∈ outer.tasks site mark

end Call

/-! ## The machine -/

/-- Reports problems: one that is known already is not listed again. -/
def note (known new : List Record) : List Record :=
  new.foldl (fun known record => if known.contains record then known else known ++ [record]) known

/-- What there is to do, and the markup and the problems so far. -/
structure Machine where
  tasks : List Task
  html : Text
  diagnostics : List Record

namespace Machine

/-- The machine before it renders a template. -/
def start (template : Template) : Machine :=
  ⟨visits (Layer.outermost template) [] (topPlaces none template.compile.forest), [], []⟩

/-- The machine when there is nothing left to do. -/
def halted (rendering : Rendering) : Machine :=
  ⟨[], rendering.html, rendering.diagnostics⟩

/-- Does the first task. -/
def step (site : Site) : Machine → Option Machine
  | ⟨[], _, _⟩ => none
  | ⟨.visit call :: tasks, html, diagnostics⟩ =>
    some ⟨call.tasks site html.length ++ tasks, html, diagnostics⟩
  | ⟨.write output :: tasks, html, diagnostics⟩ =>
    some ⟨tasks, html ++ output.html, note diagnostics output.reports⟩
  | ⟨.check layer node condition mark :: tasks, html, diagnostics⟩ =>
    some ⟨tasks, if layer.bare.holds site condition then html else html.take mark,
      note diagnostics (layer.bare.conditionReports site node condition)⟩

/-- Any number of steps. -/
def Runs (site : Site) : Machine → Machine → Prop :=
  ReflTransGen fun machine next => machine.step site = some next

end Machine

/-! ## Places of a forest -/

section

variable {parent : Option Text} {forest : Forest (Nat × Node)} {place : Place}

/-- The place and all below it belong to a forest. -/
def Place.Within (place : Place) (forest : Forest (Nat × Node)) : Prop :=
  ((place.id, place.node) :: place.below.preorder).Sublist forest.preorder

theorem within_of_mem_places {label : Node × Place} (h : label ∈ (places parent forest).preorder) :
    label.2.Within forest := by
  induction forest generalizing parent with
  | nil => cases h
  | cons entry below after ihbelow ihafter =>
    obtain ⟨id, node⟩ := entry
    simp only [places, Forest.preorder, List.mem_cons, List.mem_append] at h
    rcases h with rfl | h | h
    · exact (List.sublist_append_left _ _).cons_cons _
    · exact (ihbelow h).trans ((List.sublist_append_left _ _).cons _)
    · exact (ihafter h).trans ((List.sublist_append_right _ _).cons _)

theorem within_of_mem_topPlaces (h : place ∈ topPlaces parent forest) : place.Within forest := by
  obtain ⟨label, hlabel, rfl⟩ := List.mem_map.mp h
  exact within_of_mem_places (Forest.mem_preorder_of_mem_roots hlabel)

theorem Place.Within.below {inner : Place} (h : place.Within forest) (hinner : inner.Within place.below) :
    inner.Within forest :=
  hinner.trans ((List.sublist_cons_self _ _).trans h)

theorem Place.Within.size_lt (h : place.Within forest) : place.below.size < forest.size := by
  have hlength := h.length_le
  rwa [List.length_cons, Forest.length_preorder, Forest.length_preorder] at hlength

end

/-! ## What a visit asks for -/

/-- The ways in which a visit leads to another. -/
inductive Call.Leads (site : Site) (call : Call) : Call → Prop
  /-- Down to a node below. -/
  | down {place : Place} (h : place ∈ call.place.children) : Leads site call ⟨call.layer, call.outer, place⟩
  /-- From an outlet back to the includer. -/
  | back {includer : Layer} {rest : List Layer} {name : Text} {items : List Place} {place : Place}
    (houter : call.outer = includer :: rest) (hslot : call.layer.slots.get? name = some items)
    (h : place ∈ items) : Leads site call ⟨includer, rest, place⟩
  /-- From an include into its component. -/
  | enter {element : Element} {name : Text} {component : Compiled} {place : Place}
    (hopened : call.layer.bare.opened? site element = some (name, component))
    (h : place ∈ topPlaces none component.forest) :
    Leads site call ⟨call.entered site component name element, call.layer :: call.outer, place⟩

namespace Call

variable {site : Site} {call inner : Call}

theorem mem_visits {layer : Layer} {outer : List Layer} {items : List Place} :
    Task.visit inner ∈ visits layer outer items ↔ ∃ place ∈ items, inner = ⟨layer, outer, place⟩ := by
  simp only [visits, List.mem_map, Task.visit.injEq]
  constructor
  · rintro ⟨place, hplace, rfl⟩
    exact ⟨place, hplace, rfl⟩
  · rintro ⟨place, hplace, rfl⟩
    exact ⟨place, hplace, rfl⟩

theorem leads_of_mem_children
    (h : Task.visit inner ∈ visits call.layer call.outer call.place.children) :
    call.Leads site inner := by
  obtain ⟨place, hplace, rfl⟩ := mem_visits.mp h
  exact .down hplace

theorem leads_of_mem_elementTasks {element : Element}
    (h : Task.visit inner ∈ call.elementTasks site element) : call.Leads site inner := by
  simp only [elementTasks] at h
  split at h
  · simp only [includeTasks] at h
    split at h
    · simp at h
    · next name component hopened =>
      rw [List.mem_cons] at h
      rcases h with h | h
      · cases h
      · obtain ⟨place, hplace, rfl⟩ := mem_visits.mp h
        exact .enter hopened hplace
  · split at h
    · simp only [outletTasks] at h
      split at h
      · next items includer rest hslot houter =>
        obtain ⟨place, hplace, rfl⟩ := mem_visits.mp h
        exact .back houter hslot hplace
      · exact leads_of_mem_children h
    · split at h
      · cases h
      · rw [List.mem_cons] at h
        rcases h with h | h
        · cases h
        · split at h
          · cases h
          · rw [List.mem_append] at h
            rcases h with h | h
            · exact leads_of_mem_children h
            · simp at h

theorem leads_of_below (h : Below site inner call) : call.Leads site inner := by
  obtain ⟨mark, h⟩ := h
  simp only [tasks] at h
  split at h
  · rw [List.mem_append] at h
    rcases h with h | h
    · exact leads_of_mem_elementTasks h
    · simp at h
  · simp at h

/-! ## Visits nest to a finite depth -/

/-- A layer can be left if every visit of a place in its slots comes to an end. -/
def Leavable (site : Site) (layer : Layer) : List Layer → Prop
  | [] => True
  | includer :: rest => ∀ name items, layer.slots.get? name = some items →
      ∀ place ∈ items, Acc (Below site) ⟨includer, rest, place⟩

/-- Visits come to an end in a layer that can be left. The outer induction is on the components that can
still be opened, the inner one on the nodes below the place. -/
theorem acc_of_leavable {layer : Layer} {outer : List Layer} (hleavable : Leavable site layer outer)
    (place : Place) : Acc (Below site) ⟨layer, outer, place⟩ := by
  induction hspare : site.spare layer.chain using Nat.strongRecOn generalizing layer outer place with
  | ind spare ihspare =>
    induction hsize : place.below.size using Nat.strongRecOn generalizing place with
    | ind size ihsize =>
      refine ⟨_, fun inner hinner => ?_⟩
      cases leads_of_below hinner with
      | down h => exact ihsize _ (hsize ▸ (within_of_mem_topPlaces h).size_lt) _ rfl
      | back houter hslot h =>
        cases houter
        exact hleavable _ _ hslot _ h
      | enter hopened h =>
        obtain ⟨_, _, rfl, _, hchain, hget⟩ := Frame.opened?_eq_some.mp hopened
        refine ihspare _ (hspare ▸ Site.spare_append_lt hget hchain) ?_ _ rfl
        -- what the include puts into slots stands below it
        intro name items hslot other hother
        refine ihsize _ ?_ other rfl
        exact Frame.collect_slots_forall (P := fun place => place.below.size < size)
          (fun label hlabel => hsize ▸ (within_of_mem_places hlabel).size_lt) hslot other hother

theorem acc_below (layer : Layer) (outer : List Layer) (place : Place) :
    Acc (Below site) ⟨layer, outer, place⟩ := by
  induction outer generalizing layer place with
  | nil =>
    have hleavable : Leavable site layer [] := trivial
    exact acc_of_leavable hleavable place
  | cons includer rest ih =>
    have hleavable : Leavable site layer (includer :: rest) := fun _ _ _ other _ => ih includer other
    exact acc_of_leavable hleavable place

theorem wellFounded_below (site : Site) : WellFounded (Below site) :=
  ⟨fun call => acc_below call.layer call.outer call.place⟩

end Call

/-! ## Chains -/

/-- The chain of a layer names registered components, none of them twice. -/
structure Layer.Proper (site : Site) (layer : Layer) : Prop where
  nodup : layer.chain.Nodup
  registered : ∀ name ∈ layer.chain, site.components.contains name = true

theorem Layer.Proper.length_chain_le {site : Site} {layer : Layer} (h : layer.Proper site) :
    layer.chain.length ≤ site.components.size := by
  have hsubset : layer.chain ⊆ site.components.keys := by
    intro name hname
    exact Table.mem_keys.mpr (Table.contains_iff.mp (h.registered name hname))
  have hlength : site.components.keys.length = site.components.size := List.length_map _
  exact hlength ▸ (h.nodup.subperm hsubset).length_le

/-- Layers as includes put them on top of each other. -/
inductive Nested (site : Site) : Layer → List Layer → Prop
  | outermost {layer : Layer} (h : layer.Proper site) : Nested site layer []
  | entered {layer includer : Layer} {rest : List Layer} {name : Text} (h : Nested site includer rest)
    (hregistered : site.components.contains name = true) (hname : name ∉ includer.chain)
    (hchain : layer.chain = includer.chain ++ [name]) : Nested site layer (includer :: rest)

namespace Nested

variable {site : Site} {layer : Layer} {outer : List Layer}

theorem proper (h : Nested site layer outer) : ∀ other ∈ layer :: outer, other.Proper site := by
  induction h with
  | outermost h =>
    intro other hother
    rw [List.mem_singleton.mp hother]
    exact h
  | @entered layer includer rest name _ hregistered hname hchain ih =>
    have hincluder := ih includer List.mem_cons_self
    intro other hother
    rcases List.mem_cons.mp hother with rfl | hother
    · constructor
      · rw [hchain, List.nodup_append]
        refine ⟨hincluder.nodup, by simp, ?_⟩
        intro a ha b hb
        rw [List.mem_singleton.mp hb]
        exact fun heq => hname (heq ▸ ha)
      · intro a ha
        rw [hchain, List.mem_append, List.mem_singleton] at ha
        rcases ha with ha | rfl
        · exact hincluder.registered a ha
        · exact hregistered
    · exact ih other hother

theorem length_outer_le (h : Nested site layer outer) : outer.length ≤ layer.chain.length := by
  induction h with
  | outermost _ => exact Nat.zero_le _
  | entered _ _ _ hchain ih =>
    rw [hchain, List.length_append, List.length_cons, List.length_singleton]
    omega

theorem leads {call inner : Call} (h : Nested site call.layer call.outer)
    (hleads : call.Leads site inner) : Nested site inner.layer inner.outer := by
  cases hleads with
  | down _ => exact h
  | back houter _ _ =>
    rw [houter] at h
    cases h with
    | entered h _ _ _ => exact h
  | enter hopened _ =>
    obtain ⟨_, _, rfl, _, hchain, hget⟩ := Frame.opened?_eq_some.mp hopened
    exact .entered h (Table.contains_iff.mpr ⟨_, hget⟩) hchain rfl

end Nested

namespace Machine

variable {site : Site} {machine next : Machine}

/-- What visits pass on to the visits they lead to, a step passes on. -/
theorem forall_visits_step {P : Call → Prop}
    (hleads : ∀ call inner : Call, P call → call.Leads site inner → P inner)
    (h : ∀ call, .visit call ∈ machine.tasks → P call) (hstep : machine.step site = some next) :
    ∀ call, .visit call ∈ next.tasks → P call := by
  obtain ⟨_ | ⟨task, tasks⟩, html, diagnostics⟩ := machine
  · cases hstep
  · have htasks : ∀ call, .visit call ∈ tasks → P call :=
      fun call hcall => h call (List.mem_cons_of_mem task hcall)
    cases task with
    | visit call =>
      cases hstep
      intro inner hinner
      rcases List.mem_append.mp hinner with hinner | hinner
      · exact hleads call inner (h call List.mem_cons_self) (Call.leads_of_below ⟨_, hinner⟩)
      · exact htasks inner hinner
    | write output => cases hstep; exact htasks
    | check layer node condition mark => cases hstep; exact htasks

/-- What visits pass on to the visits they lead to, a run passes on. -/
theorem Runs.forall_visits {P : Call → Prop} (hruns : machine.Runs site next)
    (hleads : ∀ call inner : Call, P call → call.Leads site inner → P inner)
    (h : ∀ call, .visit call ∈ machine.tasks → P call) : ∀ call, .visit call ∈ next.tasks → P call := by
  induction hruns with
  | refl => exact h
  | tail _ hstep ih => exact forall_visits_step hleads ih hstep

/-- Every visit that is asked for is asked for in nested layers. -/
def Orderly (site : Site) (machine : Machine) : Prop :=
  ∀ call, .visit call ∈ machine.tasks → Nested site call.layer call.outer

theorem Orderly.runs (h : machine.Orderly site) (hruns : machine.Runs site next) :
    next.Orderly site :=
  hruns.forall_visits (fun _ _ hnested hleads => hnested.leads hleads) h

theorem orderly_start {template : Template} (h : (Layer.outermost template).Proper site) :
    (start template).Orderly site := by
  intro call hcall
  obtain ⟨place, -, rfl⟩ := Call.mem_visits.mp hcall
  exact .outermost h

end Machine

end Sitewright
