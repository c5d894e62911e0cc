import Sitewright.Proofs.Project.Registered
import Sitewright.Proofs.Render.Machine

/-!
The machine comes to an end, with the rendering that is defined by recursion.

A layer is the frame whose slots were rendered ahead, in the frame of the includer (`Layer.frame`). Each
visit writes what its node renders to in that frame (`writes_visit`), by induction on how visits nest.
-/

namespace Sitewright

open Markup
open Relation (ReflTransGen)

/-! ## Reporting -/

theorem note_append (known a b : List Record) : note known (a ++ b) = note (note known a) b :=
  List.foldl_append

/-- Reporting one by one lists every problem once, where it was first met. -/
theorem note_eraseDups (past new : List Record) : note past.eraseDups new = (past ++ new).eraseDups := by
  induction new generalizing past with
  | nil => rw [List.append_nil]; rfl
  | cons record new ih =>
    have hrecord : note past.eraseDups [record] = (past ++ [record]).eraseDups := by
      rw [List.eraseDups_append]
      by_cases h : record ∈ past
      · simp [note, List.removeAll, h]
      · simp [note, List.removeAll, h, List.eraseDups_cons]
    rw [← List.singleton_append, note_append, hrecord, ih, List.append_assoc]

/-! ## Layers as frames -/

/-- The output of a place in a frame. -/
def Frame.outputAt (site : Site) (frame : Frame) (place : Place) : Output :=
  frame.renderNode site (site.expand site.components.size) place.parent place.id place.node
    (frame.renderForest site (site.expand site.components.size) place.node.name? place.below)

/-- The frame of a layer, with the content for its outlets rendered in the frame of the includer. -/
def Layer.frame (site : Site) (layer : Layer) : List Layer → Frame
  | [] => layer.bare
  | includer :: rest =>
    { layer.bare with
      slots := layer.slots.map fun _ items =>
        .concat (items.map ((includer.frame site rest).outputAt site)) }

namespace Frame

variable {site : Site} (frame : Frame)

theorem renderForest_eq (parent : Option Text) (forest : Forest (Nat × Node)) :
    frame.renderForest site (site.expand site.components.size) parent forest =
      (places parent forest).map (Prod.map id (frame.outputAt site)) := by
  induction forest generalizing parent with
  | nil => rfl
  | cons entry below after ihbelow ihafter =>
    obtain ⟨id, node⟩ := entry
    simp only [renderForest, places, Forest.map, Prod.map_apply, id_eq, outputAt]
    rw [← ihbelow, ← ihafter]

theorem outputBelow_eq (parent : Option Text) (forest : Forest (Nat × Node)) :
    outputBelow (frame.renderForest site (site.expand site.components.size) parent forest) =
      .concat ((topPlaces parent forest).map (frame.outputAt site)) := by
  simp only [outputBelow, renderForest_eq, Forest.roots_map, topPlaces, List.map_map,
    Function.comp_def, Prod.map_snd]

end Frame

namespace Call

variable {site : Site} {call : Call} {component : Compiled} {name : Text} {element : Element}

/-- The frame of the layer of a call. -/
def frame (site : Site) (call : Call) : Frame :=
  call.layer.frame site call.outer

/-- The output of a call. -/
def output (site : Site) (call : Call) : Output :=
  (call.frame site).outputAt site call.place

/-- The output of every node below the place of a call. -/
def inner (site : Site) (call : Call) : Forest (Node × Output) :=
  (call.frame site).renderForest site (site.expand site.components.size)
    call.place.node.name? call.place.below

theorem exists_frame_eq (site : Site) (call : Call) :
    ∃ slots, call.frame site = { call.layer.bare with slots := slots } := by
  rw [frame]
  cases call.outer with
  | nil => exact ⟨∅, rfl⟩
  | cons includer rest => exact ⟨_, rfl⟩

/-- An include collects the same content, place by place or rendered. -/
theorem collect_inner :
    (call.frame site).collect site component name call.place.node element
        (call.inner site) =
      (call.content site component name element).map
        ((call.frame site).outputAt site) := by
  rw [inner, Frame.renderForest_eq, Frame.collect_map]
  obtain ⟨slots, hframe⟩ := call.exists_frame_eq site
  have hcollect : (call.frame site).collect site component name call.place.node element
      call.place.inner = call.content site component name element := by
    rw [hframe]
    rfl
  rw [← hcollect]
  rfl

theorem collectProperties_frame :
    (call.frame site).collectProperties site call.place.node element =
      call.layer.bare.collectProperties site call.place.node element := by
  obtain ⟨slots, hframe⟩ := call.exists_frame_eq site
  rw [hframe]
  rfl

/-- The layer that a call enters is the frame that the include makes. -/
theorem frame_entered :
    (call.entered site component name element).frame site (call.layer :: call.outer) =
      (call.frame site).entered site component name call.place.node element
        (call.inner site) := by
  obtain ⟨slots, hframe⟩ := call.exists_frame_eq site
  have hchain : (call.frame site).chain = call.layer.chain := by rw [hframe]; rfl
  rw [Frame.entered, collect_inner, collectProperties_frame, hchain, Content.map, Table.map_map]
  rfl

end Call

/-! ## Tasks and what they write -/

/-- Doing the tasks writes the output, whatever was done before and is to be done after. -/
def Writes (site : Site) (tasks : List Task) (output : Output) : Prop :=
  ∀ rest html diagnostics, Machine.Runs site ⟨tasks ++ rest, html, diagnostics⟩
    ⟨rest, html ++ output.html, note diagnostics output.reports⟩

namespace Writes

variable {site : Site} {tasks tasks' : List Task} {output output' : Output}

theorem nil : Writes site [] .empty := by
  intro rest html diagnostics
  have hhtml : html ++ Output.empty.html = html := List.append_nil html
  rw [hhtml]
  exact .refl

theorem append (h : Writes site tasks output) (h' : Writes site tasks' output') :
    Writes site (tasks ++ tasks') (output ++ output') := by
  intro rest html diagnostics
  have hhtml : html ++ (output ++ output').html = html ++ output.html ++ output'.html :=
    (List.append_assoc _ _ _).symm
  have hreports : note diagnostics (output ++ output').reports =
      note (note diagnostics output.reports) output'.reports := note_append _ _ _
  rw [hhtml, hreports, List.append_assoc]
  exact (h _ _ _).trans (h' _ _ _)

theorem write (output : Output) : Writes site [.write output] output :=
  fun _ _ _ => .single rfl

theorem visits {layer : Layer} {outer : List Layer} {items : List Place}
    (h : ∀ place ∈ items,
      Writes site [.visit ⟨layer, outer, place⟩] (Call.output site ⟨layer, outer, place⟩)) :
    Writes site (visits layer outer items)
      (.concat (items.map ((layer.frame site outer).outputAt site))) := by
  induction items with
  | nil => exact nil
  | cons place items ih =>
    have hplace := h place List.mem_cons_self
    have hitems := ih fun other hother => h other (List.mem_cons_of_mem place hother)
    exact hplace.append hitems

end Writes

namespace Call

variable {site : Site} {call : Call} {element : Element}

theorem writes_children
    (h : ∀ inner, Task.visit inner ∈ visits call.layer call.outer call.place.children →
      Writes site [.visit inner] (inner.output site)) :
    Writes site (visits call.layer call.outer call.place.children) (outputBelow (call.inner site)) := by
  rw [inner, Frame.outputBelow_eq]
  exact .visits fun place hplace => h _ (mem_visits.mpr ⟨place, hplace, rfl⟩)

theorem writes_includeTasks
    (h : ∀ inner, Task.visit inner ∈ call.includeTasks site element →
      Writes site [.visit inner] (inner.output site)) :
    Writes site (call.includeTasks site element)
      ((call.frame site).renderInclude site (site.expand site.components.size)
        call.place.node element (call.inner site)) := by
  obtain ⟨slots, hframe⟩ := call.exists_frame_eq site
  cases hopened : call.layer.bare.opened? site element with
  | none =>
    have houtput : (call.frame site).renderInclude site
        (site.expand site.components.size) call.place.node element (call.inner site) =
          call.layer.bare.renderInclude site (fun _ => .empty) call.place.node element .nil := by
      rw [Frame.renderInclude_of_not_opened hopened (fun _ => .empty) (site.expand site.components.size)
        .nil (call.inner site), hframe]
      rfl
    simp only [includeTasks, hopened, houtput]
    exact .write _
  | some opened =>
    obtain ⟨name, component⟩ := opened
    obtain ⟨-, -, -, -, hchain, hget⟩ := Frame.opened?_eq_some.mp hopened
    have hopened' : (call.frame site).opened? site element = some (name, component) := by
      rw [hframe]
      exact hopened
    simp only [includeTasks, hopened] at h ⊢
    rw [Frame.renderInclude_of_opened hopened', ← frame_entered, collect_inner, collectProperties_frame]
    refine .append (.write _) ?_
    have hspare := Site.spare_append_lt hget hchain
    have hsize := site.spare_le_size call.layer.chain
    rw [Site.expand_eq_renderFrame (Nat.lt_of_lt_of_le hspare hsize), Site.renderFrame, Frame.render,
      Frame.outputBelow_eq]
    refine .visits fun place hplace => h _ ?_
    exact List.mem_cons_of_mem _ (mem_visits.mpr ⟨place, hplace, rfl⟩)

theorem writes_outletTasks
    (h : ∀ inner, Task.visit inner ∈ call.outletTasks element →
      Writes site [.visit inner] (inner.output site)) :
    Writes site (call.outletTasks element)
      ((call.frame site).renderOutlet element (call.inner site)) := by
  have hown (hslot : (call.frame site).slots.get?
        (Template.outletName (element.attribute? "name".toList)) = none)
      (htasks : call.outletTasks element = visits call.layer call.outer call.place.children) :
      Writes site (call.outletTasks element)
        ((call.frame site).renderOutlet element (call.inner site)) := by
    rw [Frame.renderOutlet, hslot, htasks]
    exact writes_children (htasks ▸ h)
  cases hslot : call.layer.slots.get? (Template.outletName (element.attribute? "name".toList)) with
  | none =>
    refine hown ?_ (by simp only [outletTasks, hslot])
    rw [frame]
    cases call.outer with
    | nil => rfl
    | cons includer rest => simp only [Layer.frame, Table.get?_map, hslot, Option.map_none]
  | some items =>
    cases houter : call.outer with
    | nil =>
      refine hown ?_ (by simp only [outletTasks, hslot, houter])
      rw [frame, houter]
      rfl
    | cons includer rest =>
      have htasks : call.outletTasks element = visits includer rest items := by
        simp only [outletTasks, hslot, houter]
      have hget : (call.frame site).slots.get? (Template.outletName (element.attribute? "name".toList)) =
          some (.concat (items.map ((includer.frame site rest).outputAt site))) := by
        simp only [frame, houter, Layer.frame, Table.get?_map, hslot, Option.map_some]
      rw [Frame.renderOutlet, hget, htasks]
      exact .visits fun place hplace => h _ (htasks ▸ mem_visits.mpr ⟨place, hplace, rfl⟩)

theorem writes_elementTasks
    (h : ∀ inner, Task.visit inner ∈ call.elementTasks site element →
      Writes site [.visit inner] (inner.output site)) :
    Writes site (call.elementTasks site element)
      ((call.frame site).renderUnguarded site (site.expand site.components.size)
        call.place.id call.place.node element (call.inner site)) := by
  simp only [elementTasks] at h ⊢
  simp only [Frame.renderUnguarded]
  split
  · next hname =>
    rw [if_pos hname] at h
    exact writes_includeTasks h
  · next hname =>
    rw [if_neg hname] at h
    split
    · next hname =>
      rw [if_pos hname] at h
      exact writes_outletTasks h
    · next hname =>
      rw [if_neg hname] at h
      split
      · exact .nil
      · next hname =>
        rw [if_neg hname] at h
        have hopening : (call.frame site).openingTag site call.place.id call.place.node
            element = call.layer.bare.openingTag site call.place.id call.place.node element := by
          obtain ⟨slots, hframe⟩ := call.exists_frame_eq site
          rw [hframe]
          rfl
        rw [Frame.renderPlain, hopening]
        split
        · exact .write _
        · next hvoid =>
          rw [if_neg hvoid] at h
          have hchildren := writes_children fun inner hinner =>
            h inner (List.mem_cons_of_mem _ (List.mem_append_left _ hinner))
          exact ((Writes.write _).append hchildren).append (.write _)

/-- A node that is no element renders to the same with nothing below it and in no slots. -/
theorem output_of_leaf (h : call.place.node.element? = none) :
    call.output site = call.layer.bare.renderNode site (fun _ => .empty) call.place.parent call.place.id
      call.place.node .nil := by
  obtain ⟨slots, hframe⟩ := call.exists_frame_eq site
  rw [output, Frame.outputAt, hframe]
  cases hkind : call.place.node.kind with
  | element element => simp only [Node.element?, hkind, reduceCtorEq] at h
  | text text => simp only [Frame.renderNode, hkind]; rfl
  | comment text => simp only [Frame.renderNode, hkind]
  | declaration text => simp only [Frame.renderNode, hkind]

theorem tasks_of_leaf (h : call.place.node.element? = none) (mark : Nat) :
    call.tasks site mark = [.write (call.layer.bare.renderNode site (fun _ => .empty) call.place.parent
      call.place.id call.place.node .nil)] := by
  rw [tasks]
  split
  · next element hkind => simp only [Node.element?, hkind, reduceCtorEq] at h
  · rfl

theorem output_of_element (h : call.place.node.kind = .element element) :
    call.output site = call.layer.bare.guarded site call.place.node element
      ((call.frame site).renderUnguarded site (site.expand site.components.size)
        call.place.id call.place.node element (call.inner site)) := by
  obtain ⟨slots, hframe⟩ := call.exists_frame_eq site
  have hguarded : (call.frame site).guarded site call.place.node element =
      call.layer.bare.guarded site call.place.node element := by
    rw [hframe]
    rfl
  simp only [output, Frame.outputAt, Frame.renderNode, h, Frame.renderElement, hguarded]
  rfl

/-- The check at the end of an element takes back what the element wrote, and no more. -/
theorem runs_check {rest : List Task} {html : Text} {diagnostics : List Record} (layer : Layer)
    (node : Node) (output : Output) :
    Machine.Runs site
      ⟨((element.attribute? "if".toList).map fun condition =>
          Task.check layer node condition html.length).toList ++ rest,
        html ++ output.html, note diagnostics output.reports⟩
      ⟨rest, html ++ (layer.bare.guarded site node element output).html,
        note diagnostics (layer.bare.guarded site node element output).reports⟩ := by
  rw [Frame.guarded]
  cases element.attribute? "if".toList with
  | none => exact .refl
  | some condition =>
    refine .single ?_
    simp only [Option.map_some, Option.toList_some, List.singleton_append, Machine.step, note_append]
    cases layer.bare.holds site condition with
    | true => rfl
    | false => simp

/-- Every visit writes what its place renders to. -/
theorem writes_visit (call : Call) : Writes site [.visit call] (call.output site) := by
  induction call using (wellFounded_below site).induction with
  | h call ih =>
    intro rest html diagnostics
    refine ReflTransGen.head rfl ?_
    cases helement : call.place.node.element? with
    | none =>
      rw [tasks_of_leaf helement, output_of_leaf helement]
      exact Writes.write _ rest html diagnostics
    | some element =>
      have hkind : call.place.node.kind = .element element := by
        rw [Node.element?] at helement
        split at helement
        · next hkind => cases helement; exact hkind
        · cases helement
      have htasks (mark : Nat) : call.tasks site mark = call.elementTasks site element ++
          ((element.attribute? "if".toList).map fun condition =>
            Task.check call.layer call.place.node condition mark).toList := by
        simp only [tasks, hkind]
      have hbody := writes_elementTasks fun inner hinner =>
        ih inner ⟨0, htasks 0 ▸ List.mem_append_left _ hinner⟩
      rw [htasks, output_of_element hkind, List.append_assoc]
      exact (hbody _ html diagnostics).trans (runs_check call.layer call.place.node _)

end Call

/-- The machine ends with what rendering says. -/
theorem Machine.runs_halted (site : Site) (template : Template) :
    Machine.Runs site (.start template) (.halted (site.render template)) := by
  have hframe : Frame.outermost template = (Layer.outermost template).frame site [] := rfl
  have hwrites : Writes site (visits (Layer.outermost template) [] (topPlaces none template.compile.forest))
      (site.renderFrame (Frame.outermost template)) := by
    rw [hframe, Site.renderFrame, Frame.render, Frame.outputBelow_eq]
    exact .visits fun place _ => Call.writes_visit ⟨Layer.outermost template, [], place⟩
  have hruns := hwrites [] [] []
  have hreports := note_eraseDups [] (site.renderFrame (Frame.outermost template)).reports
  rw [List.eraseDups_nil, List.nil_append] at hreports
  rw [List.append_nil, List.nil_append, hreports] at hruns
  simp only [Machine.start, Machine.halted, Site.render, Output.finish]
  exact hruns

namespace Project

/-- What a project gives for a template: a page, or a component by itself. -/
def rendering? (project : Project) : TemplateId → Option Rendering
  | .page path => (project.render path).toOption
  | .component name => project.renderComponent name

theorem rendering?_eq {project : Project} {id : TemplateId} {template : Template}
    (h : project.template? id = some template) :
    project.rendering? id = some (project.site.render template) := by
  cases id with
  | component name => exact congrArg (Option.map project.site.render) h
  | page path =>
    have hpage : project.page? path = some template := h
    rw [rendering?, render, hpage]
    rfl

theorem proper_outermost {project : Project} {id : TemplateId} {template : Template}
    (h : project.template? id = some template) : (Layer.outermost template).Proper project.site := by
  have hid := id_of_template? h
  cases id with
  | component name =>
    have hchain : (Layer.outermost template).chain = [name] := by
      simp only [Layer.outermost, Frame.outermost, hid]
    refine ⟨by simp [hchain], ?_⟩
    intro other hother
    rw [hchain, List.mem_singleton] at hother
    rw [hother, contains_site_components, contains_component, h]
    rfl
  | page path =>
    have hchain : (Layer.outermost template).chain = [] := by
      simp only [Layer.outermost, Frame.outermost, hid]
    exact ⟨by simp [hchain], by simp [hchain]⟩

/-- **Rendering comes to an end for every template of every project,** however its components include
each other. Visits nest to a finite depth. On every way to the end the chain of every layer names
registered components, none of them twice, so there are no more layers than components; and the end is
the rendering that the project gives. -/
theorem rendering_terminates {project : Project} {id : TemplateId} {template : Template}
    (h : project.template? id = some template) :
    WellFounded (Call.Below project.site) ∧
      (∀ machine, Machine.Runs project.site (.start template) machine →
        ∀ call, .visit call ∈ machine.tasks → call.outer.length ≤ project.components.size ∧
          ∀ layer ∈ call.layer :: call.outer, layer.chain.Nodup ∧
            (∀ name ∈ layer.chain, project.components.contains name = true) ∧
            layer.chain.length ≤ project.components.size) ∧
      ∃ rendering, project.rendering? id = some rendering ∧
        Machine.Runs project.site (.start template) (.halted rendering) := by
  refine ⟨Call.wellFounded_below project.site, ?_, _, rendering?_eq h,
    Machine.runs_halted project.site template⟩
  intro machine hruns call hcall
  have hnested := (Machine.orderly_start (proper_outermost h)).runs hruns call hcall
  have hproper := hnested.proper
  have hbound : ∀ layer ∈ call.layer :: call.outer,
      layer.chain.length ≤ project.components.size := by
    intro layer hlayer
    rw [← size_site_components]
    exact (hproper layer hlayer).length_chain_le
  refine ⟨Nat.le_trans hnested.length_outer_le (hbound _ List.mem_cons_self), ?_⟩
  intro layer hlayer
  refine ⟨(hproper layer hlayer).nodup, ?_, hbound layer hlayer⟩
  intro name hname
  rw [← contains_site_components]
  exact (hproper layer hlayer).registered name hname

/-- A project in which two components include each other, and hand on what they are given. -/
def mirrors : Project :=
  { Project.empty with
    components := Table.ofList
      [("a".toList, "<include component=\"b\">1<outlet/></include>".toList),
        ("b".toList, "<include component=\"a\"/><outlet/><outlet/>".toList)]
    pages := Table.ofList [("/".toList, "<include component=\"a\">2</include>".toList)] }

/-- The content passes through both mirrors and is doubled; the way back into the first is refused. -/
theorem rendering_terminates_of_mirrors :
    mirrors.template? (.page "/".toList) =
        some ⟨.page "/".toList, "<include component=\"a\">2</include>".toList⟩ ∧
      ∃ rendering, rendering.html = "1212".toList ∧ rendering.diagnostics.length = 1 ∧
        Machine.Runs mirrors.site
          (.start ⟨.page "/".toList, "<include component=\"a\">2</include>".toList⟩)
          (.halted rendering) := by
  have hpage : mirrors.template? (.page "/".toList) =
      some ⟨.page "/".toList, "<include component=\"a\">2</include>".toList⟩ := rfl
  obtain ⟨-, -, rendering, hrendering, hruns⟩ := rendering_terminates hpage
  have hvalue : (mirrors.rendering? (.page "/".toList)).all fun rendering =>
      rendering.html == "1212".toList && rendering.diagnostics.length == 1 := by
    decide +kernel
  rw [hrendering] at hvalue
  simp only [Option.all_some, Bool.and_eq_true, beq_iff_eq] at hvalue
  exact ⟨hpage, rendering, hvalue.1, hvalue.2, hruns⟩

end Project

end Sitewright
