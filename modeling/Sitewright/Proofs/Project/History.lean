import Sitewright.Project.Change
import Sitewright.Project.Diagnostics

/-!
The history of a project: what can be done to it, and the projects that a history leads to. Asking for
problems belongs to a history, because it fills the cache. An operation that is refused leaves the
project as it was.
-/

namespace Sitewright.Project

/-- What can be done to a project. -/
inductive Operation where
  | setEnvironment (environment : Environment)
  | setGlobals (globals : List (Text × Text))
  | removeGlobal (name : Text)
  | addComponent (name source : Text)
  | updateComponent (name source : Text)
  | removeComponent (name : Text)
  | addPage (path source : Text)
  | updatePage (path source : Text)
  | removePage (path : Text)
  | addAsset (path : Text)
  | removeAsset (path : Text)
  | setCss (css : Text)
  | setJs (js : Text)
  | reset (options : Options)
  /-- Asks for the problems of one template. -/
  | inspectTemplate (id : TemplateId)
  /-- Asks for all problems. -/
  | inspect
  deriving DecidableEq

/-- What an operation makes of a project, unless it is refused. -/
def attempt (project : Project) : Operation → Except Error Project
  | .setEnvironment environment => .ok (project.setEnvironment environment)
  | .setGlobals globals => .ok (project.setGlobals globals)
  | .removeGlobal name => .ok (project.removeGlobal name)
  | .addComponent name source => project.addComponent name source
  | .updateComponent name source => project.updateComponent name source
  | .removeComponent name => project.removeComponent name
  | .addPage path source => project.addPage path source
  | .updatePage path source => project.updatePage path source
  | .removePage path => project.removePage path
  | .addAsset path => project.addAsset path
  | .removeAsset path => .ok (project.removeAsset path)
  | .setCss css => .ok (project.setCss css)
  | .setJs js => .ok (project.setJs js)
  | .reset options => ofOptions options
  | .inspectTemplate id => .ok (project.templateDiagnostics id).2
  | .inspect => .ok project.diagnostics.2

/-- The project after an operation, refused or not. -/
def perform (project : Project) (operation : Operation) : Project :=
  match project.attempt operation with
  | .ok next => next
  | .error _ => project

/-- The project after operations one after another. -/
def run (project : Project) (operations : List Operation) : Project :=
  operations.foldl perform project

/-- The projects that some history leads to. -/
inductive Reachable : Project → Prop where
  | made {options : Options} {project : Project} (h : ofOptions options = .ok project) :
    Reachable project
  | next {project : Project} (h : Reachable project) (operation : Operation) :
    Reachable (project.perform operation)

theorem Reachable.run {project : Project} (h : Reachable project) (operations : List Operation) :
    Reachable (project.run operations) := by
  induction operations generalizing project with
  | nil => exact h
  | cons operation rest ih => exact ih (.next h operation)

theorem reachable_run_empty (operations : List Operation) : (Project.empty.run operations).Reachable := by
  have hmade : ofOptions Options.empty = .ok Project.empty := rfl
  exact (Reachable.made hmade).run operations

/-! ## Histories from options -/

theorem bind_eq_ok {ε α β : Type} {x : Except ε α} {f : α → Except ε β} {b : β} :
    (x >>= f) = .ok b ↔ ∃ a, x = .ok a ∧ f a = .ok b := by
  cases x with
  | error e => simp [bind, Except.bind]
  | ok a => simp [bind, Except.bind]

/-- What every step keeps, a row of steps keeps. -/
theorem foldlM_keeps {ε α β : Type} {f : β → α → Except ε β} (P : β → Prop)
    (hstep : ∀ b a b', P b → f b a = .ok b' → P b') {items : List α} {start result : β}
    (hstart : P start) (h : items.foldlM f start = .ok result) : P result := by
  induction items generalizing start with
  | nil =>
    cases h
    exact hstart
  | cons item items ih =>
    rw [List.foldlM_cons, bind_eq_ok] at h
    obtain ⟨between, hitem, hitems⟩ := h
    exact ih (hstep start item between hstart hitem) hitems

/-- A property that holds before anything is registered and that registering keeps holds of a project
made from options. -/
theorem ofOptions_keeps {P : Project → Prop} {options : Options} {project : Project}
    (hstart : P (setGlobals { empty with
      environment := options.environment, css := options.css, js := options.js } options.globals.entries))
    (hasset : ∀ before path after, P before → addAsset before path = .ok after → P after)
    (hcomponent : ∀ before name source after, P before →
      addComponent before name source = .ok after → P after)
    (hpage : ∀ before path source after, P before → addPage before path source = .ok after → P after)
    (h : ofOptions options = .ok project) : P project := by
  rw [ofOptions, bind_eq_ok] at h
  obtain ⟨withAssets, hassets, h⟩ := h
  rw [bind_eq_ok] at h
  obtain ⟨withComponents, hcomponents, hpages⟩ := h
  have hassets := foldlM_keeps P hasset hstart hassets
  have hcomponents := foldlM_keeps P (fun b a b' => hcomponent b a.1 a.2 b') hassets hcomponents
  exact foldlM_keeps P (fun b a b' => hpage b a.1 a.2 b') hcomponents hpages

end Sitewright.Project
