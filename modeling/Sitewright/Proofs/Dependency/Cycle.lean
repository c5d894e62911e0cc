import Sitewright.Proofs.Dependency.Reachability

/-!
The search for an include cycle. It keeps the names it has met, and it stops at a depth. `Runs` is the search
without a bound on its depth. Every level meets a new name with an entry, so a search at least as deep as there
are entries is such a run and never cut off (`runs_searchBelow`). By induction on the run a search reads
nothing but the entries of the names that can be reached from its start, and a name that was given up cannot
lead to the goal (`Explored`).
-/

namespace Sitewright.Index

open Relation (TransGen ReflTransGen)

variable {index index' : Index} {goal : Text}
variable {name : Text} {names visited : List Text} {search : Search}

/-- The number of components with an entry that were not met. -/
def unvisited (index : Index) (visited : List Text) : Nat :=
  index.recorded fun name => !visited.contains name

theorem unvisited_le_of_subset (index : Index) {visited' : List Text} (h : visited ⊆ visited') :
    index.unvisited visited' ≤ index.unvisited visited := by
  apply recorded_mono
  intro name hname
  rw [Bool.not_eq_true', List.contains_eq_mem, decide_eq_false_iff_not] at hname ⊢
  exact fun hmem => hname (h hmem)

theorem unvisited_cons_lt {entry : Entry}
    (hentry : index.entry? (.component name) = some entry) (hname : name ∉ visited) :
    index.unvisited (name :: visited) < index.unvisited visited := by
  refine recorded_lt ?_ hentry (by simp) (by simpa using hname)
  intro other hother
  rw [Bool.not_eq_true', List.contains_eq_mem, decide_eq_false_iff_not] at hother ⊢
  exact fun hmem => hother (List.mem_cons_of_mem name hmem)

theorem unvisited_lt_size_succ (index : Index) (visited : List Text) :
    index.unvisited visited < index.entries.size + 1 :=
  Nat.lt_succ_of_le (index.recorded_le _)

/-- Below a name that includes nothing there is nothing to find, at any depth. -/
theorem searchBelow_of_included_nil {depth : Nat}
    (h : index.included name = []) : index.searchBelow goal depth name visited = ⟨visited, none⟩ := by
  cases depth with
  | zero => rfl
  | succ depth => rw [searchBelow, h, searchList]

/-! ## Runs -/

/-- The search below names one after another, to any depth. -/
inductive Runs (index : Index) (goal : Text) : List Text → List Text → Search → Prop
  | exhausted (visited : List Text) : Runs index goal [] visited ⟨visited, none⟩
  | found (rest visited : List Text) : Runs index goal (goal :: rest) visited ⟨visited, some [goal]⟩
  | known {next : Text} {rest visited : List Text} {search : Search} (hgoal : next ≠ goal) (hmet : next ∈ visited)
      (hrest : Runs index goal rest visited search) : Runs index goal (next :: rest) visited search
  | entered {next : Text} {rest visited met path : List Text} (hgoal : next ≠ goal) (hnew : next ∉ visited)
      (hbelow : Runs index goal (index.included next) (next :: visited) ⟨met, some path⟩) :
    Runs index goal (next :: rest) visited ⟨met, some (next :: path)⟩
  | abandoned {next : Text} {rest visited met : List Text} {search : Search} (hgoal : next ≠ goal)
      (hnew : next ∉ visited) (hbelow : Runs index goal (index.included next) (next :: visited) ⟨met, none⟩)
      (hrest : Runs index goal rest met search) : Runs index goal (next :: rest) visited search

theorem Runs.subset (h : Runs index goal names visited search) : visited ⊆ search.visited := by
  induction h with
  | exhausted | found => exact List.Subset.refl _
  | known _ _ _ ih => exact ih
  | entered _ _ _ ih => exact fun name hname => ih (List.mem_cons_of_mem _ hname)
  | abandoned _ _ _ _ ihbelow ihrest => exact fun name hname => ihrest (ihbelow (List.mem_cons_of_mem _ hname))

theorem runs_searchList {below : Text → List Text → Search} (h : ∀ next ∈ names, ∀ met, visited ⊆ met → next ∉ met →
      Runs index goal (index.included next) (next :: met) (below next (next :: met))) :
    Runs index goal names visited (searchList goal below names visited) := by
  induction names generalizing visited with
  | nil => exact .exhausted visited
  | cons next rest ih =>
    obtain ⟨hnext, hrest⟩ := List.forall_mem_cons.mp h
    simp only [searchList]
    split
    next hgoal =>
      subst hgoal
      exact .found rest visited
    next hgoal =>
      split
      next hmet => exact .known hgoal (by simpa using hmet) (ih hrest)
      next hmet =>
        have hnew : next ∉ visited := by simpa using hmet
        have hrun := hnext visited (List.Subset.refl visited) hnew
        generalize below next (next :: visited) = search at hrun ⊢
        obtain ⟨met, path⟩ := search
        cases path with
        | some path => exact .entered hgoal hnew hrun
        | none =>
          refine .abandoned hgoal hnew hrun (ih fun other hother later hlater => ?_)
          exact hrest other hother later fun name hname => hlater (hrun.subset (List.mem_cons_of_mem next hname))

/-- A search that may go deeper than there are names to meet runs to its end. -/
theorem runs_searchBelow {depth : Nat} (hdepth : index.unvisited visited < depth) :
    Runs index goal (index.included name) visited (index.searchBelow goal depth name visited) := by
  induction depth generalizing name visited with
  | zero => omega
  | succ depth ih =>
    refine runs_searchList ?_
    intro next _ met hmet hnew
    cases hentry : index.entry? (.component next) with
    | none =>
      -- nothing is below a name without an entry, so the bound may be reached here
      have hnil := included_eq_nil hentry
      rw [searchBelow_of_included_nil hnil, hnil]
      exact .exhausted _
    | some entry =>
      have hlt := unvisited_cons_lt hentry hnew
      have hle := index.unvisited_le_of_subset hmet
      exact ih (by omega)

/-- A run has one end only. -/
theorem Runs.unique {other : Search} (h : Runs index goal names visited search)
    (hother : Runs index goal names visited other) : search = other := by
  induction h generalizing other with
  | exhausted => cases hother; rfl
  | found =>
    cases hother with
    | found => rfl
    | known hgoal | entered hgoal | abandoned hgoal => exact absurd rfl hgoal
  | known hgoal hmet _ ih =>
    cases hother with
    | found => exact absurd rfl hgoal
    | known _ _ hrest => exact ih hrest
    | entered _ hnew | abandoned _ hnew => exact absurd hmet hnew
  | entered hgoal hnew _ ih =>
    cases hother with
    | found => exact absurd rfl hgoal
    | known _ hmet => exact absurd hmet hnew
    | entered _ _ hbelow => cases ih hbelow; rfl
    | abandoned _ _ hbelow => cases ih hbelow
  | abandoned hgoal hnew _ _ ihbelow ihrest =>
    cases hother with
    | found => exact absurd rfl hgoal
    | known _ hmet => exact absurd hmet hnew
    | entered _ _ hbelow => cases ihbelow hbelow
    | abandoned _ _ hbelow hrest =>
      cases ihbelow hbelow
      exact ihrest hrest

/-! ## What a search reads -/

/-- A run reads the entries of the names that its names lead to. -/
theorem Runs.congr (h : Runs index goal names visited search)
    (hsame : ∀ name ∈ names, ∀ other, ReflTransGen index.Edge (.component name) (.component other) →
      index.included other = index'.included other) : Runs index' goal names visited search := by
  have hnext {next : Text} {rest : List Text} (hsame : ∀ name ∈ next :: rest, ∀ other,
      ReflTransGen index.Edge (.component name) (.component other) → index.included other = index'.included other) :
      ∀ name ∈ index.included next, ∀ other, ReflTransGen index.Edge (.component name) (.component other) →
        index.included other = index'.included other := fun name hname other hpath =>
    hsame next List.mem_cons_self other (.head (mem_included.mp hname) hpath)
  induction h with
  | exhausted visited => exact .exhausted visited
  | found rest visited => exact .found rest visited
  | known hgoal hmet _ ih => exact .known hgoal hmet (ih fun name hname => hsame name (List.mem_cons_of_mem _ hname))
  | entered hgoal hnew _ ih =>
    exact .entered hgoal hnew (hsame _ List.mem_cons_self _ .refl ▸ ih (hnext hsame))
  | abandoned hgoal hnew _ _ ihbelow ihrest =>
    exact .abandoned hgoal hnew (hsame _ List.mem_cons_self _ .refl ▸ ihbelow (hnext hsame))
      (ihrest fun name hname => hsame name (List.mem_cons_of_mem _ hname))

/-- The cycle of a component depends on nothing but the entries that the component leads to. -/
theorem findCycle_congr {start : Text}
    (h : ∀ other, ReflTransGen index.Edge (.component start) (.component other) →
      index.included other = index'.included other) :
    index.findCycle start = index'.findCycle start := by
  have hrun : Runs index start (index.included start) [] _ := runs_searchBelow (index.unvisited_lt_size_succ [])
  have hrun' : Runs index' start (index'.included start) [] _ :=
    runs_searchBelow (index'.unvisited_lt_size_succ [])
  rw [← h start .refl] at hrun'
  have hread := hrun.congr fun name hname other hpath => h other (.head (mem_included.mp hname) hpath)
  rw [findCycle, findCycle, hread.unique hrun']

/-! ## What a search gives up -/

/-- A search that found nothing below `names` met all of them, and it met everything that the names it
newly met include. The goal was not among them. -/
structure Explored (index : Index) (goal : Text) (names before after : List Text) : Prop where
  listed : ∀ name ∈ names, name ≠ goal ∧ name ∈ after
  below : ∀ name ∈ after, name ∉ before → ∀ other ∈ index.included name, other ≠ goal ∧ other ∈ after

theorem Runs.explored (h : Runs index goal names visited search)
    (hnone : search.path = none) : Explored index goal names visited search.visited := by
  induction h with
  | exhausted => exact ⟨fun _ hname => absurd hname List.not_mem_nil, fun _ hname hnot => absurd hname hnot⟩
  | found | entered => cases hnone
  | known hgoal hmet hrest ih =>
    obtain ⟨hlisted, hclosed⟩ := ih hnone
    exact ⟨List.forall_mem_cons.mpr ⟨⟨hgoal, hrest.subset hmet⟩, hlisted⟩, hclosed⟩
  | @abandoned next rest visited met search hgoal hnew hbelow hrest ihbelow ihrest =>
    obtain ⟨hlisted, hclosed⟩ := ihrest hnone
    have hfirst := ihbelow rfl
    have hnext : next ∈ search.visited := hrest.subset (hbelow.subset List.mem_cons_self)
    refine ⟨List.forall_mem_cons.mpr ⟨⟨hgoal, hnext⟩, hlisted⟩, fun name hname hfresh other hother => ?_⟩
    by_cases hearly : name ∈ met
    · have hearlier : other ≠ goal ∧ other ∈ met := by
        by_cases hname' : name = next
        · subst hname'
          exact hfirst.listed other hother
        · exact hfirst.below name hearly (by simp [hname', hfresh]) other hother
      exact ⟨hearlier.1, hrest.subset hearlier.2⟩
    · exact hclosed name hname hearly other hother

/-- What was explored from the start is closed under includes and does not contain the goal. -/
theorem Explored.of_path {after : List Text}
    (h : Explored index goal (index.included name) [] after) {id : TemplateId}
    (hpath : TransGen index.Edge (.component name) id) :
    ∃ other, id = .component other ∧ other ≠ goal ∧ other ∈ after := by
  induction hpath with
  | single hedge =>
    obtain ⟨entry, other, hentry, hmem, rfl⟩ := hedge
    obtain ⟨hne, hafter⟩ := h.listed other (mem_included.mpr (edge_component.mpr ⟨entry, hentry, hmem⟩))
    exact ⟨other, rfl, hne, hafter⟩
  | tail _ hedge ih =>
    obtain ⟨mid, rfl, -, hmid⟩ := ih
    obtain ⟨entry, other, hentry, hmem, rfl⟩ := hedge
    obtain ⟨hne, hafter⟩ := h.below mid hmid List.not_mem_nil other
      (mem_included.mpr (edge_component.mpr ⟨entry, hentry, hmem⟩))
    exact ⟨other, rfl, hne, hafter⟩

/-- A component that leads back to itself has a cycle. -/
theorem exists_findCycle {start : Text}
    (h : TransGen index.Edge (.component start) (.component start)) :
    ∃ cycle, index.findCycle start = some cycle := by
  rw [findCycle]
  cases hsearch : (index.searchBelow start (index.entries.size + 1) start []).path with
  | some path => exact ⟨start :: path, rfl⟩
  | none =>
    obtain ⟨other, heq, hne, -⟩ :=
      ((runs_searchBelow (index.unvisited_lt_size_succ [])).explored hsearch).of_path h
    cases heq
    exact absurd rfl hne

end Sitewright.Index
