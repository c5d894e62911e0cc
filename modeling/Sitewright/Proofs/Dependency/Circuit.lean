import Mathlib.Data.List.Chain
import Sitewright.Proofs.Dependency.Cycle

/-!
What the search for an include cycle finds. By induction on its run a path that was found goes along includes and meets no
name twice. With `exists_findCycle` a component has a cycle exactly if it leads back to itself.
-/

namespace Sitewright.Index

open Relation (TransGen)

variable {index : Index} {goal : Text}
variable {path : List Text} {start : Text}

/-- The first component includes the second. -/
def Includes (index : Index) (name other : Text) : Prop :=
  index.Edge (.component name) (.component other)

/-- A chain of includes from a component back to itself. The names between its ends are different from each other and from
the component. -/
structure IsCircuit (index : Index) (start : Text) (path : List Text) : Prop where
  ends : ∃ between, path = start :: (between ++ [start]) ∧ between.Nodup ∧ start ∉ between
  linked : path.IsChain index.Includes

/-! ## Paths -/

/-- A path from one of some names to the goal. The names before the goal are different from it, from each other and from
those met before. -/
structure LeadsTo (index : Index) (goal : Text) (names visited path : List Text) : Prop where
  begins : ∃ first ∈ names, path.head? = some first
  ends : ∃ before, path = before ++ [goal] ∧ before.Nodup ∧ goal ∉ before ∧ ∀ name ∈ before, name ∉ visited
  linked : path.IsChain index.Includes

namespace LeadsTo

variable {names visited path : List Text}

theorem mono (h : LeadsTo index goal names visited path) {names' visited' : List Text} (hnames : names ⊆ names')
    (hvisited : visited' ⊆ visited) : LeadsTo index goal names' visited' path := by
  obtain ⟨⟨first, hfirst, hhead⟩, ⟨before, hpath, hnodup, hgoal, hnew⟩, hlinked⟩ := h
  refine ⟨⟨first, hnames hfirst, hhead⟩, ⟨before, hpath, hnodup, hgoal, ?_⟩, hlinked⟩
  exact fun name hname hmet => hnew name hname (hvisited hmet)

/-- The path below a name that was not met goes on from that name. -/
theorem cons {next : Text} (hgoal : next ≠ goal) (hnew : next ∉ visited)
    (h : LeadsTo index goal (index.included next) (next :: visited) path) :
    LeadsTo index goal [next] visited (next :: path) := by
  obtain ⟨⟨first, hfirst, hhead⟩, ⟨before, hpath, hnodup, hgoal', hbefore⟩, hlinked⟩ := h
  have hnext : next ∉ before := fun hmem => hbefore next hmem List.mem_cons_self
  refine ⟨⟨next, List.mem_cons_self, rfl⟩, ⟨next :: before, by rw [hpath, List.cons_append], ?_, ?_, ?_⟩, ?_⟩
  · exact List.nodup_cons.mpr ⟨hnext, hnodup⟩
  · exact List.not_mem_cons_of_ne_of_not_mem hgoal.symm hgoal'
  · refine List.forall_mem_cons.mpr ⟨hnew, fun name hname hmet => ?_⟩
    exact hbefore name hname (List.mem_cons_of_mem next hmet)
  · refine hlinked.cons fun other hother => ?_
    rw [hhead] at hother
    cases hother
    exact mem_included.mp hfirst

/-- A path from what a component includes back to the component is a circuit. -/
theorem isCircuit {start : Text} (h : LeadsTo index start (index.included start) visited path) :
    index.IsCircuit start (start :: path) := by
  obtain ⟨⟨first, hfirst, hhead⟩, ⟨between, hpath, hnodup, hstart, -⟩, hlinked⟩ := h
  refine ⟨⟨between, by rw [hpath], hnodup, hstart⟩, hlinked.cons fun other hother => ?_⟩
  rw [hhead] at hother
  cases hother
  exact mem_included.mp hfirst

end LeadsTo

/-- What a run finds is a path. The names of branches that were given up are not on it, as they were met before. -/
theorem Runs.leadsTo {names visited : List Text} {search : Search} (h : Runs index goal names visited search)
    (hpath : search.path = some path) : LeadsTo index goal names visited path := by
  induction h generalizing path with
  | exhausted => cases hpath
  | found rest visited =>
    cases hpath
    refine ⟨⟨goal, List.mem_cons_self, rfl⟩, ⟨[], rfl, List.nodup_nil, List.not_mem_nil, ?_⟩, .singleton goal⟩
    exact fun name hname => absurd hname List.not_mem_nil
  | known _ _ _ ih => exact (ih hpath).mono (List.subset_cons_self _ _) (List.Subset.refl _)
  | entered hgoal hnew _ ih =>
    cases hpath
    exact ((ih rfl).cons hgoal hnew).mono (by simp) (List.Subset.refl _)
  | abandoned _ _ hbelow _ _ ihrest =>
    exact (ihrest hpath).mono (List.subset_cons_self _ _) fun name hname =>
      hbelow.subset (List.mem_cons_of_mem _ hname)

theorem leadsTo_of_findCycle {cycle : List Text} (h : index.findCycle start = some cycle) :
    ∃ path, cycle = start :: path ∧ LeadsTo index start (index.included start) [] path := by
  obtain ⟨path, hpath, rfl⟩ := Option.map_eq_some_iff.mp h
  exact ⟨path, rfl, (runs_searchBelow (index.unvisited_lt_size_succ [])).leadsTo hpath⟩

theorem isCircuit_of_findCycle (h : index.findCycle start = some path) : index.IsCircuit start path := by
  obtain ⟨way, rfl, hway⟩ := leadsTo_of_findCycle h
  exact hway.isCircuit

theorem findCycle_second {cycle : List Text} (h : index.findCycle start = some cycle) :
    ∃ first ∈ index.included start, cycle[1]? = some first := by
  obtain ⟨path, rfl, hpath⟩ := leadsTo_of_findCycle h
  obtain ⟨first, hfirst, hhead⟩ := hpath.begins
  refine ⟨first, hfirst, ?_⟩
  rw [List.getElem?_cons_succ, ← List.head?_eq_getElem?, hhead]

theorem transGen_of_isChain {α : Type} {r : α → α → Prop} {first last : α} {between : List α}
    (h : (first :: (between ++ [last])).IsChain r) : TransGen r first last := by
  induction between generalizing first with
  | nil => exact .single (List.isChain_pair.mp h)
  | cons next between ih =>
    obtain ⟨hedge, hrest⟩ := List.isChain_cons_cons.mp h
    exact .head hedge (ih hrest)

theorem IsCircuit.transGen (h : index.IsCircuit start path) : TransGen index.Includes start start := by
  obtain ⟨⟨between, rfl, -, -⟩, hlinked⟩ := h
  exact transGen_of_isChain hlinked

/-- The search for a cycle ends, it finds one exactly if the component leads back to itself along includes, and what it
finds is a circuit. -/
theorem cycle_search_exact (index : Index) (start : Text) :
    (∃ search, Runs index start (index.included start) [] search ∧
      (∀ other, Runs index start (index.included start) [] other → other = search) ∧
      index.findCycle start = search.path.map (start :: ·)) ∧
    ((index.findCycle start).isSome = true ↔ TransGen index.Includes start start) ∧
    ∀ path, index.findCycle start = some path → index.IsCircuit start path := by
  have hrun : Runs index start (index.included start) [] _ :=
    runs_searchBelow (index.unvisited_lt_size_succ [])
  refine ⟨⟨_, hrun, fun other hother => hother.unique hrun, rfl⟩, ⟨fun hsome => ?_, fun hcycle => ?_⟩, ?_⟩
  · obtain ⟨path, hpath⟩ := Option.isSome_iff_exists.mp hsome
    exact (isCircuit_of_findCycle hpath).transGen
  · have hedges : TransGen index.Edge (.component start) (.component start) :=
      TransGen.lift TemplateId.component (fun _ _ hedge => hedge) _ _ hcycle
    exact Option.isSome_iff_exists.mpr (exists_findCycle hedges)
  · exact fun path hpath => isCircuit_of_findCycle hpath

/-- Two circles with one component in common, a name without an entry, and a page. -/
def tangled : Index :=
  let entry (names : List String) : Entry := ⟨∅, .ofList (names.map String.toList), ∅⟩
  ((((empty.record (.component "hub".toList) (entry ["aisle", "ward"])).record
    (.component "aisle".toList) (entry ["bay", "gone"])).record
    (.component "bay".toList) (entry ["aisle"])).record
    (.component "ward".toList) (entry ["hub"])).record (.page "/".toList) (entry ["hub"])

/-- The circle that the search gives up is no part of what it finds. -/
theorem cycle_search_exact_in_tangle :
    tangled.findCycle "hub".toList = some ["hub".toList, "ward".toList, "hub".toList] ∧
      tangled.IsCircuit "hub".toList ["hub".toList, "ward".toList, "hub".toList] ∧
      ¬TransGen tangled.Includes "gone".toList "gone".toList := by
  have hfound : tangled.findCycle "hub".toList = some ["hub".toList, "ward".toList, "hub".toList] := by decide
  have hnone : ¬(tangled.findCycle "gone".toList).isSome = true := by decide
  exact ⟨hfound, (cycle_search_exact tangled "hub".toList).2.2 _ hfound,
    fun hcycle => hnone ((cycle_search_exact tangled "gone".toList).2.1.mpr hcycle)⟩

end Sitewright.Index
