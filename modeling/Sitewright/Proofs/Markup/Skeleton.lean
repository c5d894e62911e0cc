import Sitewright.Markup.Document
import Sitewright.Proofs.Markup.Shapes

/-!
The skeleton of a forest: its elements with the names of their attributes. The open elements of a source
have skeletons too, and a token changes them only by its shape. So the skeleton of what is read off a
source depends on the shapes of its tags and on nothing else (`skeleton_parse`).
-/

namespace Sitewright.Markup

/-- The name of an element and the names of its attributes. -/
def Element.label (element : Element) : Text × List Text :=
  (element.name, element.names)

/-- The elements of a forest. -/
def skeleton : Forest Node → Forest (Text × List Text)
  | .nil => .nil
  | .cons node below after =>
    match node.element? with
    | some element => .cons element.label (skeleton below) (skeleton after)
    | none => skeleton below ++ skeleton after

@[simp] theorem skeleton_append (f g : Forest Node) : skeleton (f ++ g) = skeleton f ++ skeleton g := by
  induction f with
  | nil => rfl
  | cons node below after _ ih =>
    rw [Forest.cons_append, skeleton, skeleton]
    cases node.element? with
    | some element => simp only [ih, Forest.cons_append]
    | none => simp only [ih, Forest.append_assoc]

/-- In document order the skeleton has the elements of the forest. -/
theorem preorder_skeleton (f : Forest Node) :
    (skeleton f).preorder = f.preorder.filterMap fun node => node.element?.map Element.label := by
  induction f with
  | nil => rfl
  | cons node below after ihbelow ihafter =>
    rw [skeleton]
    cases helement : node.element? with
    | some element =>
      simp only [Forest.preorder, ihbelow, ihafter, List.filterMap_cons, helement, Option.map_some,
        List.filterMap_append]
    | none =>
      simp only [Forest.preorder, Forest.preorder_append, ihbelow, ihafter, List.filterMap_cons, helement,
        Option.map_none, List.filterMap_append]

/-! ## Reading shapes -/

/-- The skeletons of a source read up to some tag. -/
structure Sketch where
  /-- The complete elements at the top level. -/
  top : Forest (Text × List Text)
  /-- The open elements, innermost first, with the elements they have so far. -/
  elements : List ((Text × List Text) × Forest (Text × List Text))

namespace Sketch

/-- Adds elements to the innermost open one. -/
def attach (sketch : Sketch) (new : Forest (Text × List Text)) : Sketch :=
  match sketch.elements with
  | [] => { sketch with top := sketch.top ++ new }
  | inner :: outer => { sketch with elements := (inner.1, inner.2 ++ new) :: outer }

/-- Closes the innermost open element. -/
def close (sketch : Sketch) : Sketch :=
  match sketch.elements with
  | [] => sketch
  | inner :: outer => attach { sketch with elements := outer } (.tree inner.1 inner.2)

/-- Closes the `n` innermost open elements. -/
def closeMany : Nat → Sketch → Sketch
  | 0, sketch => sketch
  | n + 1, sketch => closeMany n sketch.close

/-- Closes the innermost open element of a name, if there is one. -/
def closeTag (sketch : Sketch) (name : Text) : Sketch :=
  let inner := sketch.elements.takeWhile fun opened => opened.1.1 != name
  if isVoid name || inner.length = sketch.elements.length then sketch
  else (closeMany inner.length sketch).close

/-- Reads the shape of a tag. -/
def step (sketch : Sketch) : Shape → Sketch
  | .opening name names => { sketch with elements := ((name, names), .nil) :: sketch.elements }
  | .complete name names => sketch.attach (.tree (name, names) .nil)
  | .closing name => sketch.closeTag name

/-- The skeleton of a whole source. -/
def read (shapes : List Shape) : Forest (Text × List Text) :=
  let sketch := shapes.foldl step ⟨.nil, []⟩
  (closeMany sketch.elements.length sketch).top

end Sketch

/-! ## Reading sources -/

/-- The skeletons of an open element and of what it has so far. -/
def OpenElement.sketch (opened : OpenElement) : (Text × List Text) × Forest (Text × List Text) :=
  (opened.element.label, skeleton opened.inside)

namespace Building

variable (building : Building)

/-- The skeletons of all that was read. -/
def sketch : Sketch :=
  ⟨skeleton building.top, building.elements.map OpenElement.sketch⟩

@[simp] theorem sketch_report (problems : List Problem) : (building.report problems).sketch = building.sketch :=
  rfl

@[simp] theorem sketch_attach (nodes : Forest Node) :
    (building.attach nodes).sketch = building.sketch.attach (skeleton nodes) := by
  obtain ⟨top, elements, problems⟩ := building
  cases elements with
  | nil => simp only [attach, sketch, skeleton_append, Sketch.attach, List.map_nil]
  | cons inner outer =>
    simp only [attach, sketch, Sketch.attach, List.map_cons, OpenElement.sketch, skeleton_append]

@[simp] theorem sketch_close (contentStop stop : Nat) :
    (building.close contentStop stop).sketch = building.sketch.close := by
  obtain ⟨top, elements, problems⟩ := building
  cases elements with
  | nil => rfl
  | cons inner outer =>
    simp only [close, sketch_attach]
    rfl

@[simp] theorem sketch_closeMany (stop count : Nat) :
    (closeMany stop count building).sketch = building.sketch.closeMany count := by
  induction count generalizing building with
  | zero => rfl
  | succ count ih =>
    have hone : (closeImplicitly stop building).sketch = building.sketch.close := by
      rw [closeImplicitly]
      split
      next hnone => simp only [sketch, Sketch.close, hnone, List.map_nil]
      next => rw [sketch_report, sketch_close]
    rw [closeMany, ih, hone, Sketch.closeMany]

theorem length_sketch : building.sketch.elements.length = building.elements.length :=
  List.length_map _

theorem sketch_closeTag (name : Text) (span : ByteSpan) :
    (building.closeTag name span).sketch = building.sketch.closeTag name := by
  have hinner : (building.sketch.elements.takeWhile fun opened => opened.1.1 != name).length =
      (building.elements.takeWhile fun opened => opened.element.name != name).length := by
    rw [sketch, List.takeWhile_map, List.length_map]
    rfl
  simp only [closeTag, Sketch.closeTag, hinner, length_sketch]
  by_cases hvoid : isVoid name = true
  · rw [if_pos hvoid, hvoid, Bool.true_or, if_pos rfl]
  · rw [if_neg hvoid, Bool.eq_false_iff.mpr hvoid, Bool.false_or]
    split
    next hall => rw [if_pos (decide_eq_true hall), sketch_report]
    next hsome => rw [if_neg (by rwa [decide_eq_true_eq]), sketch_close, sketch_closeMany]

/-- A token changes the skeletons by its shape. -/
theorem sketch_step (scanned : Token × List Problem) :
    (building.step scanned).sketch = scanned.1.shape?.toList.foldl Sketch.step building.sketch := by
  obtain ⟨token, problems⟩ := scanned
  have hleaf (kind : NodeKind) (span : ByteSpan) (below : Forest Node) :
      ((building.report problems).attach (.tree ⟨kind, span, false⟩ below)).sketch =
        building.sketch.attach (skeleton (.tree ⟨kind, span, false⟩ below)) := by
    rw [sketch_attach, sketch_report]
  have hnone : building.sketch.attach .nil = building.sketch := by
    rw [Sketch.attach]
    split
    next => rw [Forest.append_nil]
    next inner outer heq => rw [Forest.append_nil, ← heq]
  cases token with
  | text written span => exact (hleaf _ _ _).trans hnone
  | comment written span => exact (hleaf _ _ _).trans hnone
  | declaration written span => exact (hleaf _ _ _).trans hnone
  | opening element span => rfl
  | complete element span content =>
    cases content with
    | none => exact hleaf _ _ _
    | some content => exact hleaf _ _ _
  | closing name span => exact (building.report problems).sketch_closeTag name span

theorem sketch_foldl (scans : List (Token × List Problem)) :
    (scans.foldl step building).sketch =
      (scans.filterMap fun scanned => scanned.1.shape?).foldl Sketch.step building.sketch := by
  induction scans generalizing building with
  | nil => rfl
  | cons scanned scans ih =>
    rw [List.foldl_cons, ih, sketch_step, List.filterMap_cons]
    cases scanned.1.shape? <;> rfl

end Building

/-- The skeleton of what is read depends on the shapes of the tags only. -/
theorem skeleton_parse (source : Text) : skeleton (parse source).1 = Sketch.read (shapes source) := by
  have hread := Building.sketch_foldl .start (tokens source)
  show (Building.finish _ _).sketch.top = _
  rw [Building.finish, Building.sketch_closeMany, ← Building.length_sketch, hread]
  rfl

namespace Document

/-- The elements of a document. -/
def skeleton (document : Document) : Forest (Text × List Text) :=
  Markup.skeleton (document.forest.map Prod.snd)

/-- The elements of a document in document order, each with the names of its attributes. -/
def labels (document : Document) : List (Text × List Text) :=
  document.nodes.filterMap fun entry => entry.2.element?.map Element.label

theorem labels_eq (document : Document) : document.labels = document.skeleton.preorder := by
  rw [skeleton, preorder_skeleton, Forest.preorder_map, List.filterMap_map]
  rfl

theorem skeleton_parse (source : Text) : (parse source).1.skeleton = Sketch.read (shapes source) := by
  rw [← Markup.skeleton_parse, skeleton]
  show Markup.skeleton (((Markup.parse source).1.number 1).map Prod.snd) = _
  rw [Forest.map_snd_number]

end Document

end Sitewright.Markup
