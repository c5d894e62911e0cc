import Sitewright.Proofs.Markup.Sound

/-!
The spans that reading gives are those of what was read: every text, every attribute and all content that is text has the
span of its place in the source (`allStand_parse`).
-/

namespace Sitewright.Markup

variable {source : Text} {node : Node}

/-! ## Forests -/

/-- A node that was read from the source. -/
def Node.Stands (source : Text) (node : Node) : Prop :=
  node.synthetic = false ∧
    match node.kind with
    | .text text => node.span.Selects source text
    | .element element => ∀ attr ∈ element.attributes, attr.Stands source
    | .comment _ | .declaration _ => True

theorem Node.Stands.attributes (h : node.Stands source) {element : Element}
    (helement : node.element? = some element) : ∀ attr ∈ element.attributes, attr.Stands source := by
  obtain ⟨-, hkind⟩ := h
  unfold Node.element? at helement
  split at helement
  next other hother =>
    cases helement
    rwa [hother] at hkind
  next => cases helement

/-- What stands below an element whose content is text: nothing, or that text. -/
def IsContent (element : Element) (below : Forest Node) : Prop :=
  below = .nil ∨ ∃ text, below = .tree ⟨.text text, element.content, false⟩ .nil

/-- Nodes that were read from the source. -/
def AllStand (source : Text) : Forest Node → Prop
  | .nil => True
  | .cons node below after =>
    node.Stands source ∧
      (∀ element ∈ node.element?, rawElements.contains element.name = true → IsContent element below) ∧
      AllStand source below ∧ AllStand source after

theorem allStand_append {f g : Forest Node} (hf : AllStand source f) (hg : AllStand source g) :
    AllStand source (f ++ g) := by
  induction f with
  | nil => exact hg
  | cons node below after _ ih => exact ⟨hf.1, hf.2.1, hf.2.2.1, ih hf.2.2.2⟩

theorem allStand_leaf (h : node.Stands source) : AllStand source (.tree node .nil) :=
  ⟨h, fun _ _ _ => .inl rfl, trivial, trivial⟩

theorem stands_of_mem_preorder {forest : Forest Node} (h : AllStand source forest)
    (hnode : node ∈ forest.preorder) : node.Stands source := by
  induction forest with
  | nil => cases hnode
  | cons first below after ihbelow ihafter =>
    obtain ⟨hfirst, -, hbelow, hafter⟩ := h
    simp only [Forest.preorder, List.mem_cons, List.mem_append] at hnode
    rcases hnode with rfl | hnode | hnode
    · exact hfirst
    · exact ihbelow hbelow hnode
    · exact ihafter hafter hnode

/-- An element that is open has more than text in it. -/
theorem isKept_allStand (source : Text) :
    IsKept (AllStand source) fun element =>
      (∀ attr ∈ element.attributes, attr.Stands source) ∧ rawElements.contains element.name = false where
  nil := trivial
  append := allStand_append
  close := by
    intro element inside helement hinside contentStop start stop
    refine ⟨⟨rfl, helement.1⟩, fun other hother hraw => ?_, hinside, trivial⟩
    cases hother
    rw [helement.2] at hraw
    cases hraw

theorem Token.Stands.gives {token : Token} (h : token.Stands source) (hsound : token.IsSound) :
    token.Gives (AllStand source) fun element =>
      (∀ attr ∈ element.attributes, attr.Stands source) ∧ rawElements.contains element.name = false := by
  cases token with
  | text written span => exact allStand_leaf ⟨rfl, h⟩
  | comment written span => exact allStand_leaf ⟨rfl, trivial⟩
  | declaration written span => exact allStand_leaf ⟨rfl, trivial⟩
  | opening element span => exact ⟨h, hsound.2⟩
  | complete element span content =>
    cases content with
    | none => exact allStand_leaf ⟨rfl, h.1⟩
    | some content =>
      refine ⟨⟨rfl, h.1⟩, fun other hother _ => ?_, allStand_leaf ⟨rfl, h.2 content rfl⟩, trivial⟩
      cases hother
      exact .inr ⟨content, rfl⟩
  | closing name span => trivial

theorem Tokenized.stands {start : Nat} {text : Text} {all : List (Token × List Problem)}
    (hall : Tokenized start text all) (h : source.StandsFrom text start) {scanned : Token × List Problem}
    (hscanned : scanned ∈ all) : scanned.1.Stands source := by
  induction hall with
  | nil => cases hscanned
  | cons _ ih =>
    have hfirst := stands_scanToken h
    rcases List.mem_cons.mp hscanned with rfl | hscanned
    · exact hfirst.result.stands
    · exact ih hfirst.rest hscanned

/-- All that is read off a source stands there. -/
theorem allStand_parse (source : Text) : AllStand source (parse source).1 :=
  parse_of_tokens (isKept_allStand source) fun _ hscanned =>
    ((tokenized_tokens source).stands source.standsFrom_zero hscanned).gives
      ((tokenized_tokens source).isSound hscanned)

end Sitewright.Markup
