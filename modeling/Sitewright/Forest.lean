/-!
Forests: the nested blocks of a style sheet and the nodes of a document. A forest is empty, or it is a
first tree (a label and the forest below it) followed by the trees after it; recursion on it goes down
and across at once.

`preorder` lists the labels in document order, and `number` counts them in that order, so that a
numbered forest has its numbers one after another.
-/

namespace Sitewright

/-- A list of trees with labels of type `α`. -/
inductive Forest (α : Type) where
  | nil
  /-- A tree with a label and the forest below it, then the trees after it. -/
  | cons (label : α) (below : Forest α) (after : Forest α)
  deriving DecidableEq, Repr

namespace Forest

variable {α β : Type}

instance : Inhabited (Forest α) := ⟨nil⟩

def tree (label : α) (below : Forest α) : Forest α :=
  cons label below nil

def append : Forest α → Forest α → Forest α
  | nil, other => other
  | cons label below after, other => cons label below (append after other)

instance : Append (Forest α) := ⟨append⟩

def size : Forest α → Nat
  | nil => 0
  | cons _ below after => size below + size after + 1

/-- The labels in document order: a label, those below it, those after it. -/
def preorder : Forest α → List α
  | nil => []
  | cons label below after => label :: (preorder below ++ preorder after)

/-- The labels of the trees themselves, without those below them. -/
def roots : Forest α → List α
  | nil => []
  | cons label _ after => label :: roots after

/-- The trees, each with its label and the forest below it. -/
def trees : Forest α → List (α × Forest α)
  | nil => []
  | cons label below after => (label, below) :: trees after

def map (f : α → β) : Forest α → Forest β
  | nil => nil
  | cons label below after => cons (f label) (map f below) (map f after)

/-- The forest with its labels numbered in document order, beginning at `start`. -/
def number (start : Nat) : Forest α → Forest (Nat × α)
  | nil => nil
  | cons label below after =>
    cons (start, label) (number (start + 1) below) (number (start + 1 + size below) after)

/-- One label of a numbered forest with its number, its parent's and its children's. -/
structure Row (α : Type) where
  id : Nat
  parent : Nat
  children : List Nat
  label : α
  deriving DecidableEq, Repr

/-- The rows of a numbered forest that stands below `parent`, in document order. -/
def rows (parent : Nat) : Forest (Nat × α) → List (Row α)
  | nil => []
  | cons (id, label) below after =>
    ⟨id, parent, below.roots.map Prod.fst, label⟩ :: (rows id below ++ rows parent after)

def below? (id : Nat) : Forest (Nat × α) → Option (Forest (Nat × α))
  | nil => none
  | cons label below after =>
    if label.1 = id then some below else (below.below? id).or (after.below? id)

def replaceBelow (id : Nat) (new : Forest (Nat × α)) : Forest (Nat × α) → Forest (Nat × α)
  | nil => nil
  | cons label below after =>
    if label.1 = id then cons label new after
    else cons label (replaceBelow id new below) (replaceBelow id new after)

/-! ## Small facts -/

@[simp] theorem nil_append (f : Forest α) : nil ++ f = f := rfl

@[simp] theorem cons_append (label : α) (below after f : Forest α) :
    cons label below after ++ f = cons label below (after ++ f) := rfl

@[simp] theorem append_nil (f : Forest α) : f ++ nil = f := by
  induction f with
  | nil => rfl
  | cons label below after _ ih => rw [cons_append, ih]

theorem append_assoc (f g h : Forest α) : f ++ g ++ h = f ++ (g ++ h) := by
  induction f with
  | nil => rfl
  | cons label below after _ ih => simp only [cons_append, ih]

@[simp] theorem size_append (f g : Forest α) : (f ++ g).size = f.size + g.size := by
  induction f with
  | nil => simp [size]
  | cons label below after _ ih => simp only [cons_append, size, ih]; omega

@[simp] theorem preorder_append (f g : Forest α) : (f ++ g).preorder = f.preorder ++ g.preorder := by
  induction f with
  | nil => rfl
  | cons label below after _ ih => simp [preorder, ih]

theorem preorder_map (h : α → β) (f : Forest α) : (f.map h).preorder = f.preorder.map h := by
  induction f with
  | nil => rfl
  | cons label below after ihb iha => simp only [map, preorder, ihb, iha, List.map_cons, List.map_append]

@[simp] theorem length_preorder (f : Forest α) : f.preorder.length = f.size := by
  induction f with
  | nil => rfl
  | cons label below after ihb iha => simp [preorder, size, ihb, iha]

@[simp] theorem size_map (h : α → β) (f : Forest α) : (f.map h).size = f.size := by
  induction f with
  | nil => rfl
  | cons label below after ihb iha => simp [map, size, ihb, iha]

@[simp] theorem size_number (start : Nat) (f : Forest α) : (f.number start).size = f.size := by
  induction f generalizing start with
  | nil => rfl
  | cons label below after ihb iha => simp [number, size, ihb, iha]

@[simp] theorem map_snd_number (start : Nat) (f : Forest α) : (f.number start).map Prod.snd = f := by
  induction f generalizing start with
  | nil => rfl
  | cons label below after ihb iha => simp only [number, map, ihb, iha]

/-- A numbered forest counts up in document order. -/
theorem preorder_number (start : Nat) (f : Forest α) :
    (f.number start).preorder.map Prod.fst = List.range' start f.size := by
  induction f generalizing start with
  | nil => rfl
  | cons label below after ihb iha =>
    simp only [number, preorder, List.map_cons, List.map_append, ihb, iha, size]
    rw [List.range'_succ, List.cons_inj_right]
    exact List.range'_append_1

theorem number_append (start : Nat) (f g : Forest α) :
    (f ++ g).number start = f.number start ++ g.number (start + f.size) := by
  induction f generalizing start with
  | nil => rfl
  | cons label below after _ ih =>
    simp only [cons_append, number, ih, size]
    congr 3
    omega

end Forest

end Sitewright
