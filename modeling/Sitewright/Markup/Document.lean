import Sitewright.Error
import Sitewright.Markup.Parser

/-!
Documents: the nodes of a source under their numbers. Node zero is the document itself, and a document
as read has its other nodes numbered in document order. Replacing what stands below a node numbers the
new nodes on from there; the replaced nodes keep their numbers and can still be asked for, but they are
below nothing any more.
-/

namespace Sitewright.Markup

structure Document where
  /-- The bytes of the source. -/
  span : ByteSpan
  /-- The nodes at the top level and all below them. -/
  forest : Forest (Nat × Node)
  /-- Nodes that were replaced, with the number of the node they were below. -/
  retired : List (Nat × Forest (Nat × Node))
  /-- The number of the next new node. -/
  next : Nat
  deriving DecidableEq, Repr

namespace Document

def ofForest (length : Nat) (nodes : Forest Node) : Document :=
  ⟨⟨0, length⟩, nodes.number 1, [], nodes.size + 1⟩

def parse (source : Text) : Document × List Problem :=
  let (nodes, problems) := Markup.parse source
  (ofForest (Text.byteSize source) nodes, problems)

/-- The row of every node but zero, in no particular order. -/
def rowsUnordered (document : Document) : List (Forest.Row Node) :=
  document.forest.rows 0 ++ document.retired.flatMap fun (parent, nodes) => nodes.rows parent

def row? (document : Document) (id : Nat) : Option (Forest.Row Node) :=
  document.rowsUnordered.find? fun row => row.id = id

def rows (document : Document) : List (Forest.Row Node) :=
  (List.range document.next).filterMap document.row?

def children (document : Document) (id : Nat) : List Nat :=
  if id = 0 then document.forest.roots.map Prod.fst
  else ((document.row? id).map Forest.Row.children).getD []

def element? (document : Document) (id : Nat) : Except Error Element :=
  match (document.row? id).bind fun row => row.label.element? with
  | some element => .ok element
  | none => .error (.notAnElement id)

def below (document : Document) (id : Nat) : Forest (Nat × Node) :=
  if id = 0 then document.forest
  else
    ((document.forest :: document.retired.map Prod.snd).findSome? (Forest.below? id)).getD .nil

def nodes (document : Document) : List (Nat × Node) :=
  document.forest.preorder

def elementsNamed (document : Document) (name : Text) : List Nat :=
  (document.nodes.filter fun entry => entry.2.isElement name).map Prod.fst

/-- Puts nodes below a node in place of those there. The new nodes are marked as made from what stands
at `span`. -/
def replaceChildren (document : Document) (id : Nat) (nodes : Forest Node) (span : ByteSpan) :
    Document :=
  let new := (nodes.map (Node.synthesized span)).number document.next
  let old := (id, document.below id)
  if id = 0 then
    { document with
      forest := new, retired := document.retired ++ [old], next := document.next + nodes.size }
  else
    { document with
      forest := Forest.replaceBelow id new document.forest
      retired := (document.retired.map fun (parent, nodes) => (parent, Forest.replaceBelow id new nodes))
        ++ [old]
      next := document.next + nodes.size }

end Document

end Sitewright.Markup
