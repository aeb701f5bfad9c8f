/-
# XML trees

The trees of the XML library, as far as the program looks at them: elements with a
name, attributes and children, and nodes of other types between them.

The program holds pointers to nodes, and from such a pointer the library reaches more
than the node itself: the siblings behind it, and those behind the nodes that it is in.
A pointer is therefore a place in the document (`XmlPlace`).  How the library searches
from a place is not the program's to say: `mxmlFindElement` with `MXML_DESCEND_FIRST`
is a parameter of all that uses it, and `XmlPlace.findFirst` is what the library
answers.
-/

import RrLauncher.Lib.CStr

namespace RrLauncher

/-- `mxml_node_t`: an element, or a node of another type, such as the blanks between two
elements, of which the program looks at the type only. -/
inductive XmlNode
  | element (name : CStr) (attrs : List (CStr × CStr)) (children : List XmlNode)
  | other

namespace XmlNode

/-- `mxmlGetType(node) == MXML_ELEMENT`, which the loops of the program ask of each node
before they look at its name or its attributes. -/
def isElement : XmlNode → Bool
  | element .. => true
  | other => false

/-- `strcmp(mxmlGetElement(node), name) == 0`, where a node that is no element has no
name. -/
def isNamed (name : CStr) : XmlNode → Bool
  | element n .. => n = name
  | other => false

/-- `mxmlElementGetAttr`: the value of the first attribute with the name, and `none` for
the null pointer where the element has no such attribute. -/
def attr (name : CStr) : XmlNode → Option CStr
  | element _ attrs _ => (attrs.find? fun a => a.1 = name).map Prod.snd
  | other => none

/-- The children of a node, in the order of the document; only elements have any. -/
def children : XmlNode → List XmlNode
  | element _ _ children => children
  | other => []

/-- The children of a node from the first one with a name on: what a loop goes over that
begins at this child and goes on with `mxmlGetNextSibling`. -/
def childrenFrom (node : XmlNode) (name : CStr) : List XmlNode :=
  node.children.dropWhile fun child => !child.isNamed name

/-- A node with a name is an element, so the loops that ask for both ask for the name. -/
theorem isElement_of_isNamed {name : CStr} {node : XmlNode} (h : node.isNamed name = true) :
    node.isElement = true := by
  cases node with
  | element => rfl
  | other => cases h

/-- Of the children from the first one with a name on, those with the name are all
children with the name. -/
theorem filter_childrenFrom (node : XmlNode) (name : CStr) :
    (node.childrenFrom name).filter (isNamed name) = node.children.filter (isNamed name) := by
  unfold childrenFrom
  induction node.children with
  | nil => rfl
  | cons child siblings ih =>
    rw [List.dropWhile_cons]
    cases h : child.isNamed name with
    | true => simp
    | false => simp [h, ih]

end XmlNode

/-! ### Places -/

/-- A `mxml_node_t *` into a document: the node, the siblings behind it, and for each node
that it is in, from the inside to the outside, the siblings behind that one. -/
structure XmlPlace where
  node : XmlNode
  behind : List XmlNode
  above : List (List XmlNode)

/-- The place of the document itself, which has nothing behind it. -/
def XmlNode.place (xmlTop : XmlNode) : XmlPlace := ⟨xmlTop, [], []⟩

/-- The places of nodes that stand in a row, given what is behind the nodes that the row
is in. -/
def rowOf (above : List (List XmlNode)) : List XmlNode → List XmlPlace
  | [] => []
  | node :: behind => ⟨node, behind, above⟩ :: rowOf above behind

mutual

/-- The places below a node, in the order of the document, given what is behind the node
and behind those that it is in. -/
def XmlNode.placesBelow (above : List (List XmlNode)) : XmlNode → List XmlPlace
  | .element _ _ children => placesOf above children
  | .other => []

/-- The places of nodes that stand in a row, each followed by the places below it. -/
def placesOf (above : List (List XmlNode)) : List XmlNode → List XmlPlace
  | [] => []
  | child :: siblings =>
    ⟨child, siblings, above⟩ :: (child.placesBelow (siblings :: above) ++ placesOf above siblings)

end

namespace XmlPlace

/-- The places below a place, in the order of the document. -/
def below (place : XmlPlace) : List XmlPlace :=
  place.node.placesBelow (place.behind :: place.above)

/-- The nodes of `mxmlIndexNew(node, element, NULL)`, in the order of the document.  The
order of the index itself is one of the library's. -/
def elements (place : XmlPlace) (name : CStr) : List XmlPlace :=
  place.below.filter fun p => p.node.isNamed name

/-- The nodes of `mxmlIndexNew(node, element, attr)`, in the order of the document. -/
def elementsWith (place : XmlPlace) (name attrName : CStr) : List XmlPlace :=
  (place.elements name).filter fun p => (p.node.attr attrName).isSome

/-- `mxmlFindElement(node, top, element, attr, value, MXML_DESCEND)`, where `position`
places come before `node` in the document: the first one behind it that fits, which need
not be below it. -/
def findElement (top : XmlPlace) (position : ℕ) (name attrName value : CStr) : Option XmlPlace :=
  (top.below.drop position).find? fun p =>
    p.node.isNamed name && p.node.attr attrName = some value

/-- A place and those of its siblings behind it. -/
def fromHere (place : XmlPlace) : List XmlPlace :=
  rowOf place.above (place.node :: place.behind)

/-- The first of the rows that is not empty begins with the next place: where a node is
the last in its row, the library climbs to the node that it is in. -/
def firstOf : List (List XmlNode) → Option XmlPlace
  | [] => none
  | [] :: above => firstOf above
  | (node :: behind) :: above => some ⟨node, behind, above⟩

/-- `mxmlWalkNext(node, top, MXML_DESCEND_FIRST)`: the first child of the node.  Where it
has none, the walk does not end but goes on to its next sibling, or to the next sibling of
the innermost node that it is in and that has one. -/
def walkNext (place : XmlPlace) : Option XmlPlace :=
  firstOf (place.node.children :: place.behind :: place.above)

/-- `mxmlFindElement(node, top, element, NULL, NULL, MXML_DESCEND_FIRST)` as the library
does it: one step of the walk, and then from sibling to sibling. -/
def findFirst (place : XmlPlace) (name : CStr) : Option XmlPlace :=
  place.walkNext.bind fun next => next.fromHere.find? fun p => p.node.isNamed name

end XmlPlace

/-- The places that a loop goes over that begins with what was found, and goes on with
`mxmlGetNextSibling` up to the null pointer. -/
def siblingsFrom : Option XmlPlace → List XmlPlace
  | none => []
  | some found => found.fromHere

/-- The nodes at these places, for the loops that do not search from them again. -/
def nodesFrom (found : Option XmlPlace) : List XmlNode := (siblingsFrom found).map XmlPlace.node

/-- The assumption under which a search stays inside of a node: a loop that begins with
what is found goes over the children of the node, from the first one with the name on. -/
def FindsChildren (findFirst : XmlPlace → CStr → Option XmlPlace) (place : XmlPlace)
    (name : CStr) : Prop :=
  nodesFrom (findFirst place name) = place.node.childrenFrom name

/-- The places of a row of nodes have these nodes, in their order. -/
theorem map_node_rowOf (above : List (List XmlNode)) (nodes : List XmlNode) :
    (rowOf above nodes).map XmlPlace.node = nodes := by
  induction nodes with
  | nil => rfl
  | cons node behind ih => rw [rowOf, List.map_cons, ih]

/-- In a row, the loop that begins with the first node that fits goes over the rest of the
row. -/
theorem nodesFrom_find?_rowOf (above : List (List XmlNode)) (nodes : List XmlNode) (name : CStr) :
    nodesFrom ((rowOf above nodes).find? fun p => p.node.isNamed name) =
      nodes.dropWhile fun node => !node.isNamed name := by
  induction nodes with
  | nil => rfl
  | cons node behind ih =>
    rw [rowOf, List.find?_cons, List.dropWhile_cons]
    dsimp only
    cases h : node.isNamed name with
    | true => exact map_node_rowOf above (node :: behind)
    | false => exact ih

/-- **The library stays inside of a node** that has a child.  From a node without
children it goes on behind the node, where it may find what is not below it. -/
theorem findsChildren_findFirst {place : XmlPlace} {child : XmlNode} {siblings : List XmlNode}
    (hchildren : place.node.children = child :: siblings) (name : CStr) :
    FindsChildren XmlPlace.findFirst place name := by
  have hnext : place.walkNext = some ⟨child, siblings, place.behind :: place.above⟩ := by
    rw [XmlPlace.walkNext, hchildren]
    rfl
  rw [FindsChildren, XmlPlace.findFirst, hnext, XmlNode.childrenFrom, hchildren]
  exact nodesFrom_find?_rowOf _ (child :: siblings) name

end RrLauncher
