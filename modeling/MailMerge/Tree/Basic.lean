import MailMerge.Xml.Basic

/-! Documents that are edited. Elements live in a forest and are known by their number in it, so
that an element keeps its identity while it is moved, removed or put back. A forest only grows;
what is taken out of a tree stays in the forest.
-/
namespace MailMerge

/-- The number of an element. -/
abbrev NodeId := Nat

/-- An element whose children are known by their numbers. -/
structure Node where
  name : Xml.Name
  attributes : Xml.Attributes := []
  text : Option String := none
  children : List NodeId := []
  tail : Option String := none
  deriving Repr, Inhabited

/-- The elements of all documents of a run. -/
structure Forest where
  nodes : Array Node := #[]
  deriving Repr, Inhabited

namespace Forest
open Xml

/-- The element with a number; numbers that are not given out stand for an empty element. -/
def node (f : Forest) (id : NodeId) : Node :=
  (f.nodes[id]?).getD ⟨.bare "", [], none, [], none⟩

/-- The name of an element. -/
def name (f : Forest) (id : NodeId) : Name :=
  (f.node id).name

/-- The children of an element. -/
def children (f : Forest) (id : NodeId) : List NodeId :=
  (f.node id).children

/-- The text of an element before its first child. -/
def text (f : Forest) (id : NodeId) : Option String :=
  (f.node id).text

/-- Changes one element. -/
def update (f : Forest) (id : NodeId) (change : Node → Node) : Forest :=
  ⟨f.nodes.modify id change⟩

/-- Adds an element that belongs to no tree yet. -/
def add (f : Forest) (n : Node) : NodeId × Forest :=
  (f.nodes.size, ⟨f.nodes.push n⟩)

/-- Changes the list of an element's children. -/
def updateChildren (f : Forest) (id : NodeId) (change : List NodeId → List NodeId) : Forest :=
  f.update id fun n => { n with children := change n.children }

/-- Puts an element after the last child of another. -/
def append (f : Forest) (parent child : NodeId) : Forest :=
  f.updateChildren parent (· ++ [child])

/-- Puts an element before the child at a position. -/
def insertAt (f : Forest) (parent : NodeId) (position : Nat) (child : NodeId) : Forest :=
  f.updateChildren parent fun ids => ids.take position ++ child :: ids.drop position

/-- Takes the first occurrence of an element out of the children of another. -/
def detach (f : Forest) (parent child : NodeId) : Forest :=
  f.updateChildren parent (·.erase child)

mutual

/-- Adds an element with everything below it. -/
def plant (f : Forest) : Element → NodeId × Forest
  | .mk name attributes text children tail =>
    let (ids, f) := plantAll f children
    f.add ⟨name, attributes, text, ids, tail⟩

/-- Adds elements one after the other. -/
def plantAll (f : Forest) : List Element → List NodeId × Forest
  | [] => ([], f)
  | e :: es =>
    let (id, f) := f.plant e
    let (ids, f) := plantAll f es
    (id :: ids, f)

end

/-- An element down to a depth. -/
def elementTo (f : Forest) : Nat → NodeId → Element
  | 0, id => let n := f.node id; .mk n.name n.attributes n.text [] n.tail
  | depth + 1, id =>
    let n := f.node id
    .mk n.name n.attributes n.text (n.children.map (f.elementTo depth)) n.tail

/-- The element with everything below it. No tree is deeper than the forest has elements. -/
def element (f : Forest) (id : NodeId) : Element :=
  f.elementTo f.nodes.size id

/-- The elements of a tree down to a depth, in document order. -/
def treeTo (f : Forest) : Nat → NodeId → List NodeId
  | 0, id => [id]
  | depth + 1, id => id :: (f.children id).flatMap (f.treeTo depth)

/-- The element and everything below it, in document order. -/
def tree (f : Forest) (id : NodeId) : List NodeId :=
  f.treeTo f.nodes.size id

/-- The elements of a tree that have a name, in document order. -/
def named (f : Forest) (id : NodeId) (name : Name) : List NodeId :=
  (f.tree id).filter (f.name · == name)

/-- The children of an element that have a name. -/
def childrenNamed (f : Forest) (id : NodeId) (name : Name) : List NodeId :=
  (f.children id).filter (f.name · == name)

/-- The first child of an element that has a name. -/
def childNamed? (f : Forest) (id : NodeId) (name : Name) : Option NodeId :=
  (f.children id).find? (f.name · == name)

/-- The elements with a name below an element that are not inside a boundary element, down to a
depth. -/
def outsideTo (f : Forest) (name boundary : Name) : Nat → NodeId → List NodeId
  | 0, _ => []
  | depth + 1, id => (f.children id).flatMap fun child =>
    (if f.name child == name then [child] else []) ++
      (if f.name child == boundary then [] else f.outsideTo name boundary depth child)

/-- The elements with a name below an element that are not inside a boundary element below it, in
document order. A boundary element itself counts. -/
def outside (f : Forest) (id : NodeId) (name boundary : Name) : List NodeId :=
  f.outsideTo name boundary f.nodes.size id

/-- The attribute of an element. -/
def attribute? (f : Forest) (id : NodeId) (name : Name) : Option String :=
  (f.node id).attributes.get? name

/-- Sets an attribute of an element. -/
def setAttribute (f : Forest) (id : NodeId) (name : Name) (value : String) : Forest :=
  f.update id fun n => { n with attributes := n.attributes.set name value }

end Forest
end MailMerge
