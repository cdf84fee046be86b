/-! Elements of a markup document: a qualified name, attributes in order, the text before the
first child, the children, and the text that follows the element inside its parent.
-/
namespace MailMerge.Xml

/-- A name with the namespace that qualifies it, if any. -/
structure Name where
  space : Option String
  stem : String
  deriving DecidableEq, Repr, Inhabited

namespace Name

/-- A name in a namespace. -/
def within (space stem : String) : Name :=
  ⟨some space, stem⟩

/-- A name without a namespace. -/
def bare (stem : String) : Name :=
  ⟨none, stem⟩

/-- The namespace in braces before the name. -/
def text (n : Name) : String :=
  match n.space with
  | some space => "\x7b" ++ space ++ "\x7d" ++ n.stem
  | none => n.stem

end Name

/-- Attributes in the order in which they were written or first set. -/
abbrev Attributes := List (Name × String)

namespace Attributes

/-- The value of an attribute. -/
def get? (attributes : Attributes) (name : Name) : Option String :=
  (attributes.find? (·.1 == name)).map (·.2)

/-- Sets an attribute, at its place when it is present and at the end otherwise. -/
def set (attributes : Attributes) (name : Name) (value : String) : Attributes :=
  if attributes.any (·.1 == name) then
    attributes.map fun a => if a.1 == name then (name, value) else a
  else attributes ++ [(name, value)]

/-- Removes an attribute. -/
def erase (attributes : Attributes) (name : Name) : Attributes :=
  attributes.filter (·.1 != name)

end Attributes

/-- An element with everything below it. -/
inductive Element where
  | mk (name : Name) (attributes : Attributes) (text : Option String) (children : List Element)
    (tail : Option String)
  deriving Repr, Inhabited

namespace Element

/-- The qualified name. -/
def name : Element → Name
  | mk name .. => name

/-- The attributes. -/
def attributes : Element → Attributes
  | mk _ attributes .. => attributes

/-- The text before the first child. -/
def text : Element → Option String
  | mk _ _ text .. => text

/-- The child elements. -/
def children : Element → List Element
  | mk _ _ _ children _ => children

/-- The text after the element. -/
def tail : Element → Option String
  | mk _ _ _ _ tail => tail

/-- An element with children and no text. -/
def node (name : Name) (attributes : Attributes) (children : List Element) : Element :=
  .mk name attributes none children none

/-- An element that holds only text. -/
def leaf (name : Name) (attributes : Attributes) (text : String) : Element :=
  .mk name attributes (some text) [] none

mutual

/-- The names of an element's tags and attributes, in document order. -/
def names : Element → List Name
  | mk name attributes _ children _ => name :: attributes.map (·.1) ++ namesOf children

/-- The names in a list of elements. -/
def namesOf : List Element → List Name
  | [] => []
  | e :: es => names e ++ namesOf es

end

mutual

/-- The element and all elements below it, in document order. -/
def descendants : Element → List Element
  | e@(mk _ _ _ children _) => e :: descendantsOf children

/-- The elements of a list and all below them. -/
def descendantsOf : List Element → List Element
  | [] => []
  | e :: es => descendants e ++ descendantsOf es

end

mutual

/-- Changes every name of a tag. -/
def mapNames (f : Name → Name) : Element → Element
  | mk name attributes text children tail =>
    mk (f name) attributes text (mapNamesOf f children) tail

/-- Changes the names of the tags in a list of elements. -/
def mapNamesOf (f : Name → Name) : List Element → List Element
  | [] => []
  | e :: es => mapNames f e :: mapNamesOf f es

end

end Element
end MailMerge.Xml
