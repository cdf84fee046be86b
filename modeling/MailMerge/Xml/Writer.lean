import MailMerge.Xml.Prefixes

/-! Writing elements. The prefixes used anywhere in the element are declared on it; an element
without text and children is closed in its own tag.
-/
namespace MailMerge.Xml

/-- A character of text between tags. -/
def escapedText (c : Char) : List Char :=
  if c == '&' then "&amp;".toList
  else if c == '<' then "&lt;".toList
  else if c == '>' then "&gt;".toList
  else [c]

/-- A character of an attribute value. -/
def escapedValue (c : Char) : List Char :=
  if c == '"' then "&quot;".toList
  else if c == '\r' then "&#13;".toList
  else if c == '\n' then "&#10;".toList
  else if c == '\t' then "&#09;".toList
  else escapedText c

/-- Text between tags. -/
def textMarkup (s : Option String) : List Char :=
  (s.getD "").toList.flatMap escapedText

/-- One attribute with the space before it. -/
def attributeMarkup (name value : String) : List Char :=
  ' ' :: name.toList ++ "=\"".toList ++ value.toList.flatMap escapedValue ++ ['"']

/-- The declarations of a scope. -/
def declarationsMarkup (scope : Scope) : List Char :=
  scope.sorted.flatMap fun (space, label) => attributeMarkup ("xmlns:" ++ label) space

mutual

/-- An element and its tail, with the given declarations in its opening tag. -/
def elementMarkup (scope : Scope) (declarations : List Char) : Element → List Char
  | .mk name attributes text children tail =>
    let tag := (scope.written name).toList
    let attributes := attributes.flatMap fun a => attributeMarkup (scope.written a.1) a.2
    let opening := '<' :: tag ++ declarations ++ attributes
    let content := textMarkup text ++ elementsMarkup scope children
    let closed := if (text.getD "").isEmpty && children.isEmpty then " />".toList
      else '>' :: content ++ "</".toList ++ tag ++ ['>']
    opening ++ closed ++ textMarkup tail

/-- Elements one after the other. -/
def elementsMarkup (scope : Scope) : List Element → List Char
  | [] => []
  | e :: es => elementMarkup scope [] e ++ elementsMarkup scope es

end

/-- An element as a document of its own. -/
def Element.markup (registry : Registry) (e : Element) : List Char :=
  let scope := Scope.ofNames registry e.names
  elementMarkup scope (declarationsMarkup scope) e

end MailMerge.Xml
