import MailMerge.Text.Digit
import MailMerge.Text.Order
import MailMerge.Xml.Basic

/-! Namespace prefixes. A registry proposes one prefix for each namespace and one namespace for
each prefix; a scope is the choice made for one document that is written.
-/
namespace MailMerge.Xml

/-- Namespaces with the prefixes that are proposed for them. -/
abbrev Registry := List (String × String)

namespace Registry

/-- Prefixes of the letters `ns` and digits are given out when a document is written and cannot
be registered. -/
def isReserved (label : String) : Bool :=
  match label.toList with
  | 'n' :: 's' :: digits => !digits.isEmpty && digits.all Text.isDecimal
  | _ => false

/-- Registers a prefix for a namespace. Former proposals for either are dropped. -/
def register (registry : Registry) (label space : String) : Registry :=
  registry.filter (fun entry => entry.1 != space && entry.2 != label) ++ [(space, label)]

/-- The prefix proposed for a namespace. -/
def label? (registry : Registry) (space : String) : Option String :=
  (registry.find? (·.1 == space)).map (·.2)

end Registry

/-- The prefixes in use in one document, by namespace, in the order of their first use. -/
abbrev Scope := List (String × String)

namespace Scope

/-- The prefix in use for a namespace. -/
def label? (scope : Scope) (space : String) : Option String :=
  (scope.find? (·.1 == space)).map (·.2)

/-- Makes sure that a namespace has a prefix: the registered one, or else `ns` with the number of
prefixes in use. The prefix `xml` is always declared. -/
def add (registry : Registry) (scope : Scope) (space : String) : Scope :=
  match scope.label? space with
  | some _ => scope
  | none =>
    let label := (registry.label? space).getD ("ns" ++ toString scope.length)
    if label == "xml" then scope else scope ++ [(space, label)]

/-- The prefixes for a list of names, taken in order. -/
def ofNames (registry : Registry) (names : List Name) : Scope :=
  names.foldl (fun scope name =>
    match name.space with
    | some space => scope.add registry space
    | none => scope) []

/-- A name as it is written. -/
def written (scope : Scope) (name : Name) : String :=
  match name.space with
  | none => name.stem
  | some space => (scope.label? space).getD "xml" ++ ":" ++ name.stem

/-- The declarations of a scope in the order of their prefixes. -/
def sorted (scope : Scope) : Scope :=
  Text.sortedBy (fun a b => !(b.2 < a.2)) scope

end Scope
end MailMerge.Xml
