import MailMerge.Data.Yaml.Node

/-! Values of indented text. A mapping may take over the entries of others: they come first, and
its own entries replace them. Keys are scalars.
-/
namespace MailMerge.Yaml

/-- The entries of a mapping as they are read: those taken over from others, and its own. -/
structure Contents where
  taken : List (Scalar × Value) := []
  own : List (Scalar × Value) := []

/-- All entries in order, those taken over first. -/
def Contents.all (c : Contents) : List (Scalar × Value) :=
  c.taken ++ c.own

/-- A mapping with entries stored one after the other. -/
def mapOf (entries : List (Scalar × Value)) : Value :=
  .map (entries.foldl (fun done (k, v) => Entries.insert done k v) [])

/-- The key that a node stands for. Collections are no keys. -/
def Node.key? : Node → Option Scalar
  | .scalar .usual text => some (.text text)
  | .scalar kind text => kind.read? text
  | _ => none

namespace Node

mutual

/-- The value of a node. -/
def value? : Node → Option Value
  | .scalar kind text => (kind.read? text).map .scalar
  | .list items => (values? items).map .list
  | .map entries => (contents? entries).map fun c => mapOf c.all

/-- The values of nodes. -/
def values? : List Node → Option (List Value)
  | [] => some []
  | n :: ns => do
    let v ← value? n
    let vs ← values? ns
    some (v :: vs)

/-- The entries of a mapping. -/
def contents? : List (Node × Node) → Option Contents
  | [] => some {}
  | (k, n) :: rest => do
    match k with
    | .scalar .merge _ =>
      let taken ← taken? n
      let c ← contents? rest
      some { c with taken := taken ++ c.taken }
    | k =>
      let key ← k.key?
      let v ← value? n
      let c ← contents? rest
      some { c with own := (key, v) :: c.own }

/-- The entries taken over from a mapping, or from a list of mappings of which the first counts
most. -/
def taken? : Node → Option (List (Scalar × Value))
  | .map entries => (contents? entries).map Contents.all
  | .list items => takenFrom? items
  | .scalar .. => none

/-- The entries taken over from a list of mappings. -/
def takenFrom? : List Node → Option (List (Scalar × Value))
  | [] => some []
  | .map entries :: rest => do
    let c ← contents? entries
    let later ← takenFrom? rest
    some (later ++ c.all)
  | _ :: _ => none

end
end Node

/-- The value of a text; a text without content is null. -/
def read? (text : List Char) : Option Value := do
  let tokens ← tokens? text
  match ← Node.ofTokens? tokens with
  | none => some .null
  | some root => root.value?

end MailMerge.Yaml
