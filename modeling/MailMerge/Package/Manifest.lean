import MailMerge.Package.Basic
import MailMerge.Text.Lower

/-! The manifests of a package: the content types of its parts, by extension or by name, and the
relationships of each part. A manifest that is missing is made when it is first asked for.
-/
namespace MailMerge
open Xml Docx

namespace Forest

/-- A manifest entry is an element without contents. -/
def addEntry (f : Forest) (root : NodeId) (name : Name) (attributes : Attributes) : Forest :=
  let (id, f) := f.add { name := name, attributes := attributes }
  f.append root id

/-- The entries of a manifest of content types that hold for an extension. -/
def typeDefaults (f : Forest) (root : NodeId) : List NodeId :=
  f.named root (.within typesSpace "Default")

/-- The entries of a manifest of content types that hold for one part. -/
def typeOverrides (f : Forest) (root : NodeId) : List NodeId :=
  f.named root (.within typesSpace "Override")

/-- An entry holds for an extension in small letters. -/
def isFor (f : Forest) (extension : String) (id : NodeId) : Bool :=
  Text.lower ((f.attribute? id (.bare "Extension")).getD "") == extension

/-- Whether the manifest has a type for an extension, in letters of either size. -/
def hasDefault (f : Forest) (root : NodeId) (extension : String) : Bool :=
  (f.typeDefaults root).any (f.isFor (Text.lower extension))

/-- The name of a part in the manifest begins with a slash. -/
def rooted (part : String) : String :=
  "/" ++ String.ofList (part.toList.dropWhile (· == '/'))

/-- The entry for one part. -/
def override? (f : Forest) (root : NodeId) (part : String) : Option NodeId :=
  (f.typeOverrides root).find? fun id => f.attribute? id (.bare "PartName") == some (rooted part)

/-- Sets the type of one part; tells whether the manifest had no entry for it. -/
def ensureOverride (f : Forest) (root : NodeId) (part type : String) : Bool × Forest :=
  match f.override? root part with
  | some id => (false, f.setAttribute id (.bare "ContentType") type)
  | none => (true, f.addEntry root (.within typesSpace "Override")
      [(.bare "PartName", rooted part), (.bare "ContentType", type)])

/-- The type of a part: its own, or that of its extension. -/
def contentType? (f : Forest) (root : NodeId) (part : String) : Option String :=
  match f.override? root part with
  | some id => f.attribute? id (.bare "ContentType")
  | none =>
    let ending := (Path.ending (rooted part)).toList.dropWhile (· == '.')
    let extension := Text.lower (String.ofList ending)
    ((f.typeDefaults root).find? (f.isFor extension)).bind fun id =>
      f.attribute? id (.bare "ContentType")

/-- The relationships of a manifest. -/
def relationships (f : Forest) (root : NodeId) : List NodeId :=
  f.named root (.within relationshipsSpace "Relationship")

/-- The identifiers in a manifest; an entry may lack one. -/
def relationshipIds (f : Forest) (root : NodeId) : List (Option String) :=
  (f.relationships root).map fun id => f.attribute? id (.bare "Id")

/-- The relationship with an identifier. -/
def relationship? (f : Forest) (root : NodeId) (key : String) : Option NodeId :=
  (f.relationships root).find? fun id => f.attribute? id (.bare "Id") == some key

/-- The target of the relationship with an identifier. -/
def relationTarget? (f : Forest) (root : NodeId) (key : String) : Option String :=
  (f.relationship? root key).bind fun id => f.attribute? id (.bare "Target")

/-- Adds a relationship, or changes the one that has its identifier. -/
def relate (f : Forest) (root : NodeId) (key kind target : String) : Forest :=
  match f.relationship? root key with
  | some id => (f.setAttribute id (.bare "Type") kind).setAttribute id (.bare "Target") target
  | none => f.addEntry root (.within relationshipsSpace "Relationship")
      [(.bare "Id", key), (.bare "Type", kind), (.bare "Target", target)]

end Forest

namespace Packaging
open Package

/-- The content type of manifests of relationships. -/
def relationshipsType : String := "application/vnd.openxmlformats-package.relationships+xml"

/-- The content type of the main part. -/
def documentType : String :=
  "application/vnd.openxmlformats-officedocument.wordprocessingml.document.main+xml"

/-- Declares the type of an extension unless the manifest has one; tells whether it had none. -/
def ensureDefault (root : NodeId) (extension type : String) : Packaging Bool := do
  if (← get).forest.hasDefault root extension then return false
  edit (·.addEntry root (.within typesSpace "Default")
    [(.bare "Extension", extension), (.bare "ContentType", type)])
  log .debug s!"Registered content type {type} for .{extension}"
  return true

/-- Sets the type of one part; tells whether the manifest had no entry for it. -/
def ensureOverride (root : NodeId) (part type : String) : Packaging Bool :=
  grow (·.ensureOverride root part type)

/-- A new part whose tree is one empty element, named in a namespace that is not prefixed. -/
def newManifest (part space stem : String) : Packaging Unit := do
  let root ← grow (·.add { name := .within space stem })
  modify (·.setTree part root space)

/-- The root of the manifest of content types. -/
def contentTypes : Packaging NodeId := do
  match (← get).types with
  | some root => return root
  | none =>
    if !(← get).hasPart typesPart then
      log .warning s!"Template has no {typesPart}; creating one"
      newManifest typesPart typesSpace "Types"
      if let some root ← root? typesPart then
        let _ ← ensureDefault root "rels" relationshipsType
        let _ ← ensureDefault root "xml" "application/xml"
        let _ ← ensureOverride root documentPart documentType
    match ← root? typesPart with
    | some root =>
      modify fun p => { p with types := some root }
      return root
    | none => throw (.breakdown .operation)

/-- The root of the manifest of a part's relationships. -/
def relationshipsOf (part : String) : Packaging NodeId := do
  let name := Path.relationships part
  match (← get).manifests.lookup name with
  | some root => return root
  | none =>
    if !(← get).hasPart name then
      log .debug s!"Relationships file {name} missing; creating it"
      newManifest name relationshipsSpace "Relationships"
      let types ← contentTypes
      let _ ← ensureDefault types "rels" relationshipsType
    match ← root? name with
    | some root =>
      modify fun p => { p with manifests := store p.manifests name root }
      return root
    | none => throw (.breakdown .operation)

end Packaging
end MailMerge
