import MailMerge.Proofs.Package.Parts
import MailMerge.Proofs.Tree.Single

/-! Sequences of operations on a package. The entries of its manifests, its trees and its parts are
changed in any order, and it is flushed and saved at any time. An operation that fails leaves what
it did before the fault.
-/
namespace MailMerge
open Xml Package

/-- An operation on a package. Editing a tree puts any other element in its place. -/
inductive Operation where
  | relate (part key kind target : String)
  | ensureDefault (extension type : String)
  | ensureOverride (part type : String)
  | edit (name : String) (change : Element → Element)
  | write (name : String) (data : ByteArray)
  | flush
  | save

namespace Operation

/-- Performs an operation and tells which entry it made in which manifest, if it made one. -/
def perform : Operation → Packaging (Option (String × Entry))
  | relate part key kind target => do
    let root ← Packaging.relationshipsOf part
    Packaging.edit (·.relate root key kind target)
    return some (Path.relationships part,.relation key kind target)
  | ensureDefault extension type => do
    let root ← Packaging.contentTypes
    let new ← Packaging.ensureDefault root extension type
    return if new then some (typesPart,.default extension type) else none
  | ensureOverride part type => do
    let root ← Packaging.contentTypes
    let _ ← Packaging.ensureOverride root part type
    return some (typesPart,.override part type)
  | edit name change => do
    if let some root ← Packaging.root? name then
      Packaging.edit fun f => f.rewrite root (change (f.element root))
    return none
  | write name data => do
    modify (·.write name data)
    return none
  | flush => do
    modify (·.flush)
    return none
  | save => do
    let _ ← Packaging.save
    return none

/-- The operation neither replaces a manifest nor takes an entry of it back. -/
def Keeps (manifest : String) (entry : Entry) : Operation → Prop
  | relate part key kind target => Path.relationships part = manifest →
    ∀ kind' target', entry = .relation key kind' target' → kind' = kind ∧ target' = target
  | ensureOverride part type => manifest = typesPart →
    ∀ part' type', entry = .override part' type' →
      Forest.rooted part' = Forest.rooted part → type' = type
  | edit name change => name = manifest → ∀ e : Element, e.Holds entry → (change e).Holds entry
  | write name _ => name ≠ manifest
  | ensureDefault .. | flush | save => True

end Operation

namespace Package

/-- The package after an operation, whether it failed or not. -/
def after (p : Package) (o : Operation) : Package :=
  match o.perform p with
  | .ok _ p => p
  | .error _ p => p

def run (p : Package) (os : List Operation) : Package :=
  os.foldl after p

@[simp] theorem run_nil (p : Package) : p.run [] = p := rfl

@[simp] theorem run_cons (p : Package) (o : Operation) (os : List Operation) :
    p.run (o :: os) = (p.after o).run os := rfl

theorem run_append (p : Package) (first second : List Operation) :
    p.run (first ++ second) = (p.run first).run second :=
  List.foldl_append

/-- The root of a manifest in use: the one of content types, or one of relationships. -/
def manifest? (p : Package) (name : String) : Option NodeId :=
  if name = typesPart then p.types else p.manifests.lookup name

/-- The manifest in use is the tree that is written into its part. -/
def Follows (p : Package) (name : String) : Prop :=
  ∃ t, p.trees.lookup name = some t ∧ p.manifest? name = some t.root

end Package
end MailMerge

/-! Outlines of packages. An outline has the elements of the trees in place of their nodes, and of a
manifest in use it says only whether that is the tree which is written into its part. What a package
saves is seen from its outline.
-/
namespace MailMerge
open Xml Docx Package

/-- A tree that will be written: its element, the opening tag it had and its default namespace. -/
structure Draft where
  element : Element
  tag : List Char := []
  defaultSpace : String := ""

/-- The draft of a part that was read. -/
def Draft.of (data : ByteArray) (e : Element) : Draft :=
  ⟨e,(treeOf data 0).tag,(treeOf data 0).defaultSpace⟩

/-- The contents of the part that a draft is written into. -/
def Draft.bytes (d : Draft) (prefixes : Registry) : ByteArray :=
  Text.encode (String.ofList (partText prefixes d.tag d.defaultSpace d.element))

@[ext] structure Outline where
  parts : Archive.Entries
  order : List String
  drafts : String → Option Draft
  touched : List String
  /-- whether a manifest in use follows the draft of its part -/
  manifests : String → Option Bool
  prefixes : Registry

namespace Outline

def touch (o : Outline) (name : String) : Outline :=
  { o with touched := if o.touched.contains name then o.touched else o.touched ++ [name] }

/-- The draft of one part is changed. -/
def amend (o : Outline) (name : String) (change : Element → Element) : Outline :=
  { o with drafts := fun other =>
      if other = name then (o.drafts name).map fun d => { d with element := change d.element }
      else o.drafts other }

/-- A manifest in use is changed, which shows if it follows its draft. -/
def change (o : Outline) (name : String) (change : Element → Element) : Outline :=
  if o.manifests name = some true then o.amend name change else o

/-- A part gets a draft that was read from it. -/
def draw (o : Outline) (name : String) (d : Draft) : Outline :=
  { o with drafts := fun other => if other = name then some d else o.drafts other }

/-- A part gets a draft of its own making. No manifest in use follows that. -/
def create (o : Outline) (name : String) (d : Draft) : Outline :=
  ({ o.draw name d with
      parts := store o.parts name .empty
      manifests := fun other =>
        if other = name then (o.manifests name).map fun _ => false else o.manifests other } :
    Outline).touch name

/-- A part is replaced. The draft is dropped, while a manifest in use stays in use. -/
def write (o : Outline) (name : String) (data : ByteArray) : Outline where
  parts := store o.parts name data
  order := o.order
  drafts other := if other = name then none else o.drafts other
  touched := o.touched.filter (· != name)
  manifests other := if other = name then (o.manifests name).map fun _ => false
    else o.manifests other
  prefixes := o.prefixes

/-- The draft of a part becomes a manifest in use. -/
def use (o : Outline) (name : String) : Outline :=
  { o with manifests := fun other => if other = name then some true else o.manifests other }

def flush (o : Outline) : Outline :=
  { o with
    parts := (sorted o.touched).foldl (fun parts name =>
      match o.drafts name with
      | some d => store parts name (d.bytes o.prefixes)
      | none => parts) o.parts
    touched := [] }

end Outline

/-- Operations on an outline. -/
abbrev Outlining := EStateM Unit Outline

namespace Outlining
open Outline

/-- Reads the draft of a part, unless it was read; tells whether there is such a part. -/
def root? (name : String) : Outlining Bool := do
  match (← get).drafts name with
  | some _ =>
    modify (·.touch name)
    return true
  | none =>
    match (← get).parts.lookup name with
    | none => return false
    | some data =>
      modify fun o => { o with prefixes := o.prefixes.enter (readBytes data).declared }
      match (readBytes data).root with
      | .error _ => throw ()
      | .ok e =>
        modify fun o => (o.draw name (.of data e)).touch name
        return true

/-- What reading a draft does to an outline. -/
theorem root?_run (name : String) (o : Outline) : root? name o =
    match o.drafts name with
    | some _ => .ok true (o.touch name)
    | none => match o.parts.lookup name with
      | none => .ok false o
      | some data =>
        let read : Outline := { o with prefixes := o.prefixes.enter (readBytes data).declared }
        match (readBytes data).root with
        | .error _ => .error () read
        | .ok e => .ok true ((read.draw name (.of data e)).touch name) := by
  unfold root?
  rw [run_get_bind]
  cases o.drafts name with
  | some d => rfl
  | none =>
    dsimp only
    rw [run_get_bind]
    cases o.parts.lookup name with
    | none => rfl
    | some data =>
      dsimp only
      rw [run_modify_bind]
      cases (readBytes data).root <;> rfl

/-- A new manifest without entries. -/
def newManifest (name space stem : String) : Outlining Unit :=
  modify (·.create name ⟨.mk (.within space stem) [] none [] none,[],space⟩)

def contentTypes : Outlining Unit := do
  match (← get).manifests typesPart with
  | some _ => return
  | none =>
    if !(← get).parts.any (·.1 == typesPart) then
      newManifest typesPart typesSpace "Types"
      if ← root? typesPart then
        modify (·.amend typesPart (·.ensureDefault "rels" Packaging.relationshipsType))
        modify (·.amend typesPart (·.ensureDefault "xml" "application/xml"))
        modify (·.amend typesPart (·.ensureOverride documentPart Packaging.documentType))
    if ← root? typesPart then modify (·.use typesPart)
    else throw ()

def relationshipsOf (part : String) : Outlining Unit := do
  let name := Path.relationships part
  match (← get).manifests name with
  | some _ => return
  | none =>
    if !(← get).parts.any (·.1 == name) then
      newManifest name relationshipsSpace "Relationships"
      contentTypes
      modify (·.change typesPart (·.ensureDefault "rels" Packaging.relationshipsType))
    if ← root? name then modify (·.use name)
    else throw ()

end Outlining

/-- What an operation does to the outline of a package. -/
def Operation.sketch : Operation → Outlining Unit
  | relate part key kind target => do
    Outlining.relationshipsOf part
    modify (·.change (Path.relationships part) (·.relate key kind target))
  | ensureDefault extension type => do
    Outlining.contentTypes
    modify (·.change typesPart (·.ensureDefault extension type))
  | ensureOverride part type => do
    Outlining.contentTypes
    modify (·.change typesPart (·.ensureOverride part type))
  | edit name change => do
    if ← Outlining.root? name then modify (·.amend name change)
  | write name data => modify (·.write name data)
  | flush => modify (·.flush)
  | save => modify (·.flush)

namespace Outline

def after (o : Outline) (op : Operation) : Outline :=
  match op.sketch o with
  | .ok _ o => o
  | .error _ o => o

/-- What reading and editing a part does to an outline. -/
theorem after_edit (o : Outline) (name : String) (change : Element → Element) :
    o.after (.edit name change) = match o.drafts name with
      | some _ => (o.touch name).amend name change
      | none => match o.parts.lookup name with
        | none => o
        | some data =>
          let o' : Outline := { o with prefixes := o.prefixes.enter (readBytes data).declared }
          match (readBytes data).root with
          | .error _ => o'
          | .ok e => ((o'.draw name (.of data e)).touch name).amend name change := by
  unfold after Operation.sketch
  simp only [bind,EStateM.bind,Outlining.root?_run]
  cases o.drafts name with
  | some d => rfl
  | none =>
    cases o.parts.lookup name with
    | none => rfl
    | some data =>
      dsimp only
      cases (readBytes data).root <;> rfl

def run (o : Outline) (ops : List Operation) : Outline :=
  ops.foldl after o

@[simp] theorem run_nil (o : Outline) : o.run [] = o := rfl

@[simp] theorem run_cons (o : Outline) (op : Operation) (ops : List Operation) :
    o.run (op :: ops) = (o.after op).run ops := rfl

theorem run_append (o : Outline) (first second : List Operation) :
    o.run (first ++ second) = (o.run first).run second :=
  List.foldl_append

end Outline

namespace Package

/-- The outline of a package. -/
def outline (p : Package) : Outline where
  parts := p.parts
  order := p.order
  drafts name := (p.trees.lookup name).map fun t =>
    ⟨p.forest.element t.root,t.tag,t.defaultSpace⟩
  touched := p.touched
  manifests name := (p.manifest? name).map fun root =>
    (p.trees.lookup name).any (·.root == root)
  prefixes := p.prefixes

theorem follows_iff {p : Package} {name : String} :
    p.Follows name ↔ p.outline.manifests name = some true := by
  simp only [Follows,outline,Option.map_eq_some_iff]
  constructor
  · rintro ⟨t,known,used⟩
    exact ⟨t.root,used,by simp [known]⟩
  · rintro ⟨root,used,following⟩
    cases known : p.trees.lookup name with
    | none => simp [known] at following
    | some t =>
      have same : t.root = root := by simpa [known] using following
      exact ⟨t,rfl,same ▸ used⟩

end Package
end MailMerge
