import MailMerge.Xml.Encoding
import MailMerge.Xml.Prefixes

/-! Reading a document into an element. Prefixes are resolved by the declarations in force;
every declaration met before the end, or before the first mistake, is reported in order.
-/
namespace MailMerge.Xml

/-- The namespace of the prefix `xml`. -/
def xmlSpace : String := "http://www.w3.org/XML/1998/namespace"

/-- The namespace of declarations themselves. -/
def xmlnsSpace : String := "http://www.w3.org/2000/xmlns/"

/-- Declarations in force, innermost first; the empty prefix is the default namespace. -/
abbrev Bindings := List (String × String)

/-- The declaration that an attribute makes, if it makes one. -/
def declared? (name : String) : Option String :=
  if name == "xmlns" then some ""
  else match Text.after? "xmlns:".toList name.toList with
    | some label => some (String.ofList label)
    | none => none

/-- Declarations that a document may make. No namespace holds a closing brace. -/
def isAllowed (label space : String) : Bool :=
  if label == "xmlns" || space.toList.contains '}' then false
  else if label == "xml" then space == xmlSpace
  else if space == xmlSpace || space == xmlnsSpace then false
  else label == "" || space != ""

/-- The namespace bound to a prefix. -/
def Bindings.find? (bindings : Bindings) (label : String) : Option String :=
  if label == "xml" then some xmlSpace
  else (List.find? (·.1 == label) bindings).map (·.2)

/-- Resolves a written name. Without a prefix a tag is in the default namespace and an attribute
in none. -/
def resolve? (bindings : Bindings) (isTag : Bool) (written : String) : Option Name :=
  match Text.splitOn ':' written.toList with
  | [label, stem] =>
    (bindings.find? (String.ofList label)).map fun space => ⟨some space, String.ofList stem⟩
  | _ =>
    let space := if isTag then (bindings.find? "").getD "" else ""
    some ⟨if space == "" then none else some space, written⟩

/-- An element that is not closed yet. -/
structure Frame where
  written : String
  name : Name
  attributes : Attributes
  bindings : Bindings
  /-- the text before the first child, once there is a child -/
  text : Option String
  /-- the children so far, last first -/
  children : List Element
  /-- the text since the last child or the opening tag, last piece first -/
  pending : List (List Char)

/-- The text gathered since the last tag. -/
def Frame.pendingText (f : Frame) : Option String :=
  let text := f.pending.reverse.flatten
  if text.isEmpty then none else some (String.ofList text)

/-- Puts the gathered text where it belongs. -/
def Frame.settle (f : Frame) : Frame :=
  match f.children with
  | [] => { f with text := f.pendingText, pending := [] }
  | .mk name attributes text children _ :: rest =>
    { f with children := .mk name attributes text children f.pendingText :: rest, pending := [] }

/-- The element of a frame whose closing tag was met. -/
def Frame.close (f : Frame) : Element :=
  let f := f.settle
  .mk f.name f.attributes f.text f.children.reverse none

/-- What has been read so far: open elements, innermost first, the root once it is closed, and
all declarations, last first. -/
structure Progress where
  frames : List Frame := []
  root : Option Element := none
  declared : List (String × String) := []

/-- Adds a closed element to what is open. -/
def Progress.add (p : Progress) (e : Element) : Progress :=
  match p.frames with
  | [] => { p with root := some e }
  | f :: fs =>
    let f := f.settle
    { p with frames := { f with children := e :: f.children } :: fs }

/-- Takes one token; `none` for the element when the document is not well formed. -/
def Progress.step (p : Progress) (token : Token) : Progress × Bool :=
  match token with
  | .plain text =>
    match p.frames with
    | [] => (p, text.all isSpace)
    | f :: fs => ({ p with frames := { f with pending := text :: f.pending } :: fs }, true)
  | .marked text =>
    match p.frames with
    | [] => (p, false)
    | f :: fs => ({ p with frames := { f with pending := text :: f.pending } :: fs }, true)
  | .closing written =>
    match p.frames with
    | [] => (p, false)
    | f :: fs =>
      if f.written == written then (Progress.add { p with frames := fs } f.close, true)
      else (p, false)
  | .opening written attributes closed =>
    if p.frames.isEmpty && p.root.isSome then (p, false)
    else
      let made := attributes.filterMap fun a => (declared? a.1).map fun label => (label, a.2)
      let kept := made.takeWhile fun d => isAllowed d.1 d.2
      let outer : Bindings := match p.frames with
        | f :: _ => f.bindings
        | [] => []
      let bindings : Bindings := kept.reverse ++ outer
      let p := { p with declared := kept.reverse ++ p.declared }
      let plain := attributes.filter fun a => (declared? a.1).isNone
      let resolved := plain.mapM fun a => (resolve? bindings false a.1).map fun name => (name, a.2)
      match resolve? bindings true written, resolved with
      | some name, some attributes =>
        if kept.length < made.length || !(attributes.map (·.1)).Nodup then (p, false)
        else
          let f : Frame := ⟨written, name, attributes, bindings, none, [], []⟩
          if closed then (p.add f.close, true) else ({ p with frames := f :: p.frames }, true)
      | _, _ => (p, false)

/-- Takes tokens up to the first mistake. -/
def Progress.run (p : Progress) : List Token → Progress × Bool
  | [] => (p, true)
  | token :: tokens =>
    match p.step token with
    | (p, true) => p.run tokens
    | (p, false) => (p, false)

/-- What reading a document gives: the declarations in the order in which they were met, and the
root element unless the document cannot be read. -/
structure Reading where
  declared : List (String × String)
  root : Except Misreading Element

/-- Reads the text of a document after its declaration. -/
def readTokens (text : List Char) : Reading :=
  let (tokens, complete) := tokens text
  let (p, fine) := ({} : Progress).run tokens
  ⟨p.declared.reverse, match p.root with
    | some root => if complete && fine && p.frames.isEmpty then .ok root else .error .malformed
    | none => .error .malformed⟩

/-- Reads a document given as bytes. -/
def readBytes (bytes : ByteArray) : Reading :=
  match documentText bytes with
  | .ok text => readTokens text
  | .error problem => ⟨[], .error problem⟩

/-- Reads a document given as text, whose declaration does not matter. -/
def readText (text : String) : Option Element :=
  match declaration? (unifyLines text.toList) with
  | some (_, rest) => (readTokens rest).root.toOption
  | none => none

end MailMerge.Xml
