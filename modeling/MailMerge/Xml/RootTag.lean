import MailMerge.Directive.Basic
import MailMerge.Text.Blank
import MailMerge.Text.Word

/-! The opening tag of a document's root as text. A document that is written again keeps the
opening tag it had, with the declarations that the new content needs added to it.
-/
namespace MailMerge.Xml.RootTag
open Text Directive

/-- Characters in quotes of either kind, with their quotes. -/
def quotedLexeme? (text : List Char) : Option (List Char × List Char) :=
  match text with
  | quote :: rest =>
    if quote == '"' || quote == '\'' then
      (cut? [quote] rest).map fun (value, rest) => (quote :: value ++ [quote], rest)
    else none
  | [] => none

/-- Drops blanks, an attribute name, an equals sign and a quoted value. -/
def skipAttribute? (text : List Char) : Option (List Char) := do
  let rest := text.dropWhile isBlank
  if rest.length == text.length then none
  let named := rest.dropWhile fun c => !isBlank c && c != '=' && c != '>' && c != '/'
  if named.length == rest.length then none
  let rest ← after? ['='] (named.dropWhile isBlank)
  let (_, rest) ← quotedLexeme? (rest.dropWhile isBlank)
  some rest

/-- Drops attributes as long as there are any. -/
def skipAttributes (fuel : Nat) (text : List Char) : List Char :=
  match fuel with
  | 0 => text
  | fuel + 1 =>
    match skipAttribute? text with
    | some rest => skipAttributes fuel rest
    | none => text

/-- Reads an opening tag at the start of a text. Declarations and instructions are none. -/
def opening? : Recognizer Unit := fun text => do
  let rest ← after? ['<'] text
  if rest.head? == some '?' || rest.head? == some '!' then none
  let named := rest.dropWhile fun c => !isBlank c && c != '>' && c != '/'
  if named.length == rest.length then none
  let rest := (skipAttributes (named.length + 1) named).dropWhile isBlank
  let rest ← after? ['>'] ((after? ['/'] rest).getD rest)
  some ((), rest)

/-- The first opening tag in a text, empty when there is none. -/
def find (text : List Char) : List Char :=
  match first? opening? text with
  | some found => found.raw
  | none => []

/-- A namespace declaration inside a tag: the prefix, empty for the default namespace, and the
namespace as written. -/
structure Declaration where
  label : List Char
  space : List Char
  /-- the declaration as it stands in the tag -/
  raw : List Char
  deriving DecidableEq, Repr

/-- Reads a namespace declaration. -/
def declaration? : Recognizer (List Char × List Char) := fun text => do
  let rest ← after? "xmlns".toList text
  let (label, rest) := match rest with
    | ':' :: more =>
      let label := more.takeWhile fun c => isWord c || c == '.' || c == '-'
      if label.isEmpty then ([], rest) else (label, more.drop label.length)
    | rest => ([], rest)
  let rest ← after? ['='] (rest.dropWhile isBlank)
  let (quoted, rest) ← quotedLexeme? (rest.dropWhile isBlank)
  some ((label, quoted.tail.dropLast), rest)

/-- The declarations in a tag, one for each prefix: the last, at the place of the first. -/
def declarations (tag : List Char) : List Declaration :=
  ((all declaration? tag).map fun f => Declaration.mk f.value.1 f.value.2 f.raw).foldl
    (fun found d =>
      if found.any (·.label == d.label) then found.map fun e => if e.label == d.label then d else e
      else found ++ [d]) []

/-- The namespace that a tag declares as the default, empty when it declares none. -/
def defaultSpace (tag : List Char) : List Char :=
  match (declarations tag).find? (·.label.isEmpty) with
  | some d => d.space
  | none => []

/-- An element that is closed in its own opening tag. -/
def isClosed (tag : List Char) : Bool :=
  endsWith "/>".toList tag

/-- A tag with declarations added at its end. -/
def extended (tag : List Char) (extra : List Declaration) : List Char :=
  if extra.isEmpty then tag
  else trimEnd tag.dropLast ++ extra.flatMap (fun d => ' ' :: d.raw) ++ ['>']

/-- The tag that declares what either tag declares. The former tag is kept unless the new one
binds one of its prefixes to another namespace. -/
def merged (former new : List Char) : List Char :=
  let old := declarations former
  let added := declarations new
  let missing (these others : List Declaration) : List Declaration :=
    these.filter fun d => !others.any (·.label == d.label)
  if added.any fun d => old.any fun e => e.label == d.label && e.space != d.space then
    extended new (missing old added)
  else extended former (missing added old)

/-- Gives a written document its former opening tag back. -/
def restore (former body : List Char) : List Char :=
  match opening? body with
  | none => body
  | some (_, rest) =>
    let new := body.take (body.length - rest.length)
    if isClosed new then body else merged former new ++ rest

end MailMerge.Xml.RootTag
