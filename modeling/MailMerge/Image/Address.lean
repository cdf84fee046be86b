import MailMerge.Fault
import MailMerge.Package.Path
import MailMerge.Text.Lower
import MailMerge.Text.Quoted

/-! Addresses on the network: their components, how a reference is resolved against an address,
and the file extension an address names.
-/
namespace MailMerge
open Text

/-- An address by its components; a missing component is empty. -/
structure Address where
  scheme : String := ""
  authority : List Char := []
  path : List Char := []
  query : List Char := []
  fragment : List Char := []
  deriving DecidableEq, Repr, Inhabited

namespace Address

/-- Control characters and the space, which are dropped in front of an address. -/
def isControl (c : Char) : Bool :=
  c.toNat ≤ 0x20

/-- Characters that are dropped anywhere in an address. -/
def isDropped (c : Char) : Bool :=
  c == '\t' || c == '\r' || c == '\n'

/-- The characters of schemes. -/
def isSchemeChar (c : Char) : Bool :=
  c.isAlphanum || c == '+' || c == '-' || c == '.'

/-- The text before and after the first of a character, all of it when there is none. -/
def cutAt (sep : Char) (text : List Char) : List Char × List Char :=
  (text.takeWhile (· != sep), (text.dropWhile (· != sep)).drop 1)

/-- Splits a scheme off: letters and a few other characters before a colon. -/
def splitScheme (text : List Char) : String × List Char :=
  let head := text.takeWhile (· != ':')
  if head.length < text.length && head.head?.any Char.isAlpha && head.all isSchemeChar then
    (lower (String.ofList head), text.drop (head.length + 1))
  else ("", text)

/-- A number of up to three digits that fits into a byte. -/
def isByteNumeral (text : List Char) : Bool :=
  !text.isEmpty && text.length ≤ 3 && text.all Char.isDigit &&
    (text.length == 1 || text.head? != some '0') &&
    text.foldl (fun n c => n * 10 + (c.toNat - 0x30)) 0 ≤ 255

/-- A number of up to four hexadecimal digits. -/
def isGroup (text : List Char) : Bool :=
  !text.isEmpty && text.length ≤ 4 &&
    text.all fun c => c.isDigit || ('a' ≤ c.toLower && c.toLower ≤ 'f')

/-- Eight groups, the last two of which may be four bytes; one run of empty groups stands for as
many groups as are missing. -/
def isNumericHost (text : List Char) : Bool :=
  let zone := splitOn '%' text
  let zoned := match zone with
    | [_] => true
    | [_, name] => !name.isEmpty
    | _ => false
  let groups := splitOn ':' (zone.headD [])
  let last := groups.getLastD []
  let dotted := last.contains '.'
  let bytes := splitOn '.' last
  let groups := if dotted then groups.dropLast ++ [['0'], ['0']] else groups
  let inner := (groups.drop 1).dropLast
  let gaps := inner.countP List.isEmpty
  let fits := match gaps with
    | 0 => groups.length == 8 && groups.all isGroup
    | 1 =>
      let before := 1 + (inner.takeWhile (!·.isEmpty)).length
      let high := groups.take before
      let low := groups.drop (before + 1)
      let high := if high == [[]] then [] else high
      let low := if low == [[]] then [] else low
      high.length + low.length < 8 && high.all isGroup && low.all isGroup
    | _ => false
  zoned && 3 ≤ (splitOn ':' (zone.headD [])).length && groups.length ≤ 9 &&
    (!dotted || (bytes.length == 4 && bytes.all isByteNumeral)) && fits

/-- A host of a kind yet to come: a version, a dot and a name. -/
def isFutureHost (text : List Char) : Bool :=
  match text with
  | 'v' :: rest =>
    let digits := rest.takeWhile fun c => c.isDigit || ('a' ≤ c.toLower && c.toLower ≤ 'f')
    match rest.drop digits.length with
    | '.' :: _ :: _ => !digits.isEmpty
    | _ => false
  | _ => false

/-- Brackets stand around a host that is a number. -/
def isBracketed (authority : List Char) : Bool :=
  match authority.contains '[', authority.contains ']' with
  | false, false => true
  | true, true =>
    let host := (cutAt ']' (cutAt '[' authority).2).1
    if host.head? == some 'v' then isFutureHost host else isNumericHost host
  | _, _ => false

/-- Characters that stand for one of the marks between the components. -/
def standsForMark (c : Char) : Bool :=
  [0x2047, 0x2048, 0x2049, 0x2100, 0x2101, 0x2105, 0x2106, 0x2a74, 0xfe13, 0xfe16, 0xfe55, 0xfe56,
    0xfe5f, 0xfe6b, 0xff03, 0xff0f, 0xff1a, 0xff1f, 0xff20].contains c.toNat

/-- Reads an address, unless its authority is malformed. -/
def read? (text : String) : Option Address :=
  let text := (text.toList.dropWhile isControl).filter (!isDropped ·)
  let (scheme, rest) := splitScheme text
  let (authority, rest) := match rest with
    | '/' :: '/' :: more =>
      let authority := more.takeWhile fun c => c != '/' && c != '?' && c != '#'
      (authority, more.drop authority.length)
    | rest => ([], rest)
  if !isBracketed authority || authority.any standsForMark then none
  else
    let (rest, fragment) := cutAt '#' rest
    let (path, query) := cutAt '?' rest
    some ⟨scheme, authority, path, query, fragment⟩

/-- The address as text. -/
def text (a : Address) : String :=
  let path := if a.authority.isEmpty then a.path
    else "//".toList ++ a.authority ++
      (if a.path.isEmpty || a.path.head? == some '/' then a.path else '/' :: a.path)
  let scheme := if a.scheme == "" then [] else a.scheme.toList ++ [':']
  let query := if a.query.isEmpty then [] else '?' :: a.query
  let fragment := if a.fragment.isEmpty then [] else '#' :: a.fragment
  String.ofList (scheme ++ path ++ query ++ fragment)

/-- Takes single and double dots out of a path. A path that ends in them ends in a slash. -/
def withoutDots (segments : List (List Char)) : List Char :=
  let kept := segments.foldl (fun done segment =>
    if segment == ['.', '.'] then done.dropLast
    else if segment == ['.'] then done
    else done ++ [segment]) []
  let last := segments.getLastD []
  let kept := if last == ['.'] || last == ['.', '.'] then kept ++ [[]] else kept
  let joined := ['/'].intercalate kept
  if joined.isEmpty then ['/'] else joined

/-- Resolves a reference against an address. -/
def resolve (a reference : Address) : Address :=
  if reference.scheme != "" && reference.scheme != a.scheme then reference
  else if !reference.authority.isEmpty then { reference with scheme := a.scheme }
  else if reference.path.isEmpty then
    { a with
      query := if reference.query.isEmpty then a.query else reference.query
      fragment := reference.fragment }
  else
    let segments := if reference.path.head? == some '/' then splitOn '/' reference.path
      else
        let base := splitOn '/' a.path
        let base := if base.getLastD [] == [] then base else base.dropLast
        let all := base ++ splitOn '/' reference.path
        all.take 1 ++ ((all.drop 1).dropLast.filter (!·.isEmpty)) ++ (all.drop 1).getLast?.toList
    { reference with scheme := a.scheme, authority := a.authority, path := withoutDots segments }

/-- The bytes of a character, each as a percent sign and two digits. -/
def percentCoded (c : Char) : List Char :=
  (String.singleton c).toUTF8.toList.flatMap fun b =>
    '%' :: (hexDigits 2 b.toNat).map Char.toUpper

/-- A component with every character coded that may not be sent in it: those outside of the
printable basic Latin ones, the space, and some more. -/
def coded (unsafeMarks : String) (text : List Char) : List Char :=
  text.flatMap fun c =>
    if c.toNat ≤ 0x20 || 0x7F ≤ c.toNat || unsafeMarks.toList.contains c then percentCoded c
    else [c]

/-- The segments of a path without single and double dots. -/
def straight (segments : List (List Char)) : List (List Char) :=
  segments.foldl (fun done segment =>
    if segment == ['.'] then done
    else if segment == ['.', '.'] then (if done == [[]] then done else done.dropLast)
    else done ++ [segment]) []

/-- The text by which an address is requested: the host in lower case, the path without dots, and
characters coded that may not be sent. A text that is no full address stays as it is. -/
def requested (text : String) : String :=
  match read? text with
  | none => text
  | some a =>
    if a.scheme == "" || a.authority.isEmpty then text
    else
      let path := ['/'].intercalate (straight (splitOn '/' a.path))
      { a with
        authority := a.authority.map Char.toLower
        path := coded "\"<>`\x7b\x7d" path
        query := coded "\"<>" a.query
        fragment := coded "\"<>`" a.fragment }.text

/-- The extension of the file that an address names: what follows the last dot of the last
segment of its path. Without one it is `default`. -/
def extension (text default : String) : Except Fault String :=
  match read? text with
  | none => .error (.breakdown .value)
  | some a =>
    match cutLast? '.' (Path.base (String.ofList a.path)).toList with
    | some (_, c :: rest) => .ok (lower (String.ofList (c :: rest)))
    | _ => .ok default

end Address
end MailMerge
