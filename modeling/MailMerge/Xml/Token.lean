import MailMerge.Xml.Chars
import MailMerge.Text.Search

/-! The lexical level of markup: the tags and the text between them. Comments and processing
instructions are checked and dropped; references are replaced; entities declared in the document
type are expanded where they are used.
-/
namespace MailMerge.Xml
open Text

/-- The parts of a document as they are read. -/
inductive Token where
  /-- an opening tag with its attributes; an empty element is opened and closed -/
  | opening (name : String) (attributes : List (String × String)) (closed : Bool)
  | closing (name : String)
  /-- characters written as they are -/
  | plain (text : List Char)
  /-- characters written as a reference or in a literal section -/
  | marked (text : List Char)
  deriving Repr

/-- Entities of the document and their replacement. -/
abbrev Entities := List (String × List Char)

/-- Drops white space. -/
def skipSpace (text : List Char) : List Char :=
  text.dropWhile isSpace

/-- A name, possibly with one colon inside. -/
def name? (text : List Char) : Option (String × List Char) :=
  let head := text.takeWhile fun c => isNameChar c || c == ':'
  if (splitOn ':' head).length ≤ 2 && (splitOn ':' head).all isPlainName then
    some (String.ofList head, text.drop head.length)
  else none

/-- A name without a colon, as instructions and entities have. -/
def simpleName? (text : List Char) : Option (String × List Char) :=
  let head := text.takeWhile fun c => isNameChar c || c == ':'
  if isPlainName head then some (String.ofList head, text.drop head.length) else none

/-- The value of a digit in base sixteen. -/
def hexDigit? (c : Char) : Option Nat :=
  if c.isDigit then some (c.toNat - '0'.toNat)
  else if 'a' ≤ c && c ≤ 'f' then some (c.toNat - 'a'.toNat + 10)
  else if 'A' ≤ c && c ≤ 'F' then some (c.toNat - 'A'.toNat + 10)
  else none

/-- The character with a given number, if a document may hold it. -/
def charOf? (n : Nat) : Option Char :=
  let c := Char.ofNat n
  if n < 0x110000 && c.toNat == n && n != 0 && isChar c then some c else none

/-- The entities that every document has. -/
def predefined? (name : String) : Option Char :=
  match name with
  | "amp" => some '&'
  | "lt" => some '<'
  | "gt" => some '>'
  | "quot" => some '"'
  | "apos" => some '\''
  | _ => none

/-- What a reference stands for: a character, or the replacement of an entity. -/
inductive Reference where
  | char (c : Char)
  | entity (name : String)

/-- Reads a reference after its ampersand. -/
def reference? (text : List Char) : Option (Reference × List Char) :=
  match text with
  | '#' :: 'x' :: rest =>
    let digits := rest.takeWhile fun c => (hexDigit? c).isSome
    match rest.drop digits.length with
    | ';' :: rest => do
      if digits.isEmpty || 8 < digits.length then none
      let c ← charOf? (digits.foldl (fun n c => n * 16 + (hexDigit? c).getD 0) 0)
      some (.char c, rest)
    | _ => none
  | '#' :: rest =>
    let digits := rest.takeWhile Char.isDigit
    match rest.drop digits.length with
    | ';' :: rest => do
      if digits.isEmpty || 10 < digits.length then none
      let c ← charOf? (digits.foldl (fun n c => n * 10 + (c.toNat - '0'.toNat)) 0)
      some (.char c, rest)
    | _ => none
  | rest => do
    let (name, rest) ← simpleName? rest
    match rest with
    | ';' :: rest =>
      match predefined? name with
      | some c => some (.char c, rest)
      | none => some (.entity name, rest)
    | _ => none

/-- The value of an attribute: references are replaced, white space becomes spaces. -/
def attributeValue? (fuel : Nat) (entities : Entities) (text : List Char) :
    Option (List Char) :=
  match fuel, text with
  | 0, _ => none
  | _, [] => some []
  | fuel + 1, '&' :: rest => do
    match ← reference? rest with
    | (.char c, rest) => (attributeValue? fuel entities rest).map (c :: ·)
    | (.entity name, rest) =>
      let replacement ← (entities.find? (·.1 == name)).map (·.2)
      attributeValue? fuel entities (replacement ++ rest)
  | fuel + 1, c :: rest =>
    if c == '<' || !isChar c then none
    else (attributeValue? fuel entities rest).map ((if isSpace c then ' ' else c) :: ·)

/-- A text in quotes of either kind, and what follows it. -/
def quotedText? (text : List Char) : Option (List Char × List Char) :=
  match text with
  | quote :: rest =>
    if quote == '"' || quote == '\'' then cut? [quote] rest else none
  | [] => none

/-- Reads attributes up to the end of a tag; tells whether the tag closes its element. -/
def attributes? (fuel : Nat) (entities : Entities) (text : List Char)
    (before : List (String × String)) : Option (List (String × String) × Bool × List Char) :=
  match fuel with
  | 0 => none
  | fuel + 1 =>
    match skipSpace text with
    | '>' :: rest => some (before, false, rest)
    | '/' :: '>' :: rest => some (before, true, rest)
    | rest => do
      if (skipSpace text).length == text.length then none
      let (name, rest) ← name? rest
      let rest ← after? ['='] (skipSpace rest)
      let (raw, rest) ← quotedText? (skipSpace rest)
      let value ← attributeValue? (raw.length + 1 + 1000 * entities.length) entities raw
      if before.any (·.1 == name) then none
      attributes? fuel entities rest (before ++ [(name, String.ofList value)])

/-- Drops a comment after its opening mark. -/
def skipComment? (text : List Char) : Option (List Char) := do
  let (body, rest) ← cut? "--".toList text
  if !body.all isChar then none
  after? ['>'] rest

/-- Drops a processing instruction after its opening mark. Its target is not `xml`. -/
def skipInstruction? (text : List Char) : Option (List Char) := do
  let (target, rest) ← simpleName? text
  if target.toLower == "xml" then none
  let (body, after) ← cut? "?>".toList rest
  if !body.all isChar then none
  match body with
  | [] => some after
  | c :: _ => if isSpace c then some after else none

/-- Text without the mark that ends a literal section. -/
def isPlainText (text : List Char) : Bool :=
  text.all isChar && !occursIn "]]>".toList text

/-- The tokens of a text that begins with one, given those of what follows it. -/
def Token.before (token : Token) (rest : List Token × Bool) : List Token × Bool :=
  (token :: rest.1, rest.2)

/-- The tokens from inside the root element to the end of the document, and whether the text is
well formed to its end. -/
def contentTokens (fuel : Nat) (entities : Entities) (text : List Char) : List Token × Bool :=
  match fuel, text with
  | 0, _ => ([], false)
  | _, [] => ([], true)
  | fuel + 1, '&' :: rest =>
    match reference? rest with
    | some (.char c, rest) => (Token.marked [c]).before (contentTokens fuel entities rest)
    | some (.entity name, rest) =>
      match entities.find? (·.1 == name) with
      | some (_, replacement) => contentTokens fuel entities (replacement ++ rest)
      | none => ([], false)
    | none => ([], false)
  | fuel + 1, '<' :: '!' :: '-' :: '-' :: rest =>
    match skipComment? rest with
    | some rest => contentTokens fuel entities rest
    | none => ([], false)
  | fuel + 1, '<' :: '!' :: rest =>
    match (after? "[CDATA[".toList rest).bind (cut? "]]>".toList) with
    | some (body, rest) =>
      if body.all isChar then (Token.marked body).before (contentTokens fuel entities rest)
      else ([], false)
    | none => ([], false)
  | fuel + 1, '<' :: '?' :: rest =>
    match skipInstruction? rest with
    | some rest => contentTokens fuel entities rest
    | none => ([], false)
  | fuel + 1, '<' :: '/' :: rest =>
    match name? rest with
    | some (name, rest) =>
      match skipSpace rest with
      | '>' :: rest => (Token.closing name).before (contentTokens fuel entities rest)
      | _ => ([], false)
    | none => ([], false)
  | fuel + 1, '<' :: rest =>
    match name? rest with
    | some (name, rest) =>
      match attributes? (rest.length + 1) entities rest [] with
      | some (attributes, closed, rest) =>
        (Token.opening name attributes closed).before (contentTokens fuel entities rest)
      | none => ([], false)
    | none => ([], false)
  | fuel + 1, text =>
    let body := text.takeWhile fun c => c != '<' && c != '&'
    if isPlainText body then
      (Token.plain body).before (contentTokens fuel entities (text.drop body.length))
    else ([], false)

/-- The replacement of an entity as its declaration gives it: character references are
replaced, the others are kept for the place of use. -/
def entityValue? (fuel : Nat) (text : List Char) : Option (List Char) :=
  match fuel, text with
  | 0, _ => none
  | _, [] => some []
  | fuel + 1, '&' :: '#' :: rest => do
    match ← reference? ('#' :: rest) with
    | (.char c, rest) => (entityValue? fuel rest).map (c :: ·)
    | _ => none
  | fuel + 1, c :: rest =>
    if c == '%' || !isChar c then none else (entityValue? fuel rest).map (c :: ·)

/-- Drops a declaration to its closing mark, minding quotes. -/
def skipDeclaration? (fuel : Nat) (text : List Char) : Option (List Char) :=
  match fuel, text with
  | 0, _ | _, [] => none
  | _, '>' :: rest => some rest
  | fuel + 1, c :: rest =>
    if c == '"' || c == '\'' then do
      let (_, rest) ← cut? [c] rest
      skipDeclaration? fuel rest
    else if c == '<' then none
    else skipDeclaration? fuel rest

/-- Reads the declarations inside a document type up to its closing bracket. Of several
declarations of an entity the first counts. -/
def subset? (fuel : Nat) (entities : Entities) (text : List Char) :
    Option (Entities × List Char) :=
  match fuel with
  | 0 => none
  | fuel + 1 =>
    match skipSpace text with
    | ']' :: rest => some (entities, rest)
    | '<' :: '!' :: '-' :: '-' :: rest => do subset? fuel entities (← skipComment? rest)
    | '<' :: '?' :: rest => do subset? fuel entities (← skipInstruction? rest)
    | '<' :: '!' :: rest =>
      match after? "ENTITY".toList rest with
      | some rest => do
        if (skipSpace rest).length == rest.length then none
        match name? (skipSpace rest) with
        | none => do subset? fuel entities (← skipDeclaration? (rest.length + 1) rest)
        | some (name, rest) =>
          match quotedText? (skipSpace rest) with
          | some (raw, rest) =>
            let value ← entityValue? (raw.length + 1) raw
            let rest ← after? ['>'] (skipSpace rest)
            let known := entities.any (·.1 == name)
            subset? fuel (if known then entities else entities ++ [(name, value)]) rest
          | none => do subset? fuel entities (← skipDeclaration? (rest.length + 1) rest)
      | none => do
        let words := ["ELEMENT", "ATTLIST", "NOTATION"].map String.toList
        let rest ← words.findSome? fun word => after? word rest
        if !(rest.head?.any isSpace) then none
        subset? fuel entities (← skipDeclaration? (rest.length + 1) rest)
    | _ => none

/-- Reads a document type after its opening word. -/
def doctype? (text : List Char) : Option (Entities × List Char) := do
  if (skipSpace text).length == text.length then none
  let (_, rest) ← name? (skipSpace text)
  let rest := skipSpace rest
  let external (rest : List Char) : Option (List Char) := do
    if (skipSpace rest).length == rest.length then none
    let (_, rest) ← quotedText? (skipSpace rest)
    some (skipSpace rest)
  let rest ← match after? "SYSTEM".toList rest, after? "PUBLIC".toList rest with
    | some rest, _ => external rest
    | none, some rest => do external (← (quotedText? (skipSpace rest)).map (·.2))
    | none, none => some rest
  match rest with
  | '[' :: rest =>
    let (entities, rest) ← subset? (rest.length + 1) [] rest
    let rest ← after? ['>'] (skipSpace rest)
    some (entities, rest)
  | '>' :: rest => some ([], rest)
  | _ => none

/-- Reads what may stand before the root element: white space, comments, instructions and one
document type. -/
def prolog? (fuel : Nat) (entities : Option Entities) (text : List Char) :
    Option (Entities × List Char) :=
  match fuel with
  | 0 => none
  | fuel + 1 =>
    match skipSpace text with
    | '<' :: '!' :: '-' :: '-' :: rest => do prolog? fuel entities (← skipComment? rest)
    | '<' :: '?' :: rest => do prolog? fuel entities (← skipInstruction? rest)
    | '<' :: '!' :: rest => do
      if entities.isSome then none
      let (found, rest) ← doctype? (← after? "DOCTYPE".toList rest)
      prolog? fuel (some found) rest
    | rest => some (entities.getD [], rest)

/-- One setting of the declaration that opens a document. -/
def setting? (key : String) (text : List Char) : Option (List Char × List Char) := do
  if (skipSpace text).length == text.length then none
  let rest ← after? key.toList (skipSpace text)
  let rest ← after? ['='] (skipSpace rest)
  let (value, rest) ← quotedText? (skipSpace rest)
  if value.all fun c => c.isAlphanum || c == '.' || c == '-' || c == '_' then some (value, rest)
  else none

/-- Reads the declaration that opens a document, if there is one: the encoding it names, and the
text after it. -/
def declaration? (text : List Char) : Option (Option String × List Char) :=
  match after? "<?xml".toList text with
  | some (c :: rest) =>
    if !isSpace c then some (none, text)
    else do
      let (_, rest) ← setting? "version" (c :: rest)
      let (encoding, rest) := match setting? "encoding" rest with
        | some (value, rest) => (some value, rest)
        | none => (none, rest)
      if encoding.any fun e => !(e.head?.any Char.isAlpha) then none
      let rest ← match setting? "standalone" rest with
        | some (value, rest) =>
          if value == "yes".toList || value == "no".toList then some rest else none
        | none => some rest
      let rest ← after? "?>".toList (skipSpace rest)
      some (encoding.map String.ofList, rest)
  | _ => some (none, text)

/-- The tokens of a document after its declaration, and whether it is well formed to its end as
far as single tokens go. -/
def tokens (text : List Char) : List Token × Bool :=
  match prolog? (text.length + 1) none text with
  | none => ([], false)
  | some (entities, rest) =>
    let size := entities.foldl (fun n e => n + e.2.length + 1) 0
    let fuel := (rest.length + 1) * Nat.pow (size + 1) entities.length
    contentTokens fuel entities rest

end MailMerge.Xml
