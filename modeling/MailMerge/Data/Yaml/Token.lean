import MailMerge.Data.Yaml.Plain
import MailMerge.Data.Yaml.Quoted

/-! Tokens of indented text. Indentation is made explicit: every block opens with a token of its
own and closes with another. What turns out to be a key, because a colon follows it on its line,
is marked as one afterwards.
-/
namespace MailMerge.Yaml

/-- What a tag says about the node after it. -/
inductive TagWord where
  /-- the tag without a name -/
  | unspecific
  /-- one of the kinds that are known everywhere -/
  | named (name : String)
  deriving DecidableEq, Repr, Inhabited

/-- The parts of indented text that matter for its structure. -/
inductive Token where
  | mappingStart
  | sequenceStart
  | blockEnd
  | listOpen
  | listClose
  | mapOpen
  | mapClose
  | comma
  | entry
  | key
  | value
  | alias (name : String)
  | anchor (name : String)
  | tag (word : TagWord)
  | scalar (text : String) (isPlain : Bool)
  | documentStart
  | documentEnd
  deriving DecidableEq, Repr, Inhabited

/-- A token that may turn out to begin a key. A required one stands where only a key can. -/
structure Candidate where
  place : Place
  /-- the number of tokens before it -/
  position : Nat
  required : Bool
  deriving Inhabited

/-- The state of reading tokens. -/
structure Layout where
  place : Place
  tokens : Array Token := #[]
  /-- the column of the innermost block, -1 outside of blocks -/
  indent : Int := -1
  /-- the columns of the blocks around it -/
  outer : List Int := []
  /-- a candidate for every open bracket, the innermost first, and one outside of brackets -/
  candidates : List (Option Candidate) := [none]
  /-- a key may begin here -/
  keyAllowed : Bool := true
  deriving Inhabited

namespace Layout

/-- Some bracket is open. -/
def inFlow (s : Layout) : Bool :=
  1 < s.candidates.length

/-- Adds a token. -/
def push (s : Layout) (token : Token) : Layout :=
  { s with tokens := s.tokens.push token }

/-- Sets whether a key may begin next. -/
def allowKey (s : Layout) (allowed : Bool) : Layout :=
  { s with keyAllowed := allowed }

/-- Moves on by some characters. -/
def skip (s : Layout) (n : Nat) : Layout :=
  { s with place := s.place.skip n }

/-- Passes spaces, comments and line breaks up to the next token. A tab counts as a space except
where a key may begin. -/
def toToken : Nat → Layout → Layout
  | 0, s => s
  | room + 1, s =>
    let p := s.place.pass fun c => c == ' ' || (c == '\t' && (s.inFlow || !s.keyAllowed))
    let p := if p.rest.head? == some '#' then p.pass (!isBreak ·) else p
    match p.lineBreak? with
    | some (_, next) =>
      toToken room { s with place := next, keyAllowed := s.keyAllowed || !s.inFlow }
    | none => { s with place := p }

/-- Closes the blocks that are indented further than a column. -/
def close (column : Int) : List Int → Layout → Layout
  | [], s => if column < s.indent then { s.push .blockEnd with indent := -1 } else s
  | i :: outer, s =>
    if column < s.indent then
      close column outer { s.push .blockEnd with indent := i, outer := outer }
    else s

/-- Closes blocks outside of brackets; between brackets indentation does not count. -/
def unindent (s : Layout) (column : Int) : Layout :=
  if s.inFlow then s else close column s.outer s

/-- Opens a block at a column unless there is one, with its token at a position. -/
def openBlock (s : Layout) (column : Nat) (position : Nat) (token : Token) : Layout :=
  if s.inFlow || (column : Int) ≤ s.indent then s
  else
    { s with
      tokens := s.tokens.insertIdxIfInBounds position token
      outer := s.indent :: s.outer
      indent := column }

/-- The candidate for a key at this level. -/
def candidate? (s : Layout) : Option Candidate :=
  s.candidates.head?.join

/-- Gives up the candidate of this level. A required one must not be given up. -/
def dropCandidate (s : Layout) : Option Layout :=
  if s.candidate?.any (·.required) then none
  else some { s with candidates := none :: s.candidates.tail }

/-- Notes that the next token may begin a key. -/
def saveCandidate (s : Layout) : Option Layout :=
  if !s.keyAllowed then some s
  else do
    let s ← s.dropCandidate
    let required := !s.inFlow && s.indent == s.place.column
    some { s with candidates := some ⟨s.place, s.tokens.size, required⟩ :: s.candidates.tail }

/-- A candidate is a key if the colon follows on its line and not too far away. -/
def isNear (s : Layout) (c : Candidate) : Bool :=
  s.place.line ≤ c.place.line && s.place.index ≤ c.place.index + 1024

/-- Opens a bracket. -/
def openBracket (s : Layout) (token : Token) : Option Layout := do
  let s ← s.saveCandidate
  some ({ s.push token with candidates := none :: s.candidates, keyAllowed := true }.skip 1)

/-- Closes a bracket. -/
def closeBracket (s : Layout) (token : Token) : Option Layout := do
  let s ← s.dropCandidate
  let candidates := if s.inFlow then s.candidates.tail else s.candidates
  some ({ s.push token with candidates := candidates, keyAllowed := false }.skip 1)

/-- Begins an item of a block list. -/
def readEntry (s : Layout) : Option Layout := do
  if !s.inFlow && !s.keyAllowed then none
  let s ← (s.openBlock s.place.column s.tokens.size .sequenceStart).dropCandidate
  some (((s.push .entry).allowKey true).skip 1)

/-- Begins a key that is marked by a question mark. -/
def readKey (s : Layout) : Option Layout := do
  if !s.inFlow && !s.keyAllowed then none
  let s ← (s.openBlock s.place.column s.tokens.size .mappingStart).dropCandidate
  some (((s.push .key).allowKey !s.inFlow).skip 1)

/-- Begins a value. What stands before the colon becomes a key. -/
def readValue (s : Layout) : Option Layout := do
  match s.candidate? with
  | some c =>
    if s.isNear c then
      let s := { s with
        tokens := s.tokens.insertIdxIfInBounds c.position .key
        candidates := none :: s.candidates.tail }
      let s := s.openBlock c.place.column c.position .mappingStart
      return ((s.push .value).allowKey false).skip 1
    else if c.required then none
    else pure ()
  | none => pure ()
  if !s.inFlow && !s.keyAllowed then none
  let s := s.openBlock s.place.column s.tokens.size .mappingStart
  let s := { s with candidates := none :: s.candidates.tail }
  return ((s.push .value).allowKey !s.inFlow).skip 1

/-- Characters of the names of anchors. -/
def isNameCharacter (c : Char) : Bool :=
  c.isAlphanum || c == '_' || c == '-'

/-- Reads the name of an anchor, which must be followed by a gap or a mark. -/
def name? (p : Place) : Option (String × Place) :=
  let (cs, p) := (p.skip 1).take isNameCharacter
  let ends := isGap p.rest || p.rest.head?.any fun c => "?:,]\x7d%@`".toList.contains c
  if cs.isEmpty || !ends then none else some (String.ofList cs, p)

/-- Characters of tags. -/
def isTagCharacter (c : Char) : Bool :=
  isNameCharacter c || ";/?:@&=+$.!~*'()".toList.contains c

/-- The beginning of the full names of known kinds. -/
def tagSpace : List Char :=
  "tag:yaml.org,2002:".toList

/-- Reads a tag: by its short name, by its full name between angle brackets, or without a name.
A tag of another kind cannot be understood. -/
def tag? (s : Layout) : Option (TagWord × Place) := do
  let (word, p) ← match s.place.rest with
    | '!' :: '<' :: _ =>
      let (cs, p) := (s.place.skip 2).take fun c => isTagCharacter c || c == ','
      if cs.take tagSpace.length == tagSpace && p.rest.head? == some '>' then
        some (.named (String.ofList (cs.drop tagSpace.length)), p.skip 1)
      else none
    | '!' :: '!' :: _ =>
      let (cs, p) := (s.place.skip 2).take isTagCharacter
      if cs.isEmpty then none else some (TagWord.named (String.ofList cs), p)
    | _ =>
      let p := s.place.skip 1
      some (.unspecific, p)
  if isGap p.rest || (s.inFlow && p.rest.head? == some ',') then some (word, p) else none

/-- Reads a scalar with a reader that gives its text and the place after it. -/
def readScalar (s : Layout) (found : Option (String × Place)) (isPlain : Bool) :
    Option Layout := do
  let (text, p) ← found
  some { s.push (.scalar text isPlain) with place := p }

/-- A plain scalar may begin with these characters: those that have no other meaning here. -/
def beginsPlain (s : Layout) : Bool :=
  match s.place.rest with
  | [] => false
  | c :: rest =>
    !(isSpace c || isBreak c || "-?:,[]\x7b\x7d#&*!|>'\"%@`".toList.contains c) ||
      (c == '-' && !rest.head?.any isSpace) || (!s.inFlow && (c == '?' || c == ':') && !isGap rest)

/-- Reads the token that begins here. -/
def readToken (s : Layout) : Option Layout :=
  match s.place.rest with
  | [] => none
  | c :: rest =>
    let block := !s.inFlow
    if s.place.isDocumentMark then do
      let s ← (s.unindent (-1)).dropCandidate
      let token := if c == '-' then Token.documentStart else .documentEnd
      some (((s.push token).allowKey false).skip 3)
    else if s.place.column == 0 && c == '%' then none
    else if c == '[' then s.openBracket .listOpen
    else if c == '\x7b' then s.openBracket .mapOpen
    else if c == ']' then s.closeBracket .listClose
    else if c == '\x7d' then s.closeBracket .mapClose
    else if c == ',' then s.dropCandidate.map fun s => ((s.push .comma).allowKey true).skip 1
    else if c == '-' && isGap rest then s.readEntry
    else if c == '?' && (s.inFlow || isGap rest) then s.readKey
    else if c == ':' && (s.inFlow || isGap rest) then s.readValue
    else if c == '*' || c == '&' then do
      let s ← s.saveCandidate
      let (name, p) ← name? s.place
      let token := if c == '*' then Token.alias name else .anchor name
      some { (s.push token).allowKey false with place := p }
    else if c == '!' then do
      let s ← s.saveCandidate
      let (word, p) ← s.tag?
      some { (s.push (.tag word)).allowKey false with place := p }
    else if block && (c == '|' || c == '>') then do
      let s ← s.dropCandidate
      (s.allowKey true).readScalar (block? (c == '>') s.indent s.place) false
    else if c == '\'' || c == '"' then do
      let s ← s.saveCandidate
      let quote := if c == '"' then Quote.double else .single
      (s.allowKey false).readScalar (quoted? quote s.place) false
    else if s.beginsPlain then do
      let s ← s.saveCandidate
      let (text, broken, p) ← plain? s.inFlow s.indent s.place
      (s.allowKey broken).readScalar (some (text, p)) true
    else none

/-- A candidate that can no longer be a key is given up. -/
def dropFar (s : Layout) : Option Layout :=
  match s.candidate? with
  | some c => if s.isNear c then some s else s.dropCandidate
  | none => some s

/-- Reads all tokens. Each takes at least one character. -/
def readAll : Nat → Layout → Option (Array Token)
  | 0, _ => none
  | room + 1, s => do
    let s ← (s.toToken (s.place.rest.length + 1)).dropFar
    if s.place.rest.isEmpty then
      let s ← (s.unindent (-1)).dropCandidate
      some s.tokens
    else
      let s ← (s.unindent s.place.column).readToken
      readAll room s

end Layout

/-- The tokens of a text. -/
def tokens? (text : List Char) : Option (List Token) :=
  if text.all isAllowed then
    (Layout.readAll (text.length + 1) { place := { rest := text } }).map Array.toList
  else none

end MailMerge.Yaml
