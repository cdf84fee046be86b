import MailMerge.Text.Digit
import MailMerge.Text.Search

/-! The words of a command and the request that they make. Switches begin with a dash; a long one
may be cut short as long as it is the only one that begins so. Of the words that stand alone one
is the data file, and with two the first is the template.
-/
namespace MailMerge.Command
open Text

/-- What switches ask for. -/
inductive Switch where
  | help
  | output
  | header
  | footer
  | watermark
  | blank
  | version
  | verbose
  | quiet
  deriving DecidableEq, Repr, Inhabited

namespace Switch

/-- All spellings of the switches. -/
def spellings : List (String × Switch) :=
  [("-h", help), ("--help", help), ("-o", output), ("--output", output), ("--header", header),
    ("--footer", footer), ("--watermark", watermark), ("--blank", blank), ("-v", version),
    ("--version", version), ("--verbose", verbose), ("-q", quiet), ("--quiet", quiet)]

/-- The switch with a text after it. -/
def takesText : Switch → Bool
  | output | header | footer | watermark => true
  | _ => false

/-- The switch with a spelling. -/
def ofSpelling? (spelling : List Char) : Option Switch :=
  spellings.lookup (String.ofList spelling)

end Switch

/-- A word of a command. -/
inductive Word where
  | plain (text : String)
  /-- two dashes, after which every word stands alone -/
  | separator
  /-- a switch, short or long, perhaps with an equals sign, and the text in the same word -/
  | switch (s : Switch) (isShort marked : Bool) (given : Option (List Char))
  /-- a switch that is not known -/
  | unknown
  deriving DecidableEq, Repr

namespace Word

/-- The word is a switch, known or not. -/
def isSwitch : Word → Bool
  | switch .. | unknown => true
  | _ => false

/-- A negative number is no switch. -/
def isNegative : List Char → Bool
  | '-' :: text =>
    let tail := text.dropWhile isDecimal
    if tail.isEmpty then !text.isEmpty
    else match tail with
      | '.' :: more => !more.isEmpty && more.all isDecimal
      | _ => false
  | _ => false

/-- A word up to its first equals sign, and what follows it. -/
def parted (word : List Char) : List Char × Option (List Char) :=
  match cut? ['='] word with
  | some (head, tail) => (head, some tail)
  | none => (word, none)

/-- The switches that a word may mean when it is no full spelling: long ones that begin like it,
or a short one with more behind it. -/
def candidates (word : List Char) : List Word :=
  match word with
  | '-' :: '-' :: _ =>
    let (head, given) := parted word
    Switch.spellings.filterMap fun (spelling, s) =>
      if startsWith head spelling.toList then some (.switch s false given.isSome given) else none
  | _ =>
    Switch.spellings.filterMap fun (spelling, s) =>
      if spelling.toList == word.take 2 then some (.switch s true false (some (word.drop 2)))
      else none

/-- The meaning of a word; a long switch that is cut too short has none. -/
def ofText? (text : String) : Option Word :=
  let word := text.toList
  let (head, given) := parted word
  let isShort := !startsWith ['-', '-'] word
  if !startsWith ['-'] word || word.length == 1 then some (.plain text)
  else match Switch.ofSpelling? word, given, Switch.ofSpelling? head with
    | some s, _, _ => some (.switch s isShort false none)
    | none, some given, some s => some (.switch s isShort true (some given))
    | none, _, _ =>
      match candidates word with
      | [found] => some found
      | [] => some (if isNegative word || word.contains ' ' then .plain text else .unknown)
      | _ => none

/-- The meanings of the words of a command. -/
def ofTexts? : List String → Option (List Word)
  | [] => some []
  | text :: rest =>
    if text == "--" then some (.separator :: rest.map .plain)
    else do
      let word ← ofText? text
      let words ← ofTexts? rest
      some (word :: words)

end Word

/-- What a command asks for. -/
structure Request where
  template : Option String := none
  dataFile : String := ""
  output : Option String := none
  header : Option String := none
  footer : Option String := none
  watermark : Option String := none
  blank : Bool := false
  verbose : Bool := false
  quiet : Bool := false
  deriving DecidableEq, Repr, Inhabited

/-- What becomes of the words of a command. -/
inductive Reading where
  | request (r : Request)
  | help
  | version
  /-- words that make no request -/
  | misuse
  deriving DecidableEq, Repr, Inhabited

/-- The switches in one word. -/
structure Cluster where
  /-- switches with their texts, in order -/
  set : List (Switch × String) := []
  /-- the last switch, when its text is the next word -/
  open? : Option Switch := none
  /-- something in the word is no switch -/
  stray : Bool := false
  deriving Repr

namespace Cluster

/-- The switches of a word that begins with a switch. Short switches without a text may be
followed by others at once. -/
def ofSwitch? (s : Switch) (isShort marked : Bool) (given : Option (List Char)) : Option Cluster :=
  match given with
  | none => some (if s.takesText then { open? := some s } else { set := [(s, "")] })
  | some text =>
    if s.takesText then some { set := [(s, String.ofList text)] }
    else if !isShort || marked then none
    else match text with
      | [] => none
      | '-' :: _ => none
      | [c] =>
        match Switch.ofSpelling? ['-', c] with
        | none => some { set := [(s, "")], stray := true }
        | some t => (ofSwitch? t true false none).map fun k => { k with set := (s, "") :: k.set }
      | c :: '=' :: more =>
        match Switch.ofSpelling? ['-', c] with
        | none => some { set := [(s, "")], stray := true }
        | some t =>
          (ofSwitch? t true true (some more)).map fun k => { k with set := (s, "") :: k.set }
      | c :: more =>
        match Switch.ofSpelling? ['-', c] with
        | none => some { set := [(s, "")], stray := true }
        | some t =>
          (ofSwitch? t true false (some more)).map fun k => { k with set := (s, "") :: k.set }
termination_by given.elim 0 (·.length + 1)
decreasing_by all_goals simp_all

end Cluster

/-- How far the words of a command are read. -/
structure Progress where
  request : Request := {}
  /-- the words that stand alone have their places -/
  placed : Bool := false
  /-- some word has no place -/
  stray : Bool := false

namespace Progress

/-- Applies switches in order. Two of them end the reading. -/
def apply (p : Progress) : List (Switch × String) → Except Reading Progress
  | [] => .ok p
  | (s, text) :: rest =>
    let r := p.request
    match s with
    | .help => .error .help
    | .version => .error .version
    | .output => apply { p with request := { r with output := some text } } rest
    | .header => apply { p with request := { r with header := some text } } rest
    | .footer => apply { p with request := { r with footer := some text } } rest
    | .watermark => apply { p with request := { r with watermark := some text } } rest
    | .blank => apply { p with request := { r with blank := true } } rest
    | .verbose => apply { p with request := { r with verbose := true } } rest
    | .quiet => apply { p with request := { r with quiet := true } } rest

/-- Gives the words that stand alone their places. -/
def place (p : Progress) (template : Option String) (dataFile : String) : Progress :=
  { p with
    request := { p.request with template := template, dataFile := dataFile }
    placed := true }

/-- The end of the words: only words that stand alone are left, and there must be a data file. -/
def finish (p : Progress) (words : List Word) : Reading :=
  let texts := words.filterMap fun
    | .plain text => some text
    | _ => none
  let done (p : Progress) : Reading := if p.stray then .misuse else .request p.request
  if p.placed then (if words.isEmpty then done p else .misuse)
  else match texts with
    | [dataFile] => done (p.place none dataFile)
    | [template, dataFile] => done (p.place (some template) dataFile)
    | _ => .misuse

/-- Reads the words from left to right. Words that stand alone are placed as soon as a switch
follows them; those that come later have no place. -/
def read (p : Progress) (words : List Word) : Reading :=
  if !words.any Word.isSwitch then p.finish words
  else match words with
    | [] => p.finish []
    | .unknown :: rest => read { p with stray := true } rest
    | .switch s isShort marked given :: rest =>
      match Cluster.ofSwitch? s isShort marked given with
      | none => .misuse
      | some k =>
        let p := { p with stray := p.stray || k.stray }
        match k.open?, rest with
        | none, rest =>
          match p.apply k.set with
          | .error reading => reading
          | .ok p => read p rest
        | some t, .plain text :: rest =>
          match p.apply (k.set ++ [(t, text)]) with
          | .error reading => reading
          | .ok p => read p rest
        | some _, _ => .misuse
    | .plain a :: .plain b :: rest =>
      if p.placed then read { p with stray := true } (.plain b :: rest)
      else read (p.place (some a) b) rest
    | .plain a :: rest =>
      if p.placed then read { p with stray := true } rest else read (p.place none a) rest
    | .separator :: rest => read { p with stray := true } rest
termination_by words.length

end Progress

/-- Reads the words of a command. -/
def read (texts : List String) : Reading :=
  match Word.ofTexts? texts with
  | some words => Progress.read {} words
  | none => .misuse

end MailMerge.Command
