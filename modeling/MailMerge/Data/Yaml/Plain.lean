import MailMerge.Data.Yaml.Place

/-! Scalars without quotes, and scalars written as blocks of lines. A plain scalar goes on over
lines that are indented further than its surroundings; a block keeps its lines, or folds those
that begin with a character.
-/
namespace MailMerge.Yaml

/-- Characters that structure collections between brackets. -/
def isFlowMark (c : Char) : Bool :=
  c == ',' || c == '[' || c == ']' || c == '\x7b' || c == '\x7d'

namespace Plain

/-- The next word of a plain scalar and the text after it. Between brackets a colon may not stand
before a character that structures the collection. -/
def word (flow : Bool) : List Char → Option (List Char × List Char)
  | [] => some ([], [])
  | c :: rest =>
    if isSpace c || isBreak c then some ([], c :: rest)
    else if flow && c == ':' && rest.head?.any (fun d => isFlowMark d || d == '?') then none
    else if (c == ':' && isGap rest) || (flow && isFlowMark c) then some ([], c :: rest)
    else (word flow rest).map fun (cs, tail) => (c :: cs, tail)

/-- Reads the gap after a word: spaces before the first line break, and the line breaks. No tab
may stand where a line is indented. -/
def gap (indent : Int) : Nat → Bool → Place → Option (List Char × List Char × Place)
  | 0, _, p => some ([], [], p)
  | room + 1, broken, p =>
    match p.lineBreak? with
    | some (c, next) => (gap indent room true next).map fun (_, breaks, p) => ([], c :: breaks, p)
    | none =>
      match p.rest with
      | c :: _ =>
        if !isSpace c then some ([], [], p)
        else if broken && p.column < indent && c == '\t' then none
        else (gap indent room broken (p.skip 1)).map fun (spaces, breaks, p) =>
          (if broken then spaces else c :: spaces, breaks, p)
      | [] => some ([], [], p)

/-- Reads words and the gaps between them. The result says whether the scalar ended after a line
break. -/
def words (flow : Bool) (indent : Int) : Nat → List Char → Bool → Place →
    Option (List Char × Bool × Place)
  | 0, _, _, _ => none
  | room + 1, before, broken, p => do
    if p.isDocumentMark || p.rest.head? == some '#' then some ([], broken, p)
    else
      let (cs, _) ← word flow p.rest
      if cs.isEmpty && !before.isEmpty then some ([], broken, p)
      else
        let q := p.skip cs.length
        if q.rest.head?.any fun c => isSpace c || isBreak c then
          let (spaces, breaks, next) ← gap indent (q.rest.length + 1) false q
          let broken := !breaks.isEmpty
          if !flow && next.column < indent then some (before ++ cs, broken, next)
          else
            let between := folded spaces breaks
            let (more, broken, next) ← words flow indent room between broken next
            some (before ++ cs ++ more, broken, next)
        else some (before ++ cs, false, q)

end Plain

/-- Reads a plain scalar inside a block with an indentation. The flag says that a line break was
passed after the scalar. -/
def plain? (flow : Bool) (indent : Int) (p : Place) : Option (String × Bool × Place) :=
  (Plain.words flow (indent + 1) (p.rest.length + 1) [] false p).map fun (cs, broken, p) =>
    (String.ofList cs, broken, p)

namespace Block

/-- What becomes of the line breaks at the end of a block. -/
inductive Chomp where
  | strip
  | clip
  | keep
  deriving DecidableEq, Repr

/-- Reads the header of a block: how its end is treated, and how far it is indented if that is
said. The two may come in either order. -/
def header? (p : Place) : Option (Chomp × Option Nat × Place) := do
  let chomp? (p : Place) : Option (Chomp × Place) :=
    match p.rest with
    | '+' :: _ => some (.keep, p.skip 1)
    | '-' :: _ => some (.strip, p.skip 1)
    | _ => none
  let digit? (p : Place) : Option (Nat × Place) :=
    match p.rest with
    | c :: _ => if c.isDigit then some (c.toNat - '0'.toNat, p.skip 1) else none
    | [] => none
  let (chomp, width, p) := match chomp? p with
    | some (chomp, p) =>
      match digit? p with
      | some (n, p) => (chomp, some n, p)
      | none => (chomp, none, p)
    | none =>
      match digit? p with
      | some (n, p) =>
        match chomp? p with
        | some (chomp, p) => (chomp, some n, p)
        | none => (.clip, some n, p)
      | none => (.clip, none, p)
  if width == some 0 then none
  let p := p.pass isSpace
  let p := if p.rest.head? == some '#' then p.pass (!isBreak ·) else p
  if isLineEnd p.rest then some (chomp, width, p) else none

/-- Passes the indentation of a line and the empty lines before it. With an unknown indentation
the widest one is found. -/
def breaks (indent : Nat) : Nat → Nat → Place → Option (List Char × Nat × Place)
  | 0, widest, p => some ([], widest, p)
  | room + 1, widest, p =>
    let spaces := (p.rest.takeWhile (· == ' ')).length
    let p := p.skip (if indent == 0 then spaces else min spaces (indent - p.column))
    let widest := max widest p.column
    if (indent == 0 || p.column < indent) && p.rest.head? == some '\t' then none
    else match p.lineBreak? with
      | some (c, next) => (breaks indent room widest next).map fun (cs, widest, p) =>
        (c :: cs, widest, p)
      | none => some ([], widest, p)

/-- Reads the lines of a block. `before` is the line break that precedes, `blank` says that the
line before began with a space. -/
def lines (folds : Bool) (indent : Nat) : Nat → List Char → List Char → Bool → Place →
    Option (List Char × List Char × List Char × Place)
  | 0, _, _, _, _ => none
  | room + 1, before, empty, blank, p => do
    if p.column != indent || p.rest.isEmpty then some ([], before, empty, p)
    else
      let spaced := p.rest.head?.any isSpace
      let lead :=
        if folds && before == ['\n'] && !blank && !spaced then
          (if empty.isEmpty then [' '] else [])
        else before
      let (cs, p) := p.take (!isBreak ·)
      let (after, p) := match p.lineBreak? with
        | some (c, next) => ([c], next)
        | none => ([], p)
      let (next, _, p) ← breaks indent (p.rest.length + 1) 0 p
      let (more, before, tail, p) ← lines folds indent room after next spaced p
      some (lead ++ empty ++ cs ++ more, before, tail, p)

end Block

/-- Reads a block scalar inside a block with an indentation. -/
def block? (folds : Bool) (indent : Int) (p : Place) : Option (String × Place) := do
  let (chomp, width, p) ← Block.header? (p.skip 1)
  let p := match p.lineBreak? with
    | some (_, next) => next
    | none => p
  let known := match width with
    | some n => (max indent 0).toNat + n
    | none => 0
  let (empty, widest, p) ← Block.breaks known (p.rest.length + 1) 0 p
  let column := if known == 0 then max (max widest (indent + 1).toNat) 1 else known
  let (cs, before, tail, p) ← Block.lines folds column (p.rest.length + 1) [] empty false p
  let stop := match chomp with
    | .strip => []
    | .clip => before
    | .keep => before ++ tail
  some (String.ofList (cs ++ stop), p)

end MailMerge.Yaml
