import MailMerge.Data.Yaml.Place

/-! Scalars in quotes. Between single quotes only the quote itself is written in a special way,
twice; between double quotes a backslash begins an escape. Line breaks are folded in both.
-/
namespace MailMerge.Yaml

/-- Quotes are single or double. -/
inductive Quote where
  | single
  | double
  deriving DecidableEq, Repr

/-- The character of a quote. -/
def Quote.mark : Quote → Char
  | .single => '\''
  | .double => '"'

namespace Quoted

/-- The character that an escape of one letter stands for. -/
def escaped? : Char → Option Char
  | '0' => some '\x00'
  | 'a' => some '\x07'
  | 'b' => some '\x08'
  | 't' | '\t' => some '\t'
  | 'n' => some '\n'
  | 'v' => some '\x0b'
  | 'f' => some '\x0c'
  | 'r' => some '\r'
  | 'e' => some '\x1b'
  | ' ' => some ' '
  | '"' => some '"'
  | '/' => some '/'
  | '\\' => some '\\'
  | 'N' => some '\u0085'
  | '_' => some '\u00a0'
  | 'L' => some '\u2028'
  | 'P' => some '\u2029'
  | _ => none

/-- The number of digits of a numeric escape. -/
def codeLength? : Char → Option Nat
  | 'x' => some 2
  | 'u' => some 4
  | 'U' => some 8
  | _ => none

/-- The value of a digit in base sixteen. -/
def digit? (c : Char) : Option Nat :=
  if c.isDigit then some (c.toNat - '0'.toNat)
  else if 'a' ≤ c && c ≤ 'f' then some (c.toNat - 'a'.toNat + 10)
  else if 'A' ≤ c && c ≤ 'F' then some (c.toNat - 'A'.toNat + 10)
  else none

/-- The character with a code in base sixteen. -/
def character? (digits : List Char) : Option Char := do
  let code ← digits.foldlM (fun n c => (digit? c).map (n * 16 + ·)) 0
  if h : code.isValidChar then some ⟨code.toUInt32, by
    simpa [UInt32.isValidChar, Nat.toUInt32, Nat.mod_eq_of_lt (show code < 4294967296 by
      rcases h with h | h <;> omega)] using h⟩
  else none

/-- Reads the part of a quoted scalar up to its end or the next gap. The flag says that the part
ended in an escaped line break. -/
def word : Nat → Quote → Place → Option (List Char × Bool × Place)
  | 0, _, _ => none
  | room + 1, quote, p =>
    let go (c : Char) (p : Place) : Option (List Char × Bool × Place) :=
      (word room quote p).map fun (cs, cut, p) => (c :: cs, cut, p)
    match p.rest with
    | [] => some ([], false, p)
    | c :: rest =>
      if isSpace c || isBreak c then some ([], false, p)
      else if c == quote.mark then
        match quote, rest with
        | .single, '\'' :: _ => go '\'' (p.skip 2)
        | _, _ => some ([], false, p)
      else if quote == .double && c == '\\' then
        match (p.skip 1).lineBreak? with
        | some (_, next) => some ([], true, next)
        | none =>
          match rest with
          | [] => none
          | e :: more =>
            match escaped? e, codeLength? e with
            | some d, _ => go d (p.skip 2)
            | none, some n =>
              if more.length < n then none
              else (character? (more.take n)).bind fun d => go d (p.skip (2 + n))
            | none, none => none
      else go c (p.skip 1)

/-- Reads the gap between two words: spaces before the first line break, and the line breaks. -/
def gap : Nat → Bool → Place → List Char × List Char × Place
  | 0, _, p => ([], [], p)
  | room + 1, broken, p =>
    match p.lineBreak? with
    | some (c, next) =>
      let (_, breaks, p) := gap room true next
      ([], c :: breaks, p)
    | none =>
      match p.rest with
      | c :: _ =>
        if isSpace c then
          let (spaces, breaks, p) := gap room broken (p.skip 1)
          (if broken then spaces else c :: spaces, breaks, p)
        else ([], [], p)
      | [] => ([], [], p)

/-- Reads the inside of a quoted scalar and its closing quote. No line of it may look like the
beginning or the end of a document. -/
def inside : Nat → Quote → Place → Option (List Char × Place)
  | 0, _, _ => none
  | room + 1, quote, p => do
    if p.isDocumentMark || p.rest.isEmpty then none
    let (cs, cut, p) ← word (p.rest.length + 1) quote p
    if !cut && p.rest.head? == some quote.mark then some (cs, p.skip 1)
    else
      let (spaces, breaks, p) := gap (p.rest.length + 1) cut p
      let between := if cut then breaks else folded spaces breaks
      let (more, p) ← inside room quote p
      some (cs ++ between ++ more, p)

end Quoted

/-- Reads a scalar in quotes. -/
def quoted? (quote : Quote) (p : Place) : Option (String × Place) :=
  (Quoted.inside (p.rest.length + 1) quote (p.skip 1)).map fun (cs, p) => (String.ofList cs, p)

end MailMerge.Yaml
