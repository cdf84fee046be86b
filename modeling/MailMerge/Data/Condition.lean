import MailMerge.Data.Path
import MailMerge.Data.Shown
import MailMerge.Fault

/-! Conditions: a bare path, or a comparison of a path with a number, a path or a literal.
Comparison is loose: a number equals the text that denotes it.
-/
namespace MailMerge

/-- Comparison operators by meaning. -/
inductive Comparison where
  | equal
  | unequal
  | greater
  | less
  | greaterEqual
  | lessEqual
  deriving DecidableEq, Repr, Inhabited

namespace Comparison

/-- The spellings of the operators. A spelling stands before those it starts with. -/
def spellings : List (String × Comparison) :=
  [("===", .equal), ("!==", .unequal), ("==", .equal), ("!=", .unequal), (">=", .greaterEqual),
    ("<=", .lessEqual), (">", .greater), ("<", .less)]

/-- The operator with a given spelling. -/
def ofText? (s : String) : Option Comparison :=
  (spellings.find? (·.1 == s)).map (·.2)

/-- The operator at the start of a text, with the rest. -/
def read? (text : List Char) : Option (Comparison × List Char) :=
  spellings.findSome? fun (spelling, op) =>
    (Text.after? spelling.toList text).map fun rest => (op, rest)

/-- Whether the operator accepts an order of its operands; nothing but inequality accepts
operands that cannot be ordered. -/
def accepts (op : Comparison) (order : Option Ordering) : Bool :=
  match op with
  | equal => order == some .eq
  | unequal => order != some .eq
  | greater => order == some .gt
  | less => order == some .lt
  | greaterEqual => order == some .gt || order == some .eq
  | lessEqual => order == some .lt || order == some .eq

end Comparison

namespace Condition
open Text

/-- The digits at the start of a text are dropped; `none` when there are none. -/
def dropDigits? (text : List Char) : Option (List Char) :=
  match text with
  | c :: rest => if isDecimal c then some (rest.dropWhile isDecimal) else none
  | [] => none

/-- A decimal numeral with an optional sign, fraction and power of ten, and blanks around it. -/
def isNumeral (text : List Char) : Bool :=
  let (_, body) := Number.splitSign (trim text)
  let mantissa := match body with
    | '.' :: rest => dropDigits? rest
    | body => (dropDigits? body).map fun rest =>
      match rest with
      | '.' :: rest => rest.dropWhile isDecimal
      | rest => rest
  match mantissa with
  | none => false
  | some [] => true
  | some (mark :: rest) =>
    (mark == 'e' || mark == 'E') && dropDigits? (Number.splitSign rest).2 == some []

/-- The number that a value stands for in a comparison. -/
def number (v : Value) : Except Fault Binary64 :=
  match v with
  | .bool b => .ok (.ofQuotient false (if b then 1 else 0) 1)
  | .int n =>
    match Binary64.ofInt? n with
    | some x => .ok x
    | none => .error (.breakdown .overflow)
  | .float x => .ok x
  | .text s =>
    if isNumeral s.toList then
      match Number.read? s.toList with
      | some x => .ok x
      | none => .error (.breakdown .value)
    else .error (.notANumber v.shown)
  | v => .error (.notANumber v.shown)

/-- Integers and floats. -/
def isNumber : Value → Bool
  | .int _ | .float _ => true
  | _ => false

/-- A number that cannot be read makes a comparison false instead of failing it. -/
def falseIfNotANumber (result : Except Fault Bool) : Except Fault Bool :=
  match result with
  | .error (.notANumber _) => .ok false
  | result => result

/-- Loose equality: by number when either side is one, by bare text when either side is a text,
by denotation otherwise. Null equals only null. -/
def looseEqual (left right : Value) : Except Fault Bool :=
  if isNumber left || isNumber right then
    falseIfNotANumber do
      let x ← number left
      let y ← number right
      return x.same y
  else
    match left, right with
    | .null, .null => .ok true
    | .null, _ | _, .null => .ok false
    | .text s, right => .ok (s == right.bare)
    | left, .text t => .ok (left.bare == t)
    | left, right => .ok (left.same right)

/-- The order of two texts by code points. -/
def textOrder (s t : String) : Ordering :=
  if s < t then .lt else if s == t then .eq else .gt

/-- Order of two values: texts among themselves by code points, everything else by number. -/
def order (left right : Value) : Except Fault (Option Ordering) :=
  match left, right with
  | .text s, .text t => .ok (some (textOrder s t))
  | left, right => do
    let x ← number left
    let y ← number right
    return x.compare? y

/-- Applies an operator. -/
def compare (left : Value) (op : Comparison) (right : Value) : Except Fault Bool :=
  match op with
  | .equal => looseEqual left right
  | .unequal => (looseEqual left right).map (!·)
  | op => (order left right).map op.accepts

/-- Applies an operator given by its spelling. -/
def compareText (left : Value) (spelling : String) (right : Value) : Except Fault Bool :=
  match Comparison.ofText? spelling with
  | some op => compare left op right
  | none => .error (.unsupportedOperator (quoted spelling))

/-- The text of a literal: what stands between a pair of equal quotes, otherwise the text
without any quotes. -/
def literal (text : List Char) : List Char :=
  let text := trim text
  match text with
  | first :: middle =>
    if (first == '"' || first == '\'') && middle.getLast? == some first then middle.dropLast
    else text.filter fun c => c != '"' && c != '\''
  | [] => []

/-- Splits an expression at its operators: the first operand, and each operator with the operand
after it. Blanks around operators belong to no operand. -/
def split (fuel : Nat) (operand : List Char) (text : List Char) :
    List Char × List (Comparison × List Char) :=
  match fuel, text with
  | 0, _ | _, [] => (operand.reverse, [])
  | fuel + 1, c :: rest =>
    match Comparison.read? (c :: rest) with
    | some (op, rest) =>
      let (next, more) := split fuel [] (rest.dropWhile isBlank)
      ((operand.dropWhile isBlank).reverse, (op, next) :: more)
    | none => split fuel (c :: operand) rest

/-- The right operand of a comparison: a numeral, a path that leads to something, or a
literal. -/
def rightValue (text : List Char) (context : Value) : Except Fault Value :=
  if isNumeral text then
    match Number.read? text with
    | some x => .ok (.float x)
    | none => .error (.breakdown .value)
  else
    let resolved := context.resolve (String.ofList text)
    if resolved.isEmptyText then .ok (.text (String.ofList (literal text))) else .ok resolved

/-- Evaluates a trimmed expression. -/
def evaluate (expression : List Char) (context : Value) : Except Fault Bool :=
  match split (expression.length + 1) [] expression with
  | (_, []) => .ok (context.resolve (String.ofList expression)).isTruthy
  | (left, [(op, right)]) =>
    if left.isEmpty || right.isEmpty then .error .missingOperand
    else do
      let value ← rightValue right context
      compare (context.resolve (String.ofList left)) op value
  | _ => .error .notOneOperator

/-- The value of a condition, or the reason why it counts as false. -/
inductive Verdict where
  | holds (b : Bool)
  | invalid (reason : Fault)
  deriving Repr

/-- An invalid condition is false. -/
def Verdict.isTrue : Verdict → Bool
  | holds b => b
  | invalid _ => false

/-- Faults that make a condition invalid. -/
def isInvalidity : Fault → Bool
  | .notANumber _ | .unsupportedOperator _ | .notOneOperator | .missingOperand => true
  | _ => false

/-- Turns the faults of invalid conditions into a verdict. -/
def toVerdict (result : Except Fault Bool) : Except Fault Verdict :=
  match result with
  | .ok b => .ok (.holds b)
  | .error fault => if isInvalidity fault then .ok (.invalid fault) else .error fault

/-- Judges a condition against the data. -/
def judge (condition : String) (context : Value) : Except Fault Verdict :=
  toVerdict (evaluate (trim condition.toList) context)

/-- Judges a row rule: the field of a row against a literal. Ordering compares numbers; a row
that is no mapping satisfies nothing. -/
def judgeRow (row : Value) (field operator value : String) : Except Fault Verdict :=
  match row with
  | .map entries =>
    let left := (Entries.get? entries field).getD .null
    let right : Value := .text (String.ofList (literal value.toList))
    toVerdict (if operator == ">" || operator == "<" || operator == ">=" || operator == "<=" then do
        let x ← number left
        let y ← number right
        compareText (.float x) operator (.float y)
      else compareText left operator right)
  | _ => .ok (.holds false)

end Condition
end MailMerge
