import MailMerge.Data.Date
import MailMerge.Number.Binary64

/-! The data that fills a template: scalars, lists and mappings. A mapping keeps its entries in
the order in which their keys first appeared.
-/
namespace MailMerge

/-- A value without parts. Keys of mappings are scalars; in structured data they are texts. -/
inductive Scalar where
  | null
  | bool (b : Bool)
  | int (n : Int)
  | float (x : Binary64)
  | text (s : String)
  | date (d : Date)
  | moment (t : Moment)
  deriving DecidableEq, Repr, Inhabited

/-- A value of the data context. -/
inductive Value where
  | scalar (s : Scalar)
  | list (items : List Value)
  | map (entries : List (Scalar × Value))
  deriving Repr, Inhabited

namespace Value

@[match_pattern] abbrev null : Value := .scalar .null
@[match_pattern] abbrev bool (b : Bool) : Value := .scalar (.bool b)
@[match_pattern] abbrev int (n : Int) : Value := .scalar (.int n)
@[match_pattern] abbrev float (x : Binary64) : Value := .scalar (.float x)
@[match_pattern] abbrev text (s : String) : Value := .scalar (.text s)
@[match_pattern] abbrev date (d : Date) : Value := .scalar (.date d)
@[match_pattern] abbrev moment (t : Moment) : Value := .scalar (.moment t)

/-- The empty text, which also stands for what is absent. -/
abbrev empty : Value := .text ""

end Value

namespace Scalar

/-- The numbers among the scalars; truth values count as 0 and 1. -/
inductive Number where
  | int (n : Int)
  | float (x : Binary64)

/-- The number a scalar equals, if it equals one. -/
def number? : Scalar → Option Number
  | bool b => some (.int (if b then 1 else 0))
  | int n => some (.int n)
  | float x => some (.float x)
  | _ => none

/-- Equality of scalars by what they denote: numbers of all kinds are compared exactly. -/
def same (a b : Scalar) : Bool :=
  match a.number?, b.number? with
  | some (.int m), some (.int n) => m == n
  | some (.int m), some (.float y) => y.compareInt? m == some .eq
  | some (.float x), some (.int n) => x.compareInt? n == some .eq
  | some (.float x), some (.float y) => x.same y
  | some _, none | none, some _ => false
  | none, none =>
    match a, b with
    | null, null => true
    | text s, text t => s == t
    | date d, date e => d == e
    | moment s, moment t => s.same t
    | _, _ => false

end Scalar

namespace Entries

/-- The value stored at a key. -/
def lookup (entries : List (Scalar × Value)) (key : Scalar) : Option Value :=
  (entries.find? fun entry => entry.1.same key).map (·.2)

/-- The value stored at a text key. -/
def get? (entries : List (Scalar × Value)) (key : String) : Option Value :=
  lookup entries (.text key)

/-- Stores a value: at the place of its key when that is present, at the end otherwise. -/
def insert (entries : List (Scalar × Value)) (key : Scalar) (value : Value) :
    List (Scalar × Value) :=
  if entries.any (·.1.same key) then
    entries.map fun entry => if entry.1.same key then (entry.1, value) else entry
  else entries ++ [(key, value)]

end Entries

namespace Value

mutual

/-- Equality of values by what they denote. Mappings are compared as sets of entries. -/
def same : Value → Value → Bool
  | .scalar a, .scalar b => a.same b
  | .list xs, .list ys => sameItems xs ys
  | .map xs, .map ys => xs.length == ys.length && sameEntries xs ys
  | _, _ => false

/-- Item by item equality of lists. -/
def sameItems : List Value → List Value → Bool
  | [], [] => true
  | x :: xs, y :: ys => same x y && sameItems xs ys
  | _, _ => false

/-- Every entry of the first list is an entry of the second. -/
def sameEntries : List (Scalar × Value) → List (Scalar × Value) → Bool
  | [], _ => true
  | (key, x) :: xs, ys =>
    (match Entries.lookup ys key with
      | some y => same x y
      | none => false) && sameEntries xs ys

end

/-- What counts as true in a condition: texts that are not empty, numbers other than zero,
containers that hold something, dates. -/
def isTruthy : Value → Bool
  | .scalar s =>
    match s with
    | .null => false
    | .bool b => b
    | .int n => n != 0
    | .float x => x.isNonzero
    | .text t => t != ""
    | .date _ | .moment _ => true
  | .list items => !items.isEmpty
  | .map entries => !entries.isEmpty

/-- The empty text, which resolution gives for what is absent. -/
def isEmptyText : Value → Bool
  | .text s => s == ""
  | _ => false

/-- The word for the kind of a value in messages. -/
def kindName : Value → String
  | .scalar s =>
    match s with
    | .null => "NoneType"
    | .bool _ => "bool"
    | .int _ => "int"
    | .float _ => "float"
    | .text _ => "str"
    | .date _ => "date"
    | .moment _ => "datetime"
  | .list _ => "list"
  | .map _ => "dict"

end Value
end MailMerge
