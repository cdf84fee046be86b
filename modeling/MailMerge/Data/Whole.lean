import MailMerge.Data.Value
import MailMerge.Fault
import MailMerge.Number.Numeral

/-! What a value is taken for where a number or a text is needed: numbers lose their fraction, texts
must be numerals of whole numbers; only texts are written as texts.
-/
namespace MailMerge

/-- The whole number of a float, toward zero. -/
def Binary64.whole (x : Binary64) : Except Fault Int :=
  match x with
  | .nan => .error (.breakdown .value)
  | .infinity _ => .error (.breakdown .overflow)
  | x => .ok (x.truncated?.getD 0)

/-- The whole number of a value. -/
def Value.whole (v : Value) : Except Fault Int :=
  match v with
  | .bool b => .ok (if b then 1 else 0)
  | .int n => .ok n
  | .float x => x.whole
  | .text s =>
    match Number.readInt? s.toList with
    | some n => .ok n
    | none => .error (.breakdown .value)
  | _ => .error (.breakdown .kind)

/-- The text of a value that is written as it is. What counts as false is written as nothing. -/
def Value.written (v : Value) : Except Fault String :=
  match v with
  | .text s => .ok s
  | v => if v.isTruthy then .error (.breakdown .operation) else .ok ""

end MailMerge
