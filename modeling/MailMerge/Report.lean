import MailMerge.Data.Shown
import MailMerge.Directive.Scan

/-! Outcomes: what became of each directive that a generation met, in order.
-/
namespace MailMerge

/-- How a directive ended. -/
inductive Status where
  | applied
  | skipped
  | failed
  deriving DecidableEq, Repr, Inhabited

/-- The word for a status. -/
def Status.label : Status → String
  | .applied => "applied"
  | .skipped => "skipped"
  | .failed => "failed"

/-- What became of one directive, and in which part. -/
structure Outcome where
  kind : Directive.Kind
  key : Value
  status : Status
  reason : String := ""
  part : String := ""
  deriving Repr, Inhabited

/-- The line that an outcome puts into the journal's words. -/
def Outcome.line (o : Outcome) : String :=
  let ending := match o.status with
    | .failed => "failed"
    | _ => "skipped"
  s!"{o.kind.label} directive '{o.key.bare}' {ending} in {o.part}: {o.reason}"

end MailMerge
