/-! The journal of a run: messages by level, in the order in which things happened.
-/
namespace MailMerge

/-- How much a message matters. -/
inductive Level where
  | debug
  | info
  | warning
  | error
  deriving DecidableEq, Repr, Inhabited

namespace Level

/-- The word for a level. -/
def label : Level → String
  | debug => "DEBUG"
  | info => "INFO"
  | warning => "WARNING"
  | error => "ERROR"

/-- The rank of a level. -/
def rank : Level → Nat
  | debug => 0
  | info => 1
  | warning => 2
  | error => 3

end Level

/-- A message of the journal. -/
structure Note where
  level : Level
  message : String
  deriving DecidableEq, Repr, Inhabited

/-- The messages of a run, in order. -/
abbrev Journal := Array Note

namespace Journal

/-- Adds a message. -/
def log (journal : Journal) (level : Level) (message : String) : Journal :=
  journal.push ⟨level, message⟩

/-- The messages that matter at least as much as a level. -/
def atLeast (journal : Journal) (level : Level) : List Note :=
  journal.toList.filter fun note => level.rank ≤ note.level.rank

end Journal
end MailMerge
