import MailMerge.Fault

/-! Stored files as a run sees them: what paths lead to, and what keeps a document from being
stored at a path.
-/
namespace MailMerge

/-- What a path leads to. -/
inductive Stored where
  | nothing
  | folder
  | file (data : ByteArray)
  deriving Inhabited

/-- Some path leads there. -/
def Stored.isSomething : Stored → Bool
  | .nothing => false
  | _ => true

/-- A view of stored files. -/
structure Storage where
  /-- the absolute path of the current folder -/
  current : String := ""
  find : String → Stored := fun _ => .nothing
  /-- why a document cannot be stored at a path, once the folders on the way are made -/
  obstacle : String → Option Fault := fun _ => none
  deriving Inhabited

end MailMerge
