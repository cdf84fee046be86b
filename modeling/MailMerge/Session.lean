import MailMerge.Image.Fetch
import MailMerge.Package.Manifest
import MailMerge.Report
import MailMerge.Tree.Index

/-! The state of one generation: the package that is filled, the part at work with the index of its
tree, the numbers given out so far and the outcomes. Settings, data and network stay as they are.
-/
namespace MailMerge

/-- What a generation works with and does not change. -/
structure Setup where
  settings : Settings := {}
  data : Value := .map []
  network : Network := .down
  deriving Inhabited

/-- The state of a generation. -/
structure Session where
  package : Package
  /-- the part that is being filled -/
  part : String := Package.documentPart
  /-- the index of the tree that is being filled -/
  index : Index := { root := 0 }
  images : Nat := 0
  charts : Nat := 0
  watermarks : Nat := 0
  outcomes : List Outcome := []
  deriving Inhabited

/-- Steps of a generation. What was done before a fault stays done. -/
abbrev Generation := ReaderT Setup (EStateM Fault Session)

namespace Generation

/-- An operation on the package as a step of the generation. -/
def onPackage (operation : Packaging α) : Generation α := fun _ s =>
  match operation s.package with
  | .ok a p => .ok a { s with package := p }
  | .error fault p => .error fault { s with package := p }

/-- The result of an operation that may fail. -/
def ofExcept (result : Except Fault α) : Generation α :=
  match result with
  | .ok a => return a
  | .error fault => throw fault

/-- The forest of the package. -/
def forest : Generation Forest :=
  return (← get).package.forest

/-- Changes the forest without a result. -/
def edit (change : Forest → Forest) : Generation Unit :=
  onPackage (Packaging.edit change)

/-- Adds an element that belongs to no tree yet. -/
def plant (e : Xml.Element) : Generation NodeId :=
  onPackage (Packaging.grow (·.plant e))

/-- Adds a message to the journal. -/
def log (level : Level) (message : String) : Generation Unit :=
  onPackage (Packaging.log level message)

/-- Records an outcome for the part at work. A failure is a warning in the journal. -/
def record (kind : Directive.Kind) (key : Value) (status : Status) (reason : String := "") :
    Generation Unit := do
  let o : Outcome := ⟨kind, key, status, reason, (← get).part⟩
  modify fun s => { s with outcomes := s.outcomes ++ [o] }
  match status with
  | .failed => log .warning o.line
  | .skipped => if reason != "" then log .debug o.line
  | .applied => return ()

/-- Runs a step. A fault of the engine's own family becomes a value, others stay faults. -/
def guarded (step : Generation α) : Generation (Except Fault α) := fun setup s =>
  match step setup s with
  | .ok a s => .ok (.ok a) s
  | .error fault s => if fault.isOwn then .ok (.error fault) s else .error fault s

/-- Moves on to another part. -/
def moveTo (part : String) : Generation Unit :=
  modify fun s => { s with part := part }

/-- Indexes the tree that is filled next. -/
def indexTree (root : NodeId) : Generation Unit :=
  modify fun s => { s with index := .of s.package.forest root }

/-- Changes the tree through the index; tells whether the index knew the place. -/
def change (step : Index → Forest → Except Fault (Bool × Index × Forest)) :
    Generation Bool := do
  let s ← get
  let (known, index, forest) ← ofExcept (step s.index s.package.forest)
  set { s with index := index, package := { s.package with forest := forest } }
  return known

/-- Puts an element in the place of another. -/
def replace (old new : NodeId) : Generation Bool :=
  change fun ix f => ix.replace f old new

/-- Puts an element after another. -/
def insertAfter (anchor new : NodeId) : Generation Bool :=
  change fun ix f => ix.insertAfter f anchor new

/-- Takes an element out of its tree. -/
def remove (id : NodeId) : Generation Bool :=
  change fun ix f => ix.remove f id

/-- Whether an element still belongs to the tree that is being filled. -/
def isAttached (id : NodeId) : Generation Bool :=
  return (← get).index.isAttached id

/-- The parent of an element, as far as the index knows. -/
def parent? (id : NodeId) : Generation (Option NodeId) :=
  return (← get).index.parent? id

end Generation
end MailMerge
