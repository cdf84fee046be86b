import MailMerge.Fault
import MailMerge.Tree.Basic

/-! An index from elements to their parents. It is built once for a tree and kept up to date by
the changes made through it; an element that was taken out is remembered as detached, while the
entries of what is below it stay.
-/
namespace MailMerge

/-- The parents known for the elements of a tree, the newest entry of an element first, and the
elements that were taken out. -/
structure Index where
  root : NodeId
  parents : List (NodeId × NodeId) := []
  detached : List NodeId := []
  deriving Repr, Inhabited

namespace Index

/-- The parent of an element, as far as the index knows. -/
def parent? (ix : Index) (id : NodeId) : Option NodeId :=
  (ix.parents.find? (·.1 == id)).map (·.2)

/-- Whether the way up from an element reaches the root before it meets a detached element. -/
def reachesRoot (ix : Index) : Nat → NodeId → Bool
  | 0, _ => false
  | steps + 1, id =>
    if id == ix.root then true
    else if ix.detached.contains id then false
    else match ix.parent? id with
      | some parent => ix.reachesRoot steps parent
      | none => false

/-- Whether an element belongs to the tree. No way up is longer than the index has entries. -/
def isAttached (ix : Index) (id : NodeId) : Bool :=
  ix.reachesRoot (ix.parents.length + 1) id

/-- Records an element as a child. -/
def record (ix : Index) (parent child : NodeId) : Index :=
  { ix with parents := (child, parent) :: ix.parents, detached := ix.detached.filter (· != child) }

/-- Records everything below an element. -/
def recordBelow (ix : Index) (f : Forest) (id : NodeId) : Index :=
  (f.tree id).foldl (fun ix parent => (f.children parent).foldl (·.record parent ·) ix) ix

/-- The index of a tree. -/
def of (f : Forest) (root : NodeId) : Index :=
  ({ root := root } : Index).recordBelow f root

/-- Records an element that was put into the tree, with everything below it. -/
def enter (ix : Index) (f : Forest) (parent id : NodeId) : Index :=
  (ix.record parent id).recordBelow f id

/-- Marks an element as taken out. -/
def leave (ix : Index) (id : NodeId) : Index :=
  { ix with detached := id :: ix.detached.filter (· != id) }

/-- The position of an element among the children of its parent. -/
def position (f : Forest) (parent id : NodeId) : Except Fault Nat :=
  match (f.children parent).idxOf? id with
  | some i => .ok i
  | none => .error (.breakdown .value)

/-- Puts an element in the place of another, unless the other has no parent. -/
def replace (ix : Index) (f : Forest) (old new : NodeId) : Except Fault (Bool × Index × Forest) :=
  match ix.parent? old with
  | none => .ok (false, ix, f)
  | some parent => do
    let i ← position f parent old
    let f := (f.detach parent old).insertAt parent i new
    return (true, (ix.leave old).enter f parent new, f)

/-- Puts an element after another, unless the other has no parent. -/
def insertAfter (ix : Index) (f : Forest) (anchor new : NodeId) :
    Except Fault (Bool × Index × Forest) :=
  match ix.parent? anchor with
  | none => .ok (false, ix, f)
  | some parent => do
    let i ← position f parent anchor
    let f := f.insertAt parent (i + 1) new
    return (true, ix.enter f parent new, f)

/-- Takes an element out, unless it has no parent. -/
def remove (ix : Index) (f : Forest) (id : NodeId) : Except Fault (Bool × Index × Forest) :=
  match ix.parent? id with
  | none => .ok (false, ix, f)
  | some parent => do
    let _ ← position f parent id
    let ix := { ix with parents := ix.parents.filter (·.1 != id) }
    return (true, ix.leave id, f.detach parent id)

end Index
end MailMerge
