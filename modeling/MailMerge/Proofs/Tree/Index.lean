import MailMerge.Tree.Index
import MailMerge.Proofs.Tree.Edit
import Mathlib.Data.List.Perm.Subperm

/-! The index of a part's tree knows elements of that part only. What it knows of an element changes
only when the element is recorded as a child or taken out.
-/
namespace MailMerge

/-- The elements below an element, each with its parent. -/
def Forest.edges (f : Forest) (id : NodeId) : List (NodeId × NodeId) :=
  (f.tree id).flatMap fun parent => (f.children parent).map fun child => (child,parent)

theorem Forest.mem_edges {f : Forest} {id child parent : NodeId} :
    (child,parent) ∈ f.edges id ↔ parent ∈ f.tree id ∧ child ∈ f.children parent := by
  simp [Forest.edges]

namespace Index
open Forest Grove

/-- All elements that an index knows belong to a part. -/
def Within (ix : Index) (g : Grove) (part : String) : Prop :=
  ∀ entry ∈ ix.parents, g.Within part entry.1 ∧ g.Within part entry.2

/-- One index knows the same as another of all elements below a bound but one. -/
structure Apart (ix' ix : Index) (base : Nat) (q : NodeId) : Prop where
  root_eq : ix'.root = ix.root
  parent?_eq : ∀ x : Nat, x < base → x ≠ q → ix'.parent? x = ix.parent? x
  mem_detached : ∀ x : Nat, x < base → x ≠ q → (x ∈ ix'.detached ↔ x ∈ ix.detached)

variable {ix ix' ix'' : Index} {g h : Grove} {part : String} {f : Forest} {base : Nat} {q : NodeId}

theorem Apart.refl (ix : Index) (base : Nat) (q : NodeId) : ix.Apart ix base q :=
  ⟨rfl,fun _ _ _ => rfl,fun _ _ _ => Iff.rfl⟩

theorem Apart.trans (second : ix''.Apart ix' base q) (first : ix'.Apart ix base q) :
    ix''.Apart ix base q where
  root_eq := second.root_eq.trans first.root_eq
  parent?_eq x old other := (second.parent?_eq x old other).trans (first.parent?_eq x old other)
  mem_detached x old other := (second.mem_detached x old other).trans (first.mem_detached x old other)

theorem parent?_record (parent child x : NodeId) :
    (ix.record parent child).parent? x = if child = x then some parent else ix.parent? x := by
  by_cases here : child = x
  · simp [parent?,record,here]
  · simp [parent?,record,here,beq_false_of_ne here]

theorem mem_detached_record (parent child x : NodeId) :
    x ∈ (ix.record parent child).detached ↔ x ∈ ix.detached ∧ x ≠ child := by
  simp [record]

/-- Recording what is below an element records each of its edges. -/
theorem recordBelow_eq (ix : Index) (f : Forest) (id : NodeId) :
    ix.recordBelow f id = (f.edges id).foldl (fun ix edge => ix.record edge.2 edge.1) ix := by
  simp only [recordBelow,edges,List.foldl_flatMap,List.foldl_map]

private theorem parents_foldl (edges : List (NodeId × NodeId)) :
    (edges.foldl (fun ix edge => ix.record edge.2 edge.1) ix).parents =
      edges.reverse ++ ix.parents := by
  induction edges generalizing ix with
  | nil => rfl
  | cons edge edges ih =>
    rw [List.foldl_cons,ih,List.reverse_cons,List.append_assoc]
    rfl

private theorem mem_detached_foldl (edges : List (NodeId × NodeId)) (x : NodeId) :
    x ∈ (edges.foldl (fun ix edge => ix.record edge.2 edge.1) ix).detached ↔
      x ∈ ix.detached ∧ ∀ edge ∈ edges, x ≠ edge.1 := by
  induction edges generalizing ix with
  | nil => simp
  | cons edge edges ih => rw [List.foldl_cons,ih,mem_detached_record,List.forall_mem_cons,and_assoc]

private theorem root_foldl (edges : List (NodeId × NodeId)) :
    (edges.foldl (fun ix edge => ix.record edge.2 edge.1) ix).root = ix.root := by
  induction edges generalizing ix with
  | nil => rfl
  | cons edge edges ih => exact ih

theorem parents_recordBelow (ix : Index) (f : Forest) (id : NodeId) :
    (ix.recordBelow f id).parents = (f.edges id).reverse ++ ix.parents := by
  rw [recordBelow_eq,parents_foldl]

theorem mem_detached_recordBelow (ix : Index) (f : Forest) (id x : NodeId) :
    x ∈ (ix.recordBelow f id).detached ↔ x ∈ ix.detached ∧ ∀ edge ∈ f.edges id, x ≠ edge.1 := by
  rw [recordBelow_eq,mem_detached_foldl]

theorem root_recordBelow (ix : Index) (f : Forest) (id : NodeId) :
    (ix.recordBelow f id).root = ix.root := by
  rw [recordBelow_eq,root_foldl]

/-- What is not below an element stays known as it is. -/
theorem parent?_recordBelow {id x : NodeId} (absent : ∀ n ∈ f.tree id, x ∉ f.children n) :
    (ix.recordBelow f id).parent? x = ix.parent? x := by
  rw [parent?,parents_recordBelow,List.find?_append,Option.or_of_isNone]
  · rfl
  · rw [Option.isNone_iff_eq_none,List.find?_eq_none]
    rintro ⟨child,parent⟩ member same
    obtain ⟨inside,below⟩ := mem_edges.mp (List.mem_reverse.mp member)
    exact absent parent inside (eq_of_beq same ▸ below)

/-- An element that was entered is known with its parent. -/
theorem parent?_enter (ix : Index) {parent id : NodeId}
    (absent : ∀ n ∈ f.tree id, id ∉ f.children n) :
    (ix.enter f parent id).parent? id = some parent := by
  rw [enter,parent?_recordBelow absent,parent?_record,if_pos rfl]

/-- Entering new elements changes nothing that is known of the others. -/
theorem apart_enter {parent id : NodeId} (new : base ≤ id)
    (fresh : ∀ n ∈ f.tree id, ∀ child ∈ f.children n, base ≤ child) :
    (ix.enter f parent id).Apart ix base q where
  root_eq := root_recordBelow _ f id
  parent?_eq x old _ := by
    rw [enter,parent?_recordBelow,parent?_record,if_neg]
    · rintro rfl
      exact Nat.not_lt.mpr new old
    · intro n inside below
      exact Nat.not_lt.mpr (fresh n inside x below) old
  mem_detached x old _ := by
    rw [enter,mem_detached_recordBelow,mem_detached_record]
    constructor
    · exact fun known => known.1.1
    · refine fun known => ⟨⟨known,?_⟩,?_⟩
      · rintro rfl
        exact Nat.not_lt.mpr new old
      · rintro ⟨child,n⟩ member rfl
        obtain ⟨inside,below⟩ := mem_edges.mp member
        exact Nat.not_lt.mpr (fresh n inside x below) old

/-- Taking an element out changes nothing that is known of the others. -/
theorem apart_leave (ix : Index) (base : Nat) (q : NodeId) : (ix.leave q).Apart ix base q :=
  ⟨rfl,fun _ _ _ => rfl,fun x _ other => by simp [leave,other]⟩

/-- Forgetting the parent of an element changes nothing that is known of the others. -/
theorem apart_forget (ix : Index) (base : Nat) (q : NodeId) :
    ({ ix with parents := ix.parents.filter (·.1 != q) } : Index).Apart ix base q := by
  refine ⟨rfl,?_,fun _ _ _ => Iff.rfl⟩
  intro x _ other
  have tests : (fun entry : NodeId × NodeId => decide ((entry.1 != q) = true ∧
      (entry.1 == x) = true)) = (·.1 == x) := by
    funext entry
    by_cases same : entry.1 = x <;> simp [same,other]
  simp only [parent?,List.find?_filter,tests]

theorem Within.later (inside : ix.Within g part) (later : Later g h) : ix.Within h part := by
  intro entry member
  obtain ⟨child,parent⟩ := inside entry member
  exact ⟨later.within child,later.within parent⟩

theorem Within.record (inside : ix.Within g part) {parent child : NodeId}
    (parent_inside : g.Within part parent) (child_inside : g.Within part child) :
    (ix.record parent child).Within g part := by
  intro entry member
  rcases List.mem_cons.mp member with rfl | member
  · exact ⟨child_inside,parent_inside⟩
  · exact inside entry member

theorem Within.recordBelow (inside : ix.Within g part) (sorted : g.Sorted) {id : NodeId}
    (id_inside : g.Within part id) : (ix.recordBelow g.forest id).Within g part := by
  rintro ⟨child,parent⟩ member
  rw [parents_recordBelow,List.mem_append,List.mem_reverse,mem_edges] at member
  rcases member with ⟨member,below⟩ | former
  · have parent_inside := sorted.within_tree id_inside member
    exact ⟨sorted.within_child parent_inside below,parent_inside⟩
  · exact inside _ former

theorem within_of (sorted : g.Sorted) {root : NodeId} (inside : g.Within part root) :
    (Index.of g.forest root).Within g part := by
  apply Within.recordBelow _ sorted inside
  simp [Within]

theorem Within.enter (inside : ix.Within g part) (sorted : g.Sorted) {parent id : NodeId}
    (parent_inside : g.Within part parent) (id_inside : g.Within part id) :
    (ix.enter g.forest parent id).Within g part :=
  (inside.record parent_inside id_inside).recordBelow sorted id_inside

theorem Within.leave (inside : ix.Within g part) (id : NodeId) : (ix.leave id).Within g part :=
  inside

theorem Within.forget (inside : ix.Within g part) (id : NodeId) :
    ({ ix with parents := ix.parents.filter (·.1 != id) } : Index).Within g part :=
  fun entry member => inside entry (List.mem_of_mem_filter member)

theorem Within.parent? (inside : ix.Within g part) {id parent : NodeId}
    (found : ix.parent? id = some parent) : g.Within part parent := by
  obtain ⟨entry,first,rfl⟩ := Option.map_eq_some_iff.mp found
  exact (inside entry (List.mem_of_find?_eq_some first)).2

/-- A position splits the children of an element. -/
theorem split_of_position {parent id : NodeId} {i : Nat} (found : position f parent id = .ok i) :
    ∃ before after, f.children parent = before ++ id :: after ∧ before.length = i ∧
      id ∉ before := by
  unfold position at found
  split at found
  · next j here =>
    obtain rfl := Except.ok.inj found
    rw [List.idxOf?_eq_some_iff] at here
    obtain ⟨inside,same,first⟩ := here
    refine ⟨(f.children parent).take j,(f.children parent).drop (j + 1),?_,?_,?_⟩
    · rw [← same,List.getElem_cons_drop,List.take_append_drop]
    · simp [Nat.le_of_lt inside]
    · intro member
      obtain ⟨k,small,here⟩ := List.mem_take_iff_getElem.mp member
      exact first k (by omega) here
  · simp at found

theorem position_of_split {parent id : NodeId} {before after : List NodeId}
    (split : f.children parent = before ++ id :: after) (first : id ∉ before) :
    position f parent id = .ok before.length := by
  have found : (f.children parent).idxOf? id = some before.length := by
    rw [split,List.idxOf?_eq_some_iff]
    refine ⟨by simp,by simp,?_⟩
    intro j small here
    rw [List.getElem_append_left small] at here
    exact first (here ▸ List.getElem_mem small)
  simp only [position,found]

/-- A position that is not found is a fault of the language. -/
theorem isOwn_of_position {parent id : NodeId} {fault : Fault}
    (missing : position f parent id = .error fault) : fault.isOwn = false := by
  unfold position at missing
  split at missing
  · simp at missing
  · obtain rfl := Except.error.inj missing
    rfl

section
variable {id parent : NodeId} {before after : List NodeId} (known : ix.parent? id = some parent)
  (split : f.children parent = before ++ id :: after) (first : id ∉ before)
  (found : position f parent id = .ok before.length)
include known found

include split first in
theorem replace_eq (new : NodeId) : ix.replace f id new = .ok (true,
    (ix.leave id).enter (f.updateChildren parent fun _ => before ++ new :: after) parent new,
    f.updateChildren parent fun _ => before ++ new :: after) := by
  simp only [replace,known,found,← insertAt_detach f split first new]
  rfl

include split in
theorem insertAfter_eq (new : NodeId) : ix.insertAfter f id new = .ok (true,
    ix.enter (f.updateChildren parent fun _ => (before ++ [id]) ++ new :: after) parent new,
    f.updateChildren parent fun _ => (before ++ [id]) ++ new :: after) := by
  have split' : f.children parent = (before ++ [id]) ++ after := by
    rw [split,List.append_assoc,List.singleton_append]
  have inserted := insertAt_eq f split' new
  rw [List.length_append,List.length_singleton] at inserted
  simp only [insertAfter,known,found,← inserted]
  rfl

include split first in
theorem remove_eq : ix.remove f id = .ok (true,
    ({ ix with parents := ix.parents.filter (·.1 != id) } : Index).leave id,
    f.updateChildren parent fun _ => before ++ after) := by
  simp only [remove,known,found,← detach_eq f split first]
  rfl

end

theorem reachesRoot_succ (ix : Index) {steps : Nat} {id : NodeId} (reaches : ix.reachesRoot steps id = true) :
    ix.reachesRoot (steps + 1) id = true := by
  induction steps generalizing id with
  | zero => exact absurd reaches Bool.false_ne_true
  | succ steps ih =>
    rw [reachesRoot] at reaches ⊢
    split at reaches
    · next top => rw [if_pos top]
    · next top =>
      rw [if_neg top]
      split at reaches
      · exact absurd reaches Bool.false_ne_true
      · next out =>
        rw [if_neg out]
        cases known : ix.parent? id with
        | none =>
          rw [known] at reaches
          exact reaches
        | some parent =>
          rw [known] at reaches
          exact ih reaches

/-- As many steps as an index has entries are enough to see where the way up leads. -/
theorem reachesRoot_enough (ix : Index) {steps : Nat} {id : NodeId}
    (reaches : ix.reachesRoot steps id = true) : ix.isAttached id = true := by
  have mono {n m id} (le : n ≤ m) (reaches : ix.reachesRoot n id = true) : ix.reachesRoot m id = true := by
    induction le with
    | refl => exact reaches
    | step _ ih => exact ix.reachesRoot_succ ih
  -- the elements on the way are different ones, and each has an entry
  suffices way : ∃ keys : List NodeId, keys.Nodup ∧ (∀ key ∈ keys, key ∈ ix.parents.map (·.1)) ∧
      (∀ key ∈ keys, ix.reachesRoot (keys.length + 1) key = true) ∧ ix.reachesRoot (keys.length + 1) id = true by
    obtain ⟨keys,nodup,entered,-,reaches⟩ := way
    have few : keys.length ≤ ix.parents.length := by
      simpa using (List.subperm_of_subset nodup entered).length_le
    exact mono (Nat.succ_le_succ few) reaches
  induction steps generalizing id with
  | zero => exact absurd reaches Bool.false_ne_true
  | succ steps ih =>
    rw [reachesRoot] at reaches
    split at reaches
    · next top => exact ⟨[],List.nodup_nil,by simp,by simp,by simp [reachesRoot,beq_iff_eq.mp top]⟩
    · next top =>
      split at reaches
      · exact absurd reaches Bool.false_ne_true
      · next out =>
        cases known : ix.parent? id with
        | none =>
          rw [known] at reaches
          exact absurd reaches Bool.false_ne_true
        | some parent =>
          rw [known] at reaches
          obtain ⟨keys,nodup,entered,each,reaches⟩ := ih reaches
          by_cases old : id ∈ keys
          · exact ⟨keys,nodup,entered,each,each id old⟩
          have here : ix.reachesRoot (keys.length + 1 + 1) id = true := by
            rw [reachesRoot,if_neg top,if_neg out,known]
            exact reaches
          have entry : id ∈ ix.parents.map (·.1) := by
            obtain ⟨entry,found,-⟩ := Option.map_eq_some_iff.mp known
            exact List.mem_map.mpr ⟨entry,List.mem_of_find?_eq_some found,
              eq_of_beq (List.find?_some (p := fun entry : NodeId × NodeId => entry.1 == id) found)⟩
          exact ⟨id :: keys,List.nodup_cons.mpr ⟨old,nodup⟩,List.forall_mem_cons.mpr ⟨entry,entered⟩,
            List.forall_mem_cons.mpr ⟨here,fun key member => ix.reachesRoot_succ (each key member)⟩,here⟩

end MailMerge.Index
