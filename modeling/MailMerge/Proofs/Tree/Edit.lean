import MailMerge.Tree.Text
import MailMerge.Proofs.Docx.Shown
import MailMerge.Proofs.Tree.Branching
import Mathlib.Logic.Relation

/-! Edits of the tree of one part. The forest is seen together with the owners and levels of its
elements. The engine only plants what it builds, takes children out, puts elements without a place
among the children of others, and writes texts; so whatever these four keep is kept by all that it
does to a tree.
-/
namespace MailMerge
open Xml Docx Forest Relation

/-- A forest with the parts that own its elements and the levels of the elements. -/
structure Grove where
  forest : Forest
  owner : NodeId → String
  level : NodeId → Nat

namespace Grove

/-- The elements are sorted by their owners and levels. -/
def Sorted (g : Grove) : Prop :=
  g.forest.Sorted g.owner g.level

/-- An element belongs to a part. -/
def Within (g : Grove) (part : String) (id : NodeId) : Prop :=
  id < g.forest.nodes.size ∧ g.owner id = part

/-- The same owners and levels with a changed forest. -/
def withForest (g : Grove) (f : Forest) : Grove :=
  { g with forest := f }

/-- An element planted for a part. -/
def plant (g : Grove) (part : String) (e : Element) : Grove where
  forest := (g.forest.plant e).2
  owner := ownedFrom g.forest.nodes.size g.owner part
  level := levelFrom g.forest.nodes.size (g.forest.plant e).2.nodes.size g.level

/-- An element gets other children. -/
def setChildren (g : Grove) (parent : NodeId) (ids : List NodeId) : Grove :=
  g.withForest (g.forest.updateChildren parent fun _ => ids)

/-- One edit of the tree of a part. -/
inductive Edit (s : Settings) (part : String) : Grove → Grove → Prop
  | plant {g : Grove} {e : Element} (built : Built s e) : Edit s part g (g.plant part e)
  | take {g : Grove} {parent : NodeId} {ids : List NodeId} (inside : g.Within part parent)
    (fewer : ids.Sublist (g.forest.children parent)) : Edit s part g (g.setChildren parent ids)
  | put {g : Grove} {parent new : NodeId} {before after : List NodeId}
    (inside : g.Within part parent) (split : g.forest.children parent = before ++ after)
    (within : g.Within part new) (deeper : g.level parent < g.level new)
    (loose : g.forest.Loose new) (last : new + 1 = g.forest.nodes.size) :
    Edit s part g (g.setChildren parent (before ++ new :: after))
  | write {g : Grove} {id : NodeId} (text : String) (inside : g.Within part id) :
    Edit s part g (g.withForest (g.forest.setText id text))

/-- Any number of edits of the tree of a part. -/
abbrev Edits (s : Settings) (part : String) : Grove → Grove → Prop :=
  ReflTransGen (Edit s part)

/-- What no later step changes: the names, owners and levels of the elements there are. -/
structure Later (g h : Grove) : Prop where
  size_le : g.forest.nodes.size ≤ h.forest.nodes.size
  name_eq : ∀ id, id < g.forest.nodes.size → h.forest.name id = g.forest.name id
  owner_eq : ∀ id, id < g.forest.nodes.size → h.owner id = g.owner id
  level_eq : ∀ id, id < g.forest.nodes.size → h.level id = g.level id

namespace Later

theorem refl (g : Grove) : Later g g :=
  ⟨Nat.le_refl _,fun _ _ => rfl,fun _ _ => rfl,fun _ _ => rfl⟩

theorem trans {g h k : Grove} (first : Later g h) (second : Later h k) : Later g k where
  size_le := Nat.le_trans first.size_le second.size_le
  name_eq id inside := (second.name_eq id (Nat.lt_of_lt_of_le inside first.size_le)).trans
    (first.name_eq id inside)
  owner_eq id inside := (second.owner_eq id (Nat.lt_of_lt_of_le inside first.size_le)).trans
    (first.owner_eq id inside)
  level_eq id inside := (second.level_eq id (Nat.lt_of_lt_of_le inside first.size_le)).trans
    (first.level_eq id inside)

theorem within {g h : Grove} (later : Later g h) {part : String} {id : NodeId}
    (inside : g.Within part id) : h.Within part id :=
  ⟨Nat.lt_of_lt_of_le inside.1 later.size_le,(later.owner_eq id inside.1).trans inside.2⟩

theorem deeper {g h : Grove} (later : Later g h) {part part' : String} {a b : NodeId}
    (first : g.Within part a) (second : g.Within part' b) (deeper : g.level a < g.level b) :
    h.level a < h.level b := by
  rwa [later.level_eq a first.1,later.level_eq b second.1]

end Later

/-- Nothing is done to the elements of a part; elements may be added. -/
structure Spares (part : String) (g h : Grove) : Prop where
  later : Later g h
  node_eq : ∀ id : Nat, id < g.forest.nodes.size → g.owner id = part →
    h.forest.node id = g.forest.node id
  fresh : ∀ n child : NodeId, g.forest.nodes.size ≤ n → child ∈ h.forest.children n →
    g.forest.nodes.size ≤ child

theorem later_plant (g : Grove) (part : String) (e : Element) : Later g (g.plant part e) where
  size_le := (grown_plant g.forest e).1.size_le
  name_eq id inside := by
    simp only [plant,name,(grown_plant g.forest e).1.node_eq id inside]
  owner_eq _ inside := ownedFrom_of_lt inside
  level_eq _ inside := levelFrom_of_lt inside

theorem later_update (g : Grove) (id : NodeId) {change : Node → Node}
    (same : ∀ n, (change n).name = n.name) : Later g (g.withForest (g.forest.update id change)) where
  size_le := by simp [withForest]
  name_eq n _ := g.forest.name_update id n same
  owner_eq _ _ := rfl
  level_eq _ _ := rfl

/-- A step without new elements that leaves the others as they are. -/
theorem Spares.of_size_eq {g h : Grove} {part : String} (later : Later g h)
    (size_eq : h.forest.nodes.size = g.forest.nodes.size)
    (node_eq : ∀ id : Nat, id < g.forest.nodes.size → g.owner id = part →
      h.forest.node id = g.forest.node id) : Spares part g h where
  later := later
  node_eq := node_eq
  fresh n child large member := by
    rw [h.forest.children_of_size_le (size_eq ▸ large)] at member
    simp at member

theorem spares_plant (g : Grove) (part other : String) (e : Element) :
    Spares part g (g.plant other e) where
  later := later_plant g other e
  node_eq id old _ := (grown_plant g.forest e).1.node_eq id old
  fresh n child new member := ((grown_plant g.forest e).1.children_new n child new member).1

theorem withForest_updateChildren (g : Grove) (parent : NodeId)
    (change : List NodeId → List NodeId) : g.withForest (g.forest.updateChildren parent change) =
      g.setChildren parent (change (g.forest.children parent)) :=
  congrArg g.withForest (g.forest.updateChildren_eq parent rfl)

theorem children_setChildren (g : Grove) {parent : NodeId} (inside : parent < g.forest.nodes.size)
    (ids : List NodeId) (n : NodeId) : (g.setChildren parent ids).forest.children n =
      if n = parent then ids else g.forest.children n := by
  simp only [setChildren,withForest,children_updateChildren]
  by_cases here : n = parent
  · subst here
    rw [if_pos ⟨rfl,inside⟩,if_pos rfl]
  · rw [if_neg fun both => here both.1,if_neg here]

theorem name_setChildren (g : Grove) (parent : NodeId) (ids : List NodeId) :
    (g.setChildren parent ids).forest.name = g.forest.name := by
  funext n
  simp only [setChildren,withForest,updateChildren,name,node_update]
  split <;> rfl

theorem later_updateChildren (g : Grove) (parent : NodeId) (change : List NodeId → List NodeId) :
    Later g (g.withForest (g.forest.updateChildren parent change)) :=
  later_update g parent fun _ => rfl

theorem later_setChildren (g : Grove) (parent : NodeId) (ids : List NodeId) :
    Later g (g.setChildren parent ids) :=
  later_updateChildren g parent fun _ => ids

/-- A planted element belongs to its part and is deeper than all elements before it. -/
theorem within_plant (g : Grove) (part : String) (e : Element) :
    (g.plant part e).Within part (g.forest.plant e).1 ∧
      ∀ id, id < g.forest.nodes.size → g.Sorted →
        (g.plant part e).level id < (g.plant part e).level (g.forest.plant e).1 := by
  obtain ⟨grown,large,last⟩ := grown_plant g.forest e
  refine ⟨⟨Nat.lt_of_succ_le (Nat.le_of_eq last),ownedFrom_of_le large⟩,?_⟩
  intro id inside sorted
  simp only [plant,levelFrom_of_lt inside]
  have bound := sorted.bounded id inside
  simp only [levelFrom,Nat.not_lt.mpr large,if_false]
  omega

namespace Sorted

variable {s : Settings} {part : String} {g h : Grove}

theorem plant (sorted : g.Sorted) (part : String) (e : Element) : (g.plant part e).Sorted :=
  Forest.Sorted.grow sorted (grown_plant g.forest e).1 part

theorem within_child (sorted : g.Sorted) {parent child : NodeId} (inside : g.Within part parent)
    (member : child ∈ g.forest.children parent) : g.Within part child := by
  obtain ⟨bound,owned,_⟩ := sorted.below parent child member
  exact ⟨bound,owned.trans inside.2⟩

theorem within_tree (sorted : g.Sorted) {id n : NodeId} (inside : g.Within part id)
    (member : n ∈ g.forest.tree id) : g.Within part n := by
  obtain ⟨owned,place⟩ := mem_tree sorted member
  refine ⟨?_,owned.trans inside.2⟩
  rcases place with rfl | small
  · exact inside.1
  · exact small

theorem within_named (sorted : g.Sorted) {id n : NodeId} {name : Name}
    (inside : g.Within part id) (member : n ∈ g.forest.named id name) : g.Within part n :=
  sorted.within_tree inside (mem_named.mp member).1

theorem within_childrenNamed (sorted : g.Sorted) {id n : NodeId} {name : Name}
    (inside : g.Within part id) (member : n ∈ g.forest.childrenNamed id name) :
    g.Within part n :=
  sorted.within_child inside (List.mem_of_mem_filter member)

theorem within_childNamed (sorted : g.Sorted) {id n : NodeId} {name : Name}
    (inside : g.Within part id) (found : g.forest.childNamed? id name = some n) :
    g.Within part n :=
  sorted.within_child inside (List.mem_of_find?_eq_some found)

theorem within_outside (sorted : g.Sorted) {id n : NodeId} {name boundary : Name}
    (inside : g.Within part id) (member : n ∈ g.forest.outside id name boundary) :
    g.Within part n := by
  unfold outside at member
  generalize g.forest.nodes.size = depth at member
  induction depth generalizing id with
  | zero => simp [outsideTo] at member
  | succ depth ih =>
    simp only [outsideTo,List.mem_flatMap,List.mem_append] at member
    obtain ⟨child,below,member⟩ := member
    have inside_child := sorted.within_child inside below
    rcases member with here | deeper
    · split at here
      · obtain rfl := List.mem_singleton.mp here
        exact inside_child
      · simp at here
    · split at deeper
      · simp at deeper
      · exact ih inside_child deeper

theorem within_textElements (sorted : g.Sorted) {id n : NodeId} (inside : g.Within part id)
    (member : n ∈ g.forest.textElements id) : g.Within part n := by
  obtain ⟨run,below,member⟩ := List.mem_flatMap.mp member
  exact sorted.within_named (sorted.within_named inside below) member

theorem edit (sorted : g.Sorted) (step : Edit s part g h) : h.Sorted := by
  cases step with
  | plant built => exact sorted.plant part _
  | @take parent ids inside fewer =>
    apply Forest.Sorted.updateChildren sorted parent (fun _ => ids)
    exact fun child member => Or.inl (fewer.subset member)
  | @put parent new before after inside split within deeper loose _ =>
    apply Forest.Sorted.updateChildren sorted parent (fun _ => before ++ new :: after)
    intro child member
    rw [split,List.mem_append]
    rcases List.mem_append.mp member with former | member
    · exact Or.inl (Or.inl former)
    · rcases List.mem_cons.mp member with rfl | former
      · exact Or.inr ⟨within.1,within.2.trans inside.2.symm,deeper⟩
      · exact Or.inl (Or.inr former)
  | write text inside => exact Forest.Sorted.update sorted _ fun _ => rfl

theorem edits (sorted : g.Sorted) (steps : Edits s part g h) : h.Sorted := by
  induction steps with
  | refl => exact sorted
  | tail _ step ih => exact ih.edit step

end Sorted

variable {s : Settings} {part : String} {g h : Grove}

theorem Edit.later (step : Edit s part g h) : Later g h := by
  cases step with
  | plant built => exact later_plant g part _
  | take | put => exact later_setChildren g _ _
  | write text inside => exact later_update g _ fun _ => rfl

/-- No edit gives an element a second place. -/
theorem Edit.branching (step : Edit s part g h) (branching : g.forest.Branching) :
    h.forest.Branching := by
  cases step with
  | plant built => exact (branching_plant branching _).1
  | @take parent ids inside fewer => exact branching.fewer (fun _ => ids) fewer
  | @put parent new before after inside split within deeper loose _ =>
    exact branching.more (fun _ => before ++ new :: after) split rfl within.1 loose
  | write text inside => exact branching.update _ fun _ => rfl

theorem Edits.branching (steps : Edits s part g h) (branching : g.forest.Branching) :
    h.forest.Branching := by
  induction steps with
  | refl => exact branching
  | tail _ step ih => exact step.branching ih

theorem Edits.later (steps : Edits s part g h) : Later g h := by
  induction steps with
  | refl => exact Later.refl g
  | tail _ step ih => exact ih.trans step.later

/-- The elements are sorted, and none has two places. -/
structure Orderly (g : Grove) : Prop where
  sorted : g.Sorted
  branching : g.forest.Branching

theorem Orderly.plant (orderly : g.Orderly) (part : String) (e : Element) :
    (g.plant part e).Orderly :=
  ⟨orderly.sorted.plant part e,(branching_plant orderly.branching e).1⟩

/-- What is planted is put among the children of an element. -/
theorem edits_put (orderly : g.Orderly) {parent : NodeId} (inside : g.Within part parent)
    {e : Element} (built : Built s e) {before after : List NodeId}
    (split : g.forest.children parent = before ++ after) : Edits s part g
      ((g.plant part e).setChildren parent (before ++ (g.forest.plant e).1 :: after)) := by
  obtain ⟨within,deeper⟩ := within_plant g part e
  have planted : Edit s part g (g.plant part e) := Edit.plant built
  have split' : (g.plant part e).forest.children parent = before ++ after :=
    ((grown_plant g.forest e).1.children_eq inside.1).trans split
  exact (ReflTransGen.single planted).tail (Edit.put (planted.later.within inside) split' within
    (deeper parent inside.1 orderly.sorted) (branching_plant orderly.branching e).2
    (grown_plant g.forest e).2.2)

theorem Orderly.edits (orderly : g.Orderly) (steps : Edits s part g h) : h.Orderly :=
  ⟨orderly.sorted.edits steps,steps.branching orderly.branching⟩

end Grove
end MailMerge
