import MailMerge.Tree.Basic
import Mathlib.Data.List.Basic

/-! Trees in a forest. Elements are sorted by an owner that parents share with their children, and
levels grow from parents to children. In such a forest every tree is finite and is seen whole, and
what one owner's elements hold does not depend on the elements of the others.
-/
namespace MailMerge.Forest
open Xml

theorem node_of_size_le (f : Forest) {id : NodeId} (large : f.nodes.size ≤ id) :
    f.node id = ⟨.bare "", [], none, [], none⟩ := by
  simp [node,Array.getElem?_eq_none large]

theorem children_of_size_le (f : Forest) {id : NodeId} (large : f.nodes.size ≤ id) :
    f.children id = [] := by
  simp [children,f.node_of_size_le large]

theorem lt_size_of_child (f : Forest) {parent child : Nat} (member : child ∈ f.children parent) :
    parent < f.nodes.size := by
  by_contra large
  simp [f.children_of_size_le (Nat.le_of_not_lt large)] at member

/-- An element with a name is an element of the forest. -/
theorem lt_size_of_name (f : Forest) {n : NodeId} {name : Name} (named : f.name n = name)
    (other : name ≠ .bare "") : n < f.nodes.size := by
  by_contra large
  rw [Forest.name,f.node_of_size_le (Nat.le_of_not_lt large)] at named
  exact other named.symm

@[simp] theorem size_update (f : Forest) (id : NodeId) (change : Node → Node) :
    (f.update id change).nodes.size = f.nodes.size := by
  simp [update]

theorem node_update (f : Forest) (id n : NodeId) (change : Node → Node) :
    (f.update id change).node n =
      if n = id ∧ n < f.nodes.size then change (f.node n) else f.node n := by
  by_cases inside : n < f.nodes.size
  · by_cases same : id = n
    · subst same
      simp [node,update,inside,Array.getElem_modify]
    · simp [node,update,Array.getElem?_modify,same,Ne.symm same]
  · have large := Nat.le_of_not_lt inside
    rw [node_of_size_le _ (by simpa using large),f.node_of_size_le large]
    simp [inside]

theorem node_update_of_ne (f : Forest) {id n : NodeId} (change : Node → Node) (other : n ≠ id) :
    (f.update id change).node n = f.node n := by
  simp [node_update,other]

theorem name_update (f : Forest) (id n : NodeId) {change : Node → Node}
    (same : ∀ n, (change n).name = n.name) : (f.update id change).name n = f.name n := by
  simp only [Forest.name,node_update]
  split
  · exact same _
  · rfl

theorem children_update (f : Forest) (id n : NodeId) {change : Node → Node}
    (same : ∀ n, (change n).children = n.children) : (f.update id change).children n = f.children n := by
  simp only [children,node_update]
  split
  · exact same _
  · rfl

theorem update_update (f : Forest) (id : NodeId) (first second : Node → Node) :
    (f.update id first).update id second = f.update id fun n => second (first n) := by
  simp only [update,mk.injEq]
  apply Array.ext
  · simp
  · intro i small _
    simp only [Array.getElem_modify]
    split <;> rfl

@[simp] theorem fst_add (f : Forest) (n : Node) : (f.add n).1 = f.nodes.size := rfl

@[simp] theorem size_add (f : Forest) (n : Node) :
    (f.add n).2.nodes.size = f.nodes.size + 1 := by
  simp [add]

/-- What is below an element depends on the children of all elements only. -/
theorem tree_of_children_eq {f g : Forest} (size_eq : g.nodes.size = f.nodes.size)
    (children_eq : ∀ n, g.children n = f.children n) (id : NodeId) : g.tree id = f.tree id := by
  have below (depth : Nat) (n : NodeId) : g.treeTo depth n = f.treeTo depth n := by
    induction depth generalizing n with
    | zero => rfl
    | succ depth ih =>
      have step : g.treeTo depth = f.treeTo depth := funext ih
      simp only [treeTo,children_eq,step]
  simp only [tree,size_eq,below]

theorem node_add (f : Forest) (n : Node) (id : NodeId) :
    (f.add n).2.node id = if id = f.nodes.size then n else f.node id := by
  by_cases same : id = f.nodes.size
  · simp [node,add,same]
  · rcases Nat.lt_or_gt_of_ne same with small | large
    · simp [node,add,Array.getElem?_push,same]
    · simp [node,add,Array.getElem?_push,same]

/-- Elements are sorted into trees: a child has the owner of its parent and a greater level. -/
structure Sorted {α : Type} (f : Forest) (owner : NodeId → α) (level : NodeId → Nat) : Prop where
  below : ∀ parent child : Nat, child ∈ f.children parent →
    child < f.nodes.size ∧ owner child = owner parent ∧ level parent < level child
  bounded : ∀ id : Nat, id < f.nodes.size → level id < f.nodes.size

variable {α : Type} {f g : Forest} {owner owner' : NodeId → α} {level level' : NodeId → Nat}

namespace Sorted

/-- Whatever passes from the children of an element to the element holds of all elements. -/
theorem induction (sorted : f.Sorted owner level) {motive : NodeId → Prop}
    (step : ∀ id, (∀ child ∈ f.children id, motive child) → motive id) (id : NodeId) :
    motive id := by
  by_cases inside : id < f.nodes.size
  · induction left : f.nodes.size - level id using Nat.strongRecOn generalizing id with
    | ind left ih =>
      apply step
      intro child member
      obtain ⟨bound,_,deeper⟩ := sorted.below id child member
      have small := sorted.bounded child bound
      exact ih (f.nodes.size - level child) (by omega) child bound rfl
  · apply step
    simp [f.children_of_size_le (Nat.le_of_not_lt inside)]

theorem no_children (sorted : f.Sorted owner level) (id : NodeId)
    (deep : f.nodes.size ≤ level id + 1) : f.children id = [] := by
  apply List.eq_nil_iff_forall_not_mem.mpr
  intro child member
  obtain ⟨bound,_,deeper⟩ := sorted.below id child member
  have small := sorted.bounded child bound
  omega

end Sorted

theorem treeTo_stable (sorted : f.Sorted owner level) (d d' : Nat) (id : NodeId)
    (enough : f.nodes.size ≤ level id + 1 + d) (enough' : f.nodes.size ≤ level id + 1 + d') :
    f.treeTo d id = f.treeTo d' id := by
  induction d generalizing d' id with
  | zero =>
    have leaf := sorted.no_children id (by omega)
    cases d' <;> simp [treeTo,leaf]
  | succ d ih =>
    cases d' with
    | zero =>
      have leaf := sorted.no_children id (by omega)
      simp [treeTo,leaf]
    | succ d' =>
      simp only [treeTo,List.cons.injEq,true_and]
      apply List.flatMap_congr
      intro child member
      have deeper := (sorted.below id child member).2.2
      exact ih d' child (by omega) (by omega)

theorem elementTo_stable (sorted : f.Sorted owner level) (d d' : Nat) (id : NodeId)
    (enough : f.nodes.size ≤ level id + 1 + d) (enough' : f.nodes.size ≤ level id + 1 + d') :
    f.elementTo d id = f.elementTo d' id := by
  induction d generalizing d' id with
  | zero =>
    have leaf : (f.node id).children = [] := sorted.no_children id (by omega)
    cases d' <;> simp [elementTo,leaf]
  | succ d ih =>
    cases d' with
    | zero =>
      have leaf : (f.node id).children = [] := sorted.no_children id (by omega)
      simp [elementTo,leaf]
    | succ d' =>
      simp only [elementTo,Element.mk.injEq,true_and,and_true]
      apply List.map_congr_left
      intro child member
      have deeper := (sorted.below id child member).2.2
      exact ih d' child (by omega) (by omega)

/-- A tree is its root and the trees of the root's children. -/
theorem tree_eq (sorted : f.Sorted owner level) (id : NodeId) :
    f.tree id = id :: (f.children id).flatMap f.tree := by
  cases size : f.nodes.size with
  | zero => simp [tree,size,treeTo,f.children_of_size_le (by omega : f.nodes.size ≤ id)]
  | succ s =>
    simp only [tree,size,treeTo,List.cons.injEq,true_and]
    apply List.flatMap_congr
    intro child member
    have deeper := (sorted.below id child member).2.2
    simpa only [tree,size] using
      treeTo_stable sorted s (s + 1) child (by omega) (by omega)

/-- An element is its node with the elements of the children. -/
theorem element_eq (sorted : f.Sorted owner level) (id : NodeId) :
    f.element id = .mk (f.node id).name (f.node id).attributes (f.node id).text
      ((f.children id).map f.element) (f.node id).tail := by
  cases size : f.nodes.size with
  | zero =>
    have leaf := f.children_of_size_le (by omega : f.nodes.size ≤ id)
    have leaf' : (f.node id).children = [] := leaf
    simp [element,size,elementTo,leaf]
  | succ s =>
    simp only [element,size,elementTo,Element.mk.injEq,true_and,and_true]
    apply List.map_congr_left
    intro child member
    have deeper := (sorted.below id child member).2.2
    simpa only [element,size] using
      elementTo_stable sorted s (s + 1) child (by omega) (by omega)

theorem mem_tree_self (sorted : f.Sorted owner level) (id : NodeId) : id ∈ f.tree id := by
  rw [tree_eq sorted]
  exact List.mem_cons_self

/-- A tree has one owner, and no element of it is above its root. -/
theorem mem_tree (sorted : f.Sorted owner level) {id n : NodeId} (member : n ∈ f.tree id) :
    owner n = owner id ∧ (n = id ∨ n < f.nodes.size) := by
  revert member
  refine sorted.induction (motive := fun id => n ∈ f.tree id →
    owner n = owner id ∧ (n = id ∨ n < f.nodes.size)) ?_ id
  intro id ih member
  rw [tree_eq sorted,List.mem_cons,List.mem_flatMap] at member
  rcases member with rfl | ⟨child,inside,member⟩
  · exact ⟨rfl,Or.inl rfl⟩
  · obtain ⟨bound,owned,_⟩ := sorted.below id child inside
    obtain ⟨same,place⟩ := ih child inside member
    refine ⟨same.trans owned,Or.inr ?_⟩
    rcases place with rfl | small
    · exact bound
    · exact small

theorem mem_named {id n : NodeId} {name : Name} :
    n ∈ f.named id name ↔ n ∈ f.tree id ∧ f.name n = name := by
  simp [named]

section
variable {keep : NodeId → Prop}

/-- Trees whose elements are the same in two forests are the same. -/
theorem tree_congr (sorted : f.Sorted owner level) (sorted' : g.Sorted owner' level')
    (closed : ∀ n, keep n → ∀ child ∈ f.children n, keep child)
    (same : ∀ n, keep n → g.node n = f.node n) (id : NodeId) (kept : keep id) :
    g.tree id = f.tree id := by
  revert kept
  refine sorted.induction (motive := fun id => keep id → g.tree id = f.tree id) ?_ id
  intro id ih kept
  have children_same : g.children id = f.children id := by simp [children,same id kept]
  rw [tree_eq sorted,tree_eq sorted',children_same]
  simp only [List.cons.injEq,true_and]
  apply List.flatMap_congr
  intro child member
  exact ih child member (closed id kept child member)

theorem element_congr (sorted : f.Sorted owner level) (sorted' : g.Sorted owner' level')
    (closed : ∀ n, keep n → ∀ child ∈ f.children n, keep child)
    (same : ∀ n, keep n → g.node n = f.node n) (id : NodeId) (kept : keep id) :
    g.element id = f.element id := by
  revert kept
  refine sorted.induction (motive := fun id => keep id → g.element id = f.element id) ?_ id
  intro id ih kept
  have children_same : g.children id = f.children id := by simp [children,same id kept]
  rw [element_eq sorted,element_eq sorted',children_same,same id kept]
  simp only [Element.mk.injEq,true_and,and_true]
  apply List.map_congr_left
  intro child member
  exact ih child member (closed id kept child member)

end

/-- The children of a part's elements are the part's. -/
theorem Sorted.closed_owner (sorted : f.Sorted owner level) (part : α) (n : NodeId)
    (owned : owner n = part) : ∀ child ∈ f.children n, owner child = part :=
  fun child member => (sorted.below n child member).2.1.trans owned

end MailMerge.Forest

namespace MailMerge.Xml.Element

theorem descendantsOf_eq_flatMap (es : List Element) :
    descendantsOf es = es.flatMap descendants := by
  induction es with
  | nil => simp [descendantsOf]
  | cons e es ih => simp [descendantsOf,ih]

theorem descendants_mk (name : Name) (attributes : Attributes) (text : Option String)
    (children : List Element) (tail : Option String) :
    (mk name attributes text children tail).descendants =
      mk name attributes text children tail :: children.flatMap descendants := by
  simp [descendants,descendantsOf_eq_flatMap]

/-- The elements of a name in an element, itself included, in document order. -/
def named (e : Element) (name : Name) : List Element :=
  e.descendants.filter (·.name == name)

/-- The children of a name. -/
def childrenNamed (e : Element) (name : Name) : List Element :=
  e.children.filter (·.name == name)

end MailMerge.Xml.Element

namespace MailMerge.Forest
open Xml

variable {α : Type} {f : Forest} {owner : NodeId → α} {level : NodeId → Nat}

/-- The elements of a tree are the root's element and everything below it. -/
theorem map_element_tree (sorted : f.Sorted owner level) (id : NodeId) :
    (f.tree id).map f.element = (f.element id).descendants := by
  refine sorted.induction (motive := fun id =>
    (f.tree id).map f.element = (f.element id).descendants) ?_ id
  intro id ih
  rw [tree_eq sorted,List.map_cons,element_eq sorted id,Element.descendants_mk]
  simp only [List.cons.injEq,true_and,List.map_flatMap,List.flatMap_map]
  apply List.flatMap_congr
  intro child member
  exact ih child member

theorem name_element (f : Forest) (id : NodeId) : (f.element id).name = f.name id := by
  unfold element
  cases f.nodes.size <;> rfl

theorem text_element (f : Forest) (id : NodeId) : (f.element id).text = f.text id := by
  unfold element
  cases f.nodes.size <;> rfl

theorem children_element (sorted : f.Sorted owner level) (id : NodeId) :
    (f.element id).children = (f.children id).map f.element := by
  rw [element_eq sorted id,Element.children]

theorem named_element (sorted : f.Sorted owner level) (id : NodeId) (name : Name) :
    (f.element id).named name = (f.named id name).map f.element := by
  rw [Element.named,← map_element_tree sorted id,List.filter_map,named]
  exact congrArg _ (List.filter_congr fun n _ => by simp [name_element])

theorem childrenNamed_element (sorted : f.Sorted owner level) (id : NodeId) (name : Name) :
    (f.element id).childrenNamed name = (f.childrenNamed id name).map f.element := by
  rw [Element.childrenNamed,children_element sorted,List.filter_map,childrenNamed]
  exact congrArg _ (List.filter_congr fun n _ => by simp [name_element])

end MailMerge.Forest
