import MailMerge.Proofs.Tree.Sorted

/-! Changes of a forest. Planting an element adds nodes after all others and the new root stands for
the element; the new nodes get one owner and levels of their own. Edits of the children of an
element keep the forest sorted as long as a new child has its owner and a greater level.
-/
namespace MailMerge.Forest
open Xml

/-- A forest that has grown: former nodes are as they were, new ones have new children, which were
added before them. -/
structure Grown (f g : Forest) : Prop where
  size_le : f.nodes.size ≤ g.nodes.size
  node_eq : ∀ id, id < f.nodes.size → g.node id = f.node id
  children_new : ∀ id child : Nat, f.nodes.size ≤ id → child ∈ g.children id →
    f.nodes.size ≤ child ∧ child < id

namespace Grown

theorem refl (f : Forest) : Grown f f where
  size_le := Nat.le_refl _
  node_eq _ _ := rfl
  children_new id child large member := by simp [f.children_of_size_le large] at member

theorem trans {f g h : Forest} (first : Grown f g) (second : Grown g h) : Grown f h where
  size_le := Nat.le_trans first.size_le second.size_le
  node_eq id inside := by
    rw [second.node_eq id (Nat.lt_of_lt_of_le inside first.size_le),first.node_eq id inside]
  children_new id child large member := by
    by_cases inside : id < g.nodes.size
    · apply first.children_new id child large
      simpa [children,second.node_eq id inside] using member
    · have bounds := second.children_new id child (Nat.le_of_not_lt inside) member
      exact ⟨Nat.le_trans first.size_le bounds.1,bounds.2⟩

theorem add {f g : Forest} (grown : Grown f g) (n : Node)
    (inside : ∀ child ∈ n.children, f.nodes.size ≤ child ∧ child < g.nodes.size) :
    Grown f (g.add n).2 where
  size_le := by simpa using Nat.le_succ_of_le grown.size_le
  node_eq id small := by
    have bound := Nat.lt_of_lt_of_le small grown.size_le
    rw [node_add,if_neg (Nat.ne_of_lt bound),grown.node_eq id small]
  children_new id child large member := by
    by_cases last : id = g.nodes.size
    · simp only [children,node_add,last,if_true] at member
      exact ⟨(inside child member).1,last ▸ (inside child member).2⟩
    · simp only [children,node_add,last,if_false] at member
      exact grown.children_new id child large member

end Grown

mutual

theorem grown_plant (f : Forest) (e : Element) : Grown f (f.plant e).2 ∧
    f.nodes.size ≤ (f.plant e).1 ∧ (f.plant e).1 + 1 = (f.plant e).2.nodes.size := by
  cases e with
  | mk name attributes text children tail =>
    obtain ⟨grown,inside⟩ := grown_plantAll f children
    simp only [plant,fst_add,size_add]
    exact ⟨grown.add _ inside,grown.size_le,trivial⟩

theorem grown_plantAll (f : Forest) (es : List Element) : Grown f (f.plantAll es).2 ∧
    ∀ id ∈ (f.plantAll es).1, f.nodes.size ≤ id ∧ id < (f.plantAll es).2.nodes.size := by
  cases es with
  | nil => exact ⟨Grown.refl f,by simp [plantAll]⟩
  | cons e es =>
    obtain ⟨first,large,last⟩ := grown_plant f e
    obtain ⟨rest,inside⟩ := grown_plantAll (f.plant e).2 es
    refine ⟨first.trans rest,?_⟩
    intro id member
    simp only [plantAll,List.mem_cons] at member
    have size_le := rest.size_le
    simp only [plantAll]
    rcases member with rfl | member
    · exact ⟨large,Nat.lt_of_lt_of_le (Nat.lt_of_succ_le (Nat.le_of_eq last)) size_le⟩
    · have bounds := inside id member
      exact ⟨Nat.le_trans first.size_le bounds.1,bounds.2⟩

end

variable {α : Type} {f g : Forest} {owner : NodeId → α} {level : NodeId → Nat}

mutual

/-- The root of a planted element stands for the element in every forest that keeps its nodes. -/
theorem element_plant (sorted : g.Sorted owner level) (f : Forest) (e : Element)
    (kept : ∀ id, f.nodes.size ≤ id → id < (f.plant e).2.nodes.size →
      g.node id = (f.plant e).2.node id) : g.element (f.plant e).1 = e := by
  cases e with
  | mk name attributes text children tail =>
    obtain ⟨grown,_⟩ := grown_plantAll f children
    have last : (f.plant (.mk name attributes text children tail)).1 =
        (f.plantAll children).2.nodes.size := by simp [plant]
    have here : g.node (f.plantAll children).2.nodes.size =
        ⟨name,attributes,text,(f.plantAll children).1,tail⟩ := by
      rw [kept _ grown.size_le (by simp [plant])]
      simp [plant,node_add]
    have below : (f.plantAll children).1.map g.element = children := by
      apply elements_plantAll sorted f children
      intro id large inside
      rw [kept id large (by simp [plant]; omega)]
      simp [plant,node_add,Nat.ne_of_lt inside]
    rw [last,element_eq sorted,here]
    simp only [Forest.children,here,below]

theorem elements_plantAll (sorted : g.Sorted owner level) (f : Forest) (es : List Element)
    (kept : ∀ id, f.nodes.size ≤ id → id < (f.plantAll es).2.nodes.size →
      g.node id = (f.plantAll es).2.node id) : (f.plantAll es).1.map g.element = es := by
  cases es with
  | nil => simp [plantAll]
  | cons e es =>
    obtain ⟨first,_,_⟩ := grown_plant f e
    obtain ⟨rest,_⟩ := grown_plantAll (f.plant e).2 es
    have size_le := rest.size_le
    simp only [plantAll,List.map_cons,List.cons.injEq]
    constructor
    · apply element_plant sorted f e
      intro id large inside
      rw [kept id large (by simp only [plantAll]; omega)]
      exact rest.node_eq id inside
    · apply elements_plantAll sorted (f.plant e).2 es
      intro id large inside
      exact kept id (Nat.le_trans first.size_le large) inside

end

/-- The owners after new elements were added for a part. -/
def ownedFrom (size : Nat) (owner : NodeId → α) (part : α) (id : NodeId) : α :=
  if id < size then owner id else part

/-- The levels after new elements were added: those added later are nearer to the root. -/
def levelFrom (size newSize : Nat) (level : NodeId → Nat) (id : NodeId) : Nat :=
  if id < size then level id else size + (newSize - 1 - id)

theorem ownedFrom_of_lt {size : Nat} {part : α} {id : NodeId} (inside : id < size) :
    ownedFrom size owner part id = owner id := by
  simp [ownedFrom,inside]

theorem ownedFrom_of_le {size : Nat} {part : α} {id : NodeId} (large : size ≤ id) :
    ownedFrom size owner part id = part := by
  simp [ownedFrom,Nat.not_lt.mpr large]

theorem levelFrom_of_lt {size newSize : Nat} {id : NodeId} (inside : id < size) :
    levelFrom size newSize level id = level id := by
  simp [levelFrom,inside]

theorem Sorted.grow (sorted : f.Sorted owner level) (grown : Grown f g) (part : α) :
    g.Sorted (ownedFrom f.nodes.size owner part)
      (levelFrom f.nodes.size g.nodes.size level) where
  below parent child member := by
    have bound := g.lt_size_of_child member
    by_cases inside : parent < f.nodes.size
    · have former : child ∈ f.children parent := by
        simpa [children,grown.node_eq parent inside] using member
      obtain ⟨small,owned,deeper⟩ := sorted.below parent child former
      simp only [ownedFrom,levelFrom,small,inside,if_true]
      exact ⟨Nat.lt_of_lt_of_le small grown.size_le,owned,deeper⟩
    · have large := Nat.le_of_not_lt inside
      obtain ⟨least,less⟩ := grown.children_new parent child large member
      simp only [ownedFrom,levelFrom,inside,Nat.not_lt.mpr least,if_false,true_and]
      exact ⟨by omega,by omega⟩
  bounded := by
    intro (id : Nat) inside
    have size_le := grown.size_le
    by_cases small : id < f.nodes.size
    · simp only [levelFrom,small,if_true]
      exact Nat.lt_of_lt_of_le (sorted.bounded id small) size_le
    · simp only [levelFrom,small,if_false]
      omega

/-- An edit that leaves the children of all elements alone. -/
theorem Sorted.of_children_eq (sorted : f.Sorted owner level)
    (size_eq : g.nodes.size = f.nodes.size) (same : ∀ id, g.children id = f.children id) :
    g.Sorted owner level where
  below parent child member := size_eq ▸ sorted.below parent child (same parent ▸ member)
  bounded id inside := size_eq ▸ sorted.bounded id (size_eq ▸ inside)

theorem children_updateChildren (f : Forest) (id n : NodeId)
    (change : List NodeId → List NodeId) : (f.updateChildren id change).children n =
      if n = id ∧ n < f.nodes.size then change (f.children n) else f.children n := by
  simp only [children,updateChildren,node_update]
  split <;> rfl

theorem children_detach_subset (f : Forest) (parent child n : NodeId) :
    (f.detach parent child).children n ⊆ f.children n := by
  rw [detach,children_updateChildren]
  split
  · exact List.erase_subset
  · exact List.Subset.refl _

theorem name_updateChildren (f : Forest) (parent n : NodeId) (change : List NodeId → List NodeId) :
    (f.updateChildren parent change).name n = f.name n := by
  simp only [Forest.name,updateChildren,node_update]
  split <;> rfl

theorem text_updateChildren (f : Forest) (parent n : NodeId) (change : List NodeId → List NodeId) :
    (f.updateChildren parent change).text n = f.text n := by
  simp only [Forest.text,updateChildren,node_update]
  split <;> rfl

/-- How the children of an element are changed matters for its children only. -/
theorem updateChildren_eq (f : Forest) (id : NodeId) {change change' : List NodeId → List NodeId}
    (same : change (f.children id) = change' (f.children id)) :
    f.updateChildren id change = f.updateChildren id change' := by
  simp only [Forest.updateChildren,Forest.update,mk.injEq]
  apply Array.ext
  · simp
  · intro i inside _
    have bound : i < f.nodes.size := by simpa using inside
    simp only [Array.getElem_modify]
    split
    · next here =>
      subst here
      have node_eq : f.node id = f.nodes[id] := by simp [node,bound]
      rw [children,node_eq] at same
      rw [same]
    · rfl

section
variable {parent id : NodeId} {before after : List NodeId}

/-- The first occurrence of a child is taken out. -/
theorem detach_eq (f : Forest) (split : f.children parent = before ++ id :: after)
    (first : id ∉ before) :
    f.detach parent id = f.updateChildren parent fun _ => before ++ after :=
  f.updateChildren_eq parent (by
    rw [split,List.erase_append_right _ first,List.erase_cons_head])

/-- A child is put at a position. -/
theorem insertAt_eq (f : Forest) (split : f.children parent = before ++ after) (new : NodeId) :
    f.insertAt parent before.length new =
      f.updateChildren parent fun _ => before ++ new :: after :=
  f.updateChildren_eq parent (by rw [split,List.take_left,List.drop_left])

/-- The place of a child is given to another. -/
theorem insertAt_detach (f : Forest) (split : f.children parent = before ++ id :: after)
    (first : id ∉ before) (new : NodeId) : (f.detach parent id).insertAt parent before.length new =
      f.updateChildren parent fun _ => before ++ new :: after := by
  rw [detach_eq f split first]
  simp only [insertAt,Forest.updateChildren,update_update,List.take_left,List.drop_left]

end

theorem Sorted.updateChildren (sorted : f.Sorted owner level) (id : NodeId)
    (change : List NodeId → List NodeId)
    (allowed : ∀ child ∈ change (f.children id), child ∈ f.children id ∨
      (child < f.nodes.size ∧ owner child = owner id ∧ level id < level child)) :
    (f.updateChildren id change).Sorted owner level where
  below parent child member := by
    rw [children_updateChildren] at member
    simp only [Forest.updateChildren,size_update]
    split at member
    · next here =>
      obtain ⟨rfl,_⟩ := here
      rcases allowed child member with former | new
      · exact sorted.below parent child former
      · exact new
    · exact sorted.below parent child member
  bounded inside := by simpa [Forest.updateChildren] using sorted.bounded inside

theorem Sorted.append (sorted : f.Sorted owner level) {parent child : NodeId}
    (inside : child < f.nodes.size) (owned : owner child = owner parent)
    (deeper : level parent < level child) : (f.append parent child).Sorted owner level := by
  apply sorted.updateChildren
  intro other member
  rw [List.mem_append,List.mem_singleton] at member
  rcases member with member | rfl
  · exact Or.inl member
  · exact Or.inr ⟨inside,owned,deeper⟩

/-- An edit of a node that leaves its children alone. -/
theorem Sorted.update (sorted : f.Sorted owner level) (id : NodeId) {change : Node → Node}
    (same : ∀ n, (change n).children = n.children) : (f.update id change).Sorted owner level :=
  sorted.of_children_eq (by simp) fun n => f.children_update id n same

end MailMerge.Forest
