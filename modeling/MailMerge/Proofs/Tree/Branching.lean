import MailMerge.Proofs.Tree.Planted

/-! Forests in which no element has two places. What is planted comes without a place, and edits that
take children out or put an element without a place among them give no element a second one.
-/
namespace MailMerge.Forest
open Xml

/-- An element is among the children of one element at most, and there once. -/
structure Branching (f : Forest) : Prop where
  below : ∀ parent child : NodeId, child ∈ f.children parent → child < f.nodes.size
  nodup : ∀ id, (f.children id).Nodup
  parent_eq : ∀ a b child : NodeId, child ∈ f.children a → child ∈ f.children b → a = b

/-- An element is among the children of none. -/
def Loose (f : Forest) (id : NodeId) : Prop :=
  ∀ parent, id ∉ f.children parent

theorem children_add (f : Forest) (n : Node) (id : NodeId) :
    (f.add n).2.children id = if id = f.nodes.size then n.children else f.children id := by
  simp only [children,node_add]
  split <;> rfl

theorem Grown.children_eq {f g : Forest} (grown : Grown f g) {id : NodeId}
    (old : id < f.nodes.size) : g.children id = f.children id := by
  rw [children,grown.node_eq id old,children]

/-- What has no place gets none while a forest grows. -/
theorem Loose.grown {f g : Forest} {id : NodeId} (loose : f.Loose id) (grown : Grown f g)
    (old : id < f.nodes.size) : g.Loose id := by
  intro parent member
  rcases Nat.lt_or_ge parent f.nodes.size with inside | new
  · exact loose parent (grown.children_eq inside ▸ member)
  · exact Nat.not_lt.mpr (grown.children_new parent id new member).1 old

namespace Branching

variable {f g : Forest}

theorem add (branching : f.Branching) (n : Node) (nodup : n.children.Nodup)
    (placed : ∀ child ∈ n.children, child < f.nodes.size ∧ f.Loose child) :
    (f.add n).2.Branching where
  below parent child member := by
    rw [children_add] at member
    rw [size_add]
    split at member
    · exact Nat.lt_succ_of_lt (placed child member).1
    · exact Nat.lt_succ_of_lt (branching.below parent child member)
  nodup id := by
    rw [children_add]
    split
    · exact nodup
    · exact branching.nodup id
  parent_eq a b child first second := by
    rw [children_add] at first second
    split at first <;> split at second
    · next here here' => exact here.trans here'.symm
    · exact absurd second ((placed child first).2 b)
    · exact absurd first ((placed child second).2 a)
    · exact branching.parent_eq a b child first second

theorem loose_add (branching : f.Branching) (n : Node)
    (inside : ∀ child ∈ n.children, child < f.nodes.size) : (f.add n).2.Loose f.nodes.size := by
  intro parent member
  rw [children_add] at member
  split at member
  · exact Nat.lt_irrefl _ (inside _ member)
  · exact Nat.lt_irrefl _ (branching.below parent _ member)

end Branching

mutual

/-- What is planted branches and has no place. -/
theorem branching_plant {f : Forest} (branching : f.Branching) (e : Element) :
    (f.plant e).2.Branching ∧ (f.plant e).2.Loose (f.plant e).1 := by
  cases e with
  | mk name attributes text children tail =>
    obtain ⟨branching',nodup,loose⟩ := branching_plantAll branching children
    have inside := (grown_plantAll f children).2
    simp only [plant,fst_add]
    exact ⟨branching'.add _ nodup fun child member => ⟨(inside child member).2,loose child member⟩,
      branching'.loose_add _ fun child member => (inside child member).2⟩

theorem branching_plantAll {f : Forest} (branching : f.Branching) (es : List Element) :
    (f.plantAll es).2.Branching ∧ (f.plantAll es).1.Nodup ∧
      ∀ id ∈ (f.plantAll es).1, (f.plantAll es).2.Loose id := by
  cases es with
  | nil => exact ⟨branching,by simp [plantAll],by simp [plantAll]⟩
  | cons e es =>
    obtain ⟨branching₁,loose⟩ := branching_plant branching e
    obtain ⟨branching₂,nodup,loose'⟩ := branching_plantAll branching₁ es
    obtain ⟨grown,inside⟩ := grown_plantAll (f.plant e).2 es
    have small : (f.plant e).1 < (f.plant e).2.nodes.size :=
      Nat.lt_of_succ_le (Nat.le_of_eq (grown_plant f e).2.2)
    simp only [plantAll]
    refine ⟨branching₂,List.nodup_cons.mpr ⟨?_,nodup⟩,?_⟩
    · intro member
      exact Nat.not_lt.mpr (inside _ member).1 small
    · intro id member
      rcases List.mem_cons.mp member with rfl | member
      · exact loose.grown grown small
      · exact loose' id member

end

namespace Branching

variable {f g : Forest}

/-- An edit that leaves the children of all elements alone. -/
theorem of_children_eq (branching : f.Branching) (size_eq : g.nodes.size = f.nodes.size)
    (same : ∀ id, g.children id = f.children id) : g.Branching where
  below parent child member := size_eq ▸ branching.below parent child (same parent ▸ member)
  nodup id := same id ▸ branching.nodup id
  parent_eq a b child first second :=
    branching.parent_eq a b child (same a ▸ first) (same b ▸ second)

/-- The children of an element are changed, and those that are new to it had no place. -/
theorem updateChildren (branching : f.Branching) (parent : NodeId)
    (change : List NodeId → List NodeId) (nodup : (change (f.children parent)).Nodup)
    (placed : ∀ child ∈ change (f.children parent), child ∈ f.children parent ∨
      (child < f.nodes.size ∧ f.Loose child)) : (f.updateChildren parent change).Branching where
  below other child member := by
    rw [children_updateChildren] at member
    simp only [Forest.updateChildren,size_update]
    split at member
    · next here =>
      obtain ⟨rfl,_⟩ := here
      rcases placed child member with former | new
      · exact branching.below other child former
      · exact new.1
    · exact branching.below other child member
  nodup id := by
    rw [children_updateChildren]
    split
    · next here => exact here.1 ▸ nodup
    · exact branching.nodup id
  parent_eq a b child first second := by
    have former (n : NodeId) (member : child ∈ (f.updateChildren parent change).children n) :
        child ∈ f.children n ∨ (n = parent ∧ f.Loose child) := by
      rw [children_updateChildren] at member
      split at member
      · next here =>
        obtain ⟨rfl,_⟩ := here
        exact (placed child member).imp_right fun new => ⟨rfl,new.2⟩
      · exact Or.inl member
    rcases former a first with first' | ⟨rfl,loose⟩ <;>
      rcases former b second with second' | ⟨rfl,loose'⟩
    · exact branching.parent_eq a b child first' second'
    · exact absurd first' (loose' a)
    · exact absurd second' (loose b)
    · rfl

theorem fewer (branching : f.Branching) {parent : NodeId} (change : List NodeId → List NodeId)
    (sub : (change (f.children parent)).Sublist (f.children parent)) :
    (f.updateChildren parent change).Branching :=
  branching.updateChildren parent change ((branching.nodup parent).sublist sub)
    fun _ member => Or.inl (sub.subset member)

/-- An element without a place gets one. -/
theorem more (branching : f.Branching) {parent new : NodeId} {before after : List NodeId}
    (change : List NodeId → List NodeId) (split : f.children parent = before ++ after)
    (changed : change (f.children parent) = before ++ new :: after) (inside : new < f.nodes.size)
    (loose : f.Loose new) : (f.updateChildren parent change).Branching := by
  have nodup := branching.nodup parent
  have absent := loose parent
  rw [split] at nodup absent
  apply branching.updateChildren parent change
  · rw [changed]
    exact List.perm_middle.nodup_iff.mpr (List.nodup_cons.mpr ⟨absent,nodup⟩)
  · intro child member
    rw [changed,List.mem_append,List.mem_cons] at member
    rw [split,List.mem_append]
    rcases member with member | rfl | member
    · exact Or.inl (Or.inl member)
    · exact Or.inr ⟨inside,loose⟩
    · exact Or.inl (Or.inr member)

/-- An edit of a node that leaves its children alone. -/
theorem update (branching : f.Branching) (id : NodeId) {change : Node → Node}
    (same : ∀ n, (change n).children = n.children) : (f.update id change).Branching :=
  branching.of_children_eq (by simp) fun n => f.children_update id n same

end Branching

/-- A forest without elements. -/
theorem branching_empty : ({} : Forest).Branching := by
  have leaf (id : NodeId) : ({} : Forest).children id = [] := by simp [children,node]
  refine ⟨?_,?_,?_⟩
  · intro parent child member
    rw [leaf] at member
    simp at member
  · intro id
    rw [leaf]
    exact List.nodup_nil
  · intro a b child member
    rw [leaf] at member
    simp at member

end MailMerge.Forest
