import MailMerge.Proofs.Tree.Paths
import Mathlib.Data.Finset.Card
import Mathlib.Data.List.Pairwise

/-! Forests without cycles. An element may have several places in such a forest, but it is not below
itself: putting something among the children of an element keeps it so, unless the element is below
what is put there. The elements of such a forest have levels, so that its trees are seen whole.
-/
namespace MailMerge.Forest
open Relation

/-- Children are elements of the forest, and no element is below itself. -/
structure Acyclic (f : Forest) : Prop where
  inside : ∀ parent child : Nat, f.Child parent child → child < f.nodes.size
  irrefl : ∀ id, ¬ TransGen f.Child id id

/-- No element is at two places in the tree of a root. -/
structure Single (f : Forest) (root : NodeId) : Prop where
  nodup : ∀ n, f.Below root n → (f.children n).Nodup
  parent_eq : ∀ a b c, f.Below root a → f.Below root b → f.Child a c → f.Child b c → a = b

/-- What is put between the members of a list is the only new member. -/
theorem mem_of_split {before after ids ids' : List NodeId} {c n : NodeId} (split : ids = before ++ after)
    (changed : ids' = before ++ c :: after) (member : n ∈ ids') : n ∈ ids ∨ n = c := by
  rw [changed,List.mem_append,List.mem_cons] at member
  rw [split,List.mem_append]
  tauto

variable {α : Type} {f g : Forest} {owner : NodeId → α} {level : NodeId → Nat}
  {root parent new : NodeId}

theorem Sorted.acyclic (sorted : f.Sorted owner level) : f.Acyclic where
  inside parent child here := (sorted.below parent child here).1
  irrefl _ path := Nat.lt_irrefl _ (sorted.lt_of_transGen path)

namespace Acyclic

/-- An element has the number of the elements above it for a level. -/
theorem sorted (acyclic : f.Acyclic) : ∃ level, f.Sorted (fun _ => ()) level := by
  classical
  let above (id : NodeId) : Finset Nat :=
    (Finset.range f.nodes.size).filter fun n => TransGen f.Child n id
  have mem_above {n id : NodeId} : n ∈ above id ↔ TransGen f.Child n id := by
    simp only [above,Finset.mem_filter,Finset.mem_range,and_iff_right_iff_imp]
    intro path
    obtain ⟨child,here,_⟩ := TransGen.head'_iff.mp path
    exact f.lt_size_of_child here
  refine ⟨fun id => (above id).card,?_,?_⟩
  · intro parent child here
    refine ⟨acyclic.inside parent child here,rfl,Finset.card_lt_card ?_⟩
    refine (Finset.ssubset_iff_of_subset fun n member => ?_).mpr ⟨parent,?_,?_⟩
    · exact mem_above.mpr ((mem_above.mp member).tail here)
    · exact mem_above.mpr (TransGen.single here)
    · exact fun member => acyclic.irrefl parent (mem_above.mp member)
  · intro id inside
    have absent : id ∉ above id := fun member => acyclic.irrefl id (mem_above.mp member)
    have fewer : above id ⊂ Finset.range f.nodes.size :=
      (Finset.ssubset_iff_of_subset (Finset.filter_subset _ _)).mpr
        ⟨id,Finset.mem_range.mpr inside,absent⟩
    simpa using Finset.card_lt_card fewer

theorem mem_tree_iff (acyclic : f.Acyclic) {id n : NodeId} : n ∈ f.tree id ↔ f.Below id n := by
  obtain ⟨level,sorted⟩ := acyclic.sorted
  exact Forest.mem_tree_iff sorted

/-- An element is not above its parent. -/
theorem not_below (acyclic : f.Acyclic) {n c : NodeId} (here : f.Child n c) : ¬ f.Below c n :=
  fun path => acyclic.irrefl n (TransGen.head' here path)

/-- Fewer children make no cycle. -/
theorem fewer (acyclic : f.Acyclic) (size_eq : g.nodes.size = f.nodes.size)
    (edges : ∀ a b, g.Child a b → f.Child a b) : g.Acyclic where
  inside a b here := size_eq ▸ acyclic.inside a b (edges a b here)
  irrefl id path := acyclic.irrefl id (TransGen.mono edges id id path)

/-- What is put among the children of an element that is not below it makes no cycle. -/
theorem link (acyclic : f.Acyclic) (size_eq : g.nodes.size = f.nodes.size)
    (inside : new < f.nodes.size) (apart : ¬ f.Below new parent)
    (edges : ∀ a b, g.Child a b → f.Child a b ∨ (a = parent ∧ b = new)) : g.Acyclic where
  inside a b here := by
    rcases edges a b here with old | ⟨-,rfl⟩
    · exact size_eq ▸ acyclic.inside a b old
    · exact size_eq ▸ inside
  irrefl id path := by
    -- a path is an old one, or it leads to the place and goes on below what was put there
    have cases_of {a b : NodeId} (path : TransGen g.Child a b) :
        TransGen f.Child a b ∨ (f.Below a parent ∧ f.Below new b) := by
      induction path with
      | single here =>
        rcases edges _ _ here with old | ⟨rfl,rfl⟩
        · exact Or.inl (TransGen.single old)
        · exact Or.inr ⟨ReflTransGen.refl,ReflTransGen.refl⟩
      | tail _ here ih =>
        rcases edges _ _ here with old | ⟨rfl,rfl⟩
        · exact ih.imp (·.tail old) fun ⟨up,down⟩ => ⟨up,down.tail old⟩
        · rcases ih with path | ⟨up,_⟩
          · exact Or.inr ⟨path.to_reflTransGen,ReflTransGen.refl⟩
          · exact Or.inr ⟨up,ReflTransGen.refl⟩
    rcases cases_of path with path | ⟨up,down⟩
    · exact acyclic.irrefl id path
    · exact apart (down.trans up)

theorem graft (acyclic : f.Acyclic) (inside : new < f.nodes.size) (apart : ¬ f.Below new parent)
    {change : List NodeId → List NodeId}
    (more : ∀ n ∈ change (f.children parent), n ∈ f.children parent ∨ n = new) :
    (f.updateChildren parent change).Acyclic := by
  refine acyclic.link (f.size_update parent _) inside apart fun a b here => ?_
  rw [Child,children_updateChildren] at here
  split at here
  · next same =>
    obtain ⟨rfl,-⟩ := same
    exact (more b here).imp_right fun same => ⟨rfl,same⟩
  · exact Or.inl here

theorem detach (acyclic : f.Acyclic) (parent child : NodeId) : (f.detach parent child).Acyclic :=
  acyclic.fewer (f.size_update parent _) fun a _ here => f.children_detach_subset parent child a here

end Acyclic

/-- What is taken out of a tree leaves no element at two places. -/
theorem Single.fewer (single : f.Single root) (fewer : ∀ n, (g.children n).Sublist (f.children n)) :
    g.Single root := by
  have edges (a b : NodeId) (here : g.Child a b) : f.Child a b := (fewer a).subset here
  have paths {n : NodeId} (path : g.Below root n) : f.Below root n :=
    ReflTransGen.mono edges _ _ path
  refine ⟨fun n path => (single.nodup n (paths path)).sublist (fewer n),?_⟩
  intro a b c path path' here here'
  exact single.parent_eq a b c (paths path) (paths path') (edges a c here) (edges b c here')

/-- Paths to the same element are paths along one another. -/
theorem Single.total (single : f.Single root) {a b n : NodeId} (home : f.Below root a) (home' : f.Below root b)
    (path : f.Below a n) (path' : f.Below b n) : f.Below a b ∨ f.Below b a := by
  induction path with
  | refl => exact Or.inr path'
  | @tail k n path here ih =>
    rcases ReflTransGen.cases_tail path' with rfl | ⟨k',path',here'⟩
    · exact Or.inl (path.tail here)
    · obtain rfl := single.parent_eq k k' n (home.trans path) (home'.trans path') here here'
      exact ih path'

/-- A tree that lists no element twice has no element at two places. -/
theorem single_of_nodup (acyclic : f.Acyclic) (nodup : (f.tree root).Nodup) : f.Single root := by
  obtain ⟨level,sorted⟩ := acyclic.sorted
  revert nodup
  refine sorted.induction (motive := fun root => (f.tree root).Nodup → f.Single root) ?_ root
  intro root ih nodup
  rw [tree_eq sorted,List.nodup_cons,List.nodup_flatMap] at nodup
  obtain ⟨-,each,apart⟩ := nodup
  have lists {x c : NodeId} (path : f.Below x c) : c ∈ f.tree x := (mem_tree_iff sorted).mpr path
  -- the trees of two children have nothing in common
  have alone {x y c : NodeId} (here : f.Child root x) (here' : f.Child root y)
      (path : f.Below x c) (path' : f.Below y c) : x = y := by
    have symm : Std.Symm (Function.onFun List.Disjoint f.tree) :=
      ⟨fun _ _ disjoint => List.Disjoint.symm disjoint⟩
    by_contra different
    exact apart.forall here here' different (lists path) (lists path')
  have above {x c : NodeId} (here : f.Child root x) (path : f.Below x c) (last : f.Child root c) :
      x = c := alone here last path ReflTransGen.refl
  refine ⟨?_,?_⟩
  · intro n path
    rcases ReflTransGen.cases_head path with rfl | ⟨x,here,path⟩
    · refine apart.imp_of_mem fun {x y} _ _ disjoint same => ?_
      exact disjoint (lists ReflTransGen.refl) (same ▸ lists ReflTransGen.refl)
    · exact (ih x here (each x here)).nodup n path
  · intro a b c path path' last last'
    rcases ReflTransGen.cases_head path with rfl | ⟨x,here,path⟩ <;>
      rcases ReflTransGen.cases_head path' with rfl | ⟨y,here',path'⟩
    · rfl
    · obtain rfl := above here' (path'.tail last') last
      exact absurd path' (acyclic.not_below last')
    · obtain rfl := above here (path.tail last) last'
      exact absurd path (acyclic.not_below last)
    · obtain rfl := alone here here' (path.tail last) (path'.tail last')
      exact (ih x here (each x here)).parent_eq a b c path path' last last'

end MailMerge.Forest
