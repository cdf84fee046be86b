import MailMerge.Proofs.Tree.Branching
import Mathlib.Logic.Relation
import Mathlib.Data.List.Nodup
import Mathlib.Data.List.Perm.Basic

/-! Paths in trees. What is listed below an element stands at the end of a path from it: the tree of
the element lists the ends of all paths, and what is outside a boundary the ends of those that meet no
boundary on their way. No element is listed twice, and every element of a tree is outside the
boundaries for just one boundary of the tree or its root.
-/
namespace MailMerge.Forest
open Xml Relation

/-- One element is among the children of another. -/
def Child (f : Forest) (parent child : NodeId) : Prop :=
  child ∈ f.children parent

/-- A path leads down from one element to another. -/
abbrev Below (f : Forest) : NodeId → NodeId → Prop :=
  ReflTransGen f.Child

/-- A path of at least one step leads down from one element to another, with no boundary between
them. -/
inductive Clear (f : Forest) (boundary : Name) : NodeId → NodeId → Prop
  | child {id n : NodeId} (here : f.Child id n) : Clear f boundary id n
  | step {id m n : NodeId} (here : f.Child id m) (passed : f.name m ≠ boundary)
    (clear : Clear f boundary m n) : Clear f boundary id n

variable {α : Type} {f : Forest} {owner : NodeId → α} {level : NodeId → Nat} {boundary : Name}

namespace Clear

theorem transGen {id n : NodeId} (clear : f.Clear boundary id n) : TransGen f.Child id n := by
  induction clear with
  | child here => exact TransGen.single here
  | step here _ _ ih => exact TransGen.head here ih

theorem path {id n : NodeId} (clear : f.Clear boundary id n) : f.Below id n :=
  clear.transGen.to_reflTransGen

/-- A path may go on below an element that is no boundary. -/
theorem tail {id m n : NodeId} (clear : f.Clear boundary id m) (passed : f.name m ≠ boundary)
    (here : f.Child m n) : f.Clear boundary id n := by
  induction clear with
  | child first => exact .step first passed (.child here)
  | step first passed' _ ih => exact .step first passed' (ih passed here)

end Clear

/-- A path is one in another forest too, or leads through a child that has left its place there. -/
theorem Below.or_cut (g : Forest) {a p : NodeId} (path : f.Below a p) : g.Below a p ∨
    ∃ n c, f.Below a n ∧ f.Child n c ∧ f.Below c p ∧ c ∉ g.children n := by
  induction path with
  | refl => exact Or.inl ReflTransGen.refl
  | @tail m p path here ih =>
    rcases ih with kept | ⟨n,c,path',here',path'',gone⟩
    · by_cases stays : p ∈ g.children m
      · exact Or.inl (kept.tail stays)
      · exact Or.inr ⟨m,p,path,here,ReflTransGen.refl,stays⟩
    · exact Or.inr ⟨n,c,path',here',path''.tail here,gone⟩

namespace Sorted

theorem lt_of_transGen (sorted : f.Sorted owner level) {id n : NodeId}
    (path : TransGen f.Child id n) : level id < level n := by
  induction path with
  | single below => exact (sorted.below _ _ below).2.2
  | tail _ below ih => exact Nat.lt_trans ih (sorted.below _ _ below).2.2

theorem le_of_below (sorted : f.Sorted owner level) {id n : NodeId} (path : f.Below id n) :
    level id ≤ level n := by
  rcases reflTransGen_iff_eq_or_transGen.mp path with rfl | path
  · exact Nat.le_refl _
  · exact Nat.le_of_lt (sorted.lt_of_transGen path)

end Sorted

/-- The tree of an element lists all that is below it. -/
theorem mem_tree_iff (sorted : f.Sorted owner level) {id n : NodeId} :
    n ∈ f.tree id ↔ f.Below id n := by
  refine sorted.induction (motive := fun id => n ∈ f.tree id ↔ f.Below id n) ?_ id
  intro id ih
  rw [tree_eq sorted,List.mem_cons,List.mem_flatMap,Below,ReflTransGen.cases_head_iff,eq_comm]
  exact or_congr_right (exists_congr fun child => and_congr_right (ih child))

theorem mem_named_iff (sorted : f.Sorted owner level) {id n : NodeId} {name : Name} :
    n ∈ f.named id name ↔ f.Below id n ∧ f.name n = name := by
  rw [mem_named,mem_tree_iff sorted]

section
variable (name boundary : Name)

private theorem outsideTo_stable (sorted : f.Sorted owner level) (d d' : Nat) (id : NodeId)
    (enough : f.nodes.size ≤ level id + 1 + d) (enough' : f.nodes.size ≤ level id + 1 + d') :
    f.outsideTo name boundary d id = f.outsideTo name boundary d' id := by
  induction d generalizing d' id with
  | zero =>
    have leaf := sorted.no_children id (by omega)
    cases d' <;> simp [outsideTo,leaf]
  | succ d ih =>
    cases d' with
    | zero =>
      have leaf := sorted.no_children id (by omega)
      simp [outsideTo,leaf]
    | succ d' =>
      simp only [outsideTo]
      apply List.flatMap_congr
      intro child member
      have deeper := (sorted.below id child member).2.2
      rw [ih d' child (by omega) (by omega)]

/-- What is outside is found child by child. -/
theorem outside_eq (sorted : f.Sorted owner level) (id : NodeId) :
    f.outside id name boundary = (f.children id).flatMap fun child =>
      (if f.name child = name then [child] else []) ++
        if f.name child = boundary then [] else f.outside child name boundary := by
  have step : f.outside id name boundary =
      f.outsideTo name boundary (f.nodes.size + 1) id :=
    outsideTo_stable name boundary sorted _ _ id (by omega) (by omega)
  rw [step]
  simp only [outsideTo,beq_iff_eq,outside]

end

theorem mem_outside_iff (sorted : f.Sorted owner level) {id n : NodeId} {name : Name} :
    n ∈ f.outside id name boundary ↔ f.name n = name ∧ f.Clear boundary id n := by
  constructor
  · refine sorted.induction (motive := fun id => n ∈ f.outside id name boundary →
      f.name n = name ∧ f.Clear boundary id n) ?_ id
    intro id ih member
    rw [outside_eq name boundary sorted,List.mem_flatMap] at member
    obtain ⟨child,below,member⟩ := member
    rcases List.mem_append.mp member with here | deeper
    · split at here
      · next named =>
        obtain rfl := List.mem_singleton.mp here
        exact ⟨named,.child below⟩
      · simp at here
    · split at deeper
      · simp at deeper
      · next passed =>
        obtain ⟨named,clear⟩ := ih child below deeper
        exact ⟨named,.step below passed clear⟩
  · rintro ⟨named,clear⟩
    induction clear with
    | @child id n here =>
      rw [outside_eq name boundary sorted,List.mem_flatMap]
      exact ⟨n,here,List.mem_append_left _ (by simp [named])⟩
    | @step id m n here passed _ ih =>
      rw [outside_eq name boundary sorted,List.mem_flatMap]
      exact ⟨m,here,List.mem_append_right _ (by simpa [passed] using ih named)⟩

/-- Paths to the same element are paths along one another. -/
theorem Branching.total (branching : f.Branching) {a b n : NodeId} (path : f.Below a n)
    (path' : f.Below b n) : f.Below a b ∨ f.Below b a := by
  have unique : Relator.RightUnique (Function.swap f.Child) := fun n a b first second =>
    branching.parent_eq a b n first second
  rcases ReflTransGen.total_of_right_unique unique (reflTransGen_swap.mpr path)
    (reflTransGen_swap.mpr path') with up | up
  · exact Or.inr (reflTransGen_swap.mp up)
  · exact Or.inl (reflTransGen_swap.mp up)

section
variable (sorted : f.Sorted owner level) (branching : f.Branching)
include sorted branching

/-- Nothing is below two children of an element. -/
theorem child_unique {id a b n : NodeId} (here : f.Child id a) (here' : f.Child id b)
    (path : f.Below a n) (path' : f.Below b n) : a = b := by
  have alone {a b : NodeId} (here : f.Child id a) (here' : f.Child id b) (path : f.Below a b) :
      a = b := by
    rcases ReflTransGen.cases_tail path with rfl | ⟨m,path,last⟩
    · rfl
    · obtain rfl := branching.parent_eq m id b last here'
      have deeper := (sorted.below m a here).2.2
      exact absurd (sorted.le_of_below path) (Nat.not_le.mpr deeper)
  rcases branching.total path path' with path | path
  · exact alone here here' path
  · exact (alone here' here path).symm

theorem nodup_tree (id : NodeId) : (f.tree id).Nodup := by
  refine sorted.induction (motive := fun id => (f.tree id).Nodup) ?_ id
  intro id ih
  rw [tree_eq sorted,List.nodup_cons,List.nodup_flatMap]
  refine ⟨?_,ih,?_⟩
  · intro member
    obtain ⟨child,here,member⟩ := List.mem_flatMap.mp member
    have deeper := (sorted.below id child here).2.2
    exact absurd (sorted.le_of_below ((mem_tree_iff sorted).mp member)) (Nat.not_le.mpr deeper)
  · apply (branching.nodup id).pairwise_of_forall_ne
    intro a here b here' different n inside inside'
    exact different (child_unique sorted branching here here' ((mem_tree_iff sorted).mp inside)
      ((mem_tree_iff sorted).mp inside'))

theorem nodup_named (id : NodeId) (name : Name) : (f.named id name).Nodup :=
  (nodup_tree sorted branching id).filter _

omit branching in
private theorem outside_sublist (id : NodeId) (name : Name) :
    (f.outside id name boundary).Sublist ((f.children id).flatMap f.tree) := by
  refine sorted.induction (motive := fun id =>
    (f.outside id name boundary).Sublist ((f.children id).flatMap f.tree)) ?_ id
  intro id ih
  rw [outside_eq name boundary sorted]
  suffices all : ∀ ids : List NodeId, (∀ child ∈ ids, child ∈ f.children id) →
      (ids.flatMap fun child => (if f.name child = name then [child] else []) ++
        if f.name child = boundary then [] else f.outside child name boundary).Sublist
          (ids.flatMap f.tree) from all _ fun _ here => here
  intro ids inside
  induction ids with
  | nil => exact List.Sublist.refl _
  | cons child ids rest =>
    obtain ⟨here,inside⟩ := List.forall_mem_cons.mp inside
    rw [List.flatMap_cons,List.flatMap_cons,tree_eq sorted child]
    refine List.Sublist.append ?_ (rest inside)
    change (_ ++ _ : List NodeId).Sublist ([child] ++ _)
    refine List.Sublist.append ?_ ?_
    · split
      · exact List.Sublist.refl _
      · exact List.nil_sublist _
    · split
      · exact List.nil_sublist _
      · exact ih child here

theorem nodup_outside (id : NodeId) (name : Name) : (f.outside id name boundary).Nodup := by
  have nodup := nodup_tree sorted branching id
  rw [tree_eq sorted] at nodup
  exact nodup.of_cons.sublist (outside_sublist sorted id name)

/-- No element is outside for two elements of a tree, if these are boundaries or the root. -/
theorem clear_unique {root a b n : NodeId} (clear : f.Clear boundary a n)
    (clear' : f.Clear boundary b n) (home : f.Below root a) (home' : f.Below root b)
    (kind : a = root ∨ f.name a = boundary) (kind' : b = root ∨ f.name b = boundary) : a = b := by
  -- the path from the upper one to the element passes the lower one
  have alone {a b n : NodeId} (clear : f.Clear boundary a n) (path : TransGen f.Child a b)
      (kind' : b = root ∨ f.name b = boundary) (home : f.Below root a)
      (clear' : f.Clear boundary b n) : False := by
    have not_root : b ≠ root := by
      rintro rfl
      exact absurd (sorted.le_of_below home) (Nat.not_le.mpr (sorted.lt_of_transGen path))
    have named := kind'.resolve_left not_root
    induction clear with
    | @child a n here =>
      obtain ⟨m,path',last⟩ := TransGen.tail'_iff.mp clear'.transGen
      obtain rfl := branching.parent_eq m a n last here
      have deeper := sorted.lt_of_transGen path
      exact absurd (sorted.le_of_below path') (Nat.not_le.mpr deeper)
    | @step a m n here passed clear ih =>
      obtain ⟨c,here',path'⟩ := TransGen.head'_iff.mp path
      obtain rfl := child_unique sorted branching here here' clear.path (path'.trans clear'.path)
      rcases reflTransGen_iff_eq_or_transGen.mp path' with rfl | path''
      · exact passed named
      · exact ih path'' (home.tail here) clear'
  rcases branching.total clear.path clear'.path with path | path
  · rcases reflTransGen_iff_eq_or_transGen.mp path with same | path
    · exact same.symm
    · exact (alone clear path kind' home clear').elim
  · rcases reflTransGen_iff_eq_or_transGen.mp path with same | path
    · exact same
    · exact (alone clear' path kind home' clear).elim

end

/-- Every element of a tree but its root is outside for the root or for a boundary. -/
theorem exists_clear {root n : NodeId} (path : TransGen f.Child root n) :
    ∃ a, f.Below root a ∧ (a = root ∨ f.name a = boundary) ∧ f.Clear boundary a n := by
  induction path with
  | single here => exact ⟨root,ReflTransGen.refl,Or.inl rfl,.child here⟩
  | @tail m n path here ih =>
    by_cases passed : f.name m = boundary
    · exact ⟨m,path.to_reflTransGen,Or.inr passed,.child here⟩
    · obtain ⟨a,home,kind,clear⟩ := ih
      exact ⟨a,home,kind,clear.tail passed here⟩

/-- The elements with a name that are outside for the root of a tree or for one of its boundaries are
all elements of the tree with that name, each listed once. -/
theorem outside_perm (sorted : f.Sorted owner level) (branching : f.Branching) {root : NodeId}
    {name : Name} (plain : f.name root ≠ name) (other : f.name root ≠ boundary) :
    (f.outside root name boundary ++ (f.named root boundary).flatMap
      (f.outside · name boundary)).Perm (f.named root name) := by
  rw [← List.flatMap_cons (f := (f.outside · name boundary))]
  have places : ∀ a ∈ root :: f.named root boundary, f.Below root a ∧
      (a = root ∨ f.name a = boundary) := by
    intro a member
    rcases List.mem_cons.mp member with rfl | member
    · exact ⟨ReflTransGen.refl,Or.inl rfl⟩
    · exact ((mem_named_iff sorted).mp member).imp_right Or.inr
  apply (List.perm_ext_iff_of_nodup _ (nodup_named sorted branching root name)).mpr
  · intro n
    rw [List.mem_flatMap,mem_named_iff sorted]
    constructor
    · rintro ⟨a,member,listed⟩
      obtain ⟨named,clear⟩ := (mem_outside_iff sorted).mp listed
      exact ⟨(places a member).1.trans clear.path,named⟩
    · rintro ⟨path,named⟩
      rcases reflTransGen_iff_eq_or_transGen.mp path with rfl | path
      · exact absurd named plain
      obtain ⟨a,home,kind,clear⟩ := exists_clear path
      refine ⟨a,?_,(mem_outside_iff sorted).mpr ⟨named,clear⟩⟩
      rcases kind with rfl | kind
      · exact List.mem_cons_self
      · exact List.mem_cons_of_mem _ ((mem_named_iff sorted).mpr ⟨home,kind⟩)
  · rw [List.nodup_flatMap]
    refine ⟨fun a _ => nodup_outside sorted branching a name,?_⟩
    have nodup : (root :: f.named root boundary).Nodup :=
      List.nodup_cons.mpr ⟨fun member => other ((mem_named_iff sorted).mp member).2,
        nodup_named sorted branching root boundary⟩
    apply nodup.pairwise_of_forall_ne
    intro a member b member' different n listed listed'
    have clear := ((mem_outside_iff sorted).mp listed).2
    have clear' := ((mem_outside_iff sorted).mp listed').2
    obtain ⟨home,kind⟩ := places a member
    obtain ⟨home',kind'⟩ := places b member'
    exact different (clear_unique sorted branching clear clear' home home' kind kind')

end MailMerge.Forest
