import MailMerge.Proofs.Package.Entry
import Mathlib.Data.List.Nodup

/-! Trees in which no element occurs twice. There the first node that is found stands for the first
element that is found, so changing the node changes that element and no other. Planted elements are
such trees, and new entries and new contents keep them so.
-/
namespace MailMerge.Forest
open Xml

variable {α : Type} {f g : Forest} {owner owner' : NodeId → α} {level level' : NodeId → Nat}

theorem mem_tree_of_child (sorted : f.Sorted owner level) {root n child : NodeId}
    (member : n ∈ f.tree root) (below : child ∈ f.children n) : child ∈ f.tree root := by
  revert member
  refine sorted.induction (motive := fun root => n ∈ f.tree root → child ∈ f.tree root) ?_ root
  intro root ih member
  rw [tree_eq sorted,List.mem_cons,List.mem_flatMap] at member ⊢
  rcases member with rfl | ⟨next,inside,member⟩
  · exact Or.inr ⟨child,below,mem_tree_self sorted child⟩
  · exact Or.inr ⟨next,inside,ih next inside member⟩

section
variable (change : Node → Node) (same : ∀ n, (change n).children = n.children)
include same

/-- A change outside of a tree does not show in its element. -/
theorem element_update_of_notMem (sorted : f.Sorted owner level) {x root : NodeId}
    (outside : x ∉ f.tree root) : (f.update x change).element root = f.element root := by
  let keep (n : NodeId) : Prop := n ∈ f.tree root
  have closed : ∀ n, keep n → ∀ child ∈ f.children n, keep child := fun n member child below =>
    mem_tree_of_child sorted member below
  apply element_congr sorted (sorted.update x same) closed
  · intro n member
    rw [node_update_of_ne]
    rintro rfl
    exact outside member
  · exact mem_tree_self sorted root

theorem map_element_update_of_notMem (sorted : f.Sorted owner level) {x : NodeId}
    {ids : List NodeId} (outside : x ∉ ids.flatMap f.tree) :
    ids.map (f.update x change).element = ids.map f.element := by
  apply List.map_congr_left
  intro id member
  apply element_update_of_notMem change same sorted
  intro inside
  exact outside (List.mem_flatMap.mpr ⟨id,member,inside⟩)

end

/-- A node with changed attributes. -/
def reattribute (change : Attributes → Attributes) (n : Node) : Node :=
  { n with attributes := change n.attributes }

section
variable {name : Name} {test : Attributes → Bool} {change : Attributes → Attributes}

/-- The node is one that is looked for. -/
private def fits (f : Forest) (name : Name) (test : Attributes → Bool) (id : NodeId) : Bool :=
  f.name id == name && test (f.node id).attributes

/-- The element of a tree in which the first fitting node was changed, if there is one. -/
private def FirstChanged (f : Forest) (name : Name) (test : Attributes → Bool)
    (change : Attributes → Attributes) (root : NodeId) : Prop :=
  (f.element root).changeFirst? name test change =
    ((f.tree root).find? (f.fits name test)).map fun x =>
      (f.update x (reattribute change)).element root

private theorem changeFirstOf?_map (sorted : f.Sorted owner level) (ids : List NodeId)
    (each : ∀ id ∈ ids, FirstChanged f name test change id)
    (nodup : (ids.flatMap f.tree).Nodup) :
    Element.changeFirstOf? name test change (ids.map f.element) =
      ((ids.flatMap f.tree).find? (f.fits name test)).map fun x =>
        ids.map (f.update x (reattribute change)).element := by
  induction ids with
  | nil => rfl
  | cons id ids ih =>
    rw [List.flatMap_cons,List.nodup_append] at nodup
    obtain ⟨_,nodup_rest,apart⟩ := nodup
    have here := each id List.mem_cons_self
    have rest := ih (fun id member => each id (List.mem_cons_of_mem _ member)) nodup_rest
    rw [FirstChanged] at here
    rw [List.map_cons,Element.changeFirstOf?,here,List.flatMap_cons,List.find?_append]
    cases found : (f.tree id).find? (f.fits name test) with
    | some x =>
      have outside : x ∉ ids.flatMap f.tree := fun inside =>
        apart x (List.mem_of_find?_eq_some found) x inside rfl
      simp only [Option.map_some,Option.some_or,List.map_cons,Option.some.injEq,List.cons.injEq,
        true_and]
      exact (map_element_update_of_notMem (reattribute change) (fun _ => rfl) sorted outside).symm
    | none =>
      simp only [Option.map_none,Option.none_or,rest,Option.map_map]
      cases found' : (ids.flatMap f.tree).find? (f.fits name test) with
      | none => rfl
      | some x =>
        have outside : x ∉ f.tree id := fun inside =>
          apart x inside x (List.mem_of_find?_eq_some found') rfl
        simp only [Option.map_some,Function.comp_apply,List.map_cons,Option.some.injEq,
          List.cons.injEq,and_true]
        exact (element_update_of_notMem (reattribute change) (fun _ => rfl) sorted outside).symm

theorem changeFirst?_element (sorted : f.Sorted owner level) {root : NodeId}
    (inside : root < f.nodes.size) (nodup : (f.tree root).Nodup) :
    (f.element root).changeFirst? name test change =
      ((f.tree root).find? fun id => f.name id == name && test (f.node id).attributes).map fun x =>
        (f.update x (reattribute change)).element root := by
  revert inside nodup
  refine sorted.induction (motive := fun root => root < f.nodes.size → (f.tree root).Nodup →
    FirstChanged f name test change root) ?_ root
  intro root ih inside nodup
  rw [tree_eq sorted,List.nodup_cons] at nodup
  obtain ⟨apart,nodup⟩ := nodup
  have sorted' (x : NodeId) : (f.update x (reattribute change)).Sorted owner level :=
    sorted.update x fun _ => rfl
  have each : ∀ child ∈ f.children root, FirstChanged f name test change child := by
    intro child member
    have nodup_child := (List.nodup_flatMap.mp nodup).1 child member
    exact ih child member (sorted.below root child member).1 nodup_child
  have below := changeFirstOf?_map sorted (f.children root) each nodup
  rw [FirstChanged,element_eq sorted,Element.changeFirst?,tree_eq sorted,List.find?_cons]
  cases here : f.fits name test root with
  | true =>
    have here' : (f.node root).name == name && test (f.node root).attributes := here
    rw [if_pos here']
    simp only [Option.map_some,Option.some.injEq]
    rw [element_eq (sorted' root),← map_element_update_of_notMem (reattribute change) (fun _ => rfl) sorted apart]
    simp [children,node_update,inside,reattribute]
  | false =>
    have here' : ¬ ((f.node root).name == name && test (f.node root).attributes) = true := by
      simpa [fits,Forest.name] using here
    rw [if_neg here',below]
    cases found : ((f.children root).flatMap f.tree).find? (f.fits name test) with
    | none => rfl
    | some x =>
      have different : root ≠ x := by
        rintro rfl
        exact apart (List.mem_of_find?_eq_some found)
      simp only [Option.map_some,Option.some.injEq]
      rw [element_eq (sorted' x)]
      simp [children,node_update_of_ne _ _ different]

end

/-- A forest after a change of the tree of one root: the root stands for a new element, in which
still no node occurs twice, and nodes of other owners are as they were. -/
structure Reshaped (f : Forest) (owner : NodeId → α) (root : NodeId) (e : Element) (g : Forest)
    (owner' : NodeId → α) (level' : NodeId → Nat) : Prop where
  sorted : g.Sorted owner' level'
  size_le : f.nodes.size ≤ g.nodes.size
  owner_eq : ∀ n : Nat, n < f.nodes.size → owner' n = owner n
  node_eq : ∀ n : Nat, n < f.nodes.size → owner n ≠ owner root → g.node n = f.node n
  nodup : (g.tree root).Nodup
  element : g.element root = e

/-- Other trees are not changed. -/
theorem Reshaped.elsewhere {root : NodeId} {e : Element} (sorted : f.Sorted owner level)
    (reshaped : Reshaped f owner root e g owner' level') {other : NodeId}
    (inside : other < f.nodes.size) (apart : owner other ≠ owner root) :
    g.tree other = f.tree other ∧ g.element other = f.element other := by
  let keep (n : NodeId) : Prop := n < f.nodes.size ∧ owner n = owner other
  have closed : ∀ n, keep n → ∀ child ∈ f.children n, keep child := fun n kept child member =>
    ⟨(sorted.below n child member).1,(sorted.below n child member).2.1.trans kept.2⟩
  have same : ∀ n, keep n → g.node n = f.node n := fun n kept =>
    reshaped.node_eq n kept.1 (kept.2 ▸ apart)
  exact ⟨tree_congr sorted reshaped.sorted closed same other ⟨inside,rfl⟩,
    element_congr sorted reshaped.sorted closed same other ⟨inside,rfl⟩⟩

section
variable {root : NodeId} (sorted : f.Sorted owner level) (inside : root < f.nodes.size)
include sorted inside

theorem lt_size_of_mem_tree {n : NodeId} (member : n ∈ f.tree root) : n < f.nodes.size := by
  rcases (mem_tree sorted member).2 with rfl | small
  · exact inside
  · exact small

theorem element_addEntry (entry : Entry) :
    (f.addEntry root entry.name entry.attributes).element root =
      (f.element root).addEntry entry := by
  have sorted' := sorted.addEntry inside entry.name entry.attributes
  have last : (f.addEntry root entry.name entry.attributes).element f.nodes.size =
      .node entry.name entry.attributes [] := by
    rw [element_eq sorted',children,node_addEntry_last inside]
    rfl
  have below : (f.node root).children.map
      (f.addEntry root entry.name entry.attributes).element =
        (f.node root).children.map f.element :=
    List.map_congr_left fun child member => (below_addEntry sorted sorted' member).2
  rw [element_eq sorted' root,element_eq sorted root,children,node_addEntry_root inside]
  simp only [List.map_append,below,List.map_cons,last,List.map_nil]
  rfl

variable (nodup : (f.tree root).Nodup)
include nodup

theorem reshaped_addEntry (entry : Entry) :
    Reshaped f owner root ((f.element root).addEntry entry)
      (f.addEntry root entry.name entry.attributes)
      (ownedFrom f.nodes.size owner (owner root))
      (levelFrom f.nodes.size (f.nodes.size + 1) level) where
  sorted := sorted.addEntry inside _ _
  size_le := by simp [addEntry,append,updateChildren]
  owner_eq n old := ownedFrom_of_lt old
  node_eq n old apart := by
    apply f.node_addEntry root _ _ old
    rintro rfl
    exact apart rfl
  nodup := by
    rw [tree_addEntry sorted inside (sorted.addEntry inside _ _),List.nodup_append]
    refine ⟨nodup,List.nodup_singleton _,?_⟩
    intro n member m last
    obtain rfl := List.mem_singleton.mp last
    exact Nat.ne_of_lt (lt_size_of_mem_tree sorted inside member)
  element := element_addEntry sorted inside entry

/-- The first entry that fits is changed, or else a new one is entered. -/
theorem reshaped_changeFirst (name : Name) (test : Attributes → Bool)
    (change : Attributes → Attributes) (entry : Entry) :
    ∃ owner' level', Reshaped f owner root
      (((f.element root).changeFirst? name test change).getD ((f.element root).addEntry entry))
      (match (f.named root name).find? fun id => test (f.node id).attributes with
        | some id => f.update id (reattribute change)
        | none => f.addEntry root entry.name entry.attributes) owner' level' := by
  have looked : (f.named root name).find? (fun id => test (f.node id).attributes) =
      (f.tree root).find? fun id => f.name id == name && test (f.node id).attributes := by
    rw [named,List.find?_filter]
    simp only [Bool.decide_and,Bool.decide_eq_true]
  rw [changeFirst?_element sorted inside nodup,looked]
  cases found : (f.tree root).find? fun id => f.name id == name && test (f.node id).attributes with
  | none => exact ⟨_,_,reshaped_addEntry sorted inside nodup entry⟩
  | some id =>
    have member := List.mem_of_find?_eq_some found
    refine ⟨owner,level,sorted.update id fun _ => rfl,by simp,fun _ _ => rfl,?_,?_,rfl⟩
    · intro n old apart
      rw [node_update_of_ne]
      rintro rfl
      exact apart (mem_tree sorted member).1
    · have same : (f.update id (reattribute change)).tree root = f.tree root :=
        @tree_update f id (reattribute change) (fun _ => rfl) root
      exact same.symm ▸ nodup

theorem reshaped_relate (key kind target : String) : ∃ owner' level',
    Reshaped f owner root ((f.element root).relate key kind target) (f.relate root key kind target)
      owner' level' := by
  have twice (id : NodeId) : (f.setAttribute id (.bare "Type") kind).setAttribute id
      (.bare "Target") target = f.update id (reattribute fun a =>
        (a.set (.bare "Type") kind).set (.bare "Target") target) := by
    simp only [setAttribute,update_update]
    rfl
  simp only [relate,twice]
  exact reshaped_changeFirst sorted inside nodup _ _ _ (.relation key kind target)

theorem reshaped_ensureOverride (part type : String) : ∃ owner' level',
    Reshaped f owner root ((f.element root).ensureOverride part type)
      (f.ensureOverride root part type).2 owner' level' := by
  have split_match : (f.ensureOverride root part type).2 =
      match f.override? root part with
      | some id => f.update id (reattribute (·.set (.bare "ContentType") type))
      | none => f.addEntry root (Entry.override part type).name
          (Entry.override part type).attributes := by
    unfold ensureOverride
    cases f.override? root part <;> rfl
  rw [split_match]
  exact reshaped_changeFirst sorted inside nodup _ _ _ (.override part type)

end

mutual

/-- No node occurs twice in what is planted, and all of its nodes are new. -/
theorem nodup_plant (sorted : g.Sorted owner level) (f : Forest) (e : Element)
    (kept : ∀ id, f.nodes.size ≤ id → id < (f.plant e).2.nodes.size →
      g.node id = (f.plant e).2.node id) : (g.tree (f.plant e).1).Nodup ∧
      ∀ n ∈ g.tree (f.plant e).1, f.nodes.size ≤ n ∧ n < (f.plant e).2.nodes.size := by
  cases e with
  | mk name attributes text children tail =>
    obtain ⟨grown,_⟩ := grown_plantAll f children
    have size_le := grown.size_le
    have here : g.children (f.plantAll children).2.nodes.size = (f.plantAll children).1 := by
      rw [Forest.children,kept _ grown.size_le (by simp [plant])]
      simp [plant,node_add]
    obtain ⟨nodup,bounds⟩ := nodup_plantAll sorted f children (by
      intro id large inside
      rw [kept id large (by simp [plant]; omega)]
      simp [plant,node_add,Nat.ne_of_lt inside])
    simp only [plant,fst_add,size_add]
    rw [tree_eq sorted,here]
    constructor
    · rw [List.nodup_cons]
      exact ⟨fun member => Nat.lt_irrefl _ (bounds _ member).2,nodup⟩
    · intro n member
      rcases List.mem_cons.mp member with rfl | below
      · exact ⟨size_le,Nat.lt_succ_self _⟩
      · exact ⟨(bounds n below).1,Nat.lt_succ_of_lt (bounds n below).2⟩

theorem nodup_plantAll (sorted : g.Sorted owner level) (f : Forest) (es : List Element)
    (kept : ∀ id, f.nodes.size ≤ id → id < (f.plantAll es).2.nodes.size →
      g.node id = (f.plantAll es).2.node id) : ((f.plantAll es).1.flatMap g.tree).Nodup ∧
      ∀ n ∈ (f.plantAll es).1.flatMap g.tree,
        f.nodes.size ≤ n ∧ n < (f.plantAll es).2.nodes.size := by
  cases es with
  | nil => simp [plantAll]
  | cons e es =>
    obtain ⟨first,_,_⟩ := grown_plant f e
    obtain ⟨rest,_⟩ := grown_plantAll (f.plant e).2 es
    have first_le := first.size_le
    have rest_le := rest.size_le
    obtain ⟨nodup,bounds⟩ := nodup_plant sorted f e (by
      intro id large inside
      rw [kept id large (by simp only [plantAll]; omega)]
      exact rest.node_eq id inside)
    obtain ⟨nodup',bounds'⟩ := nodup_plantAll sorted (f.plant e).2 es
      fun id large inside => kept id (Nat.le_trans first.size_le large) inside
    simp only [plantAll,List.flatMap_cons,List.nodup_append,List.mem_append]
    constructor
    · refine ⟨nodup,nodup',?_⟩
      rintro n member m member' rfl
      have small := (bounds n member).2
      have large := (bounds' n member').1
      exact Nat.lt_irrefl _ (Nat.lt_of_lt_of_le small large)
    · rintro n (member | member)
      · have bound := bounds n member
        exact ⟨bound.1,Nat.lt_of_lt_of_le bound.2 rest_le⟩
      · have bound := bounds' n member
        exact ⟨Nat.le_trans first_le bound.1,bound.2⟩

end

/-- The root of a tree is given the contents of an element. -/
def rewrite (f : Forest) (root : NodeId) (e : Element) : Forest :=
  let (ids, f) := f.plantAll e.children
  f.update root fun _ => ⟨e.name,e.attributes,e.text,ids,e.tail⟩

theorem reshaped_rewrite {root : NodeId} (sorted : f.Sorted owner level)
    (inside : root < f.nodes.size) (e : Element) : ∃ owner' level',
    Reshaped f owner root e (f.rewrite root e) owner' level' := by
  obtain ⟨grown,news⟩ := grown_plantAll f e.children
  have size_le := grown.size_le
  have inside' : root < (f.plantAll e.children).2.nodes.size := Nat.lt_of_lt_of_le inside size_le
  let owner' := ownedFrom f.nodes.size owner (owner root)
  let level' := levelFrom f.nodes.size (f.plantAll e.children).2.nodes.size level
  have sorted' : (f.rewrite root e).Sorted owner' level' := by
    have moved := (sorted.grow grown (owner root)).updateChildren root
      (fun _ => (f.plantAll e.children).1) (by
        intro child member
        obtain ⟨large,small⟩ := news child member
        have bound := sorted.bounded root inside
        refine Or.inr ⟨small,?_,?_⟩
        · rw [ownedFrom_of_le large,ownedFrom_of_lt inside]
        · rw [levelFrom_of_lt inside,levelFrom,if_neg (Nat.not_lt.mpr large)]
          omega)
    let label (n : Node) : Node :=
      { n with name := e.name, attributes := e.attributes, text := e.text, tail := e.tail }
    have settled : Sorted (update _ root label) owner' level' := moved.update root fun _ => rfl
    rwa [updateChildren,update_update] at settled
  have kept : ∀ id, f.nodes.size ≤ id → id < (f.plantAll e.children).2.nodes.size →
      (f.rewrite root e).node id = (f.plantAll e.children).2.node id := by
    intro id large _
    apply node_update_of_ne
    rintro rfl
    exact Nat.lt_irrefl _ (Nat.lt_of_lt_of_le inside large)
  have here : (f.rewrite root e).node root =
      ⟨e.name,e.attributes,e.text,(f.plantAll e.children).1,e.tail⟩ := by
    simp [rewrite,node_update,inside']
  obtain ⟨nodup,bounds⟩ := nodup_plantAll sorted' f e.children kept
  refine ⟨owner',level',sorted',by simpa [rewrite] using size_le,
    fun n old => ownedFrom_of_lt old,?_,?_,?_⟩
  · intro n old apart
    rw [← grown.node_eq n old]
    apply node_update_of_ne
    rintro rfl
    exact apart rfl
  · rw [tree_eq sorted',children,here,List.nodup_cons]
    exact ⟨fun member => Nat.lt_irrefl _ (Nat.lt_of_lt_of_le inside (bounds _ member).1),nodup⟩
  · rw [element_eq sorted',children,here]
    simp only [elements_plantAll sorted' f e.children kept]
    cases e
    rfl

end MailMerge.Forest
