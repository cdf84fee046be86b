import MailMerge.Proofs.Tree.Acyclic
import MailMerge.Table.Style

/-! Properties of cells and runs. They are the children of an element of their own, which is made where there is
none, and a property is put to the place that it has in an order. Such an order lists names without their
namespaces, as they are compared where a place is looked for.
-/
namespace MailMerge.Xml

/-- Names stand in an order, if those that it does not list are passed over. -/
def InOrder (order : List String) (names : List Name) : Prop :=
  names.Pairwise fun a b => a.stem ∈ order → b.stem ∈ order → order.idxOf a.stem ≤ order.idxOf b.stem

/-- A name has one of some stems. -/
def Lists (names : List Name) (stems : List String) : Prop :=
  ∃ name ∈ names, name.stem ∈ stems

instance (order : List String) (names : List Name) : Decidable (InOrder order names) :=
  inferInstanceAs (Decidable (List.Pairwise _ _))

instance (names : List Name) (stems : List String) : Decidable (Lists names stems) :=
  inferInstanceAs (Decidable (∃ _ ∈ _, _))

theorem idxOf_lt_idxOf {order front back : List String} (nodup : order.Nodup) (split : order = front ++ back)
    {a b : String} (first : a ∈ front) (second : b ∈ back) : order.idxOf a < order.idxOf b := by
  rw [split] at nodup ⊢
  have apart := (List.nodup_append.mp nodup).2.2
  rw [List.idxOf_append,List.idxOf_append,if_pos first,if_neg fun both => apart b both b second rfl]
  exact Nat.lt_of_lt_of_le (List.idxOf_lt_length_of_mem first) (Nat.le_add_left _ _)

section
variable {order earlier later last : List String} {before after : List Name} {new : Name}
  (nodup : order.Nodup) (split : order = earlier ++ new.stem :: (later ++ last))
  (passed : ∀ name ∈ before, name.stem ∉ later) (stops : ∀ name ∈ after.head?, name.stem ∈ later)
include nodup split passed stops

private theorem inOrder_insert (ordered : InOrder order (before ++ after))
    (none : ∀ name ∈ before, name.stem ∉ last) : InOrder order (before ++ new :: after) := by
  obtain ⟨front,back,across⟩ := List.pairwise_append.mp ordered
  have split' : order = (earlier ++ [new.stem]) ++ (later ++ last) := by simp [split]
  -- what was passed stands earlier in the order, or is the same
  have before_new : ∀ a ∈ before, a.stem ∈ order → order.idxOf a.stem ≤ order.idxOf new.stem := by
    intro a member listed
    have cases_of : a.stem ∈ earlier ∨ a.stem = new.stem := by
      simpa [split,passed a member,none a member] using listed
    rcases cases_of with early | same
    · exact Nat.le_of_lt (idxOf_lt_idxOf nodup split early List.mem_cons_self)
    · rw [same]
  -- the first name after the place must follow, and so must all that follow it in turn
  have new_after : ∀ b ∈ after, b.stem ∈ order → order.idxOf new.stem ≤ order.idxOf b.stem := by
    intro b member listed
    obtain ⟨head,rest,rfl⟩ := List.exists_cons_of_ne_nil (List.ne_nil_of_mem member)
    have late : head.stem ∈ later := stops head rfl
    have beyond := idxOf_lt_idxOf nodup split' (a := new.stem) (b := head.stem) (by simp) (by simp [late])
    rcases List.mem_cons.mp member with rfl | member
    · exact Nat.le_of_lt beyond
    · have listed' : head.stem ∈ order := by simp [split,late]
      exact Nat.le_trans (Nat.le_of_lt beyond) ((List.pairwise_cons.mp back).1 b member listed' listed)
  refine List.pairwise_append.mpr ⟨front,List.pairwise_cons.mpr ⟨fun b member _ => new_after b member,back⟩,?_⟩
  intro a member b member'
  rcases List.mem_cons.mp member' with rfl | member'
  · exact fun listed _ => before_new a member listed
  · exact across a member b member'

/-- A name is put before the first of those that must follow. This is its place, unless another that must follow
as well is not looked for and stands there alone. -/
theorem inOrder_insert_iff (ordered : InOrder order (before ++ after)) :
    InOrder order (before ++ new :: after) ↔ (Lists (before ++ after) last → Lists (before ++ after) later) := by
  have split_last : order = (earlier ++ new.stem :: later) ++ last := by simp [split]
  constructor
  · intro ordered' ⟨x,member,final⟩
    cases after with
    | cons head rest => exact ⟨head,by simp,stops head rfl⟩
    | nil =>
      rw [List.append_nil] at member
      have bound := (List.pairwise_append.mp ordered').2.2 x member new List.mem_cons_self (by simp [split,final])
        (by simp [split])
      exact absurd bound (Nat.not_le.mpr (idxOf_lt_idxOf nodup split_last (by simp) final))
  · intro rescue
    refine inOrder_insert nodup split passed stops ordered fun x member final => ?_
    obtain ⟨y,member',late⟩ := rescue ⟨x,List.mem_append_left _ member,final⟩
    rcases List.mem_append.mp member' with front | back
    · exact passed y front late
    · have bound := (List.pairwise_append.mp ordered).2.2 x member y back (by simp [split,final])
        (by simp [split,late])
      exact absurd bound (Nat.not_le.mpr (idxOf_lt_idxOf nodup split_last (by simp [late]) final))

end
end MailMerge.Xml

namespace MailMerge

/-- A node without its children. -/
def Node.bare (n : Node) : Node :=
  { n with children := [] }

namespace Forest
open Xml Docx Relation

/-- Children with greater numbers than their parents make no cycle. -/
theorem acyclic_of_rising {f : Forest} (rising : ∀ parent < f.nodes.size, ∀ child ∈ f.children parent,
    child < f.nodes.size ∧ parent < child) : f.Acyclic := by
  have sorted : f.Sorted (fun _ => ()) id := by
    refine ⟨fun parent child here => ?_,fun _ inside => inside⟩
    obtain ⟨inside,larger⟩ := rising parent (f.lt_size_of_child here) child here
    exact ⟨inside,rfl,larger⟩
  exact sorted.acyclic

theorem main_ne_bare (stem : String) : main stem ≠ .bare "" := by
  simp [Docx.main,Name.within,Name.bare]

theorem lt_size_of_main (f : Forest) {id : NodeId} {stem : String} (named : f.name id = main stem) :
    id < f.nodes.size :=
  f.lt_size_of_name named (main_ne_bare stem)

theorem name_of_size_le (f : Forest) {id : NodeId} (large : f.nodes.size ≤ id) : f.name id = .bare "" := by
  rw [Forest.name,f.node_of_size_le large]

/-- Elements are added, and nothing of the others is changed but the children of some. -/
structure Alters (touched : NodeId → Prop) (f g : Forest) : Prop where
  acyclic : g.Acyclic
  size_le : f.nodes.size ≤ g.nodes.size
  same : ∀ id, id < f.nodes.size → (g.node id).bare = (f.node id).bare
  children_eq : ∀ id, id < f.nodes.size → ¬ touched id → g.children id = f.children id

namespace Alters

variable {touched touched' : NodeId → Prop} {f g h : Forest} {id : NodeId}

theorem refl (acyclic : f.Acyclic) : Alters touched f f :=
  ⟨acyclic,Nat.le_refl _,fun _ _ => rfl,fun _ _ _ => rfl⟩

theorem trans (first : Alters touched f g) (second : Alters touched' g h)
    (within : ∀ id, id < f.nodes.size → touched' id → touched id) : Alters touched f h where
  acyclic := second.acyclic
  size_le := Nat.le_trans first.size_le second.size_le
  same id inside := (second.same id (Nat.lt_of_lt_of_le inside first.size_le)).trans (first.same id inside)
  children_eq id inside free :=
    (second.children_eq id (Nat.lt_of_lt_of_le inside first.size_le) fun here => free (within id inside here)).trans
      (first.children_eq id inside free)

theorem mono (alters : Alters touched f g) (more : ∀ id, id < f.nodes.size → touched id → touched' id) :
    Alters touched' f g where
  acyclic := alters.acyclic
  size_le := alters.size_le
  same := alters.same
  children_eq id inside free := alters.children_eq id inside fun here => free (more id inside here)

theorem name_eq (alters : Alters touched f g) (inside : id < f.nodes.size) : g.name id = f.name id := by
  have same := congrArg Node.name (alters.same id inside)
  exact same

theorem named (alters : Alters touched f g) {stem : String} (named : f.name id = main stem) : g.name id = main stem :=
  (alters.name_eq (f.lt_size_of_main named)).trans named

theorem attribute?_eq (alters : Alters touched f g) (inside : id < f.nodes.size) (name : Name) :
    g.attribute? id name = f.attribute? id name := by
  have same := congrArg Node.attributes (alters.same id inside)
  exact congrArg (·.get? name) same

section
variable (alters : Alters touched f g) (acyclic : f.Acyclic) (inside : id < f.nodes.size) (free : ¬ touched id)
  (name : Name)
include alters acyclic inside free

theorem childrenNamed_eq : g.childrenNamed id name = f.childrenNamed id name := by
  rw [childrenNamed,childrenNamed,alters.children_eq id inside free]
  refine List.filter_congr fun child member => ?_
  rw [alters.name_eq (acyclic.inside id child member)]

theorem childNamed?_eq : g.childNamed? id name = f.childNamed? id name := by
  rw [childNamed?,childNamed?,← List.head?_filter,← List.head?_filter]
  exact congrArg List.head? (alters.childrenNamed_eq acyclic inside free name)

end

end Alters

/-- An element is added between children of another. -/
def put (f : Forest) (parent : NodeId) (n : Node) (before after : List NodeId) : Forest :=
  (f.add n).2.updateChildren parent fun _ => before ++ f.nodes.size :: after

section
variable {f : Forest} {parent : NodeId} {n : Node} {before after : List NodeId}

theorem size_put : (f.put parent n before after).nodes.size = f.nodes.size + 1 := by
  simp [put,updateChildren]

theorem node_put_new (inside : parent < f.nodes.size) : (f.put parent n before after).node f.nodes.size = n := by
  rw [put,updateChildren,node_update_of_ne _ _ (Nat.ne_of_gt inside),node_add,if_pos rfl]

theorem children_put (inside : parent < f.nodes.size) :
    (f.put parent n before after).children parent = before ++ f.nodes.size :: after := by
  rw [put,children_updateChildren,size_add,if_pos ⟨rfl,Nat.lt_succ_of_lt inside⟩]

theorem children_add_leaf (leaf : n.children = []) (id : NodeId) : (f.add n).2.children id = f.children id := by
  rw [children_add]
  split
  · next new => rw [leaf,f.children_of_size_le (Nat.le_of_eq new.symm)]
  · rfl

theorem acyclic_add_leaf (acyclic : f.Acyclic) (leaf : n.children = []) : (f.add n).2.Acyclic := by
  have edges (a b : NodeId) (here : (f.add n).2.Child a b) : f.Child a b := by
    rwa [Child,children_add_leaf leaf] at here
  refine ⟨fun a b here => ?_,fun id path => acyclic.irrefl id (TransGen.mono edges id id path)⟩
  exact Nat.lt_of_lt_of_le (acyclic.inside a b (edges a b here)) (by simp)

theorem children_put_of_ne (leaf : n.children = []) {id : NodeId} (other : id ≠ parent) :
    (f.put parent n before after).children id = f.children id := by
  rw [put,children_updateChildren,if_neg fun both => other both.1,children_add_leaf leaf]

theorem alters_put (acyclic : f.Acyclic) (inside : parent < f.nodes.size) (leaf : n.children = [])
    (fewer : ∀ child ∈ before ++ after, child ∈ f.children parent) :
    Alters (· = parent) f (f.put parent n before after) where
  acyclic := by
    have new_inside : f.nodes.size < (f.add n).2.nodes.size := by simp
    refine (acyclic_add_leaf acyclic leaf).graft new_inside ?_ ?_
    · intro path
      -- the new element is not above its parent, for nothing is below it
      rcases ReflTransGen.cases_head path with same | ⟨child,here,_⟩
      · exact Nat.ne_of_gt inside same
      · rw [Child,children_add_leaf leaf,f.children_of_size_le (Nat.le_refl _)] at here
        exact absurd here List.not_mem_nil
    · intro id member
      rw [children_add_leaf leaf]
      rcases List.mem_append.mp member with member | member
      · exact .inl (fewer id (List.mem_append_left _ member))
      · rcases List.mem_cons.mp member with new | member
        · exact .inr new
        · exact .inl (fewer id (List.mem_append_right _ member))
  size_le := by simp [size_put]
  same id inside' := by
    have old : (f.add n).2.node id = f.node id := by rw [node_add,if_neg (Nat.ne_of_lt inside')]
    rw [put,updateChildren,node_update,old]
    split <;> rfl
  children_eq id _ other := children_put_of_ne leaf other

theorem child_put (inside : parent < f.nodes.size) (leaf : n.children = [])
    (split : f.children parent = before ++ after) {a b : NodeId} :
    (f.put parent n before after).Child a b ↔ f.Child a b ∨ (a = parent ∧ b = f.nodes.size) := by
  unfold Child
  by_cases here : a = parent
  · subst here
    rw [children_put inside,split]
    simp only [List.mem_append,List.mem_cons,true_and]
    tauto
  · rw [children_put_of_ne leaf here]
    simp [here]

end

/-- The children of the first child of a kind. -/
def properties (f : Forest) (id : NodeId) (stem : String) : List NodeId :=
  match f.childNamed? id (main stem) with
  | some look => f.children look
  | none => []

theorem properties_of_found {f : Forest} {id look : NodeId} {stem : String}
    (found : f.childNamed? id (main stem) = some look) : f.properties id stem = f.children look := by
  rw [properties,found]

theorem name_of_childNamed? {f : Forest} {id look : NodeId} {name : Name}
    (found : f.childNamed? id name = some look) : f.name look = name := by
  have named := List.find?_some found
  exact eq_of_beq named

theorem Alters.properties_eq {touched : NodeId → Prop} {f g : Forest} (alters : Alters touched f g)
    (acyclic : f.Acyclic) {id : NodeId} {stem : String} (inside : id < f.nodes.size) (free : ¬ touched id)
    (free' : ∀ look, f.childNamed? id (main stem) = some look → ¬ touched look) :
    g.properties id stem = f.properties id stem := by
  rw [properties,properties,alters.childNamed?_eq acyclic inside free]
  split
  · next look found =>
    exact alters.children_eq look (acyclic.inside id look (List.mem_of_find?_eq_some found)) (free' look found)
  · rfl

theorem lt_size_of_mem_properties {f : Forest} (acyclic : f.Acyclic) {id n : NodeId} {stem : String}
    (member : n ∈ f.properties id stem) : n < f.nodes.size := by
  unfold properties at member
  split at member
  · exact acyclic.inside _ n member
  · exact nomatch member

section
variable {f g : Forest} {look id : NodeId} {stem : String} (alters : Alters (· = look) f g) (acyclic : f.Acyclic)
  (inside : id < f.nodes.size) (other : id ≠ look)
include alters acyclic inside other

theorem Alters.properties_of_found (found : f.childNamed? id (main stem) = some look) :
    g.properties id stem = g.children look := by
  refine Forest.properties_of_found ?_
  rw [alters.childNamed?_eq acyclic inside other,found]

/-- Only the properties that were the children of an element change with these. -/
theorem Alters.properties_cases (stem : String) : g.properties id stem = f.properties id stem ∨
    (f.properties id stem = f.children look ∧ g.properties id stem = g.children look) := by
  by_cases found : f.childNamed? id (main stem) = some look
  · exact .inr ⟨Forest.properties_of_found found,alters.properties_of_found acyclic inside other found⟩
  · exact .inl (alters.properties_eq acyclic inside other fun look' found' same => found (same ▸ found'))

end

/-- The first child of a kind is known. It was there, or it was made and put before the other children. -/
structure Found (f g : Forest) (parent : NodeId) (stem : String) (look : NodeId) : Prop where
  alters : Alters (· = parent) f g
  found : g.childNamed? parent (main stem) = some look
  children_eq : g.children look = f.properties parent stem
  looks : g.childrenNamed parent (main stem) = f.childrenNamed parent (main stem) ∨
    (f.childrenNamed parent (main stem) = [] ∧ g.childrenNamed parent (main stem) = [look])
  kept : ∀ a b, f.Child a b → g.Child a b
  fresh : ∀ a b, g.Child a b → f.Child a b ∨ f.nodes.size ≤ b
  only : ∀ id, f.nodes.size ≤ id → id < g.nodes.size → id = look

variable {f g : Forest} {parent look : NodeId}

theorem found_firstOrNew (acyclic : f.Acyclic) (inside : parent < f.nodes.size) (stem : String) :
    Found f (f.firstOrNew parent stem).2 parent stem (f.firstOrNew parent stem).1 := by
  unfold firstOrNew
  cases found : f.childNamed? parent (main stem) with
  | some look =>
    exact ⟨.refl acyclic,found,(properties_of_found found).symm,.inl rfl,fun _ _ here => here,
      fun _ _ here => .inl here,fun _ new old => absurd old (Nat.not_lt.mpr new)⟩
  | none =>
    have made : (f.add { name := main stem }).2.insertAt parent 0 f.nodes.size =
        f.put parent { name := main stem } [] (f.children parent) := by
      refine updateChildren_eq _ _ ?_
      rw [children_add,if_neg (Nat.ne_of_lt inside)]
      rfl
    change Found f ((f.add { name := main stem }).2.insertAt parent 0 f.nodes.size) parent stem f.nodes.size
    rw [made]
    have edges {a b : NodeId} := @child_put f parent { name := main stem } [] (f.children parent) inside rfl rfl a b
    have alters : Alters (· = parent) f (f.put parent { name := main stem } [] (f.children parent)) :=
      alters_put acyclic inside rfl fun child member => member
    have named : ((f.put parent { name := main stem } [] (f.children parent)).name f.nodes.size == main stem) =
        true := by
      rw [Forest.name,node_put_new inside]
      exact beq_self_eq_true _
    have others : f.childrenNamed parent (main stem) = [] := by
      rw [← List.head?_eq_none_iff,childrenNamed,List.head?_filter]
      exact found
    refine ⟨alters,?_,?_,.inr ⟨others,?_⟩,?_,?_,?_⟩
    · rw [childNamed?,children_put inside]
      exact List.find?_cons_of_pos named
    · rw [properties,found,children_put_of_ne rfl (Nat.ne_of_gt inside),f.children_of_size_le (Nat.le_refl _)]
    · rw [childrenNamed,children_put inside,List.nil_append,List.filter_cons,if_pos named]
      refine congrArg _ (Eq.trans (List.filter_congr fun id member => ?_) others)
      rw [alters.name_eq (acyclic.inside parent id member)]
    · exact fun a b here => edges.mpr (.inl here)
    · intro a b here
      rcases edges.mp here with old | ⟨-,new⟩
      · exact .inl old
      · exact .inr (Nat.le_of_eq new.symm)
    · intro id new bound
      rw [size_put] at bound
      exact Nat.le_antisymm (Nat.le_of_lt_succ bound) new

namespace Found

variable {stem : String} (found : Found f g parent stem look)
include found

theorem name_eq : g.name look = main stem :=
  name_of_childNamed? found.found

theorem properties_eq (acyclic : f.Acyclic) (kind : f.name parent ≠ main stem) {id : NodeId}
    (inside : id < f.nodes.size) : g.properties id stem = f.properties id stem := by
  by_cases here : id = parent
  · rw [here,properties_of_found found.found,found.children_eq]
  · refine found.alters.properties_eq acyclic inside here fun look' found' same => kind ?_
    rw [← same]
    exact name_of_childNamed? found'

/-- When the children of what was found change, the parent has these. -/
theorem properties_of_alters {h : Forest} (alters : Alters (· = look) g h) (inside : parent < f.nodes.size)
    (kind : f.name parent ≠ main stem) : h.properties parent stem = h.children look := by
  refine alters.properties_of_found found.alters.acyclic (Nat.lt_of_lt_of_le inside found.alters.size_le) ?_
    found.found
  intro same
  rw [← found.name_eq,← same,found.alters.name_eq inside] at kind
  exact kind rfl

end Found

/-- An element is put before the first child that must follow it, or after all children. -/
structure Placed (f g : Forest) (parent : NodeId) (n : Node) (later : List String) (before after : List NodeId) :
    Prop where
  split : f.children parent = before ++ after
  passed : ∀ id ∈ before, (f.name id).stem ∉ later
  stops : ∀ id ∈ after.head?, (f.name id).stem ∈ later
  eq_put : g = f.put parent n before after

theorem exists_placed (acyclic : f.Acyclic) (inside : parent < f.nodes.size) (n : Node) (later : List String) :
    ∃ before after, Placed f ((f.add n).2.insertInOrder parent f.nodes.size later) parent n later before after := by
  have ids_eq : (f.add n).2.children parent = f.children parent := by
    rw [children_add,if_neg (Nat.ne_of_lt inside)]
  have name_eq {id : NodeId} (member : id ∈ f.children parent) : (f.add n).2.name id = f.name id := by
    rw [Forest.name,node_add,if_neg (Nat.ne_of_lt (acyclic.inside parent id member)),Forest.name]
  have put_eq {before after : List NodeId} {change : List NodeId → List NodeId}
      (changed : change (f.children parent) = before ++ f.nodes.size :: after) :
      (f.add n).2.updateChildren parent change = f.put parent n before after :=
    updateChildren_eq _ _ (by rw [ids_eq,changed])
  unfold insertInOrder
  rw [ids_eq]
  split
  · next i found =>
    obtain ⟨small,here,passed⟩ := List.findIdx?_eq_some_iff_getElem.mp found
    refine ⟨(f.children parent).take i,(f.children parent).drop i,(List.take_append_drop i _).symm,?_,?_,put_eq rfl⟩
    · intro id member
      obtain ⟨j,bound,rfl⟩ := List.mem_take_iff_getElem.mp member
      rw [← name_eq (List.getElem_mem _)]
      simpa using passed j (by omega)
    · intro id first
      rw [List.head?_drop,List.getElem?_eq_getElem small] at first
      obtain rfl := Option.some.inj first
      rw [← name_eq (List.getElem_mem _)]
      simpa using here
  · next none =>
    refine ⟨f.children parent,[],(List.append_nil _).symm,fun id member => ?_,nofun,put_eq rfl⟩
    rw [← name_eq member]
    simpa using List.findIdx?_eq_none_iff.mp none id member

namespace Placed

variable {n : Node} {later : List String} {before after : List NodeId}
  (placed : Placed f g parent n later before after)
include placed

theorem size_eq : g.nodes.size = f.nodes.size + 1 :=
  placed.eq_put ▸ size_put

variable (inside : parent < f.nodes.size)
include inside

theorem alters (acyclic : f.Acyclic) (leaf : n.children = []) : Alters (· = parent) f g :=
  placed.eq_put ▸ alters_put acyclic inside leaf fun _ member => placed.split ▸ member

theorem children_eq : g.children parent = before ++ f.nodes.size :: after :=
  placed.eq_put ▸ children_put inside

theorem node_eq : g.node f.nodes.size = n :=
  placed.eq_put ▸ node_put_new inside

theorem child_iff (leaf : n.children = []) {a b : NodeId} :
    g.Child a b ↔ f.Child a b ∨ (a = parent ∧ b = f.nodes.size) :=
  placed.eq_put ▸ child_put inside leaf placed.split

variable (acyclic : f.Acyclic) (leaf : n.children = [])
include acyclic leaf

theorem map_name (ids : List NodeId) (fewer : ∀ id ∈ ids, id ∈ before ++ after) :
    ids.map g.name = ids.map f.name := by
  refine List.map_congr_left fun id member => (placed.alters inside acyclic leaf).name_eq ?_
  refine acyclic.inside parent id ?_
  rw [Child,placed.split]
  exact fewer id member

theorem names_eq : (g.children parent).map g.name = before.map f.name ++ n.name :: after.map f.name := by
  rw [placed.children_eq inside,List.map_append,List.map_cons,
    placed.map_name inside acyclic leaf before fun _ member => List.mem_append_left _ member,
    placed.map_name inside acyclic leaf after fun _ member => List.mem_append_right _ member]
  congr 2
  rw [Forest.name,placed.node_eq inside]

/-- What is put among properties in order has its place, unless another that must follow as well is not looked
for and stands there alone. -/
theorem inOrder_iff {order earlier last : List String} (nodup : order.Nodup)
    (split : order = earlier ++ n.name.stem :: (later ++ last))
    (ordered : InOrder order ((f.children parent).map f.name)) :
    InOrder order ((g.children parent).map g.name) ↔
      (Lists ((f.children parent).map f.name) last → Lists ((f.children parent).map f.name) later) := by
  have names : (f.children parent).map f.name = before.map f.name ++ after.map f.name := by
    rw [placed.split,List.map_append]
  rw [names] at ordered ⊢
  rw [placed.names_eq inside acyclic leaf]
  refine inOrder_insert_iff nodup split ?_ ?_ ordered
  · simpa using placed.passed
  · simpa [List.head?_map] using placed.stops

end Placed

end Forest
end MailMerge
