import MailMerge.Proofs.Tree.Acyclic
import MailMerge.Proofs.Tree.Index

/-! An index stays true to its tree. Whatever is replaced, put in or taken out through it, in the tree
or in what was taken out before, the way up that it knows from an element ends, and it ends at the root
just for the elements of the tree; of these it knows the parents. What is put in must be new to the
tree, must not hold the place it is put in, and must itself be a tree: an element with two places has
but one parent in the index.
-/
namespace MailMerge

/-- No element stands twice in the tree of an element. -/
def Forest.Whole (f : Forest) (id : NodeId) : Prop :=
  (f.tree id).Nodup

instance (f : Forest) (id : NodeId) : Decidable (f.Whole id) :=
  inferInstanceAs (Decidable (f.tree id).Nodup)

namespace Index
open Forest Relation

/-- The way up from an element ends, with an answer: at the root, at an element that was taken out, or
at one whose parent is not known. -/
inductive Climbs (ix : Index) : NodeId → Bool → Prop
  | top : Climbs ix ix.root true
  | cut {id : NodeId} (other : id ≠ ix.root) (out : id ∈ ix.detached) : Climbs ix id false
  | lost {id : NodeId} (other : id ≠ ix.root) (stays : id ∉ ix.detached)
    (unknown : ix.parent? id = none) : Climbs ix id false
  | up {id parent : NodeId} {answer : Bool} (other : id ≠ ix.root) (stays : id ∉ ix.detached)
    (known : ix.parent? id = some parent) (rest : Climbs ix parent answer) : Climbs ix id answer

/-- What an index tells of an element: the way up from it ends, it counts as attached exactly when it
is in the tree, and there it is known with its parent. -/
structure Answers (ix : Index) (f : Forest) (id : NodeId) : Prop where
  climbs : ix.Climbs id (ix.isAttached id)
  attached_iff : ix.isAttached id = true ↔ f.Below ix.root id
  parent?_eq : ∀ parent, f.Below ix.root parent → f.Child parent id → ix.parent? id = some parent

/-- What is done without the index, outside of its tree: an element is made, or put among the children
of another. -/
inductive Built : Index × Forest → Index × Forest → Prop
  | plant {ix : Index} {f : Forest} (e : Xml.Element) : Built (ix,f) (ix,(f.plant e).2)
  | graft {ix : Index} {f : Forest} {parent new : NodeId} (i : Nat) (given : new < f.nodes.size)
    (aside : parent ∉ f.tree ix.root) (outside : parent ∉ f.tree new) :
    Built (ix,f) (ix,f.insertAt parent i new)

/-- A call that succeeds. What is put in has nothing in common with the tree at that moment and does not
hold the place it is put in; `fit` is what is asked of it besides. -/
inductive Call (fit : Forest → NodeId → Prop) : Index × Forest → Index × Forest → Prop
  | replace {ix ix' : Index} {f f' : Forest} (old new : NodeId) {parent : NodeId}
    (known : ix.parent? old = some parent) (made : ix.replace f old new = .ok (true,ix',f'))
    (given : new < f.nodes.size) (apart : ∀ n ∈ f.tree new, n ∉ (f.detach parent old).tree ix.root)
    (outside : parent ∉ f.tree new) (fits : fit f new) : Call fit (ix,f) (ix',f')
  | insertAfter {ix ix' : Index} {f f' : Forest} (anchor new : NodeId) {parent : NodeId}
    (known : ix.parent? anchor = some parent)
    (made : ix.insertAfter f anchor new = .ok (true,ix',f')) (given : new < f.nodes.size)
    (apart : ∀ n ∈ f.tree new, n ∉ f.tree ix.root) (outside : parent ∉ f.tree new)
    (fits : fit f new) : Call fit (ix,f) (ix',f')
  | remove {ix ix' : Index} {f f' : Forest} (id : NodeId)
    (made : ix.remove f id = .ok (true,ix',f')) : Call fit (ix,f) (ix',f')

/-- A call that puts in only what is whole, or something done outside of the tree. -/
def Step (state state' : Index × Forest) : Prop :=
  Built state state' ∨ Call Forest.Whole state state'

/-- An index is true to a forest: its tree has each element at one place and is known with all parents,
and what is known of an element that was not taken out is so, in the tree or elsewhere. -/
structure Current (ix : Index) (f : Forest) : Prop where
  acyclic : f.Acyclic
  single : f.Single ix.root
  inside : ix.root < f.nodes.size
  known : ∀ n c, f.Below ix.root n → f.Child n c → ix.parent? c = some n ∧ c ∉ ix.detached
  actual : ∀ n c, ix.parent? c = some n → c ∉ ix.detached → f.Child n c

variable {ix ix' : Index} {f g : Forest} {parent new : NodeId}

/-- Where every step up leads to a lesser level, the way up ends, with the answer that the index
gives however many steps it is allowed, from the number of its entries on. -/
private theorem climbs_of_level (level : NodeId → Nat) (rises : ∀ id parent : NodeId,
    id ∉ ix.detached → ix.parent? id = some parent → level parent < level id) (id : NodeId) :
    ∃ answer, ix.Climbs id answer ∧ ∃ keys : List NodeId, keys.Nodup ∧
      (∀ key ∈ keys, key ∈ ix.parents.map (·.1) ∧ level key ≤ level id) ∧
        ∀ steps, keys.length < steps → ix.reachesRoot steps id = answer := by
  induction same : level id using Nat.strongRecOn generalizing id with
  | ind height ih =>
    have first {answer : Bool} (ends : ∀ steps, ix.reachesRoot (steps + 1) id = answer) :
        ∃ keys : List NodeId, keys.Nodup ∧
          (∀ key ∈ keys, key ∈ ix.parents.map (·.1) ∧ level key ≤ height) ∧
            ∀ steps, keys.length < steps → ix.reachesRoot steps id = answer := by
      refine ⟨[],List.nodup_nil,by simp,fun steps more => ?_⟩
      obtain ⟨steps,rfl⟩ := Nat.exists_eq_succ_of_ne_zero (Nat.ne_of_gt more)
      exact ends steps
    by_cases top : id = ix.root
    · subst top
      exact ⟨true,.top,first fun _ => by simp [reachesRoot]⟩
    by_cases out : id ∈ ix.detached
    · exact ⟨false,.cut top out,first fun _ => by simp [reachesRoot,top,out]⟩
    cases known : ix.parent? id with
    | none => exact ⟨false,.lost top out known,first fun _ => by simp [reachesRoot,top,out,known]⟩
    | some parent =>
      have lower := rises id parent out known
      obtain ⟨answer,rest,keys,nodup,entered,reaches⟩ :=
        ih (level parent) (same ▸ lower) parent rfl
      refine ⟨answer,.up top out known rest,id :: keys,List.nodup_cons.mpr ⟨?_,nodup⟩,?_,?_⟩
      · intro member
        exact Nat.not_lt.mpr (entered id member).2 (same ▸ lower)
      · intro key member
        rcases List.mem_cons.mp member with rfl | member
        · obtain ⟨entry,found,_⟩ := Option.map_eq_some_iff.mp known
          have here := List.find?_some (p := fun entry : NodeId × NodeId => entry.1 == key) found
          exact ⟨List.mem_map.mpr ⟨entry,List.mem_of_find?_eq_some found,eq_of_beq here⟩,
            Nat.le_of_eq same⟩
        · obtain ⟨entry,low⟩ := entered key member
          exact ⟨entry,Nat.le_trans low (same ▸ Nat.le_of_lt lower)⟩
      · intro steps more
        obtain ⟨steps,rfl⟩ := Nat.exists_eq_succ_of_ne_zero (Nat.ne_of_gt (Nat.zero_lt_of_lt more))
        have more' : keys.length < steps := by simpa using more
        simp [reachesRoot,top,out,known,reaches steps more']

namespace Current

private theorem climbs (current : ix.Current f) (id : NodeId) : ix.Climbs id (ix.isAttached id) := by
  obtain ⟨level,sorted⟩ := current.acyclic.sorted
  obtain ⟨answer,climbs,keys,nodup,entered,reaches⟩ := climbs_of_level level
    (fun c n stays known => (sorted.below n c (current.actual n c known stays)).2.2) id
  have few : keys.length ≤ ix.parents.length := by
    have subset : keys ⊆ ix.parents.map (·.1) := fun key member => (entered key member).1
    simpa using (List.subperm_of_subset nodup subset).length_le
  rw [isAttached,reaches _ (Nat.lt_succ_of_le few)]
  exact climbs

private theorem climbs_of_below (current : ix.Current f) {id : NodeId}
    (path : f.Below ix.root id) : ix.Climbs id true := by
  induction path with
  | refl => exact .top
  | @tail n c path here ih =>
    obtain ⟨known,stays⟩ := current.known n c path here
    by_cases top : c = ix.root
    · exact top ▸ .top
    · exact .up top stays known ih

private theorem below_of_climbs (current : ix.Current f) {id : NodeId} {answer : Bool}
    (climbs : ix.Climbs id answer) (found : answer = true) : f.Below ix.root id := by
  induction climbs with
  | top => exact ReflTransGen.refl
  | cut | lost => simp at found
  | up _ stays known _ ih => exact (ih found).tail (current.actual _ _ known stays)

end Current

/-- The way up has one end. -/
private theorem Climbs.unique {id : NodeId} {a b : Bool} (first : ix.Climbs id a)
    (second : ix.Climbs id b) : a = b := by
  induction first with
  | top =>
    cases second with
    | top => rfl
    | cut other | lost other | up other => exact absurd rfl other
  | cut other out =>
    cases second with
    | top => exact absurd rfl other
    | cut => rfl
    | lost _ stays | up _ stays => exact absurd out stays
  | lost other stays unknown =>
    cases second with
    | top => exact absurd rfl other
    | cut _ out => exact absurd out stays
    | lost => rfl
    | up _ _ known => simp [unknown] at known
  | up other stays known _ ih =>
    cases second with
    | top => exact absurd rfl other
    | cut _ out => exact absurd out stays
    | lost _ _ unknown => simp [known] at unknown
    | up _ _ known' rest =>
      obtain rfl := Option.some.inj (known.symm.trans known')
      exact ih rest

theorem Current.answers (current : ix.Current f) (id : NodeId) : ix.Answers f id where
  climbs := current.climbs id
  attached_iff := ⟨current.below_of_climbs (current.climbs id),
    fun path => (current.climbs id).unique (current.climbs_of_below path)⟩
  parent?_eq parent path here := (current.known parent id path here).1

/-- What is recorded of the elements below an element: each of them with a parent it has. -/
private theorem parent?_recordBelow_of_transGen (ix : Index) (acyclic : f.Acyclic) {id c : NodeId}
    (path : TransGen f.Child id c) :
    ∃ m, f.Below id m ∧ f.Child m c ∧ (ix.recordBelow f id).parent? c = some m := by
  obtain ⟨n,above,here⟩ := TransGen.tail'_iff.mp path
  have edge : (c,n) ∈ (f.edges id).reverse :=
    List.mem_reverse.mpr (mem_edges.mpr ⟨acyclic.mem_tree_iff.mpr above,here⟩)
  have some : ((f.edges id).reverse.find? (·.1 == c)).isSome :=
    List.find?_isSome.mpr ⟨(c,n),edge,BEq.rfl⟩
  obtain ⟨⟨c',m⟩,found⟩ := Option.isSome_iff_exists.mp some
  obtain rfl : c' = c :=
    eq_of_beq (List.find?_some (p := fun entry : NodeId × NodeId => entry.1 == c) found)
  have member := mem_edges.mp (List.mem_reverse.mp (List.mem_of_find?_eq_some found))
  refine ⟨m,acyclic.mem_tree_iff.mp member.1,member.2,?_⟩
  rw [parent?,parents_recordBelow,List.find?_append,found]
  rfl

section
variable (acyclic : g.Acyclic)
include acyclic

private theorem parent?_enter_below (ix : Index) (parent : NodeId) {c : NodeId}
    (path : TransGen g.Child new c) :
    ∃ m, g.Below new m ∧ g.Child m c ∧ (ix.enter g parent new).parent? c = some m :=
  (ix.record parent new).parent?_recordBelow_of_transGen acyclic path

private theorem parent?_enter_elsewhere (ix : Index) (parent : NodeId) {c : NodeId}
    (aside : ¬ TransGen g.Child new c) :
    (ix.enter g parent new).parent? c = if new = c then some parent else ix.parent? c := by
  rw [enter,parent?_recordBelow,parent?_record]
  intro n member here
  exact aside (TransGen.tail' (acyclic.mem_tree_iff.mp member) here)

private theorem mem_detached_enter (ix : Index) (parent : NodeId) {c : NodeId} :
    c ∈ (ix.enter g parent new).detached ↔ c ∈ ix.detached ∧ c ≠ new ∧ ¬ TransGen g.Child new c := by
  rw [enter,mem_detached_recordBelow,mem_detached_record,and_assoc]
  refine and_congr_right fun _ => and_congr_right fun _ =>
    ⟨fun absent path => ?_,fun aside edge member => ?_⟩
  · obtain ⟨m,above,here⟩ := TransGen.tail'_iff.mp path
    exact absent (c,m) (mem_edges.mpr ⟨acyclic.mem_tree_iff.mpr above,here⟩) rfl
  · rintro rfl
    obtain ⟨above,here⟩ := mem_edges.mp member
    exact aside (TransGen.tail' (acyclic.mem_tree_iff.mp above) here)

end

theorem current_of (acyclic : f.Acyclic) {root : NodeId} (inside : root < f.nodes.size)
    (whole : f.Whole root) : (Index.of f root).Current f := by
  have root_eq : (Index.of f root).root = root := root_recordBelow _ f root
  have single := single_of_nodup acyclic whole
  refine ⟨acyclic,by rwa [root_eq],by rwa [root_eq],?_,?_⟩
  · intro n c path here
    rw [root_eq] at path
    obtain ⟨m,path',here',known⟩ :=
      ({ root := root } : Index).parent?_recordBelow_of_transGen acyclic (TransGen.tail' path here)
    obtain rfl := single.parent_eq m n c path' path here' here
    refine ⟨known,fun out => ?_⟩
    simp [Index.of,mem_detached_recordBelow] at out
  · intro n c known _
    by_cases path : TransGen f.Child root c
    · obtain ⟨m,_,here,known'⟩ :=
        ({ root := root } : Index).parent?_recordBelow_of_transGen acyclic path
      obtain rfl := Option.some.inj (known'.symm.trans known)
      exact here
    · have unknown : (Index.of f root).parent? c = none := by
        rw [Index.of,parent?_recordBelow]
        · rfl
        · exact fun n member here => path (TransGen.tail' (acyclic.mem_tree_iff.mp member) here)
      simp [unknown] at known

namespace Current

/-- New elements change nothing. -/
private theorem plant (current : ix.Current f) (e : Xml.Element) : ix.Current (f.plant e).2 := by
  obtain ⟨grown,_,_⟩ := grown_plant f e
  obtain ⟨level,sorted⟩ := current.acyclic.sorted
  have kept {n c : NodeId} (inside : n < f.nodes.size) (here : (f.plant e).2.Child n c) :
      f.Child n c := by rwa [Child,grown.children_eq inside] at here
  have old {n : NodeId} (path : (f.plant e).2.Below ix.root n) :
      f.Below ix.root n ∧ n < f.nodes.size := by
    induction path with
    | refl => exact ⟨ReflTransGen.refl,current.inside⟩
    | tail _ here ih =>
      have here' := kept ih.2 here
      exact ⟨ih.1.tail here',current.acyclic.inside _ _ here'⟩
  have child {n c : NodeId} (path : (f.plant e).2.Below ix.root n) (here : (f.plant e).2.Child n c) :
      f.Child n c := kept (old path).2 here
  refine ⟨(sorted.grow grown ()).acyclic,⟨?_,?_⟩,Nat.lt_of_lt_of_le current.inside grown.size_le,?_,?_⟩
  · intro n path
    rw [grown.children_eq (old path).2]
    exact current.single.nodup n (old path).1
  · intro a b c path path' here here'
    exact current.single.parent_eq a b c (old path).1 (old path').1 (child path here) (child path' here')
  · exact fun n c path here => current.known n c (old path).1 (child path here)
  · intro n c known stays
    have here := current.actual n c known stays
    rwa [Child,grown.children_eq (f.lt_size_of_child here)]

/-- What is put together outside of the tree changes nothing in it. -/
private theorem graft (current : ix.Current f) (i : Nat) (given : new < f.nodes.size)
    (aside : parent ∉ f.tree ix.root) (outside : parent ∉ f.tree new) :
    ix.Current (f.insertAt parent i new) := by
  have size_eq : (f.insertAt parent i new).nodes.size = f.nodes.size := by
    simp [insertAt,updateChildren]
  have elsewhere {n : NodeId} (other : n ≠ parent) :
      (f.insertAt parent i new).children n = f.children n := by
    rw [insertAt,children_updateChildren,if_neg fun same => other same.1]
  have home {n : NodeId} (path : f.Below ix.root n) : n ≠ parent := fun same =>
    aside (same ▸ current.acyclic.mem_tree_iff.mpr path)
  have old {n : NodeId} (path : (f.insertAt parent i new).Below ix.root n) : f.Below ix.root n := by
    induction path with
    | refl => exact ReflTransGen.refl
    | tail _ here ih => exact ih.tail (by rwa [Child,elsewhere (home ih)] at here)
  have child {n c : NodeId} (path : f.Below ix.root n) (here : (f.insertAt parent i new).Child n c) :
      f.Child n c := by rwa [Child,elsewhere (home path)] at here
  refine ⟨?_,⟨?_,?_⟩,size_eq ▸ current.inside,?_,?_⟩
  · refine current.acyclic.link size_eq given
      (fun path => outside (current.acyclic.mem_tree_iff.mpr path)) fun a b here => ?_
    by_cases same : a = parent
    · subst same
      rw [Child,insertAt,children_updateChildren] at here
      split at here
      · rcases List.mem_append.mp here with here | here
        · exact Or.inl (List.mem_of_mem_take here)
        · exact (List.mem_cons.mp here).symm.imp List.mem_of_mem_drop fun new => ⟨rfl,new⟩
      · exact Or.inl here
    · rw [Child,elsewhere same] at here
      exact Or.inl here
  · intro n path
    rw [elsewhere (home (old path))]
    exact current.single.nodup n (old path)
  · intro a b c path path' here here'
    exact current.single.parent_eq a b c (old path) (old path') (child (old path) here)
      (child (old path') here')
  · exact fun n c path here => current.known n c (old path) (child (old path) here)
  · intro n c known stays
    have here := current.actual n c known stays
    rw [Child,insertAt,children_updateChildren]
    split
    · rw [Child,← List.take_append_drop i (f.children n),List.mem_append] at here
      exact List.mem_append.mpr (here.imp_right (List.mem_cons_of_mem _))
    · exact here

/-- What is done outside of the tree keeps an index true to its forest. -/
theorem built (current : ix.Current f) (built : Built (ix,f) (ix',g)) :
    ix'.Current g ∧ ix'.root = ix.root := by
  cases built with
  | plant e => exact ⟨current.plant e,rfl⟩
  | graft i given aside outside => exact ⟨current.graft i given aside outside,rfl⟩

/-- An element is taken out of its place, and the index knows that it was. -/
theorem take (current : ix.Current f) {id : NodeId} {before after : List NodeId}
    (known : ix.parent? id = some parent) (split : f.children parent = before ++ id :: after)
    (size_eq : g.nodes.size = f.nodes.size) (now : g.children parent = before ++ after)
    (elsewhere : ∀ n, n ≠ parent → g.children n = f.children n) (out : id ∈ ix'.detached)
    (apart : ∀ base, ix'.Apart ix base id) : ix'.Current g := by
  have fewer (n : NodeId) : (g.children n).Sublist (f.children n) := by
    by_cases same : n = parent
    · rw [same,now,split]
      exact (List.sublist_cons_self id after).append_left before
    · rw [elsewhere n same]
  have edges {a b : NodeId} (here : g.Child a b) : f.Child a b := (fewer a).subset here
  have root_eq := (apart 0).root_eq
  have paths {n : NodeId} (path : g.Below ix'.root n) : f.Below ix.root n :=
    root_eq ▸ ReflTransGen.mono (fun _ _ => edges) _ _ path
  have same {c : NodeId} (other : c ≠ id) : ix'.parent? c = ix.parent? c ∧
      (c ∈ ix'.detached ↔ c ∈ ix.detached) :=
    ⟨(apart (c + 1)).parent?_eq c (Nat.lt_succ_self c) other,
      (apart (c + 1)).mem_detached c (Nat.lt_succ_self c) other⟩
  refine ⟨current.acyclic.fewer size_eq fun _ _ => edges,?_,?_,?_,?_⟩
  · rw [root_eq]
    exact current.single.fewer fewer
  · rw [root_eq,size_eq]
    exact current.inside
  · intro n c path here
    obtain ⟨known',stays⟩ := current.known n c (paths path) (edges here)
    -- the element has no second place among the children it was taken from
    have other : c ≠ id := by
      rintro rfl
      obtain rfl := Option.some.inj (known'.symm.trans known)
      have nodup := current.single.nodup n (paths path)
      rw [split] at nodup
      rw [Child,now] at here
      exact (List.nodup_cons.mp (List.perm_middle.nodup_iff.mp nodup)).1 here
    rw [(same other).1,(same other).2]
    exact ⟨known',stays⟩
  · intro n c known' stays
    have other : c ≠ id := fun same => stays (same ▸ out)
    rw [(same other).1] at known'
    rw [(same other).2] at stays
    have here := current.actual n c known' stays
    by_cases place : n = parent
    · subst place
      rw [Child,split,List.mem_append,List.mem_cons] at here
      rw [Child,now,List.mem_append]
      exact here.imp_right fun here => here.resolve_left other
    · rwa [Child,elsewhere n place]

/-- A tree that is apart is put among the children of an element, and the index enters it. -/
theorem enter (current : ix.Current f) {before after : List NodeId} (given : new < f.nodes.size)
    (split : f.children parent = before ++ after) (single : f.Single new)
    (apart : ∀ n, f.Below new n → ¬ f.Below ix.root n) (outside : ¬ f.Below new parent)
    (size_eq : g.nodes.size = f.nodes.size) (now : g.children parent = before ++ new :: after)
    (elsewhere : ∀ n, n ≠ parent → g.children n = f.children n) :
    (ix.enter g parent new).Current g := by
  have edges {a b : NodeId} : g.Child a b ↔ f.Child a b ∨ (a = parent ∧ b = new) := by
    by_cases same : a = parent
    · subst same
      rw [Child,Child,now,split]
      grind
    · rw [Child,Child,elsewhere a same]
      simp [same]
  have acyclic := current.acyclic.link size_eq given outside fun a b => edges.mp
  have root_eq : (ix.enter g parent new).root = ix.root := root_recordBelow _ g new
  -- the tree that is put in stays as it is
  have inner {n c : NodeId} (path : f.Below new n) (here : g.Child n c) : f.Child n c :=
    (edges.mp here).resolve_right fun same => outside (same.1 ▸ path)
  have below_new {n : NodeId} (path : g.Below new n) : f.Below new n := by
    induction path with
    | refl => exact ReflTransGen.refl
    | tail _ here ih => exact ih.tail (inner ih here)
  have transGen_new {c : NodeId} (path : TransGen g.Child new c) : f.Below new c := by
    obtain ⟨m,above,here⟩ := TransGen.tail'_iff.mp path
    exact (below_new above).tail (inner (below_new above) here)
  have strict {n c : NodeId} (path : f.Below new n) (here : f.Child n c) : TransGen g.Child new c :=
    TransGen.tail' (ReflTransGen.mono (fun _ _ here => edges.mpr (Or.inl here)) _ _ path)
      (edges.mpr (Or.inl here))
  -- the tree of the root has what it had, and what is put in if the place is in it
  have below_root {n : NodeId} (path : g.Below ix.root n) : f.Below ix.root n ∨
      (f.Below ix.root parent ∧ f.Below new n) := by
    induction path with
    | refl => exact Or.inl ReflTransGen.refl
    | tail _ here ih =>
      rcases ih with home | ⟨place,path⟩
      · rcases edges.mp here with here | ⟨rfl,rfl⟩
        · exact Or.inl (home.tail here)
        · exact Or.inr ⟨home,ReflTransGen.refl⟩
      · exact Or.inr ⟨place,path.tail (inner path here)⟩
  have fresh {n c : NodeId} (home : f.Below ix.root n) (here : f.Child n c) :
      c ≠ new ∧ ¬ TransGen g.Child new c :=
    ⟨fun same => apart new ReflTransGen.refl (same ▸ home.tail here),
      fun path => apart c (transGen_new path) (home.tail here)⟩
  refine ⟨acyclic,?_,?_,?_,?_⟩
  · rw [root_eq]
    refine ⟨?_,?_⟩
    · intro n path
      rcases below_root path with home | ⟨_,path⟩
      · have nodup := current.single.nodup n home
        by_cases same : n = parent
        · subst same
          rw [split] at nodup
          rw [now]
          refine List.perm_middle.nodup_iff.mpr (List.nodup_cons.mpr ⟨fun member => ?_,nodup⟩)
          have here : f.Child n new := by rwa [Child,split]
          exact apart new ReflTransGen.refl (home.tail here)
        · rwa [elsewhere n same]
      · rw [elsewhere n fun same => outside (same ▸ path)]
        exact single.nodup n path
    · intro a b c path path' here here'
      rcases below_root path with home | ⟨_,path⟩ <;> rcases below_root path' with home' | ⟨_,path'⟩
      · rcases edges.mp here with old | ⟨rfl,rfl⟩ <;> rcases edges.mp here' with old' | ⟨same,same'⟩
        · exact current.single.parent_eq a b c home home' old old'
        · exact absurd same' (fresh home old).1
        · exact absurd rfl (fresh home' old').1
        · exact same.symm
      · have path'' := strict path' (inner path' here')
        rcases edges.mp here with old | ⟨rfl,rfl⟩
        · exact absurd path'' (fresh home old).2
        · exact absurd path'' (acyclic.irrefl _)
      · have path'' := strict path (inner path here)
        rcases edges.mp here' with old | ⟨rfl,rfl⟩
        · exact absurd path'' (fresh home' old).2
        · exact absurd path'' (acyclic.irrefl _)
      · exact single.parent_eq a b c path path' (inner path here) (inner path' here')
  · rw [root_eq,size_eq]
    exact current.inside
  · intro n c path here
    rw [root_eq] at path
    rcases below_root path with home | ⟨_,path⟩
    · rcases edges.mp here with old | ⟨rfl,rfl⟩
      · obtain ⟨known,stays⟩ := current.known n c home old
        obtain ⟨other,aside⟩ := fresh home old
        rw [parent?_enter_elsewhere acyclic ix parent aside,if_neg (Ne.symm other),
          mem_detached_enter acyclic]
        exact ⟨known,fun out => stays out.1⟩
      · rw [parent?_enter_elsewhere acyclic ix n (acyclic.irrefl c),if_pos rfl,
          mem_detached_enter acyclic]
        exact ⟨rfl,fun out => out.2.1 rfl⟩
    · have down := strict path (inner path here)
      obtain ⟨m,path',here',known⟩ := parent?_enter_below acyclic ix parent down
      have path'' := below_new path'
      obtain rfl := single.parent_eq m n c path'' path (inner path'' here') (inner path here)
      exact ⟨known,fun out => ((mem_detached_enter acyclic ix parent).mp out).2.2 down⟩
  · intro n c known stays
    by_cases down : TransGen g.Child new c
    · obtain ⟨m,_,here,known'⟩ := parent?_enter_below acyclic ix parent down
      obtain rfl := Option.some.inj (known'.symm.trans known)
      exact here
    · rw [parent?_enter_elsewhere acyclic ix parent down] at known
      rw [mem_detached_enter acyclic] at stays
      split at known
      · next same =>
        obtain rfl := Option.some.inj known
        exact edges.mpr (Or.inr ⟨rfl,same.symm⟩)
      · next other =>
        refine edges.mpr (Or.inl (current.actual n c known fun out => stays ⟨out,?_,down⟩))
        exact Ne.symm other

end Current

/-- The children of one element are others, and nothing else has changed. -/
private theorem children_set (inside : parent < f.nodes.size) (ids : List NodeId) :
    (f.updateChildren parent fun _ => ids).nodes.size = f.nodes.size ∧
      (f.updateChildren parent fun _ => ids).children parent = ids ∧
        ∀ n, n ≠ parent → (f.updateChildren parent fun _ => ids).children n = f.children n := by
  refine ⟨by simp [Forest.updateChildren],?_,fun n other => ?_⟩
  · rw [children_updateChildren,if_pos ⟨rfl,inside⟩]
  · rw [children_updateChildren,if_neg fun same => other same.1]

namespace Current

private theorem replace (current : ix.Current f) {old : NodeId} (known : ix.parent? old = some parent)
    (made : ix.replace f old new = .ok (true,ix',g)) (given : new < f.nodes.size)
    (apart : ∀ n ∈ f.tree new, n ∉ (f.detach parent old).tree ix.root) (outside : parent ∉ f.tree new)
    (whole : f.Whole new) : ix'.Current g ∧ ix'.root = ix.root := by
  cases found : position f parent old with
  | error fault => simp [Index.replace,known,found] at made
  | ok i =>
    obtain ⟨before,after,split,rfl,first⟩ := split_of_position found
    have inside := f.lt_size_of_child (split ▸ List.mem_append_right _ List.mem_cons_self)
    rw [replace_eq known split first found] at made
    obtain ⟨rfl,rfl⟩ : _ ∧ _ := by simpa using made
    rw [detach_eq f split first] at apart
    -- the old element is taken out, then the new one is put in its place
    obtain ⟨size_eq,now,elsewhere⟩ := children_set inside (before ++ after)
    obtain ⟨size_eq',now',elsewhere'⟩ := children_set inside (before ++ new :: after)
    have taken : (ix.leave old).Current (f.updateChildren parent fun _ => before ++ after) :=
      current.take known split size_eq now elsewhere (by simp [leave]) fun base =>
        apart_leave ix base old
    have fewer (n : NodeId) :
        ((f.updateChildren parent fun _ => before ++ after).children n).Sublist (f.children n) := by
      by_cases same : n = parent
      · rw [same,now,split]
        exact (List.sublist_cons_self old after).append_left before
      · rw [elsewhere n same]
    have former {n : NodeId} (path : (f.updateChildren parent fun _ => before ++ after).Below new n) :
        n ∈ f.tree new :=
      current.acyclic.mem_tree_iff.mpr
        (ReflTransGen.mono (fun a b (here : _ ∈ _) => (fewer a).subset here) _ _ path)
    refine ⟨taken.enter (size_eq ▸ given) now
      ((single_of_nodup current.acyclic whole).fewer fewer)
        (fun n path home => apart n (former path) (taken.acyclic.mem_tree_iff.mpr home))
          (fun path => outside (former path)) (size_eq'.trans size_eq.symm) now' ?_,
      root_recordBelow _ _ new⟩
    exact fun n other => (elsewhere' n other).trans (elsewhere n other).symm

private theorem insertAfter (current : ix.Current f) {anchor : NodeId}
    (known : ix.parent? anchor = some parent) (made : ix.insertAfter f anchor new = .ok (true,ix',g))
    (given : new < f.nodes.size) (apart : ∀ n ∈ f.tree new, n ∉ f.tree ix.root)
    (outside : parent ∉ f.tree new) (whole : f.Whole new) :
    ix'.Current g ∧ ix'.root = ix.root := by
  cases found : position f parent anchor with
  | error fault => simp [Index.insertAfter,known,found] at made
  | ok i =>
    obtain ⟨before,after,split,rfl,_⟩ := split_of_position found
    have inside := f.lt_size_of_child (split ▸ List.mem_append_right _ List.mem_cons_self)
    rw [insertAfter_eq known split found] at made
    obtain ⟨-,rfl,rfl⟩ : _ ∧ _ ∧ _ := by simpa only [Except.ok.injEq,Prod.mk.injEq] using made
    obtain ⟨size_eq,now,elsewhere⟩ := children_set inside ((before ++ [anchor]) ++ new :: after)
    have lists {a n : NodeId} (path : f.Below a n) : n ∈ f.tree a :=
      current.acyclic.mem_tree_iff.mpr path
    exact ⟨current.enter given (by simp [split]) (single_of_nodup current.acyclic whole)
      (fun n path home => apart n (lists path) (lists home)) (fun path => outside (lists path)) size_eq
        now elsewhere,root_recordBelow _ _ new⟩

private theorem remove (current : ix.Current f) {id : NodeId}
    (made : ix.remove f id = .ok (true,ix',g)) : ix'.Current g ∧ ix'.root = ix.root := by
  cases known : ix.parent? id with
  | none => simp [Index.remove,known] at made
  | some parent =>
    cases found : position f parent id with
    | error fault => simp [Index.remove,known,found] at made
    | ok i =>
      obtain ⟨before,after,split,rfl,first⟩ := split_of_position found
      have inside := f.lt_size_of_child (split ▸ List.mem_append_right _ List.mem_cons_self)
      rw [remove_eq known split first found] at made
      obtain ⟨rfl,rfl⟩ : _ ∧ _ := by simpa using made
      obtain ⟨size_eq,now,elsewhere⟩ := children_set inside (before ++ after)
      exact ⟨current.take known split size_eq now elsewhere (by simp [leave]) fun base =>
        (apart_leave _ base id).trans (apart_forget ix base id),rfl⟩

/-- Every call keeps an index true to its forest, if what is put in is whole. -/
theorem call (current : ix.Current f) (call : Call Forest.Whole (ix,f) (ix',g)) :
    ix'.Current g ∧ ix'.root = ix.root := by
  cases call with
  | replace old new known made given apart outside whole =>
    exact current.replace known made given apart outside whole
  | insertAfter anchor new known made given apart outside whole =>
    exact current.insertAfter known made given apart outside whole
  | remove id made => exact current.remove made

/-- So does every sequence of steps. -/
theorem run {start state : Index × Forest} (current : start.1.Current start.2)
    (run : ReflTransGen Step start state) :
    state.1.Current state.2 ∧ state.1.root = start.1.root := by
  induction run with
  | refl => exact ⟨current,rfl⟩
  | tail _ step ih =>
    obtain ⟨kept,root_eq⟩ := step.elim ih.1.built ih.1.call
    exact ⟨kept,root_eq.trans ih.2⟩

end Current

/-- After any calls that put whole trees in, whatever is put together outside meanwhile, the index of a
tree tells of every element whether it is in the tree and, if so, which its parent is. -/
theorem answers_of_run {root : NodeId} (acyclic : f.Acyclic) (inside : root < f.nodes.size)
    (whole : f.Whole root) (run : ReflTransGen Step (Index.of f root,f) (ix',g)) (id : NodeId) :
    ix'.root = root ∧ ix'.Answers g id := by
  obtain ⟨current,root_eq⟩ := (current_of acyclic inside whole).run run
  exact ⟨root_eq.trans (root_recordBelow _ f root),current.answers id⟩

/-- An element with two others, the first of which has two more, and one that stands alone. -/
private def sheet : Forest :=
  ⟨#[⟨.bare "a",[],none,[1,4],none⟩,⟨.bare "b",[],none,[2,3],none⟩,⟨.bare "c",[],none,[],none⟩,
    ⟨.bare "d",[],none,[],none⟩,⟨.bare "e",[],none,[],none⟩,⟨.bare "f",[],none,[],none⟩]⟩

private theorem acyclic_sheet : sheet.Acyclic := by
  have steps : ∀ parent < 6, ∀ child ∈ sheet.children parent, child < 6 ∧ parent < child := by decide
  have sorted : sheet.Sorted (fun _ => ()) id :=
    ⟨fun parent child here => by
      obtain ⟨small,larger⟩ := steps parent (sheet.lt_size_of_child here) child here
      exact ⟨small,rfl,larger⟩,fun _ small => small⟩
  exact sorted.acyclic

/-- The first element is taken out, another is put into it, and it is put back. -/
theorem answers_of_run_back : ∃ (ix : Index) (g : Forest),
    ix.Answers g 5 ∧ g.tree ix.root = [0,4,1,2,5,3] ∧ ix.parent? 5 = some 1 := by
  have start : ReflTransGen Step (Index.of sheet 0,sheet) (Index.of sheet 0,sheet) := .refl
  have taken := start.tail (.inr (.remove 1 rfl))
  have filled := taken.tail
    (.inr (.insertAfter 2 5 rfl rfl (by decide) (by decide) (by decide) (by decide)))
  have back := filled.tail
    (.inr (.insertAfter 4 1 rfl rfl (by decide) (by decide) (by decide) (by decide)))
  exact ⟨_,_,(answers_of_run acyclic_sheet (by decide) (by decide) back 5).2,by decide,by decide⟩

/-- Into the element that was taken out, another is put twice. It is in the tree when the element is put
back and one of the two places is removed, but it counts as taken out. -/
theorem not_attached_of_two_places : ∃ (ix : Index) (g : Forest),
    ReflTransGen (Call fun _ _ => True) (Index.of sheet 0,sheet) (ix,g) ∧
      sheet.Acyclic ∧ sheet.Whole 0 ∧ g.Below ix.root 5 ∧ ix.isAttached 5 = false := by
  have start : ReflTransGen (Call fun _ _ => True) (Index.of sheet 0,sheet)
    (Index.of sheet 0,sheet) := .refl
  have taken := start.tail (.remove 1 rfl)
  have once := taken.tail (.insertAfter 2 5 rfl rfl (by decide) (by decide) (by decide) trivial)
  have twice := once.tail (.insertAfter 2 5 rfl rfl (by decide) (by decide) (by decide) trivial)
  have back := twice.tail (.insertAfter 4 1 rfl rfl (by decide) (by decide) (by decide) trivial)
  have left := back.tail (.remove 5 rfl)
  refine ⟨_,_,left,acyclic_sheet,by decide,?_,by decide⟩
  refine (ReflTransGen.single (b := 1) ?_).tail ?_ <;> (unfold Child; decide)

end Index
end MailMerge
