import MailMerge.Proofs.Tree.Index
import MailMerge.Proofs.Tree.Paths
import MailMerge.Proofs.Tree.Work

/-! Elements that an index finds in its tree. Where the index knows the steps of a path down from the
root, it finds the way back up; the index of a tree knows all its paths when it is built.
-/
namespace MailMerge.Index
open Forest Relation

/-- An index knows the steps of all paths from the root of a forest down to an element. -/
structure Attests (ix : Index) (f : Forest) (id : NodeId) : Prop where
  parent?_eq : ∀ n c, f.Below ix.root n → f.Child n c → f.Below c id → ix.parent? c = some n
  not_detached : ∀ n c, f.Below ix.root n → f.Child n c → f.Below c id → c ∉ ix.detached

variable {α : Type} {ix : Index} {f : Forest} {owner : NodeId → α} {level : NodeId → Nat} {id : NodeId}

/-- What is in the tree is found there. -/
theorem Attests.isAttached (attests : ix.Attests f id) (path : f.Below ix.root id) :
    ix.isAttached id = true := by
  suffices way : ∀ n, f.Below ix.root n → f.Below n id → ∃ steps, ix.reachesRoot steps n = true from
    (way id path ReflTransGen.refl).elim fun _ => ix.reachesRoot_enough
  intro n path rest
  induction path with
  | refl => exact ⟨1,by simp [reachesRoot]⟩
  | @tail m n path here ih =>
    obtain ⟨steps,reaches⟩ := ih (rest.head here)
    refine ⟨steps + 1,?_⟩
    rw [reachesRoot]
    split
    · rfl
    · simpa [attests.not_detached m n path here rest,attests.parent?_eq m n path here rest] using reaches

/-- The index of a tree knows all paths from the root. -/
theorem attests_of (sorted : f.Sorted owner level) (branching : f.Branching) (root id : NodeId) :
    (Index.of f root).Attests f id := by
  have root_eq : (Index.of f root).root = root := root_recordBelow _ f root
  refine ⟨?_,?_⟩
  · intro n c path here _
    rw [root_eq] at path
    have edge : (c,n) ∈ (Index.of f root).parents := by
      rw [Index.of,parents_recordBelow,List.append_nil,List.mem_reverse,mem_edges]
      exact ⟨(mem_tree_iff sorted).mpr path,here⟩
    cases found : (Index.of f root).parents.find? (·.1 == c) with
    | none => exact absurd (List.find?_eq_none.mp found _ edge) (by simp)
    | some entry =>
      have member := List.mem_of_find?_eq_some found
      have key := eq_of_beq (List.find?_some (p := fun entry : NodeId × NodeId => entry.1 == c) found)
      rw [Index.of,parents_recordBelow,List.append_nil,List.mem_reverse,mem_edges] at member
      rw [parent?,found,Option.map_some,
        branching.parent_eq entry.2 n c (key ▸ member.2) here]
  · intro n c _ _ _ detached
    rw [Index.of,mem_detached_recordBelow] at detached
    simp at detached

end MailMerge.Index

/-! What remains of a tree while work goes on in it. The elements that were there at the beginning keep
their order below one another, and one of them leaves its place only as a paragraph that meets a fate or
as a shading or a row; what is new stands apart from them, and where it brings a paragraph, a paragraph
has met its fate.
-/
namespace MailMerge
open Xml Docx Forest Relation

/-- A paragraph is an element or below it. -/
def Forest.Bears (f : Forest) (id : NodeId) : Prop :=
  ∃ p, f.Below id p ∧ f.name p = paragraphName

namespace Plot

/-- What remains of a tree when some paragraphs may have met their fates. -/
structure Remains (part : String) (start : Plot) (met : NodeId → Prop) (v : Plot) : Prop where
  origin : start.grove.Orderly
  orderly : v.grove.Orderly
  later : Grove.Later start.grove v.grove
  root_eq : v.index.root = start.index.root
  fresh : ∀ n child : NodeId, v.grove.Within part n → start.forest.nodes.size ≤ n →
    child ∈ v.forest.children n → start.forest.nodes.size ≤ child
  fewer : ∀ n, start.grove.Within part n →
    ((v.forest.children n).filter (decide <| · < start.forest.nodes.size)).Sublist
      (start.forest.children n)
  causes : ∀ n c, start.grove.Within part n → c ∈ start.forest.children n →
    c ∉ v.forest.children n → met c ∨ start.forest.Spare n c
  bearing : ∀ n c : NodeId, start.grove.Within part n → c ∈ v.forest.children n →
    start.forest.nodes.size ≤ c → v.forest.Bears c → ∃ q, met q ∧ q ∈ start.forest.children n
  known : ∀ n c : NodeId, start.grove.Within part n → c ∈ v.forest.children n →
    c < start.forest.nodes.size → v.index.parent? c = start.index.parent? c ∧
      (c ∈ v.index.detached ↔ c ∈ start.index.detached)

variable {part : String} {start v v' : Plot} {met met' : NodeId → Prop}

/-- Everything remains at the beginning. -/
theorem remains_self (orderly : start.grove.Orderly) (met : NodeId → Prop) :
    Remains part start met start where
  origin := orderly
  orderly := orderly
  later := Grove.Later.refl _
  root_eq := rfl
  fresh _ _ within new _ := absurd within.1 (Nat.not_lt.mpr new)
  fewer _ _ := List.filter_sublist
  causes _ _ _ here gone := absurd here gone
  bearing n c _ here new _ := absurd (orderly.branching.below n c here) (Nat.not_lt.mpr new)
  known _ _ _ _ _ := ⟨rfl,Iff.rfl⟩

namespace Remains

/-- What is left of the old children of an element was there. -/
theorem old (remains : Remains part start met v) {n c : NodeId} (within : start.grove.Within part n)
    (here : c ∈ v.forest.children n) (old : c < start.forest.nodes.size) :
    c ∈ start.forest.children n :=
  (remains.fewer n within).subset (List.mem_filter.mpr ⟨here,decide_eq_true old⟩)

end Remains

/-- What a step does to the children of an element. -/
structure Effect (base : Nat) (met : NodeId → Prop) (v v' : Plot) (n : NodeId) : Prop where
  fewer : ((v'.forest.children n).filter (decide <| · < base)).Sublist
    ((v.forest.children n).filter (decide <| · < base))
  gone : ∀ c ∈ v.forest.children n, c ∉ v'.forest.children n → met c ∨ v.forest.Spare n c
  came : ∀ c : NodeId, c ∈ v'.forest.children n → c ∈ v.forest.children n ∨
    (v.forest.nodes.size ≤ c ∧
      ∀ m : NodeId, v.forest.nodes.size ≤ m → v'.forest.name m ≠ paragraphName) ∨
        (base ≤ c ∧ ∃ q, met q ∧ q ∈ v.forest.children n)
  known : ∀ c : NodeId, c ∈ v'.forest.children n → c < base →
    v'.index.parent? c = v.index.parent? c ∧ (c ∈ v'.index.detached ↔ c ∈ v.index.detached)

section
variable {base : Nat} {n : NodeId}

private theorem effect_of_children_eq (same : v'.forest.children n = v.forest.children n)
    (known : ∀ c : NodeId, c ∈ v.forest.children n → c < base →
      v'.index.parent? c = v.index.parent? c ∧ (c ∈ v'.index.detached ↔ c ∈ v.index.detached)) :
    Effect base met v v' n where
  fewer := by rw [same]
  gone c here gone := absurd (same ▸ here) gone
  came c here := Or.inl (same ▸ here)
  known c here := known c (same ▸ here)

theorem Change.effect (change : Change part ⟨base,fun q _ => met q⟩ v v')
    (branching : v.forest.Branching) (based : base ≤ v.forest.nodes.size)
    (within : v.grove.Within part n) : Effect base met v v' n := by
  cases change with
  | still same index_eq =>
    exact effect_of_children_eq (same n within) fun _ _ _ => by simp [index_eq]
  | @grown parent new before after inside split now elsewhere later plain front index_eq =>
    by_cases here : n = parent
    · subst here
      refine ⟨?_,?_,?_,fun _ _ _ => by simp [index_eq]⟩
      · rw [now,split]
        simp [Nat.not_lt.mpr (Nat.le_trans based later)]
      · intro c member gone
        rw [split,List.mem_append] at member
        rw [now,List.mem_append,List.mem_cons] at gone
        tauto
      · intro c member
        rw [now,List.mem_append,List.mem_cons] at member
        rw [split,List.mem_append]
        rcases member with member | rfl | member
        · exact Or.inl (Or.inl member)
        · exact Or.inr (Or.inl ⟨later,plain⟩)
        · exact Or.inl (Or.inr member)
    · exact effect_of_children_eq (elsewhere n within here) fun _ _ _ => by simp [index_eq]
  | @taken parent child inside spare now elsewhere apart listed =>
    have known (c : NodeId) (here : c ∈ v'.forest.children n) (small : c < base) :
        v'.index.parent? c = v.index.parent? c ∧
          (c ∈ v'.index.detached ↔ c ∈ v.index.detached) := by
      rcases listed with listed | index_eq
      · have other : c ≠ child := by
          rintro rfl
          by_cases same : n = parent
          · subst same
            rw [now] at here
            exact (branching.nodup n).not_mem_erase here
          · rw [elsewhere n within same] at here
            exact same (branching.parent_eq n parent c here listed)
        exact ⟨apart.parent?_eq c small other,apart.mem_detached c small other⟩
      · simp [index_eq]
    by_cases here : n = parent
    · subst here
      refine ⟨?_,?_,?_,known⟩
      · rw [now]
        exact List.erase_sublist.filter _
      · intro c member gone
        rw [now] at gone
        obtain rfl : c = child := by
          by_contra other
          exact gone ((List.mem_erase_of_ne other).mpr member)
        exact Or.inr spare
      · intro c member
        rw [now] at member
        exact Or.inl (List.mem_of_mem_erase member)
    · exact effect_of_children_eq (elsewhere n within here) fun c member =>
        known c (elsewhere n within here ▸ member)
  | @met fate q parent before after may inside kind split left elsewhere apart =>
    have nodup := branching.nodup parent
    rw [split] at nodup
    have apart_q (c : NodeId) (small : c < base) (other : c ≠ q) :=
      And.intro (apart.parent?_eq c small other) (apart.mem_detached c small other)
    by_cases here : n = parent
    · subst here
      have absent : q ∉ before ++ after :=
        (List.nodup_cons.mp (List.perm_middle.nodup_iff.mp nodup)).1
      refine ⟨?_,?_,?_,?_⟩
      · rw [left.filter_eq,split]
        exact (List.Sublist.append_left (List.sublist_cons_self q after) before).filter _
      · intro c member gone
        rw [split,List.mem_append,List.mem_cons] at member
        have stays (kept : c ∈ before ∨ c ∈ after) := left.subset (List.mem_append.mpr kept)
        rcases member with member | rfl | member
        · exact absurd (stays (Or.inl member)) gone
        · exact Or.inl may
        · exact absurd (stays (Or.inr member)) gone
      · intro c member
        rcases left.mem member with former | new
        · refine Or.inl ?_
          rw [split,List.mem_append,List.mem_cons]
          exact (List.mem_append.mp former).imp_right Or.inr
        · exact Or.inr (Or.inr ⟨new,q,may,split ▸ List.mem_append_right _ List.mem_cons_self⟩)
      · intro c member small
        apply apart_q c small
        rintro rfl
        rcases left.mem member with former | new
        · exact absent former
        · exact Nat.not_lt.mpr new small
    · refine effect_of_children_eq (elsewhere n within here) fun c member small => apart_q c small ?_
      rintro rfl
      exact here (branching.parent_eq n parent c member
        (split ▸ List.mem_append_right _ List.mem_cons_self))

end

namespace Remains

variable (remains : Remains part start met v)
include remains

theorem based : start.forest.nodes.size ≤ v.forest.nodes.size :=
  remains.later.size_le

/-- New elements have new children, so what has an old child is old. -/
theorem old_parent {n c : NodeId} (within : v.grove.Within part n) (here : c ∈ v.forest.children n)
    (old : c < start.forest.nodes.size) : start.grove.Within part n := by
  have small : n < start.forest.nodes.size := by
    by_contra large
    exact Nat.not_lt.mpr (remains.fresh n c within (Nat.not_lt.mp large) here) old
  exact ⟨small,(remains.later.owner_eq n small).symm.trans within.2⟩

/-- What is below a new element is new. -/
theorem new_of_below {n c : NodeId} (within : v.grove.Within part n)
    (new : start.forest.nodes.size ≤ n) (path : v.forest.Below n c) :
    start.forest.nodes.size ≤ c := by
  have sorted := remains.orderly.sorted
  induction path with
  | refl => exact new
  | @tail m c path here ih =>
    exact remains.fresh m c (sorted.within_tree within ((mem_tree_iff sorted).mpr path)) ih here

/-- A path to an old element is a path at the beginning. -/
theorem below_old {n c : NodeId} (within : v.grove.Within part n) (path : v.forest.Below n c)
    (old : c < start.forest.nodes.size) : start.forest.Below n c := by
  have sorted := remains.orderly.sorted
  induction path with
  | refl => exact ReflTransGen.refl
  | @tail m c path here ih =>
    have within_m := sorted.within_tree within ((mem_tree_iff sorted).mpr path)
    have old_m := remains.old_parent within_m here old
    exact (ih old_m.1).tail (remains.old old_m here old)

section
variable (stir : Stir part ⟨start.forest.nodes.size,fun q _ => met q⟩ v v')
  (small : ∀ q, met q → q < start.forest.nodes.size)
include stir

private theorem effect {n : NodeId} (within : v.grove.Within part n) :
    Effect start.forest.nodes.size met v v' n :=
  stir.change.effect remains.orderly.branching remains.based within

omit remains in
private theorem new_of_new {c p : NodeId} (new : v.forest.nodes.size ≤ c)
    (path : v'.forest.Below c p) : v.forest.nodes.size ≤ p := by
  induction path with
  | refl => exact new
  | tail _ here ih => exact stir.fresh _ _ ih here

include small

/-- A paragraph that stands below a new element after a step stood there before, as no paragraph meets
its fate below new elements. -/
private theorem bears_of_stir {c : NodeId} (within : v.grove.Within part c)
    (new : start.forest.nodes.size ≤ c) (bears : v'.forest.Bears c) : v.forest.Bears c := by
  obtain ⟨p,path,kind⟩ := bears
  have reached : (v.forest.Below c p ∧ v.grove.Within part p ∧ start.forest.nodes.size ≤ p) ∨
      (v.forest.nodes.size ≤ p ∧
        ∀ m : NodeId, v.forest.nodes.size ≤ m → v'.forest.name m ≠ paragraphName) := by
    clear kind
    induction path with
    | refl => exact Or.inl ⟨ReflTransGen.refl,within,new⟩
    | @tail m p _ here ih =>
      rcases ih with ⟨path,within_m,new_m⟩ | ⟨large,plain⟩
      · rcases (remains.effect stir within_m).came p here with former | planted | ⟨_,q,met,member⟩
        · exact Or.inl ⟨path.tail former,remains.orderly.sorted.within_child within_m former,
            remains.fresh m p within_m new_m former⟩
        · exact Or.inr planted
        · exact absurd (remains.fresh m q within_m new_m member) (Nat.not_le.mpr (small q met))
      · exact Or.inr ⟨stir.fresh m p large here,plain⟩
  rcases reached with ⟨path,within_p,_⟩ | ⟨large,plain⟩
  · exact ⟨p,path,(stir.later.name_eq p within_p.1).symm.trans kind⟩
  · exact absurd kind (plain p large)

/-- Work leaves of a tree what remains of it. -/
theorem step (orderly' : v'.grove.Orderly) :
    Remains part start met v' := by
  have effect {n : NodeId} (within : start.grove.Within part n) :=
    remains.effect stir (remains.later.within within)
  refine ⟨remains.origin,orderly',remains.later.trans stir.later,stir.root_eq.trans remains.root_eq,
    ?_,?_,?_,?_,?_⟩
  · intro n child within new here
    by_cases planted : v.forest.nodes.size ≤ n
    · exact Nat.le_trans remains.based (stir.fresh n child planted here)
    have inside : n < v.forest.nodes.size := Nat.not_le.mp planted
    have within_v : v.grove.Within part n := ⟨inside,(stir.later.owner_eq n inside).symm.trans within.2⟩
    rcases (remains.effect stir within_v).came child here with former | ⟨large,_⟩ | ⟨new',_⟩
    · exact remains.fresh n child within_v new former
    · exact Nat.le_trans remains.based large
    · exact new'
  · intro n within
    refine List.Sublist.trans ?_ (remains.fewer n within)
    exact (effect within).fewer
  · intro n c within here gone
    by_cases stayed : c ∈ v.forest.children n
    · refine ((effect within).gone c stayed gone).imp_right fun spare => ?_
      have old := remains.origin.branching.below n c here
      have name_n : v.forest.name n = start.forest.name n := remains.later.name_eq n within.1
      have name_c : v.forest.name c = start.forest.name c := remains.later.name_eq c old
      rwa [Spare,name_n,name_c] at spare
    · exact remains.causes n c within here stayed
  · intro n c within here new bears
    rcases (effect within).came c here with former | ⟨large,plain⟩ | ⟨_,q,met,member⟩
    · exact remains.bearing n c within former new (remains.bears_of_stir stir small
        (remains.orderly.sorted.within_child (remains.later.within within) former) new bears)
    · obtain ⟨p,path,kind⟩ := bears
      exact absurd kind (plain p (new_of_new stir large path))
    · exact ⟨q,met,remains.old within member (small q met)⟩
  · intro n c within here old
    obtain ⟨parent_eq,detached_iff⟩ := (effect within).known c here old
    rcases (effect within).came c here with former | ⟨large,_⟩ | ⟨new,_⟩
    · obtain ⟨parent_eq',detached_iff'⟩ := remains.known n c within former old
      exact ⟨parent_eq.trans parent_eq',detached_iff.trans detached_iff'⟩
    · exact absurd old (Nat.not_lt.mpr (Nat.le_trans remains.based large))
    · exact absurd old (Nat.not_lt.mpr new)

end

/-- A paragraph that is outside a table stood there at the beginning, or one that stood there has met
its fate. -/
theorem clear_start {a p : NodeId} (within : start.grove.Within part a)
    (clear : v.forest.Clear tableName a p) (kind : v.forest.name p = paragraphName) :
    (p < start.forest.nodes.size ∧ start.forest.Clear tableName a p) ∨
      ∃ q, met q ∧ start.forest.Clear tableName a q := by
  induction clear with
  | @child a p here =>
    by_cases old : p < start.forest.nodes.size
    · exact Or.inl ⟨old,.child (remains.old within here old)⟩
    · obtain ⟨q,met,member⟩ := remains.bearing a p within here (Nat.not_lt.mp old)
        ⟨p,ReflTransGen.refl,kind⟩
      exact Or.inr ⟨q,met,.child member⟩
  | @step a m p here passed clear ih =>
    by_cases old : m < start.forest.nodes.size
    · have here' : start.forest.Child a m := remains.old within here old
      have name_eq : v.forest.name m = start.forest.name m := remains.later.name_eq m old
      rw [name_eq] at passed
      rcases ih (remains.origin.sorted.within_child within here') kind with
        ⟨old_p,clear⟩ | ⟨q,met,clear⟩
      · exact Or.inl ⟨old_p,.step here' passed clear⟩
      · exact Or.inr ⟨q,met,.step here' passed clear⟩
    · obtain ⟨q,met,member⟩ := remains.bearing a m within here (Nat.not_lt.mp old)
        ⟨p,clear.path,kind⟩
      exact Or.inr ⟨q,met,.child member⟩

/-- What was outside a boundary still is, or a child above it has left its place. -/
theorem clear_or_cut {boundary : Name} {a p : NodeId} (within : start.grove.Within part a)
    (clear : start.forest.Clear boundary a p) : v.forest.Clear boundary a p ∨
      ∃ n c, start.forest.Below a n ∧ start.forest.Child n c ∧ start.forest.Below c p ∧
        c ∉ v.forest.children n := by
  induction clear with
  | @child a p here =>
    by_cases stays : p ∈ v.forest.children a
    · exact Or.inl (.child stays)
    · exact Or.inr ⟨a,p,ReflTransGen.refl,here,ReflTransGen.refl,stays⟩
  | @step a m p here passed clear ih =>
    by_cases stays : m ∈ v.forest.children a
    · have name_eq : v.forest.name m = start.forest.name m :=
        remains.later.name_eq m (remains.origin.branching.below a m here)
      rcases ih (remains.origin.sorted.within_child within here) with
        clear | ⟨n,c,path,here',path',gone⟩
      · exact Or.inl (.step stays (name_eq ▸ passed) clear)
      · exact Or.inr ⟨n,c,path.head here,here',path',gone⟩
    · exact Or.inr ⟨a,m,ReflTransGen.refl,here,clear.path,stays⟩

/-- What is below a child that left its place is no longer in the tree. -/
theorem not_below {r n c p : NodeId} (within : start.grove.Within part r)
    (path : start.forest.Below r n) (here : start.forest.Child n c)
    (path' : start.forest.Below c p) (gone : c ∉ v.forest.children n) : ¬v.forest.Below r p := by
  have sorted := remains.origin.sorted
  have branching := remains.origin.branching
  have old_p : p < start.forest.nodes.size := by
    rcases ReflTransGen.cases_tail path' with rfl | ⟨m,_,last⟩
    · exact branching.below n _ here
    · exact branching.below m _ last
  have higher : start.grove.level r < start.grove.level c :=
    Nat.lt_of_le_of_lt (sorted.le_of_below path) (sorted.below n c here).2.2
  -- the last step of a path there would be a step at the beginning
  have last_step {p : NodeId} (old : p < start.forest.nodes.size) (lower : start.forest.Below c p)
      (found : v.forest.Below r p) : ∃ m, v.forest.Below r m ∧ p ∈ v.forest.children m ∧
        start.forest.Child m p := by
    rcases ReflTransGen.cases_tail found with rfl | ⟨m,found,last⟩
    · exact absurd (sorted.le_of_below lower) (Nat.not_le.mpr higher)
    · have within_m := remains.orderly.sorted.within_tree (remains.later.within within)
        ((mem_tree_iff remains.orderly.sorted).mpr found)
      exact ⟨m,found,last,remains.old (remains.old_parent within_m last old) last old⟩
  induction path' with
  | refl =>
    intro found
    obtain ⟨m,_,stays,last⟩ := last_step old_p ReflTransGen.refl found
    exact gone (branching.parent_eq m n c last here ▸ stays)
  | @tail m p path' last ih =>
    intro found
    obtain ⟨m',found,_,last'⟩ := last_step old_p (path'.tail last) found
    obtain rfl := branching.parent_eq m' m p last' last
    refine ih ?_ found
    rcases ReflTransGen.cases_tail path' with rfl | ⟨k,_,step⟩
    · exact branching.below n _ here
    · exact branching.below k _ step

/-- The index goes on to know the paths down to what was there at the beginning. -/
theorem attests {t : NodeId} (attests : start.index.Attests start.forest t)
    (within : start.grove.Within part start.index.root) (old : t < start.forest.nodes.size) :
    v.index.Attests v.forest t := by
  have sorted := remains.orderly.sorted
  have within_v := remains.later.within within
  have known {n c : NodeId} (path : v.forest.Below v.index.root n) (here : v.forest.Child n c)
      (path' : v.forest.Below c t) : (v.index.parent? c = some n) ∧ c ∉ v.index.detached := by
    rw [remains.root_eq] at path
    have within_n := sorted.within_tree within_v ((mem_tree_iff sorted).mpr path)
    have within_c := sorted.within_child within_n here
    have old_c : c < start.forest.nodes.size := by
      by_contra large
      exact Nat.not_lt.mpr (remains.new_of_below within_c (Nat.not_lt.mp large) path') old
    have old_n := remains.old_parent within_n here old_c
    obtain ⟨parent_eq,detached_iff⟩ := remains.known n c old_n here old_c
    have path_start := remains.below_old within_v path old_n.1
    have here_start : start.forest.Child n c := remains.old old_n here old_c
    have path_start' := remains.below_old within_c path' old
    exact ⟨parent_eq.trans (attests.parent?_eq n c path_start here_start path_start'),
      fun detached => attests.not_detached n c path_start here_start path_start'
        (detached_iff.mp detached)⟩
  exact ⟨fun n c path here path' => (known path here path').1,
    fun n c path here path' => (known path here path').2⟩

end Remains

end Plot
end MailMerge
