import MailMerge.Proofs.Generation.ParallelTables
import MailMerge.Proofs.Generation.Steps
import MailMerge.Proofs.Tree.Current

/-! Tables in the cells of a table. What stands in such a table, in a cell after the first of its row, has no part in
how the table around it is filled: with other contents there the same rows are bound, dropped and styled and the same
outcomes recorded, and the texts there stay. In the first cell of a row it is different: the directives of the row are
looked for in all of that cell, nested tables included.
-/
namespace MailMerge
open Xml Docx Forest Package Relation

/-- A table that is nested in another one: it stands in a cell after the first of a row, and in no paragraph. -/
def Table.Aside (f : Forest) (table c : NodeId) : Prop :=
  ∃ row ∈ rows f table, ∃ cell ∈ (f.childrenNamed row cellName).drop 1, c ∈ f.outside cell tableName paragraphName

namespace Forest

/-- An element that stands in none of some tables. -/
def Out (f : Forest) (tables : List NodeId) (n : NodeId) : Prop :=
  n < f.nodes.size ∧ ∀ c ∈ tables, ¬ TransGen f.Child c n

/-- Some tables hold other things, and everything else is the same. -/
structure Refills (f : Forest) (tables : List NodeId) (g : Forest) : Prop where
  size_le : f.nodes.size ≤ g.nodes.size
  face : ∀ n, f.Out tables n → g.node n = { f.node n with children := g.children n }
  children : ∀ n, f.Out tables n → n ∉ tables → g.children n = f.children n
  above : ∀ n c, g.Child n c → f.Out tables c → f.Out tables n ∧ n ∉ tables

/-- The forest in which some tables hold nothing. -/
def emptied (f : Forest) (tables : List NodeId) : Forest :=
  tables.foldl (fun f c => f.updateChildren c fun _ => []) f

/-- What some tables held is still in them, with the texts it had. -/
structure Untouched (tables : List NodeId) (f f' : Forest) : Prop where
  texts : ∀ c ∈ tables, ∀ n, f.Below c n → f'.text n = f.text n
  held : ∀ c ∈ tables, ∀ n, f.Below c n → (f'.children n).filter (· < f.nodes.size) = f.children n

theorem size_emptied (f : Forest) (tables : List NodeId) : (f.emptied tables).nodes.size = f.nodes.size := by
  induction tables generalizing f with
  | nil => rfl
  | cons c tables ih =>
    rw [emptied,List.foldl_cons,← emptied,ih]
    exact size_update ..

theorem node_emptied (f : Forest) (tables : List NodeId) (n : NodeId) : (f.emptied tables).node n =
    if n ∈ tables then { f.node n with children := [] } else f.node n := by
  induction tables generalizing f with
  | nil => rfl
  | cons c tables ih =>
    rw [emptied,List.foldl_cons,← emptied,ih,updateChildren,node_update]
    by_cases later : n ∈ tables
    · simp only [later,List.mem_cons,or_true,if_true]
      split <;> rfl
    · by_cases here : n = c
      · subst here
        by_cases inside : n < f.nodes.size
        · simp [inside,later]
        · simp [inside,later,node_of_size_le f (Nat.le_of_not_lt inside)]
      · simp [here,later]

theorem Acyclic.emptied {f : Forest} (acyclic : f.Acyclic) (tables : List NodeId) : (f.emptied tables).Acyclic := by
  refine acyclic.fewer (f.size_emptied tables) fun n c here => ?_
  rw [Child,Forest.children,node_emptied] at here
  split at here
  · exact absurd here List.not_mem_nil
  · exact here

/-- Without what is in the tables that are passed over, paired elements are the same. -/
theorem Twins.element_emptied {scene : Scene} {pair : Pairing} {f g : Forest} (twins : Twins scene pair f g)
    {a b : NodeId} (met : pair .alike a b) :
    (g.emptied scene.tables).element b = (f.emptied scene.tables).element a := by
  obtain ⟨level,sorted⟩ := (twins.left.acyclic.emptied scene.tables).sorted
  obtain ⟨level',sorted'⟩ := (twins.right.acyclic.emptied scene.tables).sorted
  revert b
  refine sorted.induction (motive := fun a => ∀ {b}, pair .alike a b →
    (g.emptied scene.tables).element b = (f.emptied scene.tables).element a) (fun a ih b met => ?_) a
  have face := twins.face a b met
  rw [element_eq sorted,element_eq sorted',Forest.children,Forest.children,node_emptied,node_emptied]
  by_cases closed : a ∈ scene.tables
  · rw [if_pos closed,if_pos ((twins.passed_iff a b met).mp closed),face]
    rfl
  · rw [if_neg closed,if_neg fun closed' => closed ((twins.passed_iff a b met).mpr closed')]
    have below := twins.children .alike a b met closed
    have same : (g.children b).map (g.emptied scene.tables).element =
        (f.children a).map (f.emptied scene.tables).element := by
      have each : ∀ c ∈ f.children a, ∀ d, pair .alike c d →
          (g.emptied scene.tables).element d = (f.emptied scene.tables).element c := by
        intro c here d met
        refine ih c ?_ met
        rwa [Forest.children,node_emptied,if_neg closed]
      generalize f.children a = cs,g.children b = ds at below each
      induction below with
      | nil => rfl
      | cons here _ ih =>
        obtain ⟨first,rest⟩ := List.forall_mem_cons.mp each
        rw [List.map_cons,List.map_cons,first _ here,ih rest]
    rw [show (g.node b).children = g.children b from rfl,show (f.node a).children = f.children a from rfl,same,face]

section
variable {f g : Forest} {tables : List NodeId} {n c : NodeId}

theorem Out.up (out : f.Out tables c) (here : f.Child n c) : f.Out tables n ∧ n ∉ tables :=
  ⟨⟨f.lt_size_of_child here,fun t member path => out.2 t member (path.tail here)⟩,
    fun member => out.2 n member (TransGen.single here)⟩

/-- Tables may hold nothing. -/
theorem refills_emptied (f : Forest) (tables : List NodeId) : f.Refills tables (f.emptied tables) where
  size_le := (f.size_emptied tables).ge
  face n _ := by
    rw [Forest.children,node_emptied]
    split <;> rfl
  children n _ passed := by rw [Forest.children,node_emptied,if_neg passed,Forest.children]
  above n c here out := by
    rw [Child,Forest.children,node_emptied] at here
    split at here
    · exact absurd here List.not_mem_nil
    · exact out.up here

variable (branching : f.Branching)
include branching

theorem Out.down (out : f.Out tables n) (passed : n ∉ tables) (here : f.Child n c) : f.Out tables c := by
  refine ⟨branching.below n c here,fun t member path => ?_⟩
  obtain ⟨m,path,last⟩ := TransGen.tail'_iff.mp path
  obtain rfl := branching.parent_eq m n c last here
  rcases reflTransGen_iff_eq_or_transGen.mp path with rfl | path
  · exact passed member
  · exact out.2 t member path

variable {α : Type} {owner : NodeId → α} {level : NodeId → Nat} (sorted : f.Sorted owner level)
include sorted

/-- What is on the way of a clear path is no boundary. -/
theorem Clear.passed {boundary : Name} {id a : NodeId} (clear : f.Clear boundary id n)
    (above : TransGen f.Child id a) (path : f.Below a n) (other : a ≠ n) : f.name a ≠ boundary := by
  induction clear with
  | @child id n here =>
    obtain ⟨m,first,rest⟩ := TransGen.head'_iff.mp above
    obtain rfl := child_unique sorted branching first here (rest.trans path) ReflTransGen.refl
    rcases reflTransGen_iff_eq_or_transGen.mp rest with same | rest
    · exact absurd same other
    · exact absurd (rest.trans_left path) (sorted.acyclic.irrefl _)
  | @step id m n here passed clear ih =>
    obtain ⟨m',first,rest⟩ := TransGen.head'_iff.mp above
    obtain rfl := child_unique sorted branching first here (rest.trans path) clear.path
    rcases reflTransGen_iff_eq_or_transGen.mp rest with rfl | rest
    · exact passed
    · exact ih rest path other

end
end Forest

namespace Table.Aside

variable {f : Forest} {table c : NodeId} {α : Type} {owner : NodeId → α} {level : NodeId → Nat}
  (aside : Aside f table c) (sorted : f.Sorted owner level)
include aside sorted

theorem name_eq : f.name c = tableName := by
  obtain ⟨row,-,cell,-,listed⟩ := aside
  exact ((mem_outside_iff sorted).mp listed).1

theorem transGen : TransGen f.Child table c := by
  obtain ⟨row,rowed,cell,celled,listed⟩ := aside
  have first : f.Child table row := List.mem_of_mem_filter rowed
  have second : f.Child row cell := List.mem_of_mem_filter (List.mem_of_mem_drop celled)
  exact (((mem_outside_iff sorted).mp listed).2.transGen.head second).head first

variable (branching : f.Branching)
include branching

/-- The table is in no paragraph of the table around it. -/
theorem not_paragraph {a : NodeId} (inside : f.Below table a) (kind : f.name a = paragraphName)
    (outer : f.name table ≠ paragraphName) : ¬ f.Below a c := by
  intro path
  have named := aside.name_eq sorted
  obtain ⟨row,rowed,cell,celled,listed⟩ := aside
  obtain ⟨first,row_name⟩ := List.mem_filter.mp rowed
  obtain ⟨second,cell_name⟩ := List.mem_filter.mp (List.mem_of_mem_drop celled)
  have clear := ((mem_outside_iff sorted).mp listed).2
  have other : a ≠ c := fun same => absurd (named.symm.trans (same ▸ kind)) (by decide)
  -- the way from the table to the nested one leads through the row and the cell
  rcases reflTransGen_iff_eq_or_transGen.mp inside with rfl | inside
  · exact outer kind
  obtain ⟨m,here,rest⟩ := TransGen.head'_iff.mp inside
  obtain rfl := child_unique sorted branching here first (rest.trans path) ((ReflTransGen.single second).trans clear.path)
  rcases reflTransGen_iff_eq_or_transGen.mp rest with rfl | rest
  · exact absurd (kind.symm.trans (eq_of_beq row_name)) (by decide)
  obtain ⟨m,here,rest⟩ := TransGen.head'_iff.mp rest
  obtain rfl := child_unique sorted branching here second (rest.trans path) clear.path
  rcases reflTransGen_iff_eq_or_transGen.mp rest with rfl | rest
  · exact absurd (kind.symm.trans (eq_of_beq cell_name)) (by decide)
  · exact clear.passed branching sorted rest path other kind

/-- The table is in no first cell. -/
theorem not_first {row first : NodeId} (listed : row ∈ rows f table)
    (found : f.childNamed? row cellName = some first) : ¬ f.Below first c := by
  intro path
  obtain ⟨row',rowed,cell,celled,listed'⟩ := aside
  have clear := ((mem_outside_iff sorted).mp listed').2
  have here : f.Child row first := List.mem_of_find?_eq_some found
  have here' : f.Child row' cell := List.mem_of_mem_filter (List.mem_of_mem_drop celled)
  obtain rfl := child_unique sorted branching (List.mem_of_mem_filter listed) (List.mem_of_mem_filter rowed)
    ((ReflTransGen.single here).trans path) ((ReflTransGen.single here').trans clear.path)
  obtain rfl := child_unique sorted branching here here' path clear.path
  -- the first cell is not among the later ones
  have nodup : (f.childrenNamed row cellName).Nodup := (branching.nodup row).filter _
  have head : (f.childrenNamed row cellName).head? = some first := by
    rw [childrenNamed,List.head?_filter]
    exact found
  cases cells : f.childrenNamed row cellName with
  | nil => simp [cells] at head
  | cons x xs =>
    rw [cells] at nodup celled head
    obtain rfl : x = first := Option.some.inj head
    exact (List.nodup_cons.mp nodup).1 celled

end Table.Aside

namespace Table

/-- A table of a tree, with some of the tables that are nested in it. -/
structure Nest (f : Forest) (root table : NodeId) (tables : List NodeId) : Prop where
  inside : TransGen f.Child root table
  kind : f.name table = tableName
  aside : ∀ c ∈ tables, Aside f table c

/-- The elements outside of the nested tables are paired with themselves. -/
def same (f : Forest) (root table : NodeId) (tables : List NodeId) : Pairing := fun k a b =>
  a = b ∧ f.Out tables a ∧ match k with
    | .alike => True
    | .known => f.Below root a
    | .inner => f.Below table a
    | .whole => ∀ c ∈ tables, ¬ f.Below a c

/-- The nested tables are passed over, and the rows of the table around them keep their cells. -/
def scene (f g : Forest) (table : NodeId) (tables : List NodeId) : Scene :=
  ⟨tables,(· ∈ rows f table),f,g⟩

namespace Nest

variable {f g : Forest} {root table row n : NodeId} {tables : List NodeId} (nest : Nest f root table tables)
  (acyclic : f.Acyclic) (branching : f.Branching)
include nest acyclic branching

theorem out_of_below (path : f.Below n table) : f.Out tables n ∧ n ∉ tables := by
  obtain ⟨level,sorted⟩ := acyclic.sorted
  obtain ⟨m,-,last⟩ := TransGen.tail'_iff.mp nest.inside
  have out : f.Out tables table := ⟨branching.below m table last,fun c member cycle =>
    acyclic.irrefl c (cycle.trans ((nest.aside c member).transGen sorted))⟩
  have open' : table ∉ tables := fun member => acyclic.irrefl table ((nest.aside table member).transGen sorted)
  induction path using ReflTransGen.head_induction_on with
  | refl => exact ⟨out,open'⟩
  | head here _ ih => exact ih.1.up here

theorem out_row (listed : row ∈ rows f table) : f.Out tables row ∧ row ∉ tables := by
  obtain ⟨level,sorted⟩ := acyclic.sorted
  obtain ⟨out,open'⟩ := nest.out_of_below acyclic branching ReflTransGen.refl
  obtain ⟨here,kind⟩ := List.mem_filter.mp listed
  refine ⟨out.down branching open' here,fun member => ?_⟩
  exact absurd (((nest.aside row member).name_eq sorted).symm.trans (eq_of_beq kind)) (by decide)

/-- The tree around the nested tables. -/
private theorem left : Side tables (· ∈ rows f table) (fun a => ∃ b, same f root table tables .alike a b) f f where
  acyclic := acyclic
  size_le := Nat.le_refl _
  names _ _ := rfl
  inside a met := met.elim fun b met => met.2.1.1
  up n c here met := met.elim fun b met => (met.2.1.up here).imp_left fun out => ⟨n,rfl,out,trivial⟩
  apart c member n path := by
    obtain ⟨level,sorted⟩ := acyclic.sorted
    rcases reflTransGen_iff_eq_or_transGen.mp path with rfl | path
    · obtain ⟨m,-,last⟩ := TransGen.tail'_iff.mp ((nest.aside n member).transGen sorted)
      exact ⟨branching.below m n last,fun _ => member⟩
    · obtain ⟨m,-,last⟩ := TransGen.tail'_iff.mp path
      exact ⟨branching.below m n last,fun met => met.elim fun b met => absurd path (met.2.1.2 c member)⟩
  texts _ _ _ _ := rfl
  held c member n path := List.filter_eq_self.mpr fun c here => by simpa using acyclic.inside n c here
  fixed_lt n listed := (nest.out_row acyclic branching listed).1.1
  fixed_row n listed := eq_of_beq (List.mem_filter.mp listed).2
  fixed_eq _ _ := rfl

variable (refills : f.Refills tables g)
include refills

omit nest acyclic branching in
private theorem name_eq (out : f.Out tables n) : g.name n = f.name n := by
  rw [Forest.name,refills.face n out,Forest.name]

variable (acyclic' : g.Acyclic)
include acyclic'

/-- The same tree around other nested tables. -/
private theorem right :
    Side tables (· ∈ rows f table) (fun b => ∃ a, same f root table tables .alike a b) g g where
  acyclic := acyclic'
  size_le := Nat.le_refl _
  names _ _ := rfl
  inside b met := by
    obtain ⟨_,rfl,out,-⟩ := met
    exact Nat.lt_of_lt_of_le out.1 refills.size_le
  up n c here met := by
    obtain ⟨_,rfl,out,-⟩ := met
    exact (refills.above n _ here out).imp_left fun out => ⟨n,rfl,out,trivial⟩
  apart c member n path := by
    have listed_lt := ((nest.left acyclic branching).table_lt member).trans_le refills.size_le
    induction path with
    | refl => exact ⟨listed_lt,fun _ => member⟩
    | @tail m n path here ih =>
      refine ⟨acyclic'.inside m n here,?_⟩
      rintro ⟨_,rfl,out,-⟩
      obtain ⟨out,passed⟩ := refills.above m _ here out
      exact absurd (ih.2 ⟨m,rfl,out,trivial⟩) passed
  texts _ _ _ _ := rfl
  held c member n path := List.filter_eq_self.mpr fun c here => by simpa using acyclic'.inside n c here
  fixed_lt n listed := (nest.out_row acyclic branching listed).1.1.trans_le refills.size_le
  fixed_row n listed := by
    have out := (nest.out_row acyclic branching listed).1
    exact (name_eq refills out).trans (eq_of_beq (List.mem_filter.mp listed).2)
  fixed_eq _ _ := rfl

/-- At the beginning the forests look the same. -/
theorem twins : Forest.Twins (scene f g table tables) (same f root table tables) f g := by
  obtain ⟨level,sorted⟩ := acyclic.sorted
  refine ⟨nest.left acyclic branching,nest.right acyclic branching refills acyclic',?_,?_,?_,?_,?_,?_,?_,?_,?_⟩
  · rintro a _ a' _ ⟨rfl,-⟩ ⟨rfl,-⟩
    exact Iff.rfl
  · exact fun k a b met => ⟨met.1,met.2.1,trivial⟩
  · exact fun a b met => ⟨met.1,met.2.1,nest.inside.to_reflTransGen.trans met.2.2⟩
  · rintro a _ ⟨rfl,-⟩
    exact Iff.rfl
  · rintro a _ ⟨rfl,-,clear⟩ member
    exact clear a member ReflTransGen.refl
  · exact fun a b met member => (nest.aside a member).name_eq sorted
  · rintro a _ ⟨rfl,out,below⟩ kind
    exact ⟨rfl,out,fun c member => (nest.aside c member).not_paragraph sorted branching below kind
      (by rw [nest.kind]; decide)⟩
  · rintro a _ ⟨rfl,out,-⟩
    exact refills.face a out
  · rintro k a _ ⟨rfl,out,met⟩ passed
    rw [refills.children a out passed]
    refine List.forall₂_same.mpr fun c here => ⟨rfl,out.down branching passed here,?_⟩
    cases k with
    | alike => trivial
    | known | inner => exact met.tail here
    | whole => exact fun t member path => met t member (path.head here)

omit nest acyclic branching acyclic' in
/-- What is outside of the nested tables has its parent in both forests. -/
private theorem above (path : f.Below root n) (out : f.Out tables n) (other : n ≠ root) :
    ∃ m, f.Below root m ∧ f.Child m n ∧ g.Below root m ∧ g.Child m n ∧ f.Out tables m ∧ m ∉ tables := by
  induction path with
  | refl => exact absurd rfl other
  | @tail m n path here ih =>
    obtain ⟨out,passed⟩ := out.up here
    have here' : g.Child m n := by
      rw [Child,refills.children m out passed]
      exact here
    refine ⟨m,path,here,?_,here',out,passed⟩
    by_cases top : m = root
    · exact top ▸ ReflTransGen.refl
    · obtain ⟨m',-,-,path',here',-⟩ := ih out top
      exact path'.tail here'

omit acyclic' in
/-- At the beginning the indices know the same. -/
theorem indexed {ix ix' : Index} (current : ix.Current f) (current' : ix'.Current g) (root_eq : ix.root = root)
    (root_eq' : ix'.root = root) (old : ∀ n ∈ ix.detached, n < f.nodes.size)
    (old' : ∀ n ∈ ix'.detached, n < g.nodes.size) :
    Index.Twins (scene f g table tables) (same f root table tables) f g ix ix' := by
  have fresh {ix : Index} {f : Forest} (current : ix.Current f) (old : ∀ n ∈ ix.detached, n < f.nodes.size)
      (n : NodeId) (large : f.nodes.size ≤ n) : n ∉ ix.detached ∧ ix.parent? n = none := by
    have stays : n ∉ ix.detached := fun out => Nat.not_lt.mpr large (old n out)
    refine ⟨stays,Option.eq_none_iff_forall_not_mem.mpr fun p known => ?_⟩
    exact Nat.not_lt.mpr large (current.acyclic.inside p n (current.actual p n known stays))
  have known {a : NodeId} (met : same f root table tables .known a a) (other : a ≠ ix.root) : ∃ m,
      f.Below root m ∧ f.Out tables m ∧ m ∉ tables ∧ ix.parent? a = some m ∧ a ∉ ix.detached ∧
        ix'.parent? a = some m ∧ a ∉ ix'.detached := by
    obtain ⟨-,out,path⟩ := met
    obtain ⟨m,path,here,path',here',out,passed⟩ := above refills path out (root_eq ▸ other)
    obtain ⟨known,stays⟩ := current.known m a (root_eq ▸ path) here
    obtain ⟨known',stays'⟩ := current'.known m a (root_eq' ▸ path') here'
    exact ⟨m,path,out,passed,known,stays,known',stays'⟩
  refine ⟨?_,fresh current old,fresh current' old',?_,?_,?_⟩
  · rw [root_eq,root_eq']
    exact ⟨rfl,(nest.out_of_below acyclic branching nest.inside.to_reflTransGen).1,ReflTransGen.refl⟩
  · rintro a _ ⟨rfl,met⟩ other
    obtain ⟨m,-,-,-,-,stays,-,stays'⟩ := known ⟨rfl,met⟩ other
    exact iff_of_false stays stays'
  · rintro a _ ⟨rfl,met⟩ other
    obtain ⟨m,path,out,passed,known,-,known',-⟩ := known ⟨rfl,met⟩ other
    rw [known,known']
    exact .some ⟨⟨rfl,out,path⟩,passed⟩
  · rintro a _ ⟨rfl,-,path⟩ top
    exact acyclic.irrefl root (nest.inside.trans_left (root_eq ▸ top ▸ path))

/-- The rows of the table are the same, and so are their first cells. -/
theorem rows_eq : List.Forall₂ (Rows (scene f g table tables) (same f root table tables)) (rows f table)
    (rows g table) := by
  obtain ⟨level,sorted⟩ := acyclic.sorted
  obtain ⟨out,passed⟩ := nest.out_of_below acyclic branching ReflTransGen.refl
  have twins := nest.twins acyclic branching refills acyclic'
  have met : same f root table tables .inner table table := ⟨rfl,out,ReflTransGen.refl⟩
  refine (forall₂_mem (twins.childrenNamed met passed rowName)).imp ?_
  rintro row _ ⟨listed,rfl,inner⟩
  have inner : same f root table tables .inner row row := ⟨rfl,inner⟩
  refine ⟨inner,listed,listed,?_⟩
  have cells := twins.childNamed? inner (nest.out_row acyclic branching listed).2 cellName
  change Option.Rel _ (f.childNamed? row cellName) (g.childNamed? row cellName)
  rcases rel_cases cells with ⟨first,second⟩ | ⟨cell,_,first,second,rfl,out,-⟩
  · rw [first,second]
    exact .none
  · rw [first,second]
    exact .some ⟨rfl,out,fun c member => (nest.aside c member).not_first sorted branching listed first⟩

end Nest
end Table

/-- The same state with other trees and another index. -/
def Session.withTrees (s : Session) (f : Forest) (ix : Index) : Session :=
  { s with index := ix, package := { s.package with forest := f } }

namespace Table

instance (f : Forest) (table c : NodeId) : Decidable (Aside f table c) :=
  inferInstanceAs (Decidable (∃ row ∈ _, ∃ cell ∈ _, c ∈ _))

/-- What two runs come to that begin with other things in some nested tables: outcomes, counters, parts and journal
are the same, and so is the table around the nested ones; what was in these is there with its texts. -/
structure Isolated (table : NodeId) (tables : List NodeId) (s t s' t' : Session) : Prop where
  rest : s'.bare = t'.bare
  own : (s'.package.forest.emptied tables).element table = (t'.package.forest.emptied tables).element table
  left : Untouched tables s.package.forest s'.package.forest
  right : Untouched tables t.package.forest t'.package.forest

/-- Two runs end the same, well or with the same fault. -/
inductive Isolates (table : NodeId) (tables : List NodeId) (s t : Session) :
    EStateM.Result Fault Session Unit → EStateM.Result Fault Session Unit → Prop
  | ok {s' t' : Session} (same : Isolated table tables s t s' t') :
    Isolates table tables s t (.ok () s') (.ok () t')
  | error {s' t' : Session} (fault : Fault) (same : Isolated table tables s t s' t') :
    Isolates table tables s t (.error fault s') (.error fault t')

end Table

variable {setup : Setup} {w : World} {base : Nat} {table : NodeId} {tables : List NodeId} {g : Forest} {ix : Index}

/-- At the beginning the states look the same. -/
theorem World.Ready.twins (ready : w.Ready base) (current : w.session.index.Current w.package.forest)
    (nest : Table.Nest w.package.forest w.session.index.root table tables)
    (old : ∀ n ∈ w.session.index.detached, n < w.package.forest.nodes.size) (refills : w.package.forest.Refills tables g)
    (current' : ix.Current g) (root_eq : ix.root = w.session.index.root) (old' : ∀ n ∈ ix.detached, n < g.nodes.size) :
    Session.Twins (Table.scene w.package.forest g table tables)
      (Table.same w.package.forest w.session.index.root table tables) w.session (w.session.withTrees g ix) := by
  have branching := ready.sound.branching
  have sorted : w.package.forest.Sorted w.owner w.level := ready.sound.sorted
  have below_owner {a n : NodeId} (path : w.package.forest.Below a n) : w.owner n = w.owner a :=
    (mem_tree sorted ((mem_tree_iff sorted).mpr path)).1
  have owned : w.owner table = w.session.part := by
    obtain ⟨m,path,last⟩ := TransGen.tail'_iff.mp nest.inside
    have above := (Index.Within.parent? ready.home (current.known m table path last).1).2
    exact (below_owner (ReflTransGen.single last)).trans above
  -- the trees of other parts have no element in common with the table
  have whole {name : String} {t : PartTree} (known : w.package.trees.lookup name = some t)
      (other : name ≠ w.session.part) :
      Table.same w.package.forest w.session.index.root table tables .whole t.root t.root := by
    obtain ⟨⟨inside,owner⟩,-⟩ := ready.sound.tree name t known
    have apart (c : NodeId) (member : c ∈ tables) : w.owner c ≠ w.owner t.root := by
      rw [below_owner ((nest.aside c member).transGen sorted).to_reflTransGen,owned]
      exact fun same => other (owner.symm.trans same.symm)
    exact ⟨rfl,⟨inside,fun c member path => apart c member (below_owner path.to_reflTransGen).symm⟩,
      fun c member path => apart c member (below_owner path)⟩
  refine ⟨⟨nest.twins current.acyclic branching refills current'.acyclic,
    nest.indexed current.acyclic branching refills current current' rfl root_eq old old',rfl,?_,?_,?_⟩,rfl,ready.direct⟩
  · intro name other
    change Option.Rel _ (w.package.trees.lookup name) (w.package.trees.lookup name)
    cases known : w.package.trees.lookup name with
    | none => exact .none
    | some t => exact .some (whole known other)
  · intro name other
    change Option.Rel _ (w.package.manifests.lookup name) (w.package.manifests.lookup name)
    cases used : w.package.manifests.lookup name with
    | none => exact .none
    | some root =>
      obtain ⟨t,known,rfl⟩ := ready.sound.manifests name root used
      exact .some (whole known other)
  · change Option.Rel _ w.package.types w.package.types
    cases used : w.package.types with
    | none => exact .none
    | some root =>
      obtain ⟨t,known,rfl⟩ := ready.sound.types root used
      exact .some (whole known ready.direct.ne_typesPart.symm)

/-- However the nested tables are filled, the table around them comes to the same end. -/
theorem Fill.table_isolates (ready : w.Ready base) (current : w.session.index.Current w.package.forest)
    (nest : Table.Nest w.package.forest w.session.index.root table tables)
    (old : ∀ n ∈ w.session.index.detached, n < w.package.forest.nodes.size) (refills : w.package.forest.Refills tables g)
    (current' : ix.Current g) (root_eq : ix.root = w.session.index.root) (old' : ∀ n ∈ ix.detached, n < g.nodes.size) :
    Table.Isolates table tables w.session (w.session.withTrees g ix) (Fill.table table setup w.session)
      (Fill.table table setup (w.session.withTrees g ix)) := by
  have branching := ready.sound.branching
  have acyclic := current.acyclic
  obtain ⟨out,passed⟩ := nest.out_of_below acyclic branching ReflTransGen.refl
  have twins := ready.twins current nest old refills current' root_eq old'
  have met : Table.same w.package.forest w.session.index.root table tables .inner table table :=
    ⟨rfl,out,ReflTransGen.refl⟩
  obtain ⟨m,path,here,path',here',-⟩ := Table.Nest.above refills nest.inside.to_reflTransGen out
    fun same => acyclic.irrefl _ (same ▸ nest.inside)
  -- the rows stand below the table, which is no row
  have above {f : Forest} {ix : Index} (current : ix.Current f) (path : f.Below ix.root table) (row : NodeId)
      (listed : row ∈ Table.rows f table) (n : NodeId) (known : ix.parent? row = some n) :
      n ∉ Table.rows w.package.forest table := by
    obtain rfl := Option.some.inj (known.symm.trans
      (current.known table row path (List.mem_of_mem_filter listed)).1)
    exact fun listed => acyclic.irrefl n (TransGen.single (List.mem_of_mem_filter listed))
  have alike : Generation.Alike _ setup _ _ _ _ _ _ := .table twins rfl rfl met nest.kind passed
    (nest.rows_eq acyclic branching refills current'.acyclic) (above current nest.inside.to_reflTransGen)
    (above current' (root_eq ▸ path'.tail here'))
  have isolated {pair : Pairing} {s' t' : Session}
      (more : Table.same w.package.forest w.session.index.root table tables ≤ pair)
      (twins : Session.Twins (Table.scene w.package.forest g table tables).loose pair s' t') :
      Table.Isolated table tables w.session (w.session.withTrees g ix) s' t' :=
    ⟨twins.rest,(twins.package.forests.element_emptied (more .alike _ _ ⟨rfl,out,trivial⟩)).symm,
      ⟨twins.package.forests.left.texts,twins.package.forests.left.held⟩,
      ⟨twins.package.forests.right.texts,twins.package.forests.right.held⟩⟩
  unfold Generation.Alike Agree at alike
  generalize Fill.table table setup w.session = r,
    Fill.table table setup (w.session.withTrees g ix) = r' at alike ⊢
  cases alike with
  | ok pair more twins => exact .ok (isolated more twins)
  | @error fault _ _ pair more twins => exact .error fault (isolated more twins)

private def textCell (texts : List String) (nested : List Element) : Element :=
  .node cellName [] (nested ++ texts.map fun text => paragraph [textRun text])

/-- A table whose directives are its own, with two tables in it that have directives as well. -/
private def inlaidBody : Element :=
  .node bodyName [] [.node tableName [] [.node rowName [] [textCell ["\x7bformat-table:rows\x7d"] []],
    .node rowName [] [textCell ["h"] [],textCell ["\x7ba\x7d"]
      [.node tableName [] [.node rowName [] [textCell ["\x7bformat-table:a\x7d"] []]]]],
    .node rowName [] [textCell ["\x7bif:n==1\x7dbold\x7b/if\x7dk"] [],textCell []
      [.node tableName [] [.node rowName [] [textCell ["\x7bif:n==1\x7dred\x7b/if\x7d\x7bb\x7d"] []]]]]]]

private def inlaidRoot : NodeId := (({} : Forest).plant inlaidBody).1

private def inlaidGrove : Grove :=
  (⟨{},fun _ => documentPart,fun _ => 0⟩ : Grove).plant documentPart inlaidBody

private def inlaidWorld : World where
  session := {
    package := {
      parts := [(documentPart,.empty)]
      forest := inlaidGrove.forest
      trees := [(documentPart,{ root := inlaidRoot })] }
    index := .of inlaidGrove.forest inlaidRoot }
  owner := inlaidGrove.owner
  level := inlaidGrove.level

/-- The table of the document. -/
private def outerTable : NodeId := ((inlaidGrove.forest.named inlaidRoot tableName).head?).getD 0

/-- The tables in its cells. -/
private def innerTables : List NodeId := (inlaidGrove.forest.named inlaidRoot tableName).drop 1

private def inlaidSetup : Setup where
  data := .map [(.text "a",.text "A"),(.text "rows",.list [.map [(.text "n",.text "1")]])]

private def barredSession : Session :=
  inlaidWorld.session.withTrees (inlaidGrove.forest.emptied innerTables)
    (.of (inlaidGrove.forest.emptied innerTables) inlaidRoot)

private theorem sorted_planted (body : Element) :
    ((⟨{},fun _ => documentPart,fun _ => 0⟩ : Grove).plant documentPart body).Sorted := by
  refine Grove.Sorted.plant ⟨fun parent child member => ?_,fun id inside => ?_⟩ documentPart body
  · exact absurd (({} : Forest).lt_size_of_child member) (Nat.not_lt_zero parent)
  · exact absurd inside (Nat.not_lt_zero id)

private theorem sorted_inlaid : inlaidGrove.Sorted :=
  sorted_planted inlaidBody

/-- A document with a body, before anything is done with it. -/
private def plantedWorld (body : Element) : World :=
  let grove : Grove := (⟨{},fun _ => documentPart,fun _ => 0⟩ : Grove).plant documentPart body
  let root : NodeId := (({} : Forest).plant body).1
  { session := {
      package := {
        parts := [(documentPart,.empty)]
        forest := grove.forest
        trees := [(documentPart,{ root })] }
      index := .of grove.forest root }
    owner := grove.owner
    level := grove.level }

private theorem ready_planted (body : Element) : (plantedWorld body).Ready 0 where
  sound := by
    refine ⟨sorted_planted body,(branching_plant branching_empty body).1,fun name t known => ?_,nofun,nofun⟩
    have here := (lookup_store ([] : List (String × PartTree)) documentPart name _).symm.trans known
    split at here
    · next same =>
      obtain rfl := Option.some.inj here
      exact ⟨same ▸ (Grove.within_plant _ documentPart body).1,Or.inl (same ▸ isDirect_document),same ▸ rfl⟩
    · exact nomatch here
  direct := isDirect_document
  held := ⟨_,rfl⟩
  home := Index.within_of (sorted_planted body) (Grove.within_plant _ documentPart body).1
  based := Nat.zero_le _

private theorem ready_inlaid : inlaidWorld.Ready 0 := by
  have same : inlaidWorld = plantedWorld inlaidBody := rfl
  rw [same]
  exact ready_planted inlaidBody

private theorem current_inlaid : inlaidWorld.session.index.Current inlaidGrove.forest := by
  dsimp only [inlaidWorld]
  exact Index.current_of sorted_inlaid.acyclic (by decide +kernel) (by decide +kernel)

private theorem current_barred : barredSession.index.Current barredSession.package.forest := by
  dsimp only [barredSession,Session.withTrees]
  exact Index.current_of (sorted_inlaid.acyclic.emptied innerTables) (by decide +kernel) (by decide +kernel)

private theorem nest_inlaid : Table.Nest inlaidGrove.forest inlaidRoot outerTable innerTables where
  inside := TransGen.single (by decide +kernel : outerTable ∈ inlaidGrove.forest.children inlaidRoot)
  kind := by decide +kernel
  aside := by decide +kernel

private theorem inlaid_run : (match Fill.table outerTable inlaidSetup inlaidWorld.session with
    | .ok _ s' => s'.outcomes.map (fun o => (o.kind,o.status)) ==
        [(.formatTable,.applied),(.rowCondition,.applied),(.text,.applied)]
    | .error _ _ => false) = true := by
  decide +kernel

/-- The table is bound, loses its first row and gets a bold one, as it does when the tables in it hold nothing. -/
theorem Fill.table_isolates_inlaid : inlaidWorld.Ready 0 ∧
    Table.Nest inlaidGrove.forest inlaidRoot outerTable innerTables ∧
      ∃ s' t', Fill.table outerTable inlaidSetup inlaidWorld.session = .ok () s' ∧
        Fill.table outerTable inlaidSetup barredSession = .ok () t' ∧
          s'.outcomes.map (fun o => (o.kind,o.status)) =
            [(.formatTable,.applied),(.rowCondition,.applied),(.text,.applied)] ∧
              Table.Isolated outerTable innerTables inlaidWorld.session barredSession s' t' := by
  have entire (f : Forest) (root n : NodeId) (member : n ∈ (Index.of f root).detached) : n < f.nodes.size := by
    simp [Index.of,Index.mem_detached_recordBelow] at member
  have rooted (f : Forest) (root : NodeId) : (Index.of f root).root = root := Index.root_recordBelow _ f root
  have isolates : Table.Isolates outerTable innerTables inlaidWorld.session barredSession
      (Fill.table outerTable inlaidSetup inlaidWorld.session) (Fill.table outerTable inlaidSetup barredSession) :=
    Fill.table_isolates ready_inlaid current_inlaid ((rooted inlaidGrove.forest inlaidRoot).symm ▸ nest_inlaid)
      (entire _ _) (refills_emptied inlaidGrove.forest innerTables) current_barred
        ((rooted _ _).trans (rooted _ _).symm) (entire _ _)
  have checked := inlaid_run
  refine ⟨ready_inlaid,nest_inlaid,?_⟩
  generalize Fill.table outerTable inlaidSetup inlaidWorld.session = r,
    Fill.table outerTable inlaidSetup barredSession = r' at isolates checked
  cases isolates with
  | ok isolated => exact ⟨_,_,rfl,rfl,eq_of_beq checked,isolated⟩
  | error fault isolated => exact absurd checked Bool.false_ne_true

end MailMerge
