import MailMerge.Proofs.Docx.Cells
import MailMerge.Proofs.Tree.Index

/-! Work on the tree of a part, seen through the places of its elements. A step either leaves all
children where they are, or changes the children of one element: something without a paragraph is
put among them, a shading or a row is taken out, or a paragraph meets its fate. Which paragraphs may
meet which fate is said by a scope; so the steps of one scope keep all other paragraphs in place.
-/
namespace MailMerge
open Xml Docx Forest Relation

/-- What becomes of a paragraph that does not stay: another one takes its place, a table does, or it
is taken out. -/
inductive Fate where
  | replaced
  | becameTable
  | removed
  deriving DecidableEq, Repr

/-- What the steps of some work may do: elements from a bound on are new, and paragraphs may meet
certain fates. -/
structure Scope where
  base : Nat
  may : NodeId → Fate → Prop

/-- A scope that leaves every paragraph in place. -/
def Scope.still (base : Nat) : Scope :=
  ⟨base,fun _ _ => False⟩

/-- A scope in which one paragraph may meet any fate. -/
def Scope.only (base : Nat) (id : NodeId) : Scope :=
  ⟨base,fun q _ => q = id⟩

/-- The scope of all work. -/
def Scope.all : Scope :=
  ⟨0,fun _ _ => True⟩

/-- One scope allows what another does. -/
def Scope.Le (a b : Scope) : Prop :=
  b.base ≤ a.base ∧ ∀ q fate, a.may q fate → b.may q fate

theorem Scope.le_all (a : Scope) : a.Le Scope.all :=
  ⟨Nat.zero_le _,fun _ _ _ => trivial⟩

/-- The children that a paragraph leaves behind when it meets a fate, between those before and after
it. A cell that would be left without a paragraph gets one, and so does one that gets a table. -/
inductive Fate.Leaves (name : NodeId → Name) (base : Nat) (parent : NodeId)
    (before after : List NodeId) : Fate → List NodeId → Prop
  | replaced {new : NodeId} (later : base ≤ new) (kind : name new = paragraphName) :
    Leaves name base parent before after .replaced (before ++ new :: after)
  | table {new : NodeId} (later : base ≤ new) (kind : name new = tableName)
    (outside : name parent ≠ cellName) :
    Leaves name base parent before after .becameTable (before ++ new :: after)
  | tableInCell {new filler : NodeId} (later : base ≤ new) (kind : name new = tableName)
    (later' : base ≤ filler) (kind' : name filler = paragraphName)
    (inside : name parent = cellName) :
    Leaves name base parent before after .becameTable (before ++ new :: filler :: after)
  | removed (held : name parent = cellName → ∃ p ∈ before ++ after, name p = paragraphName) :
    Leaves name base parent before after .removed (before ++ after)
  | refilled {filler : NodeId} (later : base ≤ filler) (kind : name filler = paragraphName)
    (inside : name parent = cellName) (empty : ∀ p ∈ before ++ after, name p ≠ paragraphName) :
    Leaves name base parent before after .removed (before ++ after ++ [filler])

namespace Fate.Leaves

variable {fate : Fate} {name : NodeId → Name} {base : Nat} {parent : NodeId}
  {before after ids : List NodeId}

/-- Only new elements take the place of a paragraph. -/
theorem filter_eq (left : fate.Leaves name base parent before after ids) :
    ids.filter (decide <| · < base) = (before ++ after).filter (decide <| · < base) := by
  cases left with
  | replaced later | table later => simp [Nat.not_lt.mpr later]
  | tableInCell later _ later' => simp [Nat.not_lt.mpr later,Nat.not_lt.mpr later']
  | removed => rfl
  | refilled later => simp [Nat.not_lt.mpr later]

theorem subset (left : fate.Leaves name base parent before after ids) : before ++ after ⊆ ids := by
  intro c member
  cases left <;> grind

theorem mem {c : NodeId} (left : fate.Leaves name base parent before after ids) (member : c ∈ ids) :
    c ∈ before ++ after ∨ base ≤ c := by
  cases left <;> grind

end Fate.Leaves

/-- What may be taken from the children of an element apart from paragraphs: the shading of a cell,
or a row of a table. -/
def Forest.Spare (f : Forest) (parent child : NodeId) : Prop :=
  (f.name parent = main "tcPr" ∧ f.name child = main "shd") ∨
    (f.name parent = tableName ∧ f.name child = rowName)

/-- A tree at work: a grove with the index of the tree. -/
structure Plot where
  grove : Grove
  index : Index

namespace Plot

/-- The forest at work. -/
def forest (v : Plot) : Forest :=
  v.grove.forest

/-- The other elements of a part keep their children. -/
def Elsewhere (part : String) (v v' : Plot) (parent : NodeId) : Prop :=
  ∀ n, v.grove.Within part n → n ≠ parent → v'.forest.children n = v.forest.children n

/-- How the places of elements change in a step. -/
inductive Change (part : String) (scope : Scope) (v v' : Plot) : Prop
  | still (same : ∀ n, v.grove.Within part n → v'.forest.children n = v.forest.children n)
    (index_eq : v'.index = v.index)
  | grown {parent new : NodeId} {before after : List NodeId} (inside : v.grove.Within part parent)
    (split : v.forest.children parent = before ++ after)
    (now : v'.forest.children parent = before ++ new :: after)
    (elsewhere : Elsewhere part v v' parent) (later : v.forest.nodes.size ≤ new)
    (plain : ∀ n : NodeId, v.forest.nodes.size ≤ n → v'.forest.name n ≠ paragraphName)
    (front : v.forest.name parent = cellName → before = []) (index_eq : v'.index = v.index)
  | taken {parent child : NodeId} (inside : v.grove.Within part parent)
    (spare : v.forest.Spare parent child)
    (now : v'.forest.children parent = (v.forest.children parent).erase child)
    (elsewhere : Elsewhere part v v' parent) (apart : v'.index.Apart v.index scope.base child)
    (listed : child ∈ v.forest.children parent ∨ v'.index = v.index)
  | met {fate : Fate} {q parent : NodeId} {before after : List NodeId} (may : scope.may q fate)
    (inside : v.grove.Within part parent) (kind : v.forest.name q = paragraphName)
    (split : v.forest.children parent = before ++ q :: after)
    (left : fate.Leaves v'.forest.name scope.base parent before after (v'.forest.children parent))
    (elsewhere : Elsewhere part v v' parent) (apart : v'.index.Apart v.index scope.base q)

/-- A step seen from a part: what it plants has new children, cells that it plants end with a
paragraph, tables are planted only to take the place of paragraphs, and the places of the elements
change in one of a few ways. -/
structure Stir (part : String) (scope : Scope) (v v' : Plot) : Prop where
  later : Grove.Later v.grove v'.grove
  fresh : ∀ n child : NodeId, v.forest.nodes.size ≤ n → child ∈ v'.forest.children n →
    v.forest.nodes.size ≤ child
  closed : ∀ n : NodeId, v.forest.nodes.size ≤ n → v'.grove.owner n = part →
    v'.forest.name n = cellName → v'.forest.EndsWithParagraph n
  tableless : (∀ q, ¬scope.may q .becameTable) → ∀ n : NodeId, v.forest.nodes.size ≤ n →
    v'.grove.owner n = part → v'.forest.name n ≠ tableName
  change : Change part scope v v'

/-- A step of work on the tree of a part. -/
structure Work (s : Settings) (part : String) (scope : Scope) (v v' : Plot) : Prop where
  edits : Grove.Edits s part v.grove v'.grove
  home : v.index.Within v.grove part → v'.index.Within v'.grove part
  stir : Stir part scope v v'

variable {s : Settings} {part : String} {scope scope' : Scope} {v v' : Plot} {g : Grove} {ix ix' : Index}

theorem Change.mono (change : Change part scope v v') (le : scope.Le scope') :
    Change part scope' v v' := by
  have apart {ix' ix : Index} {q : NodeId} (known : ix'.Apart ix scope.base q) :
      ix'.Apart ix scope'.base q :=
    ⟨known.root_eq,fun x old => known.parent?_eq x (Nat.lt_of_lt_of_le old le.1),
      fun x old => known.mem_detached x (Nat.lt_of_lt_of_le old le.1)⟩
  cases change with
  | still same index_eq => exact .still same index_eq
  | grown inside split now elsewhere later plain front index_eq =>
    exact .grown inside split now elsewhere later plain front index_eq
  | taken inside spare now elsewhere known listed =>
    exact .taken inside spare now elsewhere (apart known) listed
  | met may inside kind split left elsewhere known =>
    refine .met (le.2 _ _ may) inside kind split ?_ elsewhere (apart known)
    generalize v'.forest.children _ = ids at left
    cases left with
    | replaced later kind => exact .replaced (Nat.le_trans le.1 later) kind
    | table later kind outside => exact .table (Nat.le_trans le.1 later) kind outside
    | tableInCell later kind later' kind' inside =>
      exact .tableInCell (Nat.le_trans le.1 later) kind (Nat.le_trans le.1 later') kind' inside
    | removed held => exact .removed held
    | refilled later kind inside empty =>
      exact .refilled (Nat.le_trans le.1 later) kind inside empty

theorem Stir.mono (stir : Stir part scope v v') (le : scope.Le scope') : Stir part scope' v v' :=
  ⟨stir.later,stir.fresh,stir.closed,fun none => stir.tableless fun q may => none q (le.2 _ _ may),
    stir.change.mono le⟩

/-- The root stays. -/
theorem Stir.root_eq (stir : Stir part scope v v') : v'.index.root = v.index.root := by
  cases stir.change with
  | still _ index_eq => rw [index_eq]
  | grown _ _ _ _ _ _ _ index_eq => rw [index_eq]
  | taken _ _ _ _ apart => exact apart.root_eq
  | met _ _ _ _ _ _ apart => exact apart.root_eq

/-- What is allowed in one scope is allowed in a wider one. -/
theorem Work.mono (work : Work s part scope v v') (le : scope.Le scope') :
    Work s part scope' v v' :=
  ⟨work.edits,work.home,work.stir.mono le⟩

/-- A step without new elements plants nothing. -/
theorem stir_of_size_eq (later : Grove.Later v.grove v'.grove)
    (size_eq : v'.forest.nodes.size = v.forest.nodes.size) (change : Change part scope v v') :
    Stir part scope v v' where
  later := later
  fresh _ _ new member := by
    rw [v'.forest.children_of_size_le (size_eq ▸ new)] at member
    simp at member
  closed _ new _ cell := by
    rw [Forest.name,v'.forest.node_of_size_le (size_eq ▸ new)] at cell
    exact absurd cell (by decide)
  tableless _ n new _ := by
    rw [Forest.name,v'.forest.node_of_size_le (size_eq ▸ new)]
    decide
  change := change

theorem stir_plant {e : Element} (closed : Closed e)
    (tableless : (∀ q, ¬scope.may q .becameTable) → Lacks tableName e) :
    Stir part scope ⟨g,ix⟩ ⟨g.plant part e,ix⟩ where
  later := Grove.later_plant g part e
  fresh n child new member := ((Forest.grown_plant g.forest e).1.children_new n child new member).1
  closed _ new _ cell := g.forest.endsWithParagraph_plant closed new cell
  tableless none _ new _ := g.forest.name_ne_plant (by decide) (tableless none) new
  change := .still (fun _ inside => (Forest.grown_plant g.forest e).1.children_eq inside.1) rfl

theorem work_plant {e : Element} (built : Built s e)
    (tableless : (∀ q, ¬scope.may q .becameTable) → Lacks tableName e) :
    Work s part scope ⟨g,ix⟩ ⟨g.plant part e,ix⟩ where
  edits := ReflTransGen.single (Grove.Edit.plant built)
  home inside := inside.later (Grove.later_plant g part e)
  stir := stir_plant built.closed tableless

theorem work_write (scope : Scope) (ix : Index) {id : NodeId} (text : String)
    (inside : g.Within part id) :
    Work s part scope ⟨g,ix⟩ ⟨g.withForest (g.forest.setText id text),ix⟩ := by
  have step : Grove.Edit s part g (g.withForest (g.forest.setText id text)) :=
    Grove.Edit.write text inside
  refine ⟨ReflTransGen.single step,fun within => within.later step.later,?_⟩
  apply stir_of_size_eq step.later (by simp [forest,Grove.withForest,Forest.setText])
  exact .still (fun n _ => children_update _ id n fun _ => rfl) rfl

/-- A shading or a row is taken out. -/
theorem work_take {parent child : NodeId} (inside : g.Within part parent)
    (spare : g.forest.Spare parent child) :
    Work s part scope ⟨g,ix⟩ ⟨g.withForest (g.forest.detach parent child),ix⟩ := by
  rw [Forest.detach,Grove.withForest_updateChildren]
  have step : Grove.Edit s part g (g.setChildren parent ((g.forest.children parent).erase child)) :=
    Grove.Edit.take inside List.erase_sublist
  have now := g.children_setChildren inside.1 ((g.forest.children parent).erase child)
  refine ⟨ReflTransGen.single step,fun within => within.later step.later,?_⟩
  apply stir_of_size_eq step.later (by simp [forest,Grove.setChildren,Grove.withForest,updateChildren])
  exact .taken inside spare ((now parent).trans (if_pos rfl))
    (fun n _ other => (now n).trans (if_neg other)) (Index.Apart.refl _ _ _) (Or.inr rfl)

/-- The children of an element are changed, and something is planted that stands among them. -/
theorem stir_put {k : Grove} {parent : NodeId} (later : Grove.Later g k)
    (size_eq : k.forest.nodes.size = g.forest.nodes.size) (inside : k.Within part parent)
    {e : Element} (closed : Closed e)
    (tableless : (∀ q, ¬scope.may q .becameTable) → Lacks tableName e) {ids : List NodeId}
    (change : Change part scope ⟨g,ix⟩ ⟨(k.plant part e).setChildren parent ids,ix'⟩) :
    Stir part scope ⟨g,ix⟩ ⟨(k.plant part e).setChildren parent ids,ix'⟩ := by
  have planted : Stir part scope ⟨k,ix⟩ ⟨k.plant part e,ix⟩ := stir_plant closed tableless
  have inside' := planted.later.within inside
  have now := (k.plant part e).children_setChildren inside'.1 ids
  have names := (k.plant part e).name_setChildren parent ids
  have different (n : NodeId) (large : g.forest.nodes.size ≤ n) : n ≠ parent := by
    rintro rfl
    exact Nat.not_lt.mpr large (size_eq ▸ inside.1)
  refine ⟨(later.trans planted.later).trans (Grove.later_setChildren _ _ _),?_,?_,?_,change⟩
  · intro n child large member
    rw [forest,now n,if_neg (different n large)] at member
    exact size_eq ▸ planted.fresh n child (size_eq ▸ large) member
  · intro n large owned cell
    rw [forest,names] at cell
    rw [EndsWithParagraph,forest,now n,if_neg (different n large),names]
    exact planted.closed n (size_eq ▸ large) owned cell
  · intro none n large owned
    rw [forest,names]
    exact planted.tableless none n (size_eq ▸ large) owned

/-- Something without a paragraph is planted and put among the children of an element. -/
theorem work_grow (scope : Scope) (ix : Index) (orderly : g.Orderly) {parent : NodeId}
    (inside : g.Within part parent) {e : Element} (built : Built s e) (plain : Plain e)
    {before after : List NodeId} (split : g.forest.children parent = before ++ after)
    (front : g.forest.name parent = cellName → before = []) :
    Work s part scope ⟨g,ix⟩
      ⟨(g.plant part e).setChildren parent (before ++ (g.forest.plant e).1 :: after),ix⟩ := by
  obtain ⟨grown,new,_⟩ := Forest.grown_plant g.forest e
  have edits : Grove.Edits s part g _ := Grove.edits_put orderly inside built split
  have now := (g.plant part e).children_setChildren
    ((Grove.later_plant g part e).within inside).1 (before ++ (g.forest.plant e).1 :: after)
  refine ⟨edits,fun within => within.later edits.later,?_⟩
  apply stir_put (Grove.Later.refl g) rfl inside built.closed fun _ => plain.2
  refine .grown inside split ((now parent).trans (if_pos rfl)) ?_ new ?_ front rfl
  · intro n inside_n other
    exact ((now n).trans (if_neg other)).trans (grown.children_eq inside_n.1)
  · intro n large
    rw [forest,Grove.name_setChildren]
    exact g.forest.name_ne_plant (by decide) plain.1 large

/-- Any number of steps of work on the tree of a part. -/
abbrev Works (s : Settings) (part : String) (scope : Scope) : Plot → Plot → Prop :=
  ReflTransGen (Work s part scope)

theorem Works.edits (steps : Works s part scope v v') :
    Grove.Edits s part v.grove v'.grove := by
  induction steps with
  | refl => exact ReflTransGen.refl
  | tail _ step ih => exact ih.trans step.edits

end Plot
end MailMerge
