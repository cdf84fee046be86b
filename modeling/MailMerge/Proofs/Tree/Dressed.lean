import MailMerge.Proofs.Tree.Acyclic
import MailMerge.Proofs.Tree.Planted
import MailMerge.Proofs.Tree.Written
import MailMerge.Table.Style

/-! Trees that are given another look. Shadings and bold marks are put in and old shadings are taken out, all
among the elements that say how a cell or a run looks. Tables, rows, cells, paragraphs, runs and texts keep
their places among each other, as long as none of them is inside a look.
-/
namespace MailMerge.Forest
open Xml Docx Relation

/-- The elements that say how a cell or a run looks. -/
def isLook (name : Name) : Bool :=
  [main "tcPr",main "shd",main "rPr",main "b"].contains name

/-- The elements that texts are read from. -/
def isBearer (name : Name) : Bool :=
  [tableName,rowName,cellName,paragraphName,runName,textName].contains name

/-- A forest of trees in which no text is inside a look. -/
structure Neat (f : Forest) : Prop where
  acyclic : f.Acyclic
  branching : f.Branching
  bare : ∀ look n, isLook (f.name look) = true → f.Below look n → isBearer (f.name n) = false

/-- The children of an element that are no looks. -/
def solid (f : Forest) (id : NodeId) : List NodeId :=
  (f.children id).filter fun child => !isLook (f.name child)

/-- A forest in which some elements have another text, and all may have another look. -/
structure Dressed (f g : Forest) (place : NodeId → Prop) : Prop where
  neat : g.Neat
  size_le : f.nodes.size ≤ g.nodes.size
  name_eq : ∀ n, n < f.nodes.size → g.name n = f.name n
  text_eq : ∀ n, n < f.nodes.size → ¬ place n → g.text n = f.text n
  solid_eq : ∀ n, g.solid n = f.solid n

/-- The texts of the paragraphs below an element. -/
def paragraphTexts (f : Forest) (id : NodeId) : List (List Char) :=
  (f.named id paragraphName).map f.paragraphText

variable {f g h : Forest} {place place' : NodeId → Prop} {id n p parent child : NodeId} {name : Name}

theorem cellText_eq (f : Forest) (id : NodeId) : f.cellText id = (f.paragraphTexts id).flatten := by
  rw [cellText,paragraphTexts,List.flatMap_def]

theorem isLook_of_isBearer (bearer : isBearer name = true) : isLook name = false := by
  have each : ∀ name ∈ [tableName,rowName,cellName,paragraphName,runName,textName], isLook name = false := by
    decide
  exact each name (List.contains_iff_mem.mp bearer)

theorem lt_size_of_isBearer (bearer : isBearer (f.name n) = true) : n < f.nodes.size :=
  f.lt_size_of_name rfl fun same => absurd (same ▸ bearer) (by decide)

theorem mem_solid : child ∈ f.solid n ↔ f.Child n child ∧ isLook (f.name child) = false := by
  simp [solid,Child]

namespace Neat

theorem mem_named (neat : f.Neat) : n ∈ f.named id name ↔ f.Below id n ∧ f.name n = name := by
  rw [Forest.mem_named,neat.acyclic.mem_tree_iff]

/-- The elements with a name are listed child by child. -/
theorem named_eq (neat : f.Neat) (id : NodeId) (name : Name) :
    f.named id name = (if f.name id = name then [id] else []) ++ (f.children id).flatMap (f.named · name) := by
  obtain ⟨level,sorted⟩ := neat.acyclic.sorted
  rw [named,tree_eq sorted,List.filter_cons,List.filter_flatMap]
  by_cases here : f.name id = name <;> simp [here,named]

/-- Looks have nothing that bears text. -/
theorem named_of_look (neat : f.Neat) (bearer : isBearer name = true) (look : isLook (f.name id) = true) :
    f.named id name = [] := by
  refine List.eq_nil_iff_forall_not_mem.mpr fun n member => ?_
  obtain ⟨path,rfl⟩ := neat.mem_named.mp member
  simp [neat.bare id n look path] at bearer

/-- Only the children that are no looks have something that bears text. -/
theorem flatMap_named (neat : f.Neat) (bearer : isBearer name = true) (id : NodeId) :
    (f.children id).flatMap (f.named · name) = (f.solid id).flatMap (f.named · name) := by
  unfold solid
  induction f.children id with
  | nil => rfl
  | cons child rest ih =>
    rw [List.flatMap_cons,ih,List.filter_cons]
    cases look : isLook (f.name child) with
    | true => simp [neat.named_of_look bearer look]
    | false => simp

end Neat

/-- A tree without looks. -/
theorem neat_plant (e : Element) (plain : ∀ n < (({} : Forest).plant e).2.nodes.size,
    isLook ((({} : Forest).plant e).2.name n) = false) : (({} : Forest).plant e).2.Neat := by
  have empty : ({} : Forest).Sorted (fun _ => ()) fun _ => 0 :=
    ⟨fun parent _ member => absurd (({} : Forest).lt_size_of_child member) (Nat.not_lt_zero parent),
      fun id inside => absurd inside (Nat.not_lt_zero id)⟩
  refine ⟨(empty.grow (grown_plant {} e).1 ()).acyclic,(branching_plant branching_empty e).1,fun look n kind => ?_⟩
  have inside : look < (({} : Forest).plant e).2.nodes.size :=
    lt_size_of_name _ rfl fun same => absurd (same ▸ kind) (by decide)
  exact absurd kind (by simp [plain look inside])

namespace Dressed

theorem refl (neat : f.Neat) : Dressed f f place :=
  ⟨neat,Nat.le_refl _,fun _ _ => rfl,fun _ _ _ => rfl,fun _ => rfl⟩

theorem trans (first : Dressed f g place) (second : Dressed g h place) : Dressed f h place where
  neat := second.neat
  size_le := Nat.le_trans first.size_le second.size_le
  name_eq n inside :=
    (second.name_eq n (Nat.lt_of_lt_of_le inside first.size_le)).trans (first.name_eq n inside)
  text_eq n inside aside :=
    (second.text_eq n (Nat.lt_of_lt_of_le inside first.size_le) aside).trans (first.text_eq n inside aside)
  solid_eq n := (second.solid_eq n).trans (first.solid_eq n)

theorem mono (dressed : Dressed f g place) (more : ∀ n, place n → place' n) : Dressed f g place' where
  __ := dressed
  text_eq n inside aside := dressed.text_eq n inside fun here => aside (more n here)

/-- A step repeated for every item of a list. -/
theorem foldl {α : Type} {step : Forest → α → Forest} {items : List α} (neat : f.Neat)
    (each : ∀ g a, a ∈ items → Dressed f g place → Dressed g (step g a) place) :
    Dressed f (items.foldl step f) place := by
  suffices later : ∀ g, Dressed f g place → Dressed f (items.foldl step g) place from later f (.refl neat)
  induction items with
  | nil => exact fun g dressed => dressed
  | cons a items ih =>
    exact fun g dressed => ih (fun g b member => each g b (List.mem_cons_of_mem a member)) _
      (dressed.trans (each g a List.mem_cons_self dressed))

section
variable (dressed : Dressed f g place) (neat : f.Neat) (bearer : isBearer name = true)
include dressed neat bearer

/-- What bears text is listed in the same order. -/
theorem named_eq (inside : id < f.nodes.size) : g.named id name = f.named id name := by
  obtain ⟨level,sorted⟩ := neat.acyclic.sorted
  revert inside
  refine sorted.induction (motive := fun id => id < f.nodes.size → g.named id name = f.named id name) ?_ id
  intro id ih inside
  rw [neat.named_eq,dressed.neat.named_eq,dressed.name_eq id inside,neat.flatMap_named bearer,
    dressed.neat.flatMap_named bearer,dressed.solid_eq]
  refine congrArg _ (List.flatMap_congr fun child member => ?_)
  have here := (mem_solid.mp member).1
  exact ih child here (sorted.below id child here).1

theorem below_iff (inside : id < f.nodes.size) (old : f.name n = name) : g.Below id n ↔ f.Below id n := by
  have same := congrArg (n ∈ ·) (dressed.named_eq neat bearer inside)
  simp only [neat.mem_named,dressed.neat.mem_named,eq_iff_iff] at same
  have kept := dressed.name_eq n (lt_size_of_isBearer (old ▸ bearer))
  simpa [old,kept] using same

theorem childrenNamed_eq : g.childrenNamed id name = f.childrenNamed id name := by
  have plain := isLook_of_isBearer bearer
  have listed {f : Forest} : f.childrenNamed id name = (f.solid id).filter (f.name · == name) := by
    rw [childrenNamed,solid,List.filter_filter]
    refine List.filter_congr fun child _ => ?_
    by_cases same : f.name child = name <;> simp [same,plain]
  rw [listed,listed,dressed.solid_eq]
  refine List.filter_congr fun child member => ?_
  rw [dressed.name_eq child (neat.branching.below id child (mem_solid.mp member).1)]

theorem childNamed?_eq : g.childNamed? id name = f.childNamed? id name := by
  have first {f : Forest} : f.childNamed? id name = (f.childrenNamed id name).head? := by
    rw [childNamed?,childrenNamed,List.head?_filter]
  rw [first,first,dressed.childrenNamed_eq neat bearer]

end

section
variable (dressed : Dressed f g place) (neat : f.Neat) (inside : id < f.nodes.size)
include dressed neat inside

theorem textElements_eq : g.textElements id = f.textElements id := by
  rw [textElements,textElements,dressed.named_eq neat (by decide) inside]
  refine List.flatMap_congr fun run member => ?_
  refine dressed.named_eq neat (by decide) (lt_size_of_isBearer ?_)
  rw [(neat.mem_named.mp member).2]
  decide

theorem paragraphText_eq (aside : ∀ n ∈ f.textElements id, ¬ place n) :
    g.paragraphText id = f.paragraphText id := by
  rw [paragraphText,paragraphText,dressed.textElements_eq neat inside,joinedText,joinedText]
  refine List.flatMap_congr fun n member => ?_
  obtain ⟨run,-,listed⟩ := List.mem_flatMap.mp member
  have old : n < f.nodes.size := by
    refine lt_size_of_isBearer ?_
    rw [(neat.mem_named.mp listed).2]
    decide
  rw [ownText,dressed.text_eq n old (aside n member),ownText]

/-- Where no text below an element was changed, the texts of its paragraphs are the same. -/
theorem paragraphTexts_eq (aside : ∀ n, f.Below id n → ¬ place n) :
    g.paragraphTexts id = f.paragraphTexts id := by
  rw [paragraphTexts,paragraphTexts,dressed.named_eq neat (by decide) inside]
  refine List.map_congr_left fun p member => ?_
  obtain ⟨path,kind⟩ := neat.mem_named.mp member
  refine dressed.paragraphText_eq neat (lt_size_of_isBearer (by rw [kind]; decide)) fun n listed => ?_
  obtain ⟨run,above,below⟩ := List.mem_flatMap.mp listed
  exact aside n (path.trans ((neat.mem_named.mp above).1.trans (neat.mem_named.mp below).1))

end
end Dressed

/-- No text comes to be inside a look when the other children stay. -/
theorem Neat.bare_of_solid_eq (neat : f.Neat) (name_eq : ∀ n, n < f.nodes.size → g.name n = f.name n)
    (solid_eq : ∀ n, g.solid n = f.solid n) {look : NodeId} (kind : isLook (g.name look) = true)
    (path : g.Below look n) : isBearer (g.name n) = false := by
  -- on the path: it ends with a look, or below one that was there before
  have cases : isLook (g.name n) = true ∨ ∃ look, isLook (f.name look) = true ∧ f.Below look n := by
    induction path with
    | refl => exact Or.inl kind
    | @tail m n _ here ih =>
      cases plain : isLook (g.name n) with
      | true => exact Or.inl rfl
      | false =>
        have old := (mem_solid.mp (solid_eq m ▸ mem_solid.mpr ⟨here,plain⟩)).1
        rcases ih with look | ⟨look,kind,above⟩
        · exact Or.inr ⟨m,name_eq m (f.lt_size_of_child old) ▸ look,ReflTransGen.single old⟩
        · exact Or.inr ⟨look,kind,above.tail old⟩
  by_contra bearer
  have bearer := Bool.of_not_eq_false bearer
  rcases cases with look | ⟨look,kind,above⟩
  · simp [isLook_of_isBearer bearer] at look
  · rcases reflTransGen_iff_eq_or_transGen.mp above with rfl | more
    · have old : n < f.nodes.size := f.lt_size_of_name rfl fun same => absurd (same ▸ kind) (by decide)
      rw [name_eq n old] at bearer
      simp [isLook_of_isBearer bearer] at kind
    · obtain ⟨m,_,last⟩ := TransGen.tail'_iff.mp more
      rw [name_eq n (neat.branching.below m n last)] at bearer
      simp [neat.bare look n kind above] at bearer

namespace Neat

/-- The children of an element are changed, its solid ones apart. -/
private theorem dressed_updateChildren (neat : f.Neat) (parent : NodeId) {change : List NodeId → List NodeId}
    (acyclic : (f.updateChildren parent change).Acyclic) (branching : (f.updateChildren parent change).Branching)
    (same : (change (f.children parent)).filter (fun child => !isLook (f.name child)) = f.solid parent) :
    Dressed f (f.updateChildren parent change) place := by
  have name_eq (n : NodeId) := name_updateChildren f parent n change
  have solid_eq (n : NodeId) : (f.updateChildren parent change).solid n = f.solid n := by
    simp only [solid,name_eq,children_updateChildren]
    split
    · next here => rw [here.1,same,solid]
    · rfl
  exact ⟨⟨acyclic,branching,fun _ _ kind path => neat.bare_of_solid_eq (fun n _ => name_eq n) solid_eq kind path⟩,
    by simp [updateChildren],fun n _ => name_eq n,fun n _ _ => text_updateChildren f parent n change,solid_eq⟩

/-- An element without a place and with nothing below it is added. -/
private theorem dressed_add (neat : f.Neat) (name : Name) (attributes : Attributes) :
    Dressed f (f.add { name := name, attributes := attributes }).2 place := by
  have old {n : NodeId} (inside : n < f.nodes.size) :
      (f.add { name := name, attributes := attributes }).2.node n = f.node n := by
    rw [node_add,if_neg (Nat.ne_of_lt inside)]
  have children_eq (n : NodeId) :
      (f.add { name := name, attributes := attributes }).2.children n = f.children n := by
    rw [children_add]
    split
    · next here => rw [here,f.children_of_size_le (Nat.le_refl _)]
    · rfl
  have child_eq : (f.add { name := name, attributes := attributes }).2.Child = f.Child := by
    funext n c
    rw [Child,Child,children_eq]
  have name_eq (n : NodeId) (inside : n < f.nodes.size) :
      (f.add { name := name, attributes := attributes }).2.name n = f.name n := by
    rw [Forest.name,old inside,Forest.name]
  have solid_eq (n : NodeId) : (f.add { name := name, attributes := attributes }).2.solid n = f.solid n := by
    rw [solid,solid,children_eq]
    exact List.filter_congr fun c here => by rw [name_eq c (neat.branching.below n c here)]
  refine ⟨⟨⟨fun n c here => ?_,fun id => ?_⟩,neat.branching.add _ List.nodup_nil (List.forall_mem_nil _),fun _ _ kind path =>
    neat.bare_of_solid_eq name_eq solid_eq kind path⟩,by simp,name_eq,fun n inside _ => ?_,solid_eq⟩
  · rw [child_eq] at here
    exact (size_add f _).symm ▸ Nat.lt_succ_of_lt (neat.acyclic.inside n c here)
  · rw [child_eq]
    exact neat.acyclic.irrefl id
  · rw [Forest.text,old inside,Forest.text]

/-- A look without anything below it is put among the children of an element. -/
theorem graft (neat : f.Neat) (inside : parent < f.nodes.size) {attributes : Attributes}
    (look : isLook name = true) {change : List NodeId → List NodeId} {before after : List NodeId}
    (split : f.children parent = before ++ after)
    (changed : change (f.children parent) = before ++ f.nodes.size :: after) :
    Dressed f ((f.add { name := name, attributes := attributes }).2.updateChildren parent change) place := by
  have added : Dressed f (f.add { name := name, attributes := attributes }).2 place :=
    neat.dressed_add name attributes
  have loose : (f.add { name := name, attributes := attributes }).2.Loose f.nodes.size :=
    neat.branching.loose_add _ nofun
  have new : (f.add { name := name, attributes := attributes }).2.name f.nodes.size = name := by
    rw [Forest.name,node_add,if_pos rfl]
  have children_eq : (f.add { name := name, attributes := attributes }).2.children parent = f.children parent := by
    rw [children_add,if_neg (Nat.ne_of_lt inside)]
  have leaf : (f.add { name := name, attributes := attributes }).2.children f.nodes.size = [] := by
    rw [children_add,if_pos rfl]
  have inside' : f.nodes.size < (f.add { name := name, attributes := attributes }).2.nodes.size := by simp
  generalize (f.add { name := name, attributes := attributes }).2 = g at added loose new children_eq leaf inside'
  rw [← children_eq] at split changed
  refine added.trans (added.neat.dressed_updateChildren parent ?_
    (added.neat.branching.more change split changed inside' loose) ?_)
  · have apart : ¬ g.Below f.nodes.size parent := by
      intro path
      rcases ReflTransGen.cases_head path with same | ⟨c,here,-⟩
      · exact Nat.ne_of_gt inside same
      · rw [Child,leaf] at here
        exact absurd here List.not_mem_nil
    exact added.neat.acyclic.graft inside' apart fun n => mem_of_split split changed
  · rw [changed,solid,split]
    simp [new,look]

theorem prune (neat : f.Neat) (look : isLook (f.name child) = true) :
    Dressed f (f.detach parent child) place := by
  refine neat.dressed_updateChildren parent (neat.acyclic.detach parent child)
    (neat.branching.fewer _ List.erase_sublist) ?_
  by_cases listed : child ∈ f.children parent
  · obtain ⟨before,after,split,first⟩ := List.eq_append_cons_of_mem listed
    simp [solid,split,List.erase_append_right _ first,look]
  · rw [List.erase_of_not_mem listed,solid]

theorem retext (neat : f.Neat) (retexted : Retexted f g place) : Dressed f g place := by
  have child_eq : g.Child = f.Child := by
    funext n c
    rw [Child,Child,retexted.children_eq]
  have solid_eq (n : NodeId) : g.solid n = f.solid n := by
    simp only [solid,retexted.children_eq,retexted.name_eq]
  refine ⟨⟨⟨fun n c here => ?_,fun id => ?_⟩,neat.branching.of_children_eq retexted.size_eq retexted.children_eq,
    fun _ _ kind path => neat.bare_of_solid_eq (fun n _ => retexted.name_eq n) solid_eq kind path⟩,
      Nat.le_of_eq retexted.size_eq.symm,fun n _ => retexted.name_eq n,fun n _ aside => ?_,solid_eq⟩
  · rw [child_eq] at here
    exact retexted.size_eq.symm ▸ neat.acyclic.inside n c here
  · rw [child_eq]
    exact neat.acyclic.irrefl id
  · rw [Forest.text,retexted.node_eq n aside,Forest.text]

end Neat

end MailMerge.Forest

namespace MailMerge.Table
open Xml Docx Forest

variable {f : Forest} {place : NodeId → Prop} {id : NodeId}

/-- The look of an element is there or is put before its children. -/
private theorem dressed_firstOrNew (neat : f.Neat) (inside : id < f.nodes.size) {stem : String}
    (look : isLook (main stem) = true) : Dressed f (f.firstOrNew id stem).2 place ∧
      (f.firstOrNew id stem).1 < (f.firstOrNew id stem).2.nodes.size := by
  unfold firstOrNew
  cases found : f.childNamed? id (main stem) with
  | some child => exact ⟨.refl neat,neat.branching.below id child (List.mem_of_find?_eq_some found)⟩
  | none =>
    refine ⟨neat.graft inside look (List.nil_append _).symm rfl,?_⟩
    simp [insertAt,updateChildren]

private theorem dressed_insertInOrder (neat : f.Neat) (inside : id < f.nodes.size) {name : Name}
    {attributes : Attributes} (look : isLook name = true) (later : List String) :
    Dressed f ((f.add { name := name, attributes := attributes }).2.insertInOrder id
      (f.add { name := name, attributes := attributes }).1 later) place := by
  unfold insertInOrder
  split
  · next i _ => exact neat.graft inside look (List.take_append_drop i _).symm rfl
  · exact neat.graft inside look (List.append_nil _).symm rfl

theorem dressed_shade (neat : f.Neat) (inside : id < f.nodes.size) (fill : String) :
    Dressed f (shade f id fill) place := by
  obtain ⟨found,inside'⟩ : Dressed f (f.firstOrNew id "tcPr").2 place ∧ _ :=
    dressed_firstOrNew neat inside (by decide)
  unfold shade
  generalize f.firstOrNew id "tcPr" = pair at found inside'
  obtain ⟨look,g⟩ := pair
  have cleared : Dressed g ((g.childrenNamed look (main "shd")).foldl (fun f old => f.detach look old) g)
      place := by
    refine Dressed.foldl found.neat fun h old member dressed => dressed.neat.prune ?_
    obtain ⟨listed,kind⟩ := List.mem_filter.mp member
    rw [dressed.name_eq old (found.neat.branching.below look old listed),eq_of_beq kind]
    decide
  have inside'' := Nat.lt_of_lt_of_le inside' cleared.size_le
  exact (found.trans cleared).trans (dressed_insertInOrder cleared.neat inside'' (by decide) afterShading)

theorem dressed_embolden (neat : f.Neat) (inside : id < f.nodes.size) :
    Dressed f (embolden f id) place := by
  obtain ⟨found,inside'⟩ : Dressed f (f.firstOrNew id "rPr").2 place ∧ _ :=
    dressed_firstOrNew neat inside (by decide)
  unfold embolden
  generalize f.firstOrNew id "rPr" = pair at found inside'
  obtain ⟨look,g⟩ := pair
  dsimp only
  split
  · exact found
  · exact found.trans (dressed_insertInOrder found.neat inside' (by decide) afterBold)

theorem dressed_styleRow (neat : f.Neat) (s : Settings) (row : NodeId) (style : String) :
    Dressed f (styleRow s f row style) place := by
  have old {g : Forest} (neat : g.Neat) {name : Name} (bearer : isBearer name = true) {top n : NodeId}
      (member : n ∈ g.named top name) : n < g.nodes.size :=
    lt_size_of_isBearer ((neat.mem_named.mp member).2 ▸ bearer)
  have cells : ∀ cell ∈ f.childrenNamed row cellName, cell < f.nodes.size :=
    fun cell member => neat.branching.below row cell (List.mem_filter.mp member).1
  unfold styleRow
  dsimp only
  split
  · next fill _ =>
    exact Dressed.foldl neat fun g cell member dressed =>
      dressed_shade dressed.neat (Nat.lt_of_lt_of_le (cells cell member) dressed.size_le) fill
  · split
    · refine Dressed.foldl neat fun g cell _ dressed => Dressed.foldl dressed.neat fun h run member later => ?_
      have inside := old dressed.neat (by decide) member
      exact dressed_embolden later.neat (Nat.lt_of_lt_of_le inside later.size_le)
    · exact .refl neat

end MailMerge.Table
