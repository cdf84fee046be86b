import MailMerge.Proofs.Tree.Acyclic
import MailMerge.Proofs.Tree.Planted
import MailMerge.Tree.Index
import MailMerge.Tree.Text
import Mathlib.Data.List.Find
import Mathlib.Data.List.Forall2
import Mathlib.Order.Lattice

/-! Forests that look the same. Elements of two forests are paired, whatever their numbers; paired elements
have the same name, attributes and texts, and their children are paired in order, except those of some tables,
which may hold different things. What is read below paired elements is then the same, and what is done to paired
elements leaves the forests the same.
-/
namespace MailMerge
open Xml Docx Relation

/-- How paired elements belong together. -/
inductive Grade where
  /-- they look the same -/
  | alike
  /-- the index knows them -/
  | known
  /-- they are in the table at work -/
  | inner
  /-- so are all elements below them, which may hold no table that is passed over -/
  | whole

/-- Which elements of two forests belong together. -/
abbrev Pairing := Grade → NodeId → NodeId → Prop

/-- Two more elements are paired. -/
def Pairing.join (pair : Pairing) (a b : NodeId) : Pairing :=
  fun k c d => pair k c d ∨ (c = a ∧ d = b)

/-- What does not change while two forests are compared: the tables that are passed over, the rows whose children
stay, and the forests at the beginning. -/
structure Scene where
  tables : List NodeId
  fixed : NodeId → Prop
  left : Forest
  right : Forest

/-- The same scene with no row left whose children stay. -/
def Scene.loose (scene : Scene) : Scene :=
  { scene with fixed := fun _ => False }

namespace Forest

/-- One of two forests, with its elements that are paired. The tables that are passed over keep all they held, and
their texts. -/
structure Side (tables : List NodeId) (fixed paired : NodeId → Prop) (start f : Forest) : Prop where
  acyclic : f.Acyclic
  size_le : start.nodes.size ≤ f.nodes.size
  names : ∀ n < start.nodes.size, f.name n = start.name n
  inside : ∀ a, paired a → a < f.nodes.size
  up : ∀ n c, f.Child n c → paired c → paired n ∧ n ∉ tables
  apart : ∀ c ∈ tables, ∀ n, start.Below c n → n < start.nodes.size ∧ (paired n → n ∈ tables)
  texts : ∀ c ∈ tables, ∀ n, start.Below c n → f.text n = start.text n
  held : ∀ c ∈ tables, ∀ n, start.Below c n →
    (f.children n).filter (· < start.nodes.size) = start.children n
  fixed_lt : ∀ n, fixed n → n < start.nodes.size
  fixed_row : ∀ n, fixed n → start.name n = rowName
  fixed_eq : ∀ n, fixed n → f.children n = start.children n

namespace Side

variable {tables : List NodeId} {fixed paired : NodeId → Prop} {start f g : Forest} {a : NodeId}

theorem table_lt (side : Side tables fixed paired start f) {c : NodeId} (member : c ∈ tables) :
    c < start.nodes.size :=
  (side.apart c member c ReflTransGen.refl).1

/-- What is done to a paired element that is not passed over touches nothing that must stay. -/
theorem off (side : Side tables fixed paired start f) (here : paired a) (passed : a ∉ tables) {c n : NodeId}
    (member : c ∈ tables) (path : start.Below c n) : n ≠ a :=
  fun same => passed (same ▸ (side.apart c member n path).2 (same ▸ here))

theorem fixed_name (side : Side tables fixed paired start f) (stays : fixed a) : f.name a = rowName :=
  (side.names a (side.fixed_lt a stays)).trans (side.fixed_row a stays)

/-- A row whose children stay has the first child with a name that it had. -/
theorem childNamed?_eq (side : Side tables fixed paired start f) (stays : fixed a)
    (inside : ∀ c ∈ start.children a, c < start.nodes.size) (name : Name) :
    f.childNamed? a name = start.childNamed? a name := by
  rw [Forest.childNamed?,Forest.childNamed?,side.fixed_eq a stays]
  exact List.find?_congr fun c member => by rw [side.names c (inside c member)]

theorem loosen (side : Side tables fixed paired start f) : Side tables (fun _ => False) paired start f where
  __ := side
  fixed_lt _ := False.elim
  fixed_row _ := False.elim
  fixed_eq _ := False.elim

theorem congr {paired' : NodeId → Prop} (side : Side tables fixed paired start f)
    (same : ∀ a, paired a ↔ paired' a) : Side tables fixed paired' start f := by
  rwa [← funext fun a => propext (same a)]

theorem update (side : Side tables fixed paired start f) (here : paired a) (passed : a ∉ tables)
    {change : Node → Node} (name_eq : ∀ n, (change n).name = n.name)
    (children_eq : ∀ n, (change n).children = n.children) :
    Side tables fixed paired start (f.update a change) := by
  have size_eq := f.size_update a change
  have children (n : NodeId) : (f.update a change).children n = f.children n := f.children_update a n children_eq
  have child {n c : NodeId} (here : (f.update a change).Child n c) : f.Child n c := by
    rwa [Child,children] at here
  refine ⟨side.acyclic.fewer size_eq fun _ _ => child,size_eq ▸ side.size_le,
    fun n inside => (f.name_update a n name_eq).trans (side.names n inside),
    fun n met => size_eq ▸ side.inside n met,
    fun n c here => side.up n c (child here),side.apart,fun c member n path => ?_,fun c member n path => ?_,
    side.fixed_lt,side.fixed_row,fun n stays => ?_⟩
  · rw [Forest.text,node_update_of_ne f change (side.off here passed member path)]
    exact side.texts c member n path
  · rw [children]
    exact side.held c member n path
  · rw [children]
    exact side.fixed_eq n stays

/-- An element gets other children: paired ones only if it is paired itself, and in a table that is passed over all
that it held. -/
theorem relinked (side : Side tables fixed paired start f) (free : ¬ fixed a)
    {change : List NodeId → List NodeId} (acyclic : (f.updateChildren a change).Acyclic)
    (above : ∀ c ∈ change (f.children a), paired c → paired a ∧ a ∉ tables)
    (held : ∀ c ∈ tables, start.Below c a →
      (change (f.children a)).filter (· < start.nodes.size) = start.children a) :
    Side tables fixed paired start (f.updateChildren a change) := by
  have size_eq : (f.updateChildren a change).nodes.size = f.nodes.size := f.size_update a _
  refine ⟨acyclic,size_eq ▸ side.size_le,fun n inside => (name_updateChildren ..).trans (side.names n inside),
    fun n met => size_eq ▸ side.inside n met,fun n c child met => ?_,side.apart,fun c member n path => ?_,
    fun c member n path => ?_,side.fixed_lt,side.fixed_row,fun n stays => ?_⟩
  · rw [Child,children_updateChildren] at child
    split at child
    · next here =>
      obtain ⟨rfl,-⟩ := here
      exact above c child met
    · exact side.up n c child met
  · rw [text_updateChildren]
    exact side.texts c member n path
  · rw [children_updateChildren]
    split
    · next here =>
      obtain ⟨rfl,-⟩ := here
      exact held c member path
    · exact side.held c member n path
  · have other : n ≠ a := fun same => free (same ▸ stays)
    rw [children_updateChildren,if_neg fun here => other here.1]
    exact side.fixed_eq n stays

theorem relink (side : Side tables fixed paired start f) (here : paired a) (passed : a ∉ tables)
    (free : ¬ fixed a) {change : List NodeId → List NodeId} (acyclic : (f.updateChildren a change).Acyclic) :
    Side tables fixed paired start (f.updateChildren a change) :=
  side.relinked free acyclic (fun _ _ _ => ⟨here,passed⟩) fun _ member path =>
    absurd rfl (side.off here passed member path)

/-- A new element stands above paired ones. -/
theorem add (side : Side tables fixed paired start f) (n : Node) (below : ∀ c ∈ n.children, paired c) :
    Side tables fixed (fun a => paired a ∨ a = f.nodes.size) start (f.add n).2 := by
  have old {m : NodeId} (inside : m < f.nodes.size) : (f.add n).2.node m = f.node m := by
    rw [node_add,if_neg (Nat.ne_of_lt inside)]
  have child {m c : NodeId} (here : (f.add n).2.Child m c) :
      (m = f.nodes.size ∧ paired c) ∨ f.Child m c := by
    rw [Child,children,node_add] at here
    split at here
    · next new => exact Or.inl ⟨new,below c here⟩
    · exact Or.inr here
  have lt {m : NodeId} (inside : m < start.nodes.size) : m < f.nodes.size :=
    Nat.lt_of_lt_of_le inside side.size_le
  refine ⟨⟨fun m c here => ?_,fun id path => ?_⟩,Nat.le_trans side.size_le (by simp),fun m inside => ?_,
    fun m met => ?_,fun m c here met => ?_,fun c member m path => ?_,fun c member m path => ?_,
    fun c member m path => ?_,side.fixed_lt,side.fixed_row,fun m stays => ?_⟩
  · rw [size_add]
    rcases child here with ⟨-,met⟩ | here
    · exact Nat.lt_succ_of_lt (side.inside c met)
    · exact Nat.lt_succ_of_lt (side.acyclic.inside m c here)
  · -- nothing leads to the new element
    have small {m c : NodeId} (path : TransGen (f.add n).2.Child m c) : c < f.nodes.size := by
      cases path with
      | single here | tail _ here =>
        rcases child here with ⟨-,met⟩ | here
        · exact side.inside _ met
        · exact side.acyclic.inside _ _ here
    have former {m c : NodeId} (path : TransGen (f.add n).2.Child m c) (inside : m < f.nodes.size) :
        TransGen f.Child m c := by
      induction path with
      | single here => exact (child here).elim (fun new => absurd new.1 (Nat.ne_of_lt inside)) .single
      | tail path here ih =>
        exact (child here).elim (fun new => absurd new.1 (Nat.ne_of_lt (small path))) ih.tail
    exact side.acyclic.irrefl id (former path (small path))
  · rw [Forest.name,old (lt inside)]
    exact side.names m inside
  · rw [size_add]
    rcases met with met | rfl
    · exact Nat.lt_succ_of_lt (side.inside m met)
    · exact Nat.lt_succ_self _
  · rcases child here with ⟨rfl,-⟩ | here
    · exact ⟨Or.inr rfl,fun member => Nat.lt_irrefl _ (lt (side.table_lt member))⟩
    · rcases met with met | rfl
      · exact (side.up m c here met).imp_left Or.inl
      · exact absurd (side.acyclic.inside m _ here) (Nat.lt_irrefl _)
  · obtain ⟨inside,passed⟩ := side.apart c member m path
    exact ⟨inside,fun met => met.elim passed fun new => absurd (lt inside) (new ▸ Nat.lt_irrefl _)⟩
  · rw [Forest.text,old (lt (side.apart c member m path).1)]
    exact side.texts c member m path
  · rw [children,old (lt (side.apart c member m path).1)]
    exact side.held c member m path
  · rw [children,old (lt (side.fixed_lt m stays))]
    exact side.fixed_eq m stays

/-- A new element without contents that is not paired. -/
theorem addAside (side : Side tables fixed paired start f) (n : Node) (leaf : n.children = []) :
    Side tables fixed paired start (f.add n).2 := by
  have added := side.add n (by simp [leaf])
  have size_le : f.nodes.size ≤ (f.add n).2.nodes.size := by simp
  refine { added with
    inside := fun a met => Nat.lt_of_lt_of_le (side.inside a met) size_le
    up := fun m c here met => ?_
    apart := side.apart }
  obtain ⟨above,passed⟩ := added.up m c here (Or.inl met)
  refine ⟨above.resolve_right fun new => ?_,passed⟩
  rw [Child,children,node_add,if_pos new,leaf] at here
  exact absurd here List.not_mem_nil

/-- An element that is not paired gets children that are not paired besides those it has. -/
theorem relinkAside (side : Side tables fixed paired start f) (aside : ¬ paired a)
    (free : ¬ fixed a) {change : List NodeId → List NodeId} (acyclic : (f.updateChildren a change).Acyclic)
    (more : ∀ c ∈ change (f.children a), c ∈ f.children a ∨ ¬ paired c)
    (same : (change (f.children a)).filter (· < start.nodes.size) =
      (f.children a).filter (· < start.nodes.size)) :
    Side tables fixed paired start (f.updateChildren a change) := by
  refine side.relinked free acyclic (fun c here met => ?_) fun c member path =>
    same.trans (side.held c member a path)
  rcases more c here with old | new
  · exact absurd (side.up a c old met).1 aside
  · exact absurd met new

end Side

section
variable {α β : Type} {r : α → β → Prop} {as : List α} {bs : List β}

theorem exists_right {a : α} (met : List.Forall₂ r as bs) (member : a ∈ as) : ∃ b ∈ bs, r a b := by
  induction met with
  | nil => exact absurd member List.not_mem_nil
  | @cons _ b _ _ here _ ih =>
    rcases List.mem_cons.mp member with rfl | member
    · exact ⟨b,List.mem_cons_self,here⟩
    · exact (ih member).imp fun _ => And.imp_left (List.mem_cons_of_mem b)

private theorem exists_left {b : β} (met : List.Forall₂ r as bs) (member : b ∈ bs) : ∃ a ∈ as, r a b :=
  exists_right (r := flip r) (List.Forall₂.flip met) member

private theorem forall₂_and {r' : α → β → Prop} (met : List.Forall₂ r as bs) (met' : List.Forall₂ r' as bs) :
    List.Forall₂ (fun a b => r a b ∧ r' a b) as bs := by
  induction met with
  | nil => exact .nil
  | cons here _ ih =>
    cases met' with
    | cons here' rest' => exact .cons ⟨here,here'⟩ (ih rest')

theorem rel_find? {p : α → Bool} {q : β → Bool} (same : ∀ a b, r a b → p a = q b)
    (met : List.Forall₂ r as bs) : Option.Rel r (as.find? p) (bs.find? q) := by
  induction met with
  | nil => exact .none
  | @cons a b _ _ here _ ih =>
    rw [List.find?_cons,List.find?_cons,← same a b here]
    cases p a with
    | true => exact .some here
    | false => exact ih

theorem rel_cases {o : Option α} {o' : Option β} (met : Option.Rel r o o') :
    (o = none ∧ o' = none) ∨ ∃ a b, o = some a ∧ o' = some b ∧ r a b := by
  cases met with
  | none => exact Or.inl ⟨rfl,rfl⟩
  | some here => exact Or.inr ⟨_,_,rfl,rfl,here⟩

theorem isNone_eq {o : Option α} {o' : Option β} (met : Option.Rel r o o') : o'.isNone = o.isNone := by
  cases met <;> rfl

theorem forall₂_mem (met : List.Forall₂ r as bs) : List.Forall₂ (fun a b => a ∈ as ∧ r a b) as bs :=
  (List.forall₂_and_left as bs).mpr ⟨fun _ member => member,met⟩

theorem rel_flatMap_mem {γ δ : Type} {r' : γ → δ → Prop} {each : α → List γ} {each' : β → List δ}
    (met : List.Forall₂ r as bs) (step : ∀ a b, a ∈ as → r a b → List.Forall₂ r' (each a) (each' b)) :
    List.Forall₂ r' (as.flatMap each) (bs.flatMap each') :=
  List.rel_flatMap (forall₂_mem met) fun a b here => step a b here.1 here.2

end

/-- Two forests that look the same where they are paired. -/
structure Twins (scene : Scene) (pair : Pairing) (f g : Forest) : Prop where
  left : Side scene.tables scene.fixed (fun a => ∃ b, pair .alike a b) scene.left f
  right : Side scene.tables scene.fixed (fun b => ∃ a, pair .alike a b) scene.right g
  unique : ∀ a b a' b', pair .alike a b → pair .alike a' b' → (a = a' ↔ b = b')
  alike : ∀ k a b, pair k a b → pair .alike a b
  known : ∀ a b, pair .inner a b → pair .known a b
  passed_iff : ∀ a b, pair .alike a b → (a ∈ scene.tables ↔ b ∈ scene.tables)
  whole : ∀ a b, pair .whole a b → a ∉ scene.tables
  tables : ∀ a b, pair .alike a b → a ∈ scene.tables → f.name a = tableName
  paragraphs : ∀ a b, pair .inner a b → f.name a = paragraphName → pair .whole a b
  face : ∀ a b, pair .alike a b → g.node b = { f.node a with children := g.children b }
  children : ∀ k a b, pair k a b → a ∉ scene.tables → List.Forall₂ (pair k) (f.children a) (g.children b)

/-- Two forests are followed by two that look the same. More elements may be paired then, all of them new in both
forests. -/
structure Followed (scene : Scene) (pair : Pairing) (f g : Forest) (pair' : Pairing) (f' g' : Forest) : Prop where
  twins : Twins scene pair' f' g'
  more : pair ≤ pair'
  new : ∀ k a b, pair' k a b → pair k a b ∨ (f.nodes.size ≤ a ∧ g.nodes.size ≤ b)
  left : f.nodes.size ≤ f'.nodes.size
  right : g.nodes.size ≤ g'.nodes.size

namespace Followed

variable {scene : Scene} {pair pair' pair'' : Pairing} {f g f' g' f'' g'' : Forest}

theorem of_size_eq (twins : Twins scene pair f' g') (left : f'.nodes.size = f.nodes.size)
    (right : g'.nodes.size = g.nodes.size) : Followed scene pair f g pair f' g' :=
  ⟨twins,le_refl pair,fun _ _ _ => Or.inl,left.ge,right.ge⟩

theorem refl (twins : Twins scene pair f g) : Followed scene pair f g pair f g :=
  .of_size_eq twins rfl rfl

theorem trans (first : Followed scene pair f g pair' f' g') (second : Followed scene pair' f' g' pair'' f'' g'') :
    Followed scene pair f g pair'' f'' g'' where
  twins := second.twins
  more := first.more.trans second.more
  new k a b met := (second.new k a b met).elim (first.new k a b)
    fun later => Or.inr ⟨Nat.le_trans first.left later.1,Nat.le_trans first.right later.2⟩
  left := Nat.le_trans first.left second.left
  right := Nat.le_trans first.right second.right

end Followed

namespace Twins

variable {scene : Scene} {pair : Pairing} {f g : Forest} {k : Grade} {a b : NodeId}

section
variable (twins : Twins scene pair f g)
include twins

theorem loosen : Twins scene.loose pair f g where
  __ := twins
  left := twins.left.loosen
  right := twins.right.loosen

theorem name_eq (met : pair k a b) : g.name b = f.name a := by
  rw [Forest.name,twins.face a b (twins.alike k a b met),Forest.name]

theorem text_eq (met : pair k a b) : g.text b = f.text a := by
  rw [Forest.text,twins.face a b (twins.alike k a b met),Forest.text]

theorem attribute?_eq (met : pair k a b) (name : Name) : g.attribute? b name = f.attribute? a name := by
  rw [attribute?,twins.face a b (twins.alike k a b met),attribute?]

theorem lt_left (met : pair k a b) : a < f.nodes.size :=
  twins.left.inside a ⟨b,twins.alike k a b met⟩

theorem lt_right (met : pair k a b) : b < g.nodes.size :=
  twins.right.inside b ⟨a,twins.alike k a b met⟩

theorem eq_iff {k' : Grade} {a' b' : NodeId} (met : pair k a b) (met' : pair k' a' b') : a = a' ↔ b = b' :=
  twins.unique a b a' b' (twins.alike k a b met) (twins.alike k' a' b' met')

theorem childrenNamed (met : pair k a b) (unpassed : a ∉ scene.tables) (name : Name) :
    List.Forall₂ (pair k) (f.childrenNamed a name) (g.childrenNamed b name) := by
  refine List.rel_filter (fun c d met => ?_) (twins.children k a b met unpassed)
  simp [twins.name_eq met]

theorem childNamed? (met : pair k a b) (unpassed : a ∉ scene.tables) (name : Name) :
    Option.Rel (pair k) (f.childNamed? a name) (g.childNamed? b name) :=
  rel_find? (fun c d met => by rw [twins.name_eq met]) (twins.children k a b met unpassed)

/-- Whole trees are paired throughout. -/
theorem tree_and (met : pair .whole a b) (here : pair k a b) :
    List.Forall₂ (fun c d => pair .whole c d ∧ pair k c d) (f.tree a) (g.tree b) := by
  obtain ⟨level,sorted⟩ := twins.left.acyclic.sorted
  obtain ⟨level',sorted'⟩ := twins.right.acyclic.sorted
  revert b
  refine sorted.induction (motive := fun a => ∀ {b}, pair .whole a b → pair k a b →
    List.Forall₂ (fun c d => pair .whole c d ∧ pair k c d) (f.tree a) (g.tree b)) (fun a ih b met here => ?_) a
  rw [tree_eq sorted,tree_eq sorted']
  have unpassed := twins.whole a b met
  have below := forall₂_and (twins.children .whole a b met unpassed) (twins.children k a b here unpassed)
  exact .cons ⟨met,here⟩ (rel_flatMap_mem below fun c d member met => ih c member met.1 met.2)

theorem tree (met : pair .whole a b) : List.Forall₂ (pair .whole) (f.tree a) (g.tree b) :=
  (twins.tree_and met met).imp fun _ _ => And.left

theorem named (met : pair .whole a b) (name : Name) :
    List.Forall₂ (pair .whole) (f.named a name) (g.named b name) :=
  List.rel_filter (fun c d met => by simp [twins.name_eq met]) (twins.tree met)

theorem textElements (met : pair .whole a b) :
    List.Forall₂ (pair .whole) (f.textElements a) (g.textElements b) :=
  List.rel_flatMap (twins.named met runName) fun _ _ met => twins.named met textName

theorem joinedText_eq {ids ids' : List NodeId} (met : List.Forall₂ (pair k) ids ids') :
    g.joinedText ids' = f.joinedText ids := by
  induction met with
  | nil => rfl
  | cons here _ ih =>
    rw [joinedText,joinedText] at ih ⊢
    rw [List.flatMap_cons,List.flatMap_cons,ih,ownText,twins.text_eq here,ownText]

theorem paragraphText_eq (met : pair .whole a b) : g.paragraphText b = f.paragraphText a :=
  twins.joinedText_eq (twins.textElements met)

/-- What is outside of tables is paired throughout. -/
theorem outside (met : pair .inner a b) (unpassed : a ∉ scene.tables) (name : Name) :
    List.Forall₂ (pair .inner) (f.outside a name tableName) (g.outside b name tableName) := by
  obtain ⟨level,sorted⟩ := twins.left.acyclic.sorted
  obtain ⟨level',sorted'⟩ := twins.right.acyclic.sorted
  revert b unpassed
  refine sorted.induction (motive := fun a => ∀ {b}, pair .inner a b → a ∉ scene.tables →
    List.Forall₂ (pair .inner) (f.outside a name tableName) (g.outside b name tableName)) ?_ a
  intro a ih b met unpassed
  rw [outside_eq name tableName sorted,outside_eq name tableName sorted']
  refine rel_flatMap_mem (twins.children .inner a b met unpassed) fun c d here met => ?_
  rw [twins.name_eq met]
  refine List.rel_append ?_ ?_
  · split
    · exact .cons met .nil
    · exact .nil
  · split
    · exact .nil
    · next other =>
      exact ih c here met fun closed => other (twins.tables c d (twins.alike _ _ _ met) closed)

/-- The same is done to paired elements. -/
theorem update (met : pair k a b) (unpassed : a ∉ scene.tables) {change : Node → Node}
    (name_eq : ∀ n, (change n).name = n.name)
    (apart : ∀ n ids, change { n with children := ids } = { change n with children := ids }) :
    Twins scene pair (f.update a change) (g.update b change) := by
  have children_eq (n : Node) : (change n).children = n.children := by
    have same := congrArg Node.children (apart n n.children)
    exact same
  have met := twins.alike k a b met
  have names (n : NodeId) : (f.update a change).name n = f.name n := f.name_update a n name_eq
  have lists (f : Forest) (a n : NodeId) : (f.update a change).children n = f.children n :=
    f.children_update a n children_eq
  refine { twins with
    left := twins.left.update ⟨b,met⟩ unpassed name_eq children_eq
    right := twins.right.update ⟨a,met⟩ (fun closed => unpassed ((twins.passed_iff a b met).mpr closed))
      name_eq children_eq
    tables := fun c d here closed => (names c).trans (twins.tables c d here closed)
    paragraphs := fun c d here kind => twins.paragraphs c d here ((names c).symm.trans kind)
    face := fun c d here => ?_
    children := fun k c d here unpassed => ?_ }
  · rw [node_update,node_update,lists]
    by_cases same : c = a
    · obtain rfl := same
      obtain rfl := (twins.unique _ _ _ _ here met).mp rfl
      rw [if_pos ⟨rfl,twins.lt_right met⟩,if_pos ⟨rfl,twins.lt_left met⟩,twins.face _ _ met]
      exact apart _ _
    · rw [if_neg fun both => same ((twins.unique _ _ _ _ here met).mpr both.1),
        if_neg fun both => same both.1]
      exact twins.face c d here
  · rw [lists,lists]
    exact twins.children k c d here unpassed

/-- Paired elements get children that are paired. -/
theorem relink (met : pair k a b) (unpassed : a ∉ scene.tables) (free : ¬ scene.fixed a) (free' : ¬ scene.fixed b)
    {change change' : List NodeId → List NodeId} (acyclic : (f.updateChildren a change).Acyclic)
    (acyclic' : (g.updateChildren b change').Acyclic) (related : ∀ k, pair k a b →
      List.Forall₂ (pair k) (change (f.children a)) (change' (g.children b))) :
    Twins scene pair (f.updateChildren a change) (g.updateChildren b change') := by
  have met := twins.alike k a b met
  refine { twins with
    left := twins.left.relink ⟨b,met⟩ unpassed free acyclic
    right := twins.right.relink ⟨a,met⟩ (fun closed => unpassed ((twins.passed_iff a b met).mpr closed)) free'
      acyclic'
    tables := fun c d here closed => (name_updateChildren f a c _).trans (twins.tables c d here closed)
    paragraphs := fun c d here kind =>
      twins.paragraphs c d here ((name_updateChildren f a c _).symm.trans kind)
    face := fun c d here => ?_
    children := fun k c d here unpassed => ?_ }
  · have same := twins.unique c d a b here met
    rw [updateChildren,updateChildren,node_update,node_update,Forest.children,node_update]
    by_cases place : c = a
    · rw [if_pos ⟨same.mp place,twins.lt_right here⟩,if_pos ⟨place,twins.lt_left here⟩,twins.face _ _ here]
    · rw [if_neg fun both => place (same.mpr both.1),if_neg fun both => place both.1]
      exact twins.face c d here
  · have same := twins.unique c d a b (twins.alike k c d here) met
    rw [children_updateChildren,children_updateChildren]
    by_cases place : c = a
    · rw [if_pos ⟨place,twins.lt_left here⟩,if_pos ⟨same.mp place,twins.lt_right here⟩]
      obtain rfl := place
      obtain rfl := same.mp rfl
      exact related k here
    · rw [if_neg fun both => place both.1,if_neg fun both => place (same.mpr both.1)]
      exact twins.children k c d here unpassed

/-- Only elements of the first forest that are not paired have changed. -/
theorem changeLeft {f' : Forest}
    (left : Side scene.tables scene.fixed (fun a => ∃ b, pair .alike a b) scene.left f')
    (node_eq : ∀ a b, pair .alike a b → f'.node a = f.node a) : Twins scene pair f' g where
  __ := twins
  left := left
  tables a b met closed := (congrArg Node.name (node_eq a b met)).trans (twins.tables a b met closed)
  paragraphs a b met kind := twins.paragraphs a b met
    ((congrArg Node.name (node_eq a b (twins.alike _ a b met))).symm.trans kind)
  face a b met := (node_eq a b met).symm ▸ twins.face a b met
  children k a b met unpassed := by
    rw [Forest.children,node_eq a b (twins.alike k a b met)]
    exact twins.children k a b met unpassed

theorem changeRight {g' : Forest}
    (right : Side scene.tables scene.fixed (fun b => ∃ a, pair .alike a b) scene.right g')
    (node_eq : ∀ a b, pair .alike a b → g'.node b = g.node b) : Twins scene pair f g' where
  __ := twins
  right := right
  face a b met := by
    rw [node_eq a b met,Forest.children,node_eq a b met]
    exact twins.face a b met
  children k a b met unpassed := by
    rw [Forest.children.eq_def g',node_eq a b (twins.alike k a b met)]
    exact twins.children k a b met unpassed

/-- New elements that look the same and stand above paired ones are paired. -/
theorem add {n n' : Node} (face : n' = { n with children := n'.children })
    (below : ∀ k, List.Forall₂ (pair k) n.children n'.children) :
    Twins scene (pair.join f.nodes.size g.nodes.size) (f.add n).2 (g.add n').2 := by
  have node_left {c : NodeId} (inside : c < f.nodes.size) : (f.add n).2.node c = f.node c := by
    rw [node_add,if_neg (Nat.ne_of_lt inside)]
  have node_right {d : NodeId} (inside : d < g.nodes.size) : (g.add n').2.node d = g.node d := by
    rw [node_add,if_neg (Nat.ne_of_lt inside)]
  have new_left : (f.add n).2.node f.nodes.size = n := by rw [node_add,if_pos rfl]
  have new_right : (g.add n').2.node g.nodes.size = n' := by rw [node_add,if_pos rfl]
  have open_left : f.nodes.size ∉ scene.tables := fun closed =>
    Nat.lt_irrefl _ (Nat.lt_of_lt_of_le (twins.left.table_lt closed) twins.left.size_le)
  have open_right : g.nodes.size ∉ scene.tables := fun closed =>
    Nat.lt_irrefl _ (Nat.lt_of_lt_of_le (twins.right.table_lt closed) twins.right.size_le)
  refine ⟨?_,?_,?_,?_,?_,?_,?_,?_,?_,?_,?_⟩
  · exact (twins.left.add n fun c member => (exists_right (below .alike) member).imp fun _ both => both.2).congr
      fun a => by simp [Pairing.join,exists_or]
  · exact (twins.right.add n' fun d member => (exists_left (below .alike) member).imp fun _ both => both.2).congr
      fun b => by simp [Pairing.join,exists_or]
  · rintro a b a' b' (met | ⟨rfl,rfl⟩) (met' | ⟨rfl,rfl⟩)
    · exact twins.unique a b a' b' met met'
    · exact iff_of_false (Nat.ne_of_lt (twins.lt_left met)) (Nat.ne_of_lt (twins.lt_right met))
    · exact iff_of_false (Nat.ne_of_gt (twins.lt_left met')) (Nat.ne_of_gt (twins.lt_right met'))
    · exact iff_of_true rfl rfl
  · exact fun k a b => Or.imp_left (twins.alike k a b)
  · exact fun a b => Or.imp_left (twins.known a b)
  · rintro a b (met | ⟨rfl,rfl⟩)
    · exact twins.passed_iff a b met
    · exact iff_of_false open_left open_right
  · rintro a b (met | ⟨rfl,rfl⟩)
    · exact twins.whole a b met
    · exact open_left
  · rintro a b (met | ⟨rfl,rfl⟩) closed
    · rw [Forest.name,node_left (twins.lt_left met)]
      exact twins.tables a b met closed
    · exact absurd closed open_left
  · rintro a b (met | new) kind
    · rw [Forest.name,node_left (twins.lt_left met)] at kind
      exact Or.inl (twins.paragraphs a b met kind)
    · exact Or.inr new
  · rintro a b (met | ⟨rfl,rfl⟩)
    · rw [Forest.children,node_left (twins.lt_left met),node_right (twins.lt_right met)]
      exact twins.face a b met
    · rw [Forest.children,new_left,new_right]
      exact face
  · rintro k a b (met | ⟨rfl,rfl⟩) unpassed
    · rw [Forest.children,Forest.children,node_left (twins.lt_left met),node_right (twins.lt_right met)]
      exact (twins.children k a b met unpassed).imp fun _ _ => Or.inl
    · rw [Forest.children,Forest.children,new_left,new_right]
      exact (below k).imp fun _ _ => Or.inl

/-- A child that is paired with a new one is put in at paired places. -/
theorem graft {c d : NodeId} (met : pair k a b) (unpassed : a ∉ scene.tables) (free : ¬ scene.fixed a)
    (free' : ¬ scene.fixed b) (new : ∀ k, pair k c d) (outside : ¬ f.Below c a) (outside' : ¬ g.Below d b)
    {change change' : List NodeId → List NodeId}
    (more : ∀ n ∈ change (f.children a), n ∈ f.children a ∨ n = c)
    (more' : ∀ n ∈ change' (g.children b), n ∈ g.children b ∨ n = d) (related : ∀ k, pair k a b →
      List.Forall₂ (pair k) (change (f.children a)) (change' (g.children b))) :
    Twins scene pair (f.updateChildren a change) (g.updateChildren b change') :=
  twins.relink met unpassed free free' (twins.left.acyclic.graft (twins.lt_left (new .alike)) outside more)
    (twins.right.acyclic.graft (twins.lt_right (new .alike)) outside' more') related

theorem insertAt {c d : NodeId} (met : pair k a b) (unpassed : a ∉ scene.tables) (free : ¬ scene.fixed a)
    (free' : ¬ scene.fixed b) (new : ∀ k, pair k c d) (outside : ¬ f.Below c a) (outside' : ¬ g.Below d b)
    (i : Nat) : Followed scene pair f g pair (f.insertAt a i c) (g.insertAt b i d) := by
  have more (ids : List NodeId) (c : NodeId) : ∀ n ∈ ids.take i ++ c :: ids.drop i, n ∈ ids ∨ n = c :=
    fun _ => mem_of_split (List.take_append_drop i ids).symm rfl
  refine .of_size_eq (twins.graft met unpassed free free' new outside outside' (more _ c) (more _ d)
    fun k met => ?_) (size_update ..) (size_update ..)
  have below := twins.children k a b met unpassed
  exact List.rel_append (List.forall₂_take i below) (.cons (new k) (List.forall₂_drop i below))

theorem append {c d : NodeId} (met : pair k a b) (unpassed : a ∉ scene.tables) (free : ¬ scene.fixed a)
    (free' : ¬ scene.fixed b) (new : ∀ k, pair k c d) (outside : ¬ f.Below c a) (outside' : ¬ g.Below d b) :
    Followed scene pair f g pair (f.append a c) (g.append b d) := by
  have more (ids : List NodeId) (c : NodeId) : ∀ n ∈ ids ++ [c], n ∈ ids ∨ n = c :=
    fun _ => mem_of_split (List.append_nil ids).symm rfl
  refine .of_size_eq (twins.graft met unpassed free free' new outside outside' (more _ c) (more _ d)
    fun k met => ?_) (size_update ..) (size_update ..)
  exact List.rel_append (twins.children k a b met unpassed) (.cons (new k) .nil)

private theorem erase {c d : NodeId} (met : pair .alike c d) {ids ids' : List NodeId}
    (related : List.Forall₂ (pair k) ids ids') : List.Forall₂ (pair k) (ids.erase c) (ids'.erase d) := by
  induction related with
  | nil => exact .nil
  | @cons x y _ _ here _ ih =>
    have same := twins.eq_iff here met
    rw [List.erase_cons,List.erase_cons]
    by_cases place : x = c
    · rwa [if_pos (beq_iff_eq.mpr place),if_pos (beq_iff_eq.mpr (same.mp place))]
    · rw [if_neg (by simpa using place),if_neg (by simpa using fun other => place (same.mpr other))]
      exact .cons here ih

theorem detach {c d : NodeId} (met : pair k a b) (unpassed : a ∉ scene.tables) (free : ¬ scene.fixed a)
    (free' : ¬ scene.fixed b) (out : pair .alike c d) :
    Followed scene pair f g pair (f.detach a c) (g.detach b d) := by
  refine .of_size_eq (twins.relink met unpassed free free' (twins.left.acyclic.detach a c)
    (twins.right.acyclic.detach b d) fun k met => ?_) (size_update ..) (size_update ..)
  exact twins.erase out (twins.children k a b met unpassed)

theorem position_eq {c d : NodeId} (met : pair k a b) (unpassed : a ∉ scene.tables) (place : pair .alike c d) :
    Index.position g b d = Index.position f a c := by
  have same {ids ids' : List NodeId} (related : List.Forall₂ (pair k) ids ids') :
      ids'.idxOf? d = ids.idxOf? c := by
    induction related with
    | nil => rfl
    | @cons x y _ _ here _ ih =>
      rw [List.idxOf?_cons,List.idxOf?_cons,ih]
      have same : (y == d) = (x == c) := by
        rw [Bool.eq_iff_iff,beq_iff_eq,beq_iff_eq,twins.eq_iff here place]
      rw [same]
  rw [Index.position,Index.position,same (twins.children k a b met unpassed)]

end

mutual

/-- An element that is planted in both forests is paired with everything below it. -/
theorem plant {pair : Pairing} {f g : Forest} (twins : Twins scene pair f g) (e : Element) :
    ∃ pair', Followed scene pair f g pair' (f.plant e).2 (g.plant e).2 ∧
      ∀ k, pair' k (f.plant e).1 (g.plant e).1 := by
  cases e with
  | mk name attributes text children tail =>
    obtain ⟨pair',followed,below⟩ := twins.plantAll children
    rw [Forest.plant,Forest.plant]
    have face : (⟨name,attributes,text,(g.plantAll children).1,tail⟩ : Node) =
        { (⟨name,attributes,text,(f.plantAll children).1,tail⟩ : Node) with children := (g.plantAll children).1 } := rfl
    have added := followed.twins.add (n := ⟨name,attributes,text,(f.plantAll children).1,tail⟩) face below
    refine ⟨_,followed.trans ⟨added,fun _ _ _ => Or.inl,fun _ _ _ => Or.imp_right fun new => ⟨new.1.ge,new.2.ge⟩,
      ?_,?_⟩,fun k => Or.inr ⟨rfl,rfl⟩⟩ <;> simp

theorem plantAll {pair : Pairing} {f g : Forest} (twins : Twins scene pair f g) (es : List Element) :
    ∃ pair', Followed scene pair f g pair' (f.plantAll es).2 (g.plantAll es).2 ∧
      ∀ k, List.Forall₂ (pair' k) (f.plantAll es).1 (g.plantAll es).1 := by
  cases es with
  | nil => exact ⟨pair,.refl twins,fun _ => .nil⟩
  | cons e es =>
    obtain ⟨pair₁,first,here⟩ := twins.plant e
    obtain ⟨pair₂,rest,others⟩ := first.twins.plantAll es
    exact ⟨pair₂,first.trans rest,fun k => .cons (rest.more k _ _ (here k)) (others k)⟩

end

/-- What is planted is above new elements only. -/
theorem outside_plant (f : Forest) (e : Element) (inside : a < f.nodes.size) :
    ¬ (f.plant e).2.Below (f.plant e).1 a := by
  obtain ⟨grown,large,-⟩ := grown_plant f e
  have later {n m : NodeId} (path : (f.plant e).2.Below n m) (new : f.nodes.size ≤ n) : f.nodes.size ≤ m := by
    induction path with
    | refl => exact new
    | tail _ here ih => exact (grown.children_new _ _ ih here).1
  exact fun path => Nat.not_lt.mpr (later path large) inside

section
variable (twins : Twins scene pair f g)
include twins

theorem free (met : pair k a b) (other : f.name a ≠ rowName) : ¬ scene.fixed a ∧ ¬ scene.fixed b :=
  ⟨fun stays => other (twins.left.fixed_name stays),fun stays =>
    other ((twins.name_eq met).symm.trans (twins.right.fixed_name stays))⟩

theorem unpassed (met : pair k a b) (other : f.name a ≠ tableName) : a ∉ scene.tables :=
  fun closed => other (twins.tables a b (twins.alike k a b met) closed)

theorem setText (met : pair k a b) (unpassed : a ∉ scene.tables) (text : String) :
    Followed scene pair f g pair (f.setText a text) (g.setText b text) :=
  .of_size_eq (twins.update met unpassed (fun _ => rfl) fun _ _ => rfl) (size_update ..) (size_update ..)

theorem writeText {p q : NodeId} (met : pair .whole p q) (free : ¬ scene.fixed p) (free' : ¬ scene.fixed q)
    {ids ids' : List NodeId} (elements : List.Forall₂ (pair .whole) ids ids') (text : String) :
    ∃ pair', Followed scene pair f g pair' (f.writeText p ids text) (g.writeText q ids' text) := by
  cases elements with
  | nil =>
    obtain ⟨pair',planted,new⟩ := twins.plant (textRun text)
    exact ⟨pair',planted.trans (planted.twins.append (planted.more _ p q met) (twins.whole p q met) free free' new
      (outside_plant f _ (twins.lt_left met)) (outside_plant g _ (twins.lt_right met)))⟩
  | @cons first first' rest rest' here others =>
    have emptied {f g : Forest} (twins : Twins scene pair f g) : Followed scene pair f g pair
        (rest.foldl (fun f id => f.setText id "") f) (rest'.foldl (fun f id => f.setText id "") g) := by
      induction others generalizing f g with
      | nil => exact .refl twins
      | cons here _ ih =>
        have set := twins.setText here (twins.whole _ _ here) ""
        exact set.trans (ih set.twins)
    have set := twins.setText here (twins.whole _ _ here) text
    exact ⟨pair,set.trans (emptied set.twins)⟩

theorem setParagraphText {p q : NodeId} (met : pair .whole p q) (kind : f.name p = paragraphName)
    (text : String) :
    ∃ pair', Followed scene pair f g pair' (f.setParagraphText p text) (g.setParagraphText q text) := by
  obtain ⟨free,free'⟩ := twins.free met (by rw [kind]; decide)
  exact twins.writeText met free free' (twins.textElements met) text

end

end Twins
end Forest
end MailMerge
