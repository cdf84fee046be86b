import MailMerge.Package.Manifest
import MailMerge.Proofs.Tree.Shown

/-! Manifests as lists of entries. A new entry comes after all others and leaves them as they are;
changing the content type of an entry changes no other. What a manifest says depends on the
elements of its own part only.
-/
namespace MailMerge
open Xml Forest

namespace Forest

/-- The attributes of the entries of a manifest that have a name, in order. -/
def entries (f : Forest) (root : NodeId) (name : Name) : List Attributes :=
  (f.named root name).map fun id => (f.node id).attributes

/-- The relationships of a manifest. -/
def links (f : Forest) (root : NodeId) : List Attributes :=
  f.entries root (.within Docx.relationshipsSpace "Relationship")

/-- The content type that the manifest gives to one part by name. -/
def overrideType? (f : Forest) (root : NodeId) (part : String) : Option String :=
  (f.override? root part).bind fun id => f.attribute? id (.bare "ContentType")

/-- A relationship as it is added to a manifest. -/
def link (key kind target : String) : Attributes :=
  [(.bare "Id",key),(.bare "Type",kind),(.bare "Target",target)]

end Forest

/-- The attributes of the elements below an element that have a name, in order. -/
def Xml.Element.entries (e : Element) (name : Name) : List Attributes :=
  (e.descendants.filter (·.name == name)).map (·.attributes)

/-- The relationships that a package has for a part: those of the manifest's tree if it was read, or
else those in its contents. -/
def Package.links? (p : Package) (part : String) : Option (List Attributes) :=
  match p.trees.lookup (Path.relationships part) with
  | some t => some (p.forest.links t.root)
  | none => (p.part? (Path.relationships part)).bind fun data =>
    match (readBytes data).root with
    | .ok e => some (e.entries (.within Docx.relationshipsSpace "Relationship"))
    | .error _ => none

namespace Forest

theorem tree_update (f : Forest) (id : NodeId) {change : Node → Node}
    (same : ∀ n, (change n).children = n.children) (root : NodeId) :
    (f.update id change).tree root = f.tree root :=
  tree_of_children_eq (f.size_update id change) (fun n => f.children_update id n same) root

theorem named_update (f : Forest) (id : NodeId) (change : Node → Node)
    (same : ∀ n, (change n).children = n.children) (same_name : ∀ n, (change n).name = n.name)
    (root : NodeId) (name : Name) : (f.update id change).named root name = f.named root name := by
  simp only [named,f.tree_update id same,f.name_update id _ same_name]

variable {α : Type} {f g : Forest} {owner owner' : NodeId → α} {level level' : NodeId → Nat}

/-- A tree has the entries of the element that it stands for. -/
theorem entries_eq (sorted : f.Sorted owner level) (root : NodeId) (name : Name) :
    f.entries root name = (f.element root).entries name := by
  have label (n : NodeId) : (f.element n).name = f.name n ∧
      (f.element n).attributes = (f.node n).attributes := by
    rw [element_eq sorted n]
    exact ⟨rfl,rfl⟩
  rw [Element.entries,← map_element_tree sorted root,List.filter_map,List.map_map,entries,named]
  have names : ((fun e : Element => e.name == name) ∘ f.element) = (f.name · == name) :=
    funext fun n => by rw [Function.comp_apply,(label n).1]
  rw [names]
  apply List.map_congr_left
  intro n _
  exact (label n).2.symm

/-- The entries of a manifest stay as they are while the elements of its part do. -/
theorem entries_congr (sorted : f.Sorted owner level) (sorted' : g.Sorted owner' level')
    {part : α} (same : ∀ n : Nat, n < f.nodes.size → owner n = part → g.node n = f.node n)
    {root : Nat} (inside : root < f.nodes.size) (owned : owner root = part) (name : Name) :
    g.entries root name = f.entries root name := by
  have closed : ∀ n : Nat, (n < f.nodes.size ∧ owner n = part) → ∀ child ∈ f.children n,
      child < f.nodes.size ∧ owner child = part := fun n kept child member =>
    ⟨(sorted.below n child member).1,sorted.closed_owner part n kept.2 child member⟩
  have trees := tree_congr sorted sorted' closed (fun n kept => same n kept.1 kept.2) root
    ⟨inside,owned⟩
  have kept : ∀ n ∈ f.tree root, g.node n = f.node n := by
    intro n member
    obtain ⟨owned',place⟩ := mem_tree sorted member
    refine same n ?_ (owned'.trans owned)
    rcases place with rfl | small
    · exact inside
    · exact small
  have named_same : g.named root name = f.named root name := by
    simp only [named,trees]
    apply List.filter_congr
    intro n member
    simp only [Forest.name,kept n member]
  simp only [entries,named_same]
  apply List.map_congr_left
  intro n member
  rw [kept n (mem_named.mp member).1]

theorem node_addEntry (f : Forest) (root : NodeId) (name : Name) (attributes : Attributes)
    {id : NodeId} (old : id < f.nodes.size) (other : id ≠ root) :
    (f.addEntry root name attributes).node id = f.node id := by
  simp only [addEntry,append,updateChildren,node_update,node_add]
  rw [if_neg (fun here => other here.1),if_neg (Nat.ne_of_lt old)]

/-- An entry belongs to the tree it is entered into. -/
theorem Sorted.addEntry (sorted : f.Sorted owner level) {root : NodeId}
    (inside : root < f.nodes.size) (name : Name) (attributes : Attributes) :
    (f.addEntry root name attributes).Sorted (ownedFrom f.nodes.size owner (owner root))
      (levelFrom f.nodes.size (f.nodes.size + 1) level) := by
  have grown : Grown f (f.add { name := name, attributes := attributes }).2 :=
    (Grown.refl f).add _ (by simp)
  have sorted' := sorted.grow grown (owner root)
  rw [size_add] at sorted'
  apply sorted'.append
  · simp
  · rw [ownedFrom_of_le (Nat.le_refl _),ownedFrom_of_lt inside]
  · have bound := sorted.bounded root inside
    rw [levelFrom_of_lt inside]
    simp [levelFrom,bound]

section
variable {root : NodeId} {name : Name} {attributes : Attributes}

theorem node_addEntry_root (inside : root < f.nodes.size) :
    (f.addEntry root name attributes).node root =
      { f.node root with children := (f.node root).children ++ [f.nodes.size] } := by
  simp only [addEntry,append,updateChildren,node_update,node_add,size_add,fst_add]
  rw [if_pos ⟨trivial,Nat.lt_succ_of_lt inside⟩,if_neg (Nat.ne_of_lt inside)]

theorem node_addEntry_last (inside : root < f.nodes.size) :
    (f.addEntry root name attributes).node f.nodes.size =
      { name := name, attributes := attributes } := by
  simp only [addEntry,append,updateChildren,node_update,node_add,size_add,fst_add]
  rw [if_neg (fun here => Nat.ne_of_lt inside here.1.symm),if_pos trivial]

/-- What is below a manifest's root does not see the new entry. -/
theorem below_addEntry (sorted : f.Sorted owner level)
    (sorted' : (f.addEntry root name attributes).Sorted owner' level') {child : NodeId}
    (member : child ∈ f.children root) :
    (f.addEntry root name attributes).tree child = f.tree child ∧
      (f.addEntry root name attributes).element child = f.element child := by
  let keep (n : NodeId) : Prop := n < f.nodes.size ∧ level root < level n
  have kept : keep child := ⟨(sorted.below root child member).1,(sorted.below root child member).2.2⟩
  have closed : ∀ n, keep n → ∀ child ∈ f.children n, keep child := by
    intro n kept child member
    have further := sorted.below n child member
    exact ⟨further.1,Nat.lt_trans kept.2 further.2.2⟩
  have same : ∀ n, keep n → (f.addEntry root name attributes).node n = f.node n := by
    intro n kept
    apply f.node_addEntry root name attributes kept.1
    rintro rfl
    exact Nat.lt_irrefl _ kept.2
  exact ⟨tree_congr sorted sorted' closed same child kept,
    element_congr sorted sorted' closed same child kept⟩

theorem tree_addEntry (sorted : f.Sorted owner level) (inside : root < f.nodes.size)
    (sorted' : (f.addEntry root name attributes).Sorted owner' level') :
    (f.addEntry root name attributes).tree root = f.tree root ++ [f.nodes.size] := by
  have below : ∀ child ∈ f.children root,
      (f.addEntry root name attributes).tree child = f.tree child :=
    fun child member => (below_addEntry sorted sorted' member).1
  have children_root : (f.addEntry root name attributes).children root =
      f.children root ++ [f.nodes.size] := by rw [children,node_addEntry_root inside,children]
  have leaf : (f.addEntry root name attributes).children f.nodes.size = [] := by
    rw [children,node_addEntry_last inside]
  rw [tree_eq sorted',children_root,tree_eq sorted root,List.flatMap_append,List.cons_append,
    List.flatMap_congr below,List.flatMap_singleton,tree_eq sorted',leaf]
  simp

end

private theorem label_addEntry (f : Forest) {root : NodeId} {name : Name}
    {attributes : Attributes} (inside : root < f.nodes.size) {id : NodeId}
    (old : id < f.nodes.size) :
    (f.addEntry root name attributes).name id = f.name id ∧
      ((f.addEntry root name attributes).node id).attributes = (f.node id).attributes := by
  by_cases here : id = root
  · subst here
    simp only [Forest.name,node_addEntry_root inside,and_self]
  · simp only [Forest.name,f.node_addEntry root name attributes old here,and_self]

/-- A new entry comes after all others. -/
theorem entries_addEntry (sorted : f.Sorted owner level) {root : NodeId} {name : Name}
    {attributes : Attributes} (inside : root < f.nodes.size)
    (sorted' : (f.addEntry root name attributes).Sorted owner' level') (other : Name) :
    (f.addEntry root name attributes).entries root other =
      f.entries root other ++ if name = other then [attributes] else [] := by
  have old : ∀ n ∈ f.tree root, n < f.nodes.size := by
    intro n member
    rcases (mem_tree sorted member).2 with rfl | small
    · exact inside
    · exact small
  have last : (f.addEntry root name attributes).node f.nodes.size =
      { name := name, attributes := attributes } := node_addEntry_last inside
  have former : (f.tree root).filter ((f.addEntry root name attributes).name · == other) =
      f.named root other := by
    apply List.filter_congr
    intro n member
    rw [(f.label_addEntry inside (old n member)).1]
  have kept : (f.named root other).map
      (fun id => ((f.addEntry root name attributes).node id).attributes) =
        f.entries root other := by
    apply List.map_congr_left
    intro n member
    exact (f.label_addEntry inside (old n (mem_named.mp member).1)).2
  have new : (f.addEntry root name attributes).name f.nodes.size = name := by
    rw [Forest.name,last]
  rw [entries,named,tree_addEntry sorted inside sorted',List.filter_append,former,List.map_append,
    kept,List.filter_singleton,new]
  by_cases same : name = other
  · subst same
    simp [last]
  · simp [beq_eq_false_iff_ne.mpr same,same]

section
variable (f : Forest) (root : NodeId)

theorem relationshipIds_eq :
    f.relationshipIds root = (f.links root).map (·.get? (.bare "Id")) := by
  simp [relationshipIds,links,entries,relationships,attribute?]

/-- Relating a new key adds a link. -/
theorem relate_of_new {key : String} (new : some key ∉ f.relationshipIds root)
    (kind target : String) : f.relate root key kind target =
      f.addEntry root (.within Docx.relationshipsSpace "Relationship") (link key kind target) := by
  have missing : f.relationship? root key = none := by
    rw [relationship?,List.find?_eq_none]
    intro id member same
    exact new (List.mem_map.mpr ⟨id,member,eq_of_beq same⟩)
  simp [relate,missing,link]

theorem hasDefault_eq (extension : String) : f.hasDefault root extension =
    (f.entries root (.within Docx.typesSpace "Default")).any fun a =>
      Text.lower ((a.get? (.bare "Extension")).getD "") == Text.lower extension := by
  simp only [hasDefault,typeDefaults,entries,List.any_map]
  rfl

theorem overrideType?_eq (part : String) : f.overrideType? root part =
    ((f.entries root (.within Docx.typesSpace "Override")).find? fun a =>
      a.get? (.bare "PartName") == some (rooted part)).bind (·.get? (.bare "ContentType")) := by
  simp only [overrideType?,override?,typeOverrides,entries,List.find?_map,Option.bind_map]
  rfl

end

/-- A type for an extension that is declared is known. -/
theorem hasDefault_addEntry (sorted : f.Sorted owner level) {root : NodeId}
    (inside : root < f.nodes.size) {extension type : String}
    (sorted' : (f.addEntry root (.within Docx.typesSpace "Default")
      [(.bare "Extension",extension),(.bare "ContentType",type)]).Sorted owner' level') :
    (f.addEntry root (.within Docx.typesSpace "Default")
      [(.bare "Extension",extension),(.bare "ContentType",type)]).hasDefault root extension =
        true := by
  rw [hasDefault_eq,entries_addEntry sorted inside sorted',if_pos rfl,List.any_append]
  simp [Attributes.get?_cons]

/-- A new entry takes no extension away. -/
theorem hasDefault_of_addEntry (sorted : f.Sorted owner level) {root : NodeId} {name : Name}
    {attributes : Attributes} (inside : root < f.nodes.size)
    (sorted' : (f.addEntry root name attributes).Sorted owner' level') {extension : String}
    (present : f.hasDefault root extension = true) :
    (f.addEntry root name attributes).hasDefault root extension = true := by
  rw [hasDefault_eq] at present ⊢
  rw [entries_addEntry sorted inside sorted',List.any_append,present,Bool.true_or]

/-- An entry of another kind changes no type that is given by name. -/
theorem overrideType?_addEntry (sorted : f.Sorted owner level) {root : NodeId} {name : Name}
    {attributes : Attributes} (inside : root < f.nodes.size)
    (sorted' : (f.addEntry root name attributes).Sorted owner' level')
    (other : name ≠ .within Docx.typesSpace "Override") (part : String) :
    (f.addEntry root name attributes).overrideType? root part = f.overrideType? root part := by
  rw [overrideType?_eq,overrideType?_eq,entries_addEntry sorted inside sorted',if_neg other,
    List.append_nil]

theorem rooted_injective {part other : String} (plain : part.toList.head? ≠ some '/')
    (plain' : other.toList.head? ≠ some '/') (same : rooted part = rooted other) :
    part = other := by
  have bare {name : String} (plain : name.toList.head? ≠ some '/') :
      (rooted name).toList = '/' :: name.toList := by
    cases shape : name.toList with
    | nil => simp [rooted,shape]
    | cons c rest =>
      have different : c ≠ '/' := by simpa [shape] using plain
      simp [rooted,shape,different]
  have lists := congrArg String.toList same
  rw [bare plain,bare plain'] at lists
  exact String.toList_inj.mp (List.cons.inj lists).2

section
variable (f : Forest) (root : NodeId) (part type : String)

theorem partName_of_override? {id : NodeId} (found : f.override? root part = some id) :
    id ∈ f.tree root ∧ f.attribute? id (.bare "PartName") = some (rooted part) := by
  have member := (mem_named.mp (List.mem_of_find?_eq_some found)).1
  have named := List.find?_some found
  exact ⟨member,eq_of_beq named⟩

private theorem attribute?_setAttribute (id n : NodeId) (name : Name) (value : String)
    (other : Name) : (f.setAttribute id name value).attribute? n other =
      if (n = id ∧ n < f.nodes.size) ∧ other = name then some value else f.attribute? n other := by
  simp only [attribute?,setAttribute,node_update]
  by_cases here : n = id ∧ n < f.nodes.size
  · rw [if_pos here,Attributes.get?_set]
    by_cases same : other = name
    · rw [if_pos same,if_pos ⟨here,same⟩]
    · rw [if_neg same,if_neg fun both => same both.2]
  · rw [if_neg here,if_neg fun both => here both.1]

/-- Setting the type of an entry changes no other attribute. -/
private theorem attribute?_setType (id n : NodeId) {name : Name}
    (other : name ≠ .bare "ContentType") :
    (f.setAttribute id (.bare "ContentType") type).attribute? n name = f.attribute? n name := by
  rw [attribute?_setAttribute,if_neg fun both => other both.2]

private theorem named_setType (id : NodeId) (name : Name) :
    (f.setAttribute id (.bare "ContentType") type).named root name = f.named root name := by
  let change (n : Node) : Node :=
    { n with attributes := n.attributes.set (.bare "ContentType") type }
  exact f.named_update id change (fun _ => rfl) (fun _ => rfl) root _

private theorem hasDefault_setType (id : NodeId) (extension : String) :
    (f.setAttribute id (.bare "ContentType") type).hasDefault root extension =
      f.hasDefault root extension := by
  have same (n : NodeId) : (f.setAttribute id (.bare "ContentType") type).isFor
      (Text.lower extension) n = f.isFor (Text.lower extension) n := by
    rw [isFor,f.attribute?_setType type id n (by decide),isFor]
  simp only [hasDefault,typeDefaults,f.named_setType root type id,funext same]

/-- Setting the type of an entry changes no part name, so the same entries are found. -/
private theorem override?_setType (id : NodeId) (other : String) :
    (f.setAttribute id (.bare "ContentType") type).override? root other =
      f.override? root other := by
  simp only [override?,typeOverrides,f.named_setType root type id,
    f.attribute?_setType type id _ (by decide : Name.bare "PartName" ≠ .bare "ContentType")]

end

/-- What the manifest says about a part after its content type was set. -/
theorem overrideType?_ensureOverride (sorted : f.Sorted owner level) {root : NodeId}
    (inside : root < f.nodes.size) {part type : String}
    (sorted' : (f.ensureOverride root part type).2.Sorted owner' level') (other : String) :
    (f.ensureOverride root part type).2.overrideType? root other =
      if rooted other = rooted part then some type else f.overrideType? root other := by
  unfold ensureOverride at sorted' ⊢
  cases found : f.override? root part with
  | none =>
    simp only [found] at sorted' ⊢
    have missing : f.overrideType? root part = none := by simp [overrideType?,found]
    rw [overrideType?_eq,overrideType?_eq,entries_addEntry sorted inside sorted',if_pos rfl,
      List.find?_append]
    by_cases same : rooted other = rooted part
    · rw [override?,List.find?_eq_none] at found
      have none_before : (f.entries root (.within Docx.typesSpace "Override")).find?
          (fun a => a.get? (.bare "PartName") == some (rooted part)) = none := by
        rw [List.find?_eq_none]
        intro a member
        obtain ⟨id,listed,rfl⟩ := List.mem_map.mp member
        exact found id listed
      have different : Name.bare "PartName" ≠ .bare "ContentType" := by decide
      simp [same,none_before,Attributes.get?_cons,different]
    · have other_name : (some (rooted part) == some (rooted other)) = false := by
        simpa using Ne.symm same
      simp [same,Attributes.get?_cons,other_name]
  | some id =>
    obtain ⟨member,named⟩ := f.partName_of_override? root part found
    have bound : id < f.nodes.size := by
      rcases (mem_tree sorted member).2 with rfl | small
      · exact inside
      · exact small
    rw [overrideType?,f.override?_setType root type id other,overrideType?]
    by_cases same : rooted other = rooted part
    · have found' : f.override? root other = some id := by
        simpa only [override?,same] using found
      rw [if_pos same,found',Option.bind_some,attribute?_setAttribute,if_pos ⟨⟨rfl,bound⟩,rfl⟩]
    · rw [if_neg same]
      cases found' : f.override? root other with
      | none => rfl
      | some id' =>
        have named' := (f.partName_of_override? root other found').2
        have different : id' ≠ id := by
          rintro rfl
          exact same (Option.some.inj (named'.symm.trans named))
        rw [Option.bind_some,Option.bind_some,attribute?_setAttribute,
          if_neg fun both => different both.1.1]

/-- Setting the type of a part takes no extension away. -/
theorem hasDefault_ensureOverride (sorted : f.Sorted owner level) {root : NodeId}
    (inside : root < f.nodes.size) {part type : String}
    (sorted' : (f.ensureOverride root part type).2.Sorted owner' level') {extension : String}
    (present : f.hasDefault root extension = true) :
    (f.ensureOverride root part type).2.hasDefault root extension = true := by
  unfold ensureOverride at sorted' ⊢
  cases found : f.override? root part with
  | none =>
    simp only [found] at sorted' ⊢
    exact hasDefault_of_addEntry sorted inside sorted' present
  | some id => exact (f.hasDefault_setType root type id extension).trans present

end Forest

namespace Grove

/-- A manifest with a new entry. -/
def enter (g : Grove) (part : String) (root : NodeId) (name : Name) (attributes : Attributes) :
    Grove :=
  (g.plant part (.node name attributes [])).withForest (g.forest.addEntry root name attributes)

variable {g : Grove} {part : String} {root : NodeId} {name : Name} {attributes : Attributes}

theorem later_enter : Later g (g.enter part root name attributes) :=
  (later_plant g part (.node name attributes [])).trans
    (later_update (g.plant part (.node name attributes [])) root fun _ => rfl)

theorem Sorted.enter (sorted : g.Sorted) (inside : g.Within part root) :
    (g.enter part root name attributes).Sorted := by
  have sorted' := Forest.Sorted.addEntry sorted inside.1 name attributes
  rw [inside.2] at sorted'
  simpa [Grove.Sorted,Grove.enter,Grove.plant,Grove.withForest,Element.node,Forest.plant,plantAll]
    using sorted'

theorem Orderly.enter (orderly : g.Orderly) (inside : g.Within part root) :
    (g.enter part root name attributes).Orderly := by
  refine ⟨orderly.sorted.enter inside,?_⟩
  obtain ⟨branching,loose⟩ := branching_plant orderly.branching (.node name attributes [])
  have grown := (grown_plant g.forest (.node name attributes [])).1
  exact branching.more (· ++ [g.forest.nodes.size]) (List.append_nil _).symm rfl
    (by simp [Element.node,Forest.plant,plantAll]) loose

/-- A new entry changes no element of another part. -/
theorem node_enter {id : NodeId} (old : id < g.forest.nodes.size) (inside : g.Within part root)
    (other : g.owner id ≠ part) : (g.enter part root name attributes).forest.node id =
      g.forest.node id := by
  apply node_addEntry g.forest root name attributes old
  rintro rfl
  exact other inside.2

/-- A new entry spares the other parts. -/
theorem spares_enter {other : String} (inside : g.Within other root) (different : other ≠ part) :
    Spares part g (g.enter other root name attributes) where
  later := later_enter
  node_eq id old owned := node_enter old inside fun same => different (same.symm.trans owned)
  fresh n child new member := by
    obtain ⟨grown,_,_⟩ := grown_plant g.forest (.node name attributes [])
    have here : n ≠ root := by
      rintro rfl
      exact Nat.not_lt.mpr new inside.1
    have kept : (g.enter other root name attributes).forest.children n =
        (g.forest.plant (.node name attributes [])).2.children n := by
      simp only [Grove.enter,Grove.withForest,Forest.children]
      exact congrArg Node.children (node_update_of_ne _ _ here)
    exact (grown.children_new n child new (kept ▸ member)).1

/-- An entry of a manifest shows nothing. -/
theorem shown?_enter (part : String) (blank : Docx.shown? name attributes = none) (id : NodeId) :
    (g.enter part root name attributes).forest.shown? id = g.forest.shown? id := by
  have leaf : Docx.shownBy (.node name attributes []) = [] := by simp [Element.node,blank]
  rw [← g.forest.shown?_plant_of_blank leaf id]
  exact Forest.shown?_update _ root id fun _ => rfl

end Grove
end MailMerge
