import MailMerge.Proofs.Tree.Edit
import MailMerge.Proofs.Xml.Attributes

/-! What the elements of a forest show. Planting a paragraph for a picture or a chart adds one
element that shows it; planting anything else, and every other edit, adds none.
-/
namespace MailMerge
open Xml Docx Forest

namespace Forest

/-- What an element shows. -/
def shown? (f : Forest) (id : NodeId) : Option (Shape × String) :=
  Docx.shown? (f.node id).name (f.node id).attributes

mutual

/-- The nodes added for an element have the names and attributes of what is below it. -/
theorem labels_plant (f : Forest) (e : Element) : ∃ added : List Node,
    (f.plant e).2.nodes.toList = f.nodes.toList ++ added ∧
      (added.map fun n => (n.name,n.attributes)).Perm
        (e.descendants.map fun e => (e.name,e.attributes)) := by
  cases e with
  | mk name attributes text children tail =>
    obtain ⟨added,grown,same⟩ := labels_plantAll f children
    refine ⟨added ++ [⟨name,attributes,text,(f.plantAll children).1,tail⟩],?_,?_⟩
    · simp [plant,add,grown]
    · simp only [List.map_append,List.map_cons,List.map_nil,Element.descendants]
      exact (List.perm_append_singleton _ _).trans (same.cons _)

theorem labels_plantAll (f : Forest) (es : List Element) : ∃ added : List Node,
    (f.plantAll es).2.nodes.toList = f.nodes.toList ++ added ∧
      (added.map fun n => (n.name,n.attributes)).Perm
        ((Element.descendantsOf es).map fun e => (e.name,e.attributes)) := by
  cases es with
  | nil => exact ⟨[],by simp [plantAll],List.Perm.refl _⟩
  | cons e es =>
    obtain ⟨first,grown,same⟩ := labels_plant f e
    obtain ⟨rest,grown',same'⟩ := labels_plantAll (f.plant e).2 es
    refine ⟨first ++ rest,by simp [plantAll,grown',grown],?_⟩
    simpa [Element.descendantsOf] using same.append same'

end

variable {β : Type} {look : Name → Attributes → Option β}

/-- What is seen of an element. -/
def seen (look : Name → Attributes → Option β) (f : Forest) (id : NodeId) : Option β :=
  look (f.node id).name (f.node id).attributes

/-- The nodes added for an element are seen as the element is. -/
theorem seen_plant (look : Name → Attributes → Option β) (f : Forest) (e : Element) :
    ∃ added : List Node, (f.plant e).2.nodes.toList = f.nodes.toList ++ added ∧
      (added.filterMap fun n => look n.name n.attributes).Perm (seenBy look e) := by
  obtain ⟨added,grown,same⟩ := labels_plant f e
  refine ⟨added,grown,?_⟩
  have labels := same.filterMap fun label => look label.1 label.2
  rwa [List.filterMap_map,List.filterMap_map] at labels

private theorem node_of_grown {f g : Forest} {added : List Node}
    (grown : g.nodes.toList = f.nodes.toList ++ added) {id : NodeId} (new : f.nodes.size ≤ id) :
    g.node id = (added[id - f.nodes.size]?).getD ⟨.bare "",[],none,[],none⟩ := by
  simp only [node,← Array.getElem?_toList,grown]
  rw [List.getElem?_append_right (by simpa using new),Array.length_toList]

theorem seen_of_grown {f g : Forest} (grown : Grown f g) {id : NodeId}
    (old : id < f.nodes.size) : g.seen look id = f.seen look id := by
  rw [seen,grown.node_eq id old,seen]

theorem seen_update (f : Forest) (id n : NodeId) {change : Node → Node}
    (same : ∀ n, look (change n).name (change n).attributes = look n.name n.attributes) :
    (f.update id change).seen look n = f.seen look n := by
  simp only [seen,node_update]
  split
  · exact same _
  · rfl

/-- What is seen of an element is seen of a node that was added. -/
theorem exists_seen {f : Forest} {e : Element} {b : β} (member : b ∈ seenBy look e) :
    ∃ id : Nat, f.nodes.size ≤ id ∧ id < (f.plant e).2.nodes.size ∧
      (f.plant e).2.seen look id = some b := by
  obtain ⟨added,grown,same⟩ := f.seen_plant look e
  obtain ⟨n,listed,sees⟩ := List.mem_filterMap.mp (same.symm.subset member)
  obtain ⟨i,bound,here⟩ := List.getElem_of_mem listed
  have size_eq : (f.plant e).2.nodes.size = f.nodes.size + added.length := by
    simpa using congrArg List.length grown
  refine ⟨f.nodes.size + i,Nat.le_add_right _ _,by omega,?_⟩
  rw [seen,node_of_grown grown (Nat.le_add_right _ _),Nat.add_sub_cancel_left,
    List.getElem?_eq_getElem bound,here]
  exact sees

/-- An element is seen as the nodes of its tree are. -/
theorem seenBy_element {α : Type} {owner : NodeId → α} {level : NodeId → Nat} {f : Forest}
    (sorted : f.Sorted owner level) (look : Name → Attributes → Option β) (root : NodeId) :
    seenBy look (f.element root) = (f.tree root).filterMap (f.seen look) := by
  rw [seenBy,← map_element_tree sorted root,List.filterMap_map]
  congr 1
  funext n
  rw [Function.comp_apply,element_eq sorted n]
  rfl

section
variable (blank : ∀ name, look name [] = none)
include blank

theorem seen_of_size_le (f : Forest) {id : NodeId} (large : f.nodes.size ≤ id) :
    f.seen look id = none := by
  rw [seen,f.node_of_size_le large]
  exact blank _

private theorem exists_of_seen {f g : Forest} {added : List Node}
    (grown : g.nodes.toList = f.nodes.toList ++ added) {id : NodeId} (new : f.nodes.size ≤ id)
    {b : β} (sees : g.seen look id = some b) :
    ∃ n, added[id - f.nodes.size]? = some n ∧ look n.name n.attributes = some b := by
  rw [seen,node_of_grown grown new] at sees
  cases here : added[id - f.nodes.size]? with
  | none =>
    rw [here] at sees
    simp [blank] at sees
  | some n =>
    rw [here] at sees
    exact ⟨n,rfl,sees⟩

/-- What is seen of a node that was added is seen of the element. -/
theorem mem_seenBy {f : Forest} {e : Element} {id : NodeId} (new : f.nodes.size ≤ id) {b : β}
    (sees : (f.plant e).2.seen look id = some b) : b ∈ seenBy look e := by
  obtain ⟨added,grown,same⟩ := f.seen_plant look e
  obtain ⟨n,here,sees⟩ := exists_of_seen blank grown new sees
  exact same.subset (List.mem_filterMap.mpr ⟨n,List.mem_of_getElem? here,sees⟩)

/-- Where nothing is seen twice of an element, nothing is seen of two nodes that were added. -/
theorem seen_unique {f : Forest} {e : Element} (distinct : (seenBy look e).Nodup) {a b : NodeId}
    (new : f.nodes.size ≤ a) (new' : f.nodes.size ≤ b) {k : β}
    (sees : (f.plant e).2.seen look a = some k) (sees' : (f.plant e).2.seen look b = some k) :
    a = b := by
  obtain ⟨added,grown,same⟩ := f.seen_plant look e
  obtain ⟨n,here,sees⟩ := exists_of_seen blank grown new sees
  obtain ⟨m,here',sees'⟩ := exists_of_seen blank grown new' sees'
  have apart : added.Pairwise fun n m => ∀ k, look n.name n.attributes = some k →
      ∀ k', look m.name m.attributes = some k' → k ≠ k' :=
    List.pairwise_filterMap.mp (same.nodup_iff.mpr distinct)
  obtain ⟨bound,rfl⟩ := List.getElem?_eq_some_iff.mp here
  obtain ⟨bound',rfl⟩ := List.getElem?_eq_some_iff.mp here'
  rw [List.pairwise_iff_getElem] at apart
  rcases Nat.lt_trichotomy (a - f.nodes.size) (b - f.nodes.size) with less | equal | more
  · exact absurd rfl (apart _ _ bound bound' less k sees k sees')
  · exact Nat.le_antisymm (by omega) (by omega)
  · exact absurd rfl (apart _ _ bound' bound more k sees' k sees)

/-- Planting that of which nothing is seen changes nothing that is seen. -/
theorem seen_plant_of_blank (f : Forest) {e : Element} (unseen : seenBy look e = []) (id : NodeId) :
    (f.plant e).2.seen look id = f.seen look id := by
  rcases Nat.lt_or_ge id f.nodes.size with old | new
  · exact seen_of_grown (grown_plant f e).1 old
  · rw [seen_of_size_le blank f new]
    cases sees : (f.plant e).2.seen look id with
    | none => rfl
    | some b =>
      have member := mem_seenBy blank new sees
      simp [unseen] at member

end

/-- Planting what shows one thing adds one element that shows it. -/
theorem shown?_plant (f : Forest) {e : Element} {shape : Shape × String}
    (one : shownBy e = [shape]) : ∃ id : Nat, f.nodes.size ≤ id ∧
      id < (f.plant e).2.nodes.size ∧ (f.plant e).2.shown? id = some shape ∧
        ∀ other : Nat, f.nodes.size ≤ other → other ≠ id → (f.plant e).2.shown? other = none := by
  have single : seenBy Docx.shown? e = [shape] := one
  obtain ⟨id,new,inside,shows⟩ := exists_seen (f := f) (single ▸ List.mem_singleton_self shape)
  refine ⟨id,new,inside,shows,?_⟩
  intro other new' different
  cases shows' : (f.plant e).2.shown? other with
  | none => rfl
  | some shape' =>
    have member := mem_seenBy shown?_nil new' shows'
    rw [single,List.mem_singleton] at member
    subst member
    have distinct : (seenBy Docx.shown? e).Nodup := by simp [single]
    exact absurd (seen_unique shown?_nil distinct new' new shows' shows) different

theorem shown?_update (f : Forest) (id n : NodeId) {change : Node → Node}
    (same : ∀ n, Docx.shown? (change n).name (change n).attributes =
      Docx.shown? n.name n.attributes) : (f.update id change).shown? n = f.shown? n :=
  f.seen_update id n same

theorem shown?_of_size_le (f : Forest) {id : NodeId} (large : f.nodes.size ≤ id) :
    f.shown? id = none :=
  seen_of_size_le shown?_nil f large

/-- Planting what shows nothing changes nothing that is shown. -/
theorem shown?_plant_of_blank (f : Forest) {e : Element} (blank : shownBy e = []) (id : NodeId) :
    (f.plant e).2.shown? id = f.shown? id :=
  seen_plant_of_blank shown?_nil f blank id

end Forest

namespace Grove

variable {β : Type} {look : Name → Attributes → Option β}

/-- No edit changes what is seen of an element, and none brings in anything that is seen. -/
theorem Edit.seen_eq (steady : Steady look) {s : Settings} {part : String} {g h : Grove}
    (step : Edit s part g h) (id : NodeId) : h.forest.seen look id = g.forest.seen look id := by
  cases step with
  | plant built =>
    exact seen_plant_of_blank steady.blank g.forest (built.textual.seenBy_eq_nil steady.blind) id
  | take | put => exact g.forest.seen_update _ id fun _ => rfl
  | write text inside =>
    apply g.forest.seen_update
    intro n
    apply steady.keepBlanks
    intro other different
    simp only
    split
    · exact Attributes.get?_erase_of_ne _ different
    · split
      · simp [Attributes.get?_set,different]
      · rfl

theorem Edit.shown?_eq {s : Settings} {part : String} {g h : Grove} (step : Edit s part g h)
    (id : NodeId) : h.forest.shown? id = g.forest.shown? id :=
  step.seen_eq steady_shown id

theorem Edits.shown?_eq {s : Settings} {part : String} {g h : Grove} (steps : Edits s part g h)
    (id : NodeId) : h.forest.shown? id = g.forest.shown? id := by
  induction steps with
  | refl => rfl
  | tail _ step ih => exact (step.shown?_eq id).trans ih

end Grove
end MailMerge
