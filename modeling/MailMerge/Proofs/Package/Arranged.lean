import MailMerge.Proofs.Package.Outline

/-! The trees of all parts and of all manifests in use stand side by side: each node belongs to one
root of one part, and no node occurs twice in a tree. So a change of one tree shows in the draft of
one part, or in none.
-/
namespace MailMerge
open Xml Docx Package Forest

/-- A root has a tree of its own, which was made for a part. -/
structure Forest.Seat (f : Forest) (owner : NodeId → String × NodeId) (name : String)
    (root : NodeId) : Prop where
  inside : root < f.nodes.size
  owned : owner root = (name,root)
  nodup : (f.tree root).Nodup

namespace Package

/-- All trees stand side by side. -/
structure Arranged (p : Package) (owner : NodeId → String × NodeId) (level : NodeId → Nat) :
    Prop where
  sorted : p.forest.Sorted owner level
  tree : ∀ name t, p.trees.lookup name = some t → p.forest.Seat owner name t.root
  manifest : ∀ name root, p.manifest? name = some root → p.forest.Seat owner name root

def Coherent (p : Package) : Prop :=
  ∃ owner level, p.Arranged owner level

theorem Fresh.coherent {p : Package} (fresh : p.Fresh) : p.Coherent := by
  refine ⟨fun _ => ("",0),fun _ => 0,?_,?_,?_⟩
  · rw [fresh.forest]
    constructor
    · intro parent child member
      simp [children,node] at member
    · intro id inside
      simp at inside
  · intro name t known
    simp [fresh.trees] at known
  · intro name root used
    simp [manifest?,fresh.types,fresh.manifests] at used

variable {p q : Package} {owner owner' : NodeId → String × NodeId} {level level' : NodeId → Nat}

/-- A change of one tree shows in the draft of its part, if that is the tree of the part. -/
theorem Arranged.reshape (arranged : p.Arranged owner level) {name : String} {root : NodeId}
    (seat : p.forest.Seat owner name root) {e : Element} {g : Forest}
    (reshaped : Reshaped p.forest owner root e g owner' level') :
    ({ p with forest := g } : Package).Arranged owner' level' ∧
      ({ p with forest := g } : Package).outline =
        if (p.trees.lookup name).any (·.root == root) then p.outline.amend name fun _ => e
        else p.outline := by
  have apart {other : String} {root' : NodeId} (seat' : p.forest.Seat owner other root')
      (different : root' ≠ root) : owner root' ≠ owner root := by
    rw [seat'.owned,seat.owned]
    exact fun same => different (Prod.mk.inj same).2
  have seated {other : String} {root' : NodeId} (seat' : p.forest.Seat owner other root') :
      g.Seat owner' other root' := by
    refine ⟨Nat.lt_of_lt_of_le seat'.inside reshaped.size_le,?_,?_⟩
    · rw [reshaped.owner_eq root' seat'.inside,seat'.owned]
    · by_cases same : root' = root
      · exact same ▸ reshaped.nodup
      · rw [(reshaped.elsewhere arranged.sorted seat'.inside (apart seat' same)).1]
        exact seat'.nodup
  refine ⟨⟨reshaped.sorted,fun other t known => seated (arranged.tree other t known),
    fun other root' used => seated (arranged.manifest other root' used)⟩,?_⟩
  have drafts (other : String) : ({ p with forest := g } : Package).outline.drafts other =
      if other = name ∧ (p.trees.lookup name).any (·.root == root) then
        (p.outline.drafts name).map fun d => { d with element := e }
      else p.outline.drafts other := by
    simp only [outline]
    cases known : p.trees.lookup other with
    | none =>
      by_cases same : other = name
      · subst same
        simp [known]
      · simp [same]
    | some t =>
      have seat' := arranged.tree other t known
      by_cases same : t.root = root
      · have same_name : other = name := by
          have owned := seat'.owned
          rw [same,seat.owned] at owned
          exact (Prod.mk.inj owned).1.symm
        subst same_name
        simp [known,same,reshaped.element]
      · have elsewhere := (reshaped.elsewhere arranged.sorted seat'.inside (apart seat' same)).2
        have unmoved : ¬ (other = name ∧ (p.trees.lookup name).any (·.root == root) = true) := by
          rintro ⟨rfl,following⟩
          simp [known,same] at following
        rw [if_neg unmoved]
        simp [elsewhere]
  by_cases following : (p.trees.lookup name).any (·.root == root) = true
  · rw [if_pos following]
    refine Outline.ext rfl rfl (funext fun other => ?_) rfl rfl rfl
    rw [drafts]
    simp [Outline.amend,following]
  · rw [if_neg following]
    refine Outline.ext rfl rfl (funext fun other => ?_) rfl rfl rfl
    rw [drafts]
    simp [following]

/-- A part gets a tree that was just planted. -/
theorem Arranged.plant (arranged : p.Arranged owner level) (name : String) (e : Element)
    (tag : List Char) (space : String) (forest : q.forest = (p.forest.plant e).2)
    (trees : ∀ other, q.trees.lookup other =
      if other = name then some ⟨(p.forest.plant e).1,tag,space⟩ else p.trees.lookup other)
    (manifests : ∀ other, q.manifest? other = p.manifest? other) :
    q.Coherent ∧ q.outline.drafts = (p.outline.draw name ⟨e,tag,space⟩).drafts ∧
      ∀ other, q.outline.manifests other = if other = name then
        (p.outline.manifests name).map fun _ => false else p.outline.manifests other := by
  obtain ⟨grown,large,last⟩ := grown_plant p.forest e
  have sorted' := arranged.sorted.grow grown (name,(p.forest.plant e).1)
  let keep (n : NodeId) : Prop := n < p.forest.nodes.size
  have closed : ∀ n, keep n → ∀ child ∈ p.forest.children n, keep child :=
    fun n _ child member => (arranged.sorted.below n child member).1
  have tree_eq (n : NodeId) (old : n < p.forest.nodes.size) :
      (p.forest.plant e).2.tree n = p.forest.tree n :=
    tree_congr arranged.sorted sorted' closed (fun n old => grown.node_eq n old) n old
  have element_eq (n : NodeId) (old : n < p.forest.nodes.size) :
      (p.forest.plant e).2.element n = p.forest.element n :=
    element_congr arranged.sorted sorted' closed (fun n old => grown.node_eq n old) n old
  have seated {other : String} {root : NodeId} (seat : p.forest.Seat owner other root) :
      q.forest.Seat (ownedFrom p.forest.nodes.size owner (name,(p.forest.plant e).1)) other
        root := by
    rw [forest]
    refine ⟨Nat.lt_of_lt_of_le seat.inside grown.size_le,?_,?_⟩
    · rw [ownedFrom_of_lt seat.inside,seat.owned]
    · rw [tree_eq root seat.inside]
      exact seat.nodup
  have new : q.forest.Seat (ownedFrom p.forest.nodes.size owner (name,(p.forest.plant e).1)) name
      (p.forest.plant e).1 := by
    rw [forest]
    refine ⟨Nat.lt_of_succ_le (Nat.le_of_eq last),ownedFrom_of_le large,?_⟩
    exact (nodup_plant sorted' p.forest e fun _ _ _ => rfl).1
  refine ⟨⟨_,_,forest ▸ sorted',?_,?_⟩,?_,?_⟩
  · intro other t known
    rw [trees] at known
    split at known
    · next same =>
      subst same
      obtain rfl := Option.some.inj known
      exact new
    · exact seated (arranged.tree other t known)
  · intro other root used
    rw [manifests] at used
    exact seated (arranged.manifest other root used)
  · funext other
    simp only [outline,Outline.draw,trees]
    by_cases same : other = name
    · rw [if_pos same,if_pos same,Option.map_some,forest,
        element_plant sorted' p.forest e fun _ _ _ => rfl]
    · rw [if_neg same,if_neg same]
      apply Option.map_congr
      intro t known
      rw [forest,element_eq _ (arranged.tree other t known).inside]
  · intro other
    simp only [outline,manifests,trees]
    by_cases same : other = name
    · subst same
      rw [if_pos rfl,if_pos rfl,Option.map_map]
      apply Option.map_congr
      intro root used
      have old := (arranged.manifest other root used).inside
      have different : (p.forest.plant e).1 ≠ root := by
        rintro same
        exact Nat.lt_irrefl _ (Nat.lt_of_lt_of_le old (same ▸ large))
      simp [different]
    · rw [if_neg same,if_neg same]

/-- What happens outside of the trees leaves them side by side. -/
theorem Coherent.of_same (coherent : p.Coherent) (forest : q.forest = p.forest)
    (trees : q.trees = p.trees) (types : q.types = p.types) (manifests : q.manifests = p.manifests) :
    q.Coherent := by
  obtain ⟨owner,level,arranged⟩ := coherent
  refine ⟨owner,level,?_,?_,?_⟩
  · rw [forest]
    exact arranged.sorted
  · rw [forest,trees]
    exact arranged.tree
  · unfold manifest?
    rw [forest,types,manifests]
    exact arranged.manifest

/-- A root in use, as the tree of a part or as a manifest. -/
def Seated (p : Package) (name : String) (root : NodeId) : Prop :=
  (∃ t, p.trees.lookup name = some t ∧ t.root = root) ∨ p.manifest? name = some root

theorem Arranged.seat (arranged : p.Arranged owner level) {name : String} {root : NodeId}
    (seated : p.Seated name root) : p.forest.Seat owner name root := by
  rcases seated with ⟨t,known,rfl⟩ | used
  · exact arranged.tree name t known
  · exact arranged.manifest name root used

/-- A tree is changed, whether it is written into its part or not. -/
structure Amended (p : Package) (name : String) (root : NodeId) (change : Element → Element)
    (q : Package) : Prop where
  coherent : q.Coherent
  trees : q.trees = p.trees
  manifest : ∀ other, q.manifest? other = p.manifest? other
  element : q.forest.element root = change (p.forest.element root)
  outline : q.outline = if (p.trees.lookup name).any (·.root == root) then
    p.outline.amend name change else p.outline

theorem Amended.seated {name : String} {root : NodeId} {change : Element → Element}
    (amended : Amended p name root change q) (seated : p.Seated name root) :
    q.Seated name root := by
  rw [Seated,amended.trees,amended.manifest]
  exact seated

theorem following_iff {name : String} {root : NodeId} :
    (p.trees.lookup name).any (·.root == root) = true ↔
      ∃ t, p.trees.lookup name = some t ∧ t.root = root := by
  cases p.trees.lookup name <;> simp

/-- The draft of a tree in a part is made of the tree's element. -/
private theorem outline_amend {name : String} {root : NodeId} {change change' : Element → Element}
    (same : change (p.forest.element root) = change' (p.forest.element root))
    (following : (p.trees.lookup name).any (·.root == root) = true) :
    p.outline.amend name change = p.outline.amend name change' := by
  obtain ⟨t,known,rfl⟩ := following_iff.mp following
  simp [Outline.amend,Package.outline,known,same]

theorem Arranged.amended (arranged : p.Arranged owner level) {name : String}
    {root : NodeId} (seated : p.Seated name root) {change : Element → Element} {g : Forest}
    (reshaped : Reshaped p.forest owner root (change (p.forest.element root)) g owner' level') :
    Amended p name root change { p with forest := g } := by
  obtain ⟨arranged',outline_eq⟩ := arranged.reshape (arranged.seat seated) reshaped
  refine ⟨⟨_,_,arranged'⟩,rfl,fun _ => rfl,reshaped.element,outline_eq.trans ?_⟩
  by_cases following : (p.trees.lookup name).any (·.root == root) = true
  · rw [if_pos following,if_pos following]
    exact outline_amend rfl following
  · rw [if_neg following,if_neg following]

theorem Coherent.amended_relate (coherent : p.Coherent) {name : String} {root : NodeId}
    (seated : p.Seated name root) (key kind target : String) :
    Amended p name root (·.relate key kind target)
      { p with forest := p.forest.relate root key kind target } := by
  obtain ⟨owner,level,arranged⟩ := coherent
  have seat := arranged.seat seated
  obtain ⟨_,_,reshaped⟩ := reshaped_relate arranged.sorted seat.inside seat.nodup key kind target
  exact arranged.amended seated reshaped

theorem Coherent.amended_ensureOverride (coherent : p.Coherent) {name : String} {root : NodeId}
    (seated : p.Seated name root) (part type : String) :
    Amended p name root (·.ensureOverride part type)
      { p with forest := (p.forest.ensureOverride root part type).2 } := by
  obtain ⟨owner,level,arranged⟩ := coherent
  have seat := arranged.seat seated
  obtain ⟨_,_,reshaped⟩ := reshaped_ensureOverride arranged.sorted seat.inside seat.nodup part type
  exact arranged.amended seated reshaped

theorem Coherent.amended_rewrite (coherent : p.Coherent) {name : String} {root : NodeId}
    (seated : p.Seated name root) (change : Element → Element) :
    Amended p name root change
      { p with forest := p.forest.rewrite root (change (p.forest.element root)) } := by
  obtain ⟨owner,level,arranged⟩ := coherent
  have seat := arranged.seat seated
  obtain ⟨_,_,reshaped⟩ :=
    reshaped_rewrite arranged.sorted seat.inside (change (p.forest.element root))
  exact arranged.amended seated reshaped

/-- Declaring the type of an extension changes the manifest only if it has none. -/
theorem Coherent.amended_ensureDefault (coherent : p.Coherent) {name : String} {root : NodeId}
    (seated : p.Seated name root) (extension type : String) :
    ∃ new q, Packaging.ensureDefault root extension type p = .ok new q ∧
      Amended p name root (·.ensureDefault extension type) q ∧
        new = !(p.forest.element root).hasDefault extension := by
  obtain ⟨owner,level,arranged⟩ := id coherent
  have seat := arranged.seat seated
  have looked : p.forest.hasDefault root extension =
      (p.forest.element root).hasDefault extension := by
    rw [hasDefault_eq,entries_eq arranged.sorted root]
    rfl
  let entry : Entry := .default extension type
  have ran : Packaging.ensureDefault root extension type p =
      if p.forest.hasDefault root extension = true then .ok false p
      else .ok true (({ p with forest := p.forest.addEntry root entry.name entry.attributes } :
        Package).log .debug s!"Registered content type {type} for .{extension}") := by
    show (if p.forest.hasDefault root extension = true then _ else _ : Packaging Bool) p = _
    split <;> rfl
  rw [ran,looked]
  by_cases present : (p.forest.element root).hasDefault extension = true
  · have unchanged : (p.forest.element root).ensureDefault extension type =
        p.forest.element root := by simp [Element.ensureDefault,present]
    rw [if_pos present]
    refine ⟨false,p,rfl,⟨coherent,rfl,fun _ => rfl,unchanged.symm,?_⟩,by simp [present]⟩
    by_cases following : (p.trees.lookup name).any (·.root == root) = true
    · have same : (p.forest.element root).ensureDefault extension type =
          id (p.forest.element root) := unchanged
      rw [if_pos following,outline_amend same following]
      refine Outline.ext rfl rfl (funext fun other => ?_) rfl rfl rfl
      by_cases here : other = name <;> simp [Outline.amend,here]
    · rw [if_neg following]
  · have absent := Bool.eq_false_iff.mpr present
    have declared : (p.forest.element root).ensureDefault extension type =
        (p.forest.element root).addEntry entry := by simp [Element.ensureDefault,absent,entry]
    have amended : Amended p name root (·.ensureDefault extension type)
        { p with forest := p.forest.addEntry root entry.name entry.attributes } :=
      arranged.amended seated
        (declared ▸ reshaped_addEntry arranged.sorted seat.inside seat.nodup entry)
    rw [if_neg present]
    refine ⟨true,_,rfl,?_,by simp [absent]⟩
    exact ⟨amended.coherent.of_same rfl rfl rfl rfl,amended.trees,amended.manifest,
      amended.element,amended.outline⟩

end Package
end MailMerge
