import MailMerge.Proofs.Generation.World

/-! What the moves of a generation keep of the manifests. A manifest of relationships only gets new
entries with new keys; the manifest of content types keeps the extensions it knows and the types of
charts.
-/
namespace MailMerge
open Xml Docx Package Relation

/-- An edit of the tree of one part changes no element of another. -/
theorem Grove.Edit.node_eq {s : Settings} {part : String} {g h : Grove}
    (step : Grove.Edit s part g h) {id : NodeId} (old : id < g.forest.nodes.size)
    (other : g.owner id ≠ part) : h.forest.node id = g.forest.node id := by
  cases step with
  | plant built => exact (Forest.grown_plant g.forest _).1.node_eq id old
  | take inside | put inside =>
    apply Forest.node_update_of_ne
    rintro rfl
    exact other inside.2
  | write text inside =>
    apply Forest.node_update_of_ne
    rintro rfl
    exact other inside.2

theorem Grove.Edits.node_eq {s : Settings} {part : String} {g h : Grove}
    (steps : Grove.Edits s part g h) {id : NodeId} (old : id < g.forest.nodes.size)
    (other : g.owner id ≠ part) : h.forest.node id = g.forest.node id := by
  induction steps with
  | refl => rfl
  | tail steps step ih =>
    have later := Grove.Edits.later steps
    have other' := (later.owner_eq id old).trans_ne other
    exact (step.node_eq (Nat.lt_of_lt_of_le old later.size_le) other').trans ih

variable {setup : Setup} {w w' : World} {name : String} {t : PartTree}

/-- While the elements of a part stay as they are, so does what its manifest says. -/
private theorem entries_of_same (sound : w.Sound) (sound' : w'.Sound)
    (known : w.package.trees.lookup name = some t)
    (same : ∀ id : Nat, id < w.grove.forest.nodes.size → w.owner id = name →
      w'.package.forest.node id = w.package.forest.node id) (entry : Name) :
    w'.package.forest.entries t.root entry = w.package.forest.entries t.root entry := by
  obtain ⟨bound,owned⟩ := (sound.tree name t known).1
  exact Forest.entries_congr sound.sorted sound'.sorted same bound owned entry

/-- What a move may do to the elements of a part that is not filled: nothing, or it enters a new
relationship, declares the type of an extension, or sets the type of a part. -/
inductive Amended (w w' : World) (name : String) : Prop
  | same (nodes : ∀ id : Nat, id < w.grove.forest.nodes.size → w.owner id = name →
    w'.package.forest.node id = w.package.forest.node id)
  | related (t : PartTree) (key kind target : String) (other : name ≠ typesPart)
    (known : w.package.trees.lookup name = some t)
    (new : some key ∉ w.package.forest.relationshipIds t.root)
    (forest_eq : w'.package.forest = w.package.forest.addEntry t.root
      (.within relationshipsSpace "Relationship") (Forest.link key kind target))
  | declared (t : PartTree) (extension type : String) (here : name = typesPart)
    (known : w.package.trees.lookup name = some t)
    (forest_eq : w'.package.forest = w.package.forest.addEntry t.root
      (.within typesSpace "Default") [(.bare "Extension",extension),(.bare "ContentType",type)])
  | ensured (t : PartTree) (part type : String) (here : name = typesPart)
    (known : w.package.trees.lookup name = some t) (own : w.Owns part type)
    (forest_eq : w'.package.forest = (w.package.forest.ensureOverride t.root part type).2)

/-- Planting changes no element there is. -/
private theorem amended_plant (e : Element)
    (forest_eq : w'.package.forest = (w.package.forest.plant e).2) : Amended w w' name := by
  apply Amended.same
  intro id old _
  rw [forest_eq]
  exact (Forest.grown_plant w.package.forest e).1.node_eq id old

private theorem Serve.amended (sound : w.Sound) (step : Serve w w') : Amended w w' name := by
  cases step with
  | note | touch | useTypes | useLinks => exact Amended.same fun _ _ _ => rfl
  | read => exact amended_plant _ rfl
  | create => exact amended_plant _ rfl
  | @relate part t key kind target direct known new =>
    by_cases here : name = Path.relationships part
    · subst here
      exact Amended.related t key kind target (relationships_ne_typesPart part) known new rfl
    · apply Amended.same
      intro id old owned
      exact Grove.node_enter old (sound.tree _ t known).1 fun same => here (owned.symm.trans same)
  | @declare t extension type known =>
    by_cases here : name = typesPart
    · exact Amended.declared t extension type here (here ▸ known) rfl
    · apply Amended.same
      intro id old owned
      exact Grove.node_enter old (sound.tree _ t known).1 fun same => here (owned.symm.trans same)
  | @override t part type known own missing =>
    by_cases here : name = typesPart
    · refine Amended.ensured t part type here (here ▸ known) own ?_
      simp only [Forest.ensureOverride,missing]
      rfl
    · apply Amended.same
      intro id old owned
      exact Grove.node_enter old (sound.tree _ t known).1 fun same => here (owned.symm.trans same)
  | @retype t part type changed known own found =>
    by_cases here : name = typesPart
    · refine Amended.ensured t part type here (here ▸ known) own ?_
      simp only [Forest.ensureOverride,found]
      rfl
    · apply Amended.same
      intro id old owned
      apply Forest.node_update_of_ne
      rintro rfl
      have member := (Forest.partName_of_override? _ _ _ found).1
      have inside := sound.sorted.within_tree (sound.tree _ t known).1 member
      exact here (owned.symm.trans inside.2)

theorem Leg.amended (sound : w.Sound) (step : Leg setup w w') (filled : ¬ IsDirect name) :
    Amended w w' name := by
  cases step with
  | goTo | index | flush => exact Amended.same fun _ _ _ => rfl
  | edit direct step =>
    apply Amended.same
    intro id old owned
    apply step.node_eq old
    intro same
    exact filled (owned.symm.trans same ▸ direct)
  | mark => exact amended_plant _ rfl
  | move step =>
    cases step with
    | serve step => exact step.amended sound
    | work direct step =>
      apply Amended.same
      intro id old owned
      apply step.edits.node_eq old
      intro same
      exact filled (owned.symm.trans same ▸ direct)
    | store => exact Amended.same fun _ _ _ => rfl
    | «show» => exact amended_plant _ rfl

/-- A manifest of relationships only gets new entries with new keys. -/
theorem Leg.links (sound : w.Sound) (step : Leg setup w w') (filled : ¬ IsDirect name)
    (other : name ≠ typesPart) (known : w.package.trees.lookup name = some t) :
    w'.package.forest.links t.root = w.package.forest.links t.root ∨
      ∃ key kind target, some key ∉ w.package.forest.relationshipIds t.root ∧
        w'.package.forest.links t.root =
          w.package.forest.links t.root ++ [Forest.link key kind target] := by
  have sound' := sound.leg step
  cases step.amended sound filled with
  | same nodes => exact Or.inl (entries_of_same sound sound' known nodes _)
  | related t' key kind target _ known' new forest_eq =>
    obtain rfl := Option.some.inj (known.symm.trans known')
    refine Or.inr ⟨key,kind,target,new,?_⟩
    have sorted : w'.package.forest.Sorted w'.owner w'.level := sound'.sorted
    rw [forest_eq] at sorted ⊢
    exact (Forest.entries_addEntry sound.sorted (sound.tree name t known).1.1 sorted _).trans
      (by rw [if_pos rfl]; rfl)
  | declared _ _ _ here => exact absurd here other
  | ensured _ _ _ here => exact absurd here other

/-- The manifest of content types keeps the extensions it knows. -/
theorem Leg.hasDefault (sound : w.Sound) (step : Leg setup w w')
    (known : w.package.trees.lookup typesPart = some t) {extension : String}
    (present : w.package.forest.hasDefault t.root extension = true) :
    w'.package.forest.hasDefault t.root extension = true := by
  have sound' := sound.leg step
  have inside := (sound.tree _ t known).1.1
  have sorted : w'.package.forest.Sorted w'.owner w'.level := sound'.sorted
  cases step.amended sound (fun direct : IsDirect typesPart => direct.ne_typesPart rfl) with
  | same nodes =>
    rwa [Forest.hasDefault_eq,entries_of_same sound sound' known nodes,← Forest.hasDefault_eq]
  | related _ _ _ _ other => exact absurd rfl other
  | declared t' extension' type _ known' forest_eq =>
    obtain rfl := Option.some.inj (known.symm.trans known')
    rw [forest_eq] at sorted ⊢
    exact Forest.hasDefault_of_addEntry sound.sorted inside sorted present
  | ensured t' part type _ known' own forest_eq =>
    obtain rfl := Option.some.inj (known.symm.trans known')
    rw [forest_eq] at sorted ⊢
    exact Forest.hasDefault_ensureOverride sound.sorted inside sorted present

theorem head?_of_isEmbedded {file : String} (embedded : IsEmbedded file) :
    file.toList.head? = some 'w' := by
  obtain ⟨base,shape | shape⟩ := embedded <;> simp [shape]

/-- The manifest of content types keeps the types of charts. -/
theorem Leg.overrideType? (sound : w.Sound) (step : Leg setup w w')
    (known : w.package.trees.lookup typesPart = some t) {file : String}
    (embedded : IsEmbedded file)
    (typed : w.package.forest.overrideType? t.root file = some Embed.chartType) :
    w'.package.forest.overrideType? t.root file = some Embed.chartType := by
  have sound' := sound.leg step
  have inside := (sound.tree _ t known).1.1
  have sorted : w'.package.forest.Sorted w'.owner w'.level := sound'.sorted
  cases step.amended sound (fun direct : IsDirect typesPart => direct.ne_typesPart rfl) with
  | same nodes =>
    rwa [Forest.overrideType?_eq,entries_of_same sound sound' known nodes,
      ← Forest.overrideType?_eq]
  | related _ _ _ _ other => exact absurd rfl other
  | declared t' extension' type _ known' forest_eq =>
    obtain rfl := Option.some.inj (known.symm.trans known')
    rw [forest_eq] at sorted ⊢
    exact (Forest.overrideType?_addEntry sound.sorted inside sorted (by decide) file).trans typed
  | ensured t' part type _ known' own forest_eq =>
    obtain rfl := Option.some.inj (known.symm.trans known')
    rw [forest_eq] at sorted ⊢
    refine (Forest.overrideType?_ensureOverride sound.sorted inside sorted file).trans ?_
    split
    · next same =>
      rcases own with rfl | ⟨_,_,_,rfl⟩
      · have first := head?_of_isEmbedded embedded
        have names := Forest.rooted_injective (by simp [first]) (by decide) same
        exact absurd (names ▸ embedded) isDirect_document.not_isEmbedded
      · rfl
    · exact typed

/-- The relationship to an embedding stays the only one with its key. -/
theorem Embedding.Linked.leg {e : Embedding} (linked : e.Linked w.package) (sound : w.Sound)
    (step : Leg setup w w') : e.Linked w'.package := by
  obtain ⟨t,target,known,one,leads⟩ := linked
  refine ⟨t,target,sound.tree_leg step known,?_,leads⟩
  have filled : ¬ IsDirect (Path.relationships e.part) := fun direct' =>
    direct'.ne_relationships e.part rfl
  rcases step.links sound filled (relationships_ne_typesPart e.part) known with
    same | ⟨key,kind,target',new,more⟩
  · rw [same,one]
  · have taken : some e.key ∈ w.package.forest.relationshipIds t.root := by
      rw [Forest.relationshipIds_eq]
      have member : Forest.link e.key e.kind target ∈
          (w.package.forest.links t.root).filter (·.get? (.bare "Id") == some e.key) := by
        simp [one]
      exact List.mem_map.mpr ⟨_,(List.mem_filter.mp member).1,
        eq_of_beq (List.mem_filter.mp member).2⟩
    have different : key ≠ e.key := by
      rintro rfl
      exact new taken
    rw [more,List.filter_append,one]
    simp [Forest.link,Attributes.get?_cons,different]

theorem Embedding.Typed.leg {e : Embedding} {s : Settings} (typed : e.Typed s w.package) (sound : w.Sound)
    (embedded : IsEmbedded e.file) (step : Leg setup w w') : e.Typed s w'.package := by
  obtain ⟨t,known,typed⟩ := typed
  refine ⟨t,sound.tree_leg step known,?_⟩
  cases shape : e.shape with
  | image =>
    simp only [shape] at typed ⊢
    obtain ⟨extension,stored,usable,present⟩ := typed
    exact ⟨extension,stored,usable,step.hasDefault sound known present⟩
  | chart =>
    simp only [shape] at typed ⊢
    exact step.overrideType? sound known embedded typed

theorem Embedding.Linked.legs {e : Embedding} (linked : e.Linked w.package) (sound : w.Sound)
    (steps : Legs setup w w') : e.Linked w'.package := by
  induction steps with
  | refl => exact linked
  | tail steps step ih => exact ih.leg (Legs.sound steps sound) step

theorem Embedding.Typed.legs {e : Embedding} {s : Settings} (typed : e.Typed s w.package) (sound : w.Sound)
    (embedded : IsEmbedded e.file) (steps : Legs setup w w') : e.Typed s w'.package := by
  induction steps with
  | refl => exact typed
  | tail steps step ih => exact ih.leg (Legs.sound steps sound) embedded step

end MailMerge
