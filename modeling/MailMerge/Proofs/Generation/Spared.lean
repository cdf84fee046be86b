import MailMerge.Proofs.Generation.World
import MailMerge.Proofs.Package.Filing

/-! Moves that serve the package leave the parts that are filled alone. They add elements to manifests
only, except for the move that reads a part; and the parts that a generation adds to its package are no
parts that are filled.
-/
namespace MailMerge
open Xml Docx Forest Package Relation

/-- A part is read in a step: its contents are planted for it. -/
structure Reads (w w' : World) (part : String) (e : Element) : Prop where
  unread : w.package.trees.lookup part = none
  content : w.package.content? part = some e
  forest_eq : w'.package.forest = (w.package.forest.plant e).2
  owned : ∀ id : Nat, w.package.forest.nodes.size ≤ id → w'.owner id = part
  known : ∃ root, w'.Knows part root

variable {setup : Setup} {w w' : World} {part : String}

theorem Serve.spares (sound : w.Sound) (step : Serve w w') (direct : IsDirect part) :
    Grove.Spares part w.grove w'.grove := by
  have later := step.later
  have types : typesPart ≠ part := direct.ne_typesPart.symm
  cases step with
  | note | touch | useTypes | useLinks => exact .of_size_eq later rfl fun _ _ _ => rfl
  | read | create => exact Grove.spares_plant w.grove part _ _
  | relate kind target _ known new =>
    exact Grove.spares_enter (sound.tree _ _ known).1 (direct.ne_relationships _).symm
  | declare extension type known => exact Grove.spares_enter (sound.tree _ _ known).1 types
  | override known own missing => exact Grove.spares_enter (sound.tree _ _ known).1 types
  | @retype t other type changed known own found =>
    refine .of_size_eq later (size_update _ _ _) fun id old owned => node_update_of_ne _ _ ?_
    rintro rfl
    have member := (partName_of_override? _ _ _ found).1
    have inside := sound.sorted.within_tree (sound.tree _ t known).1 member
    exact types (inside.2.symm.trans owned)

/-- New elements belong to a manifest, or to a part that is read. -/
theorem Serve.owner_new (step : Serve w w') {id : NodeId}
    (new : w.package.forest.nodes.size ≤ id) (inside : id < w'.package.forest.nodes.size) :
    IsManifest (w'.owner id) ∨ ∃ e, Reads w w' (w'.owner id) e := by
  have owned (name : String) : ownedFrom w.package.forest.nodes.size w.owner name id = name :=
    ownedFrom_of_le new
  cases step with
  | note | touch | useTypes | useLinks => exact absurd inside (Nat.not_lt.mpr new)
  | @read name data e markup unread held reading =>
    have content : w.package.content? name = some e := by
      simp [Package.content?,unread,held,reading,Except.toOption]
    have known := (lookup_store w.package.trees name name
      (treeOf data (w.package.forest.plant e).1)).trans (if_pos rfl)
    refine Or.inr ⟨e,?_⟩
    rw [show World.owner _ id = name from owned name]
    exact ⟨unread,content,rfl,fun _ => ownedFrom_of_le,_,_,known,rfl⟩
  | @create name space stem manifest =>
    rw [show World.owner _ id = name from owned name]
    exact Or.inl manifest
  | @relate part t key kind target direct =>
    rw [show World.owner _ id = Path.relationships part from owned _]
    exact Or.inl (Or.inr ⟨part,direct,rfl⟩)
  | declare | override =>
    rw [show World.owner _ id = typesPart from owned _]
    exact Or.inl (Or.inl rfl)
  | retype => exact absurd (size_update _ _ _ ▸ inside) (Nat.not_lt.mpr new)

/-- A numbered drawing is reached from the root of a part, or may get a place below it. -/
abbrev World.Live (w : World) (part : String) : NodeId → Nat → Prop :=
  w.grove.Live (w.Knows part) part

/-- What is reached in a part that is filled was reached before, unless the part is read. -/
theorem Serve.bears (sound : w.Sound) (step : Serve w w') (direct : IsDirect part)
    {start start' : NodeId → Prop} {id : NodeId} {k : Nat}
    (bears : w'.grove.Bears start' part id k)
    (starts : ∀ r, start' r → start r ∨ w.package.forest.nodes.size ≤ r) :
    w.grove.Bears start part id k ∨
      w.package.forest.nodes.size ≤ id ∧ ∃ e, Reads w w' part e := by
  refine (bears.of_spared (sound.serve step).sorted (step.spares sound direct) starts).imp_right ?_
  intro new
  have owned : w'.owner id = part := bears.owned
  rcases step.owner_new new bears.inside with manifest | ⟨e,reads⟩
  · exact absurd (owned ▸ manifest) direct.not_isManifest
  · exact ⟨new,e,owned ▸ reads⟩

/-- Roots become known when they are planted. -/
theorem Serve.knows_or_new (step : Serve w w') {root : NodeId} (knows : w'.Knows part root) :
    w.Knows part root ∨ w.package.forest.nodes.size ≤ root := by
  obtain ⟨t,known,rfl⟩ := knows
  cases step with
  | note | touch | useTypes | useLinks | relate | declare | override | retype =>
    exact Or.inl ⟨t,known,rfl⟩
  | @read name data e =>
    have known' := (lookup_store w.package.trees name part _).symm.trans known
    split at known'
    · obtain rfl := Option.some.inj known'
      exact Or.inr (grown_plant w.package.forest e).2.1
    · exact Or.inl ⟨t,known',rfl⟩
  | @create name space stem =>
    have known' := (lookup_trees_setTree w.package name part _ space).symm.trans known
    split at known'
    · obtain rfl := Option.some.inj known'
      exact Or.inr (Nat.le_refl _)
    · exact Or.inl ⟨t,known',rfl⟩

/-- A drawing that counts in a part that is filled did so before, unless the part is read. -/
theorem Serve.live (sound : w.Sound) (step : Serve w w') (direct : IsDirect part) {id : NodeId}
    {k : Nat} (live : w'.Live part id k) :
    w.Live part id k ∨ w.package.forest.nodes.size ≤ id ∧ ∃ e, Reads w w' part e := by
  refine step.bears sound direct live ?_
  rintro r (knows | last)
  · exact (step.knows_or_new knows).imp_left Or.inl
  · have size_le : w.package.forest.nodes.size ≤ r + 1 := last ▸ step.later.size_le
    exact (Nat.eq_or_lt_of_le size_le).imp (fun same => Or.inr same.symm) Nat.le_of_lt_succ

/-- Parts are only added, and none that is filled. -/
theorem Leg.names (sound : w.Sound) (step : Leg setup w w') : ∃ created,
    w'.package.names = w.package.names ++ created ∧ ∀ name ∈ created, ¬ IsDirect name := by
  have same (parts : w'.package.names = w.package.names) : ∃ created,
      w'.package.names = w.package.names ++ created ∧ ∀ name ∈ created, ¬ IsDirect name :=
    ⟨[],by rw [parts,List.append_nil],by simp⟩
  cases step with
  | edit | mark | goTo | index => exact same rfl
  | flush => exact same (names_flush fun name t known => (sound.tree name t known).2.2)
  | move step =>
    cases step with
    | work | «show» => exact same rfl
    | store e counts embedded new genuine =>
      refine ⟨[e.file],map_store_of_missing e.data (notMem_names new),?_⟩
      intro name member
      rw [List.mem_singleton.mp member]
      exact fun direct => direct.not_isEmbedded embedded
    | serve step =>
      cases step with
      | note | touch | useTypes | useLinks | relate | declare | override | retype => exact same rfl
      | @read name data =>
        obtain ⟨journal,registered⟩ := w.package.registerAll_eq (readBytes data).declared
        refine same ?_
        rw [package_withGrove]
        simp only [World.withPackage,registered]
        rfl
      | @create name space stem manifest missing =>
        refine ⟨[name],map_store_of_missing _ (notMem_names missing),?_⟩
        intro other member
        rw [List.mem_singleton.mp member]
        exact fun direct => direct.not_isManifest manifest

/-- The parts whose drawings are numbered together stay the same. -/
theorem Legs.numberedParts_eq {s : Settings} (usual : s.headerPattern = ({} : Settings).headerPattern)
    (steps : Legs setup w w') (sound : w.Sound) :
    w'.package.numberedParts s = w.package.numberedParts s := by
  induction steps with
  | refl => rfl
  | tail steps step ih =>
    obtain ⟨created,names,aside⟩ := step.names (Legs.sound steps sound)
    exact (numberedParts_append usual names aside).trans ih

end MailMerge
