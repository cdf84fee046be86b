import MailMerge.Proofs.Generation.Ends

/-! Reading parts and using manifests come down to moves that serve the package. A manifest that was
asked for is known by its tree from then on.
-/
namespace MailMerge
open Xml Docx Package Relation Generation

namespace Ends

variable {α β : Type} {r : World → World → Prop} {setup : Setup} {w : World}

theorem of_packaged_bind {operation : Packaging α} {next : α → Packaging β}
    {mid : α → World → Prop} {post : β → World → Prop}
    (first : Ends r setup (onPackage operation) w mid)
    (second : ∀ a w', ReflTransGen r w w' → mid a w' → Ends r setup (onPackage (next a)) w' post) :
    Ends r setup (onPackage (operation >>= next)) w post := by
  have same : onPackage (operation >>= next) =
      onPackage operation >>= fun a => onPackage (next a) := by
    funext setup s
    simp only [onPackage,bind,ReaderT.bind,EStateM.bind]
    cases operation s.package <;> rfl
  rw [same]
  exact of_bind first second

theorem of_packaged_pure {a : α} {post : α → World → Prop} (holds : post a w) :
    Ends r setup (onPackage (pure a)) w post :=
  ⟨w,rfl,ReflTransGen.refl,holds⟩

theorem of_packaged_modify {change : Package → Package} (post : Unit → World → Prop)
    {w' : World} (move : r w w')
    (same : w'.session = { w.session with package := change w.package }) (holds : post () w') :
    Ends r setup (onPackage (modify change)) w post :=
  ⟨w',same,ReflTransGen.single move,holds⟩

/-- Looking at the package. -/
theorem of_packaged_look {next : Package → Packaging α} {post : α → World → Prop}
    (ends : Ends r setup (onPackage (next w.package)) w post) :
    Ends r setup (onPackage (get >>= next)) w post :=
  ends

theorem of_packaged_throw {fault : Fault} {post : α → World → Prop} :
    Ends r setup (onPackage (throw fault)) w post :=
  fun _ => ⟨w,rfl,ReflTransGen.refl⟩

end Ends

variable {setup : Setup} {scope : Scope} {w : World}

theorem ends_packaged_log (level : Level) (message : String) :
    Ends Serve setup (onPackage (Packaging.log level message)) w fun _ w' =>
      w'.package = w.package.log level message :=
  Ends.of_packaged_modify _ (Serve.note (w.package.journal.log level message) w.session.outcomes
    w.session.watermarks) rfl rfl

/-- The root that is read is known by its tree, and there is one if there is the part. -/
theorem ends_root? {name : String} (markup : IsMarkup name) :
    Ends Serve setup (onPackage (Packaging.root? name)) w fun found w' =>
      (∀ root, found = some root → w'.Knows name root) ∧
        (found = none → w.package.hasPart name = false) := by
  unfold Ends onPackage
  rw [Packaging.root?_run]
  cases known : w.package.trees.lookup name with
  | some t =>
    have known' : w.session.package.trees.lookup name = some t := known
    simp only [known']
    refine ⟨_,rfl,ReflTransGen.single (Serve.touch name),?_,by simp⟩
    intro root found
    exact ⟨t,known,Option.some.inj found⟩
  | none =>
    have known' : w.session.package.trees.lookup name = none := known
    simp only [known']
    cases held : w.package.part? name with
    | none =>
      have held' : w.session.package.part? name = none := held
      simp only [held']
      exact ⟨w,rfl,ReflTransGen.refl,by simp,fun _ => hasPart_eq_false_iff.mpr held⟩
    | some data =>
      have held' : w.session.package.part? name = some data := held
      simp only [held']
      cases reading : (readBytes data).root with
      | error problem => simp [Fault.isOwn]
      | ok e =>
        obtain ⟨journal,same⟩ := w.package.registerAll_eq (readBytes data).declared
        have same' : w.session.package.registerAll (readBytes data).declared = _ := same
        refine ⟨_,?_,ReflTransGen.single (Serve.read markup known held reading),?_,by simp⟩
        · simp only [World.withGrove,World.withPackage,same,same']
          rfl
        · intro root found
          obtain rfl := Option.some.inj found
          refine ⟨_,(lookup_store w.package.trees name name _).trans (if_pos rfl),?_⟩
          simp only [treeOf,same']

theorem World.Knows.legs {w' : World} {name : String} {root : NodeId} (knows : w.Knows name root)
    (sound : w.Sound) (legs : Legs setup w w') : w'.Knows name root := by
  obtain ⟨t,known,same⟩ := knows
  exact ⟨t,legs.tree sound known,same⟩

theorem World.Knows.serves {w' : World} {name : String} {root : NodeId} (knows : w.Knows name root)
    (sound : w.Sound) (serves : Serves w w') : w'.Knows name root :=
  knows.legs sound (Serves.moves default Scope.all serves).legs

theorem Serves.sound {w' : World} (serves : Serves w w') (sound : w.Sound) : w'.Sound :=
  (Serves.moves default Scope.all serves).legs.sound sound

theorem ends_newManifest {name : String} (manifest : IsManifest name)
    (missing : w.package.hasPart name = false) (space stem : String) :
    Ends Serve setup (onPackage (Packaging.newManifest name space stem)) w fun _ w' =>
      w'.Knows name w.package.forest.nodes.size :=
  ⟨_,rfl,ReflTransGen.single (Serve.create space stem manifest missing),
    ⟨_,(lookup_trees_setTree w.package name name _ space).trans (if_pos rfl),rfl⟩⟩

/-- Afterwards the manifest has a type for the extension. -/
theorem ends_ensureDefault (sound : w.Sound) {root : NodeId} (knows : w.Knows typesPart root)
    (extension type : String) :
    Ends Serve setup (onPackage (Packaging.ensureDefault root extension type)) w fun _ w' =>
      w'.package.forest.hasDefault root extension = true := by
  unfold Packaging.ensureDefault
  obtain ⟨t,known,rfl⟩ := knows
  apply Ends.of_packaged_look
  split
  · next present => exact Ends.of_packaged_pure present
  · have entered := Serve.declare extension type known
    have inside := (sound.tree _ t known).1
    apply Ends.of_packaged_bind (Ends.of_packaged_modify (fun _ w' =>
      w'.package.forest.hasDefault t.root extension = true) entered rfl ?_)
    · intro _ w' _ present
      apply Ends.of_packaged_bind (ends_packaged_log _ _)
      intro _ w'' _ logged
      apply Ends.of_packaged_pure
      rwa [logged]
    · exact Forest.hasDefault_addEntry sound.sorted inside.1 (sound.sorted.enter inside)

private theorem exists_serve_ensureOverride {t : PartTree}
    (known : w.package.trees.lookup typesPart = some t) {part type : String}
    (own : w.Owns part type) : ∃ w' : World, Serve w w' ∧
      w'.session = { w.session with package := { w.package with
        forest := (w.package.forest.ensureOverride t.root part type).2 } } := by
  unfold Forest.ensureOverride
  cases found : w.package.forest.override? t.root part with
  | none => exact ⟨_,Serve.override known own found,rfl⟩
  | some id => exact ⟨_,Serve.retype known own found,rfl⟩

/-- Afterwards the manifest has the type for the part. -/
theorem ends_ensureOverride (sound : w.Sound) {root : NodeId} (knows : w.Knows typesPart root)
    {part type : String} (own : w.Owns part type) :
    Ends Serve setup (onPackage (Packaging.ensureOverride root part type)) w fun _ w' =>
      w'.package.forest.overrideType? root part = some type := by
  obtain ⟨t,known,rfl⟩ := knows
  have inside := (sound.tree _ t known).1
  obtain ⟨w',step,session_eq⟩ := exists_serve_ensureOverride known own
  have forest_eq : w'.package.forest =
      (w.package.forest.ensureOverride t.root part type).2 := by
    rw [World.package,session_eq]
  have sorted : w'.package.forest.Sorted w'.owner w'.level := (sound.serve step).sorted
  refine ⟨w',session_eq,ReflTransGen.single step,?_⟩
  rw [forest_eq] at sorted
  simp only [forest_eq]
  exact (Forest.overrideType?_ensureOverride sound.sorted inside.1 sorted part).trans (if_pos rfl)

/-- The manifest of content types is read and from then on in use. -/
private theorem ends_useTypes : Ends Serve setup (onPackage do
    match ← Packaging.root? typesPart with
    | some root =>
      modify fun p => { p with types := some root }
      return root
    | none => throw (.breakdown .operation)) w fun root w' => w'.Knows typesPart root := by
  apply Ends.of_packaged_bind (ends_root? (Or.inr (Or.inl rfl)))
  rintro found w' - ⟨known,-⟩
  cases found with
  | none => exact Ends.of_packaged_throw
  | some root =>
    obtain ⟨t,read,rfl⟩ := known root rfl
    apply Ends.of_packaged_bind (Ends.of_packaged_modify (fun _ w' =>
      w'.Knows typesPart t.root) (Serve.useTypes read) rfl ⟨t,read,rfl⟩)
    intro _ w'' _ knows
    exact Ends.of_packaged_pure knows

theorem ends_contentTypes (sound : w.Sound) :
    Ends Serve setup (onPackage Packaging.contentTypes) w fun root w' =>
      w'.Knows typesPart root := by
  unfold Packaging.contentTypes
  apply Ends.of_packaged_look
  split
  · next root used => exact Ends.of_packaged_pure (sound.types root used)
  · apply Ends.of_packaged_look
    dsimp only
    split
    · next missing =>
      apply Ends.of_packaged_bind (ends_packaged_log _ _)
      intro _ w₁ moves₁ logged
      have sound₁ := Serves.sound moves₁ sound
      have absent : w.package.hasPart typesPart = false := by simpa using missing
      have missing₁ : w₁.package.hasPart typesPart = false := by
        rw [logged]
        exact absent
      apply Ends.of_packaged_bind (ends_newManifest (Or.inl rfl) missing₁ _ _)
      intro _ w₂ moves₂ knows
      have sound₂ := Serves.sound moves₂ sound₁
      apply Ends.of_packaged_bind (ends_root? (Or.inr (Or.inl rfl)))
      rintro found w₃ moves₃ ⟨known,-⟩
      have sound₃ := Serves.sound moves₃ sound₂
      cases found with
      | none => exact ends_useTypes
      | some root =>
        have knows₃ : w₃.Knows typesPart root := known root rfl
        apply Ends.of_packaged_bind (ends_ensureDefault sound₃ knows₃ _ _)
        intro _ w₄ moves₄ _
        have sound₄ := Serves.sound moves₄ sound₃
        have knows₄ := knows₃.serves sound₃ moves₄
        apply Ends.of_packaged_bind (ends_ensureDefault sound₄ knows₄ _ _)
        intro _ w₅ moves₅ _
        have sound₅ := Serves.sound moves₅ sound₄
        apply Ends.of_packaged_bind (ends_ensureOverride sound₅ (knows₄.serves sound₄ moves₅)
          (Or.inl rfl))
        intro _ w₆ _ _
        exact ends_useTypes
    · exact ends_useTypes

/-- A manifest of relationships is read and from then on in use. -/
private theorem ends_useLinks {name : String} (markup : IsMarkup name) :
    Ends Serve setup (onPackage do
      match ← Packaging.root? name with
      | some root =>
        modify fun p => { p with manifests := Package.store p.manifests name root }
        return root
      | none => throw (.breakdown .operation)) w fun root w' => w'.Knows name root := by
  apply Ends.of_packaged_bind (ends_root? markup)
  rintro found w' - ⟨known,-⟩
  cases found with
  | none => exact Ends.of_packaged_throw
  | some root =>
    obtain ⟨t,read,rfl⟩ := known root rfl
    apply Ends.of_packaged_bind (Ends.of_packaged_modify (fun _ w' =>
      w'.Knows name t.root) (Serve.useLinks read) rfl ⟨t,read,rfl⟩)
    intro _ w'' _ knows
    exact Ends.of_packaged_pure knows

theorem ends_relationshipsOf (sound : w.Sound) {part : String} (direct : IsDirect part) :
    Ends Serve setup (onPackage (Packaging.relationshipsOf part)) w fun root w' =>
      w'.Knows (Path.relationships part) root := by
  have manifest : IsManifest (Path.relationships part) := Or.inr ⟨part,direct,rfl⟩
  unfold Packaging.relationshipsOf
  apply Ends.of_packaged_look
  split
  · next root used => exact Ends.of_packaged_pure (sound.manifests _ root used)
  · apply Ends.of_packaged_look
    dsimp only
    split
    · next missing =>
      apply Ends.of_packaged_bind (ends_packaged_log _ _)
      intro _ w₁ moves₁ logged
      have sound₁ := Serves.sound moves₁ sound
      have absent : w.package.hasPart (Path.relationships part) = false := by simpa using missing
      have missing₁ : w₁.package.hasPart (Path.relationships part) = false := by
        rw [logged]
        exact absent
      apply Ends.of_packaged_bind (ends_newManifest manifest missing₁ _ _)
      intro _ w₂ moves₂ _
      have sound₂ := Serves.sound moves₂ sound₁
      apply Ends.of_packaged_bind (ends_contentTypes sound₂)
      intro types w₃ moves₃ knows
      have sound₃ := Serves.sound moves₃ sound₂
      apply Ends.of_packaged_bind (ends_ensureDefault sound₃ knows _ _)
      intro _ w₄ _ _
      exact ends_useLinks (Or.inr manifest)
    · exact ends_useLinks (Or.inr manifest)

end MailMerge
