import MailMerge.Proofs.Generation.Ends
import MailMerge.Proofs.Generation.Kept
import MailMerge.Proofs.Package.Relations

/-! What a run embeds, and what it does beside that. Images and charts are embedded as a whole; no other step
counts any, stores or loses an image, or changes the key of a relationship. So a run is a sequence of such
deeds, next to the moves that it comes down to.
-/
namespace MailMerge
open Xml Docx Package Relation Generation Forest

variable {setup : Setup} {s s' : Session} {q : Package} {w w' : World}

/-- The session in which a step ended, with a value or with a fault. -/
def Generation.ending {α : Type} : EStateM.Result Fault Session α → Session
  | .ok _ s | .error _ s => s

/-- In a run all trees stand side by side. -/
theorem World.Sound.coherent {w : World} (sound : w.Sound) : w.package.Coherent := by
  let owner (n : NodeId) : String × NodeId := (w.owner n,(w.package.trees.lookup (w.owner n)).elim 0 (·.root))
  have sorted : w.package.forest.Sorted owner w.level := by
    refine ⟨fun parent child member => ?_,sound.sorted.bounded⟩
    obtain ⟨inside,same,deeper⟩ := sound.sorted.below parent child member
    exact ⟨inside,by simp only [owner,show w.owner child = w.owner parent from same],deeper⟩
  have seated (name : String) (t : PartTree) (known : w.package.trees.lookup name = some t) :
      w.package.forest.Seat owner name t.root := by
    obtain ⟨inside,owned⟩ := (sound.tree name t known).1
    refine ⟨inside,?_,nodup_tree sound.sorted sound.branching t.root⟩
    simp only [owner,show w.owner t.root = name from owned,known,Option.elim_some]
  refine ⟨owner,w.level,sorted,seated,fun name root used => ?_⟩
  rw [manifest?] at used
  split at used
  · next same =>
    obtain ⟨t,known,rfl⟩ := sound.types root used
    exact same ▸ seated _ t known
  · obtain ⟨t,known,rfl⟩ := sound.manifests name root used
    exact seated name t known

/-- The keys of the relationships of a part. -/
def Package.keys (p : Package) (part : String) : List (Option String) :=
  (p.relations part).map (·.get? (.bare "Id"))

namespace Package

/-- A name in the folder for images. -/
def isMedia (name : String) : Bool :=
  "word/media/".toList.isPrefixOf name.toList

/-- The images of a package, in its order. -/
def media (p : Package) : List String :=
  p.names.filter isMedia

/-- Parts that are read as markup are no images. -/
theorem isMedia_of_markup {name : String} (markup : IsMarkup name) : ¬ isMedia name = true := by
  intro image
  obtain ⟨rest,shape⟩ := List.isPrefixOf_iff_prefix.mp image
  exact markup.not_isEmbedded ⟨rest,Or.inl shape.symm⟩

end Package

/-- What a run does beside embedding: no image or chart is counted, no image becomes a part or is lost, and the
keys of the relationships stay. -/
structure Session.Beside (s s' : Session) : Prop where
  images_eq : s'.images = s.images
  charts_eq : s'.charts = s.charts
  coherent : s.package.Coherent → s'.package.Coherent
  media_eq : s'.package.media = s.package.media
  keys_eq : ∀ part, IsDirect part → s'.package.keys part = s.package.keys part

namespace Session.Beside

/-- Manifests may be found on the way. -/
theorem of_provides {wanted opened : String → Prop} (provides : Provides wanted opened s.package q)
    (manifests : ∀ name, wanted name → IsManifest name) : s.Beside { s with package := q } := by
  refine ⟨rfl,rfl,fun _ => provides.coherent,?_,fun part _ => ?_⟩
  · obtain ⟨made,names_eq,-,missing⟩ := provides.names_eq
    have aside : made.filter isMedia = [] := List.filter_eq_nil_iff.mpr fun name member =>
      isMedia_of_markup (Or.inr (manifests name (missing name member).2))
    rw [media,names_eq,List.filter_append,aside,List.append_nil]
    rfl
  · rw [Package.keys,provides.relations_eq]
    rfl

/-- Neither the counts nor the parts nor the trees are changed. -/
theorem of_same (images_eq : s'.images = s.images) (charts_eq : s'.charts = s.charts)
    (package_eq : s'.package = { s.package with journal := s'.package.journal }) : s.Beside s' := by
  refine ⟨images_eq,charts_eq,fun coherent => ?_,?_,fun part _ => ?_⟩ <;> rw [package_eq]
  · exact coherent.of_same rfl rfl rfl rfl
  · rfl
  · rfl

end Session.Beside

/-- Trees are changed, but not those of manifests. -/
private theorem beside_of_nodes (sound : w.Sound) (sound' : w'.Sound)
    (session_eq : w'.session = { w.session with
      index := w'.session.index
      package := { w.session.package with forest := w'.package.forest } })
    (nodes : ∀ id : Nat, id < w.grove.forest.nodes.size → ¬ IsDirect (w.owner id) →
      w'.package.forest.node id = w.package.forest.node id) : w.session.Beside w'.session := by
  have package_eq : w'.session.package = { w.session.package with forest := w'.package.forest } :=
    congrArg Session.package session_eq
  refine ⟨by rw [session_eq],by rw [session_eq],fun _ => sound'.coherent,?_,fun part _ => ?_⟩
  · rw [package_eq]
    rfl
  · have kept : w'.package.relations part = w.package.relations part := by
      refine relations_congr ?_ ?_ ?_ fun root seated => ?_
      iterate 3
        rw [World.package,package_eq]
        rfl
      · obtain ⟨t,known,rfl⟩ : ∃ t, w.package.trees.lookup (Path.relationships part) = some t ∧ t.root = root := by
          rcases seated with ⟨t,known,here⟩ | used
          · exact ⟨t,known,here⟩
          · rw [manifest?,if_neg (relationships_ne_typesPart part)] at used
            exact sound.manifests _ root used
        obtain ⟨bound,owned⟩ := (sound.tree _ t known).1
        refine Forest.entries_congr sound.sorted sound'.sorted (fun id inside here => nodes id inside ?_) bound owned _
        exact fun direct => direct.ne_relationships part here
    exact congrArg (List.map (·.get? (.bare "Id"))) kept

theorem beside_work {scope : Scope} {v : Plot} (sound : w.Sound) (direct : IsDirect w.session.part)
    (step : Plot.Work setup.settings w.session.part scope w.plot v) : w.session.Beside (w.withPlot v).session := by
  refine beside_of_nodes sound (sound.leg (Leg.move (Move.work direct step))) rfl fun id inside other => ?_
  exact step.edits.node_eq inside fun same => other (Eq.subst (motive := IsDirect) same.symm direct)

theorem beside_edit {g : Grove} (sound : w.Sound) (direct : IsDirect w.session.part)
    (step : Grove.Edit setup.settings w.session.part w.grove g) : w.session.Beside (w.withGrove g).session := by
  refine beside_of_nodes sound (sound.leg (Leg.edit direct step)) rfl fun id inside other => ?_
  exact step.node_eq inside fun same => other (Eq.subst (motive := IsDirect) same.symm direct)

/-- A new element may be planted. -/
theorem beside_plant {e : Element} (sound : w.Sound) (step : Leg setup w w')
    (session_eq : w'.session = (w.withGrove (w.grove.plant w.session.part e)).session) :
    w.session.Beside w'.session := by
  have forest_eq : w'.package.forest = (w.package.forest.plant e).2 := by
    rw [World.package,session_eq]
    rfl
  refine beside_of_nodes sound (sound.leg step) ?_ fun id inside _ => ?_
  · rw [World.package,session_eq]
    rfl
  · rw [forest_eq]
    exact (grown_plant w.package.forest e).1.node_eq id inside

/-- Touched trees may be written into their parts. -/
theorem beside_flush (sound : w.Sound) : w.session.Beside (w.withPackage w.package.flush).session := by
  have names_eq : w.package.flush.names = w.package.names :=
    names_flush fun name t known => (sound.tree name t known).2.2
  refine ⟨rfl,rfl,fun coherent => coherent.flush.1,congrArg (List.filter isMedia) names_eq,fun part _ => ?_⟩
  have links_eq : w.package.flush.links? part = w.package.links? part := by
    rw [links?,links?]
    cases known : w.package.trees.lookup (Path.relationships part) with
    | some t =>
      have known' : w.package.flush.trees.lookup (Path.relationships part) = some t := known
      rw [known']
      rfl
    | none =>
      have known' : w.package.flush.trees.lookup (Path.relationships part) = none := known
      rw [known',part?_flush_of_unread w.package known]
  have held : w.package.flush.hasPart (Path.relationships part) = w.package.hasPart (Path.relationships part) :=
    Bool.eq_iff_iff.mpr (by rw [hasPart_eq_true_iff,hasPart_eq_true_iff,names_eq])
  have kept : w.package.flush.relations part = w.package.relations part := by
    rw [relations,relations,links_eq,held]
    rfl
  exact congrArg (List.map (·.get? (.bare "Id"))) kept

namespace Embed

/-- One thing that is done in a run: an image is embedded, given its data or its address, or a chart is, or
something is done beside that. An image or a chart may fail, before anything of it is stored or afterwards. -/
inductive Deed (setup : Setup) : Session → Session → Prop
  | image {s : Session} (direct : IsDirect s.part) (data : ByteArray) (extension : String) (width height : Value) :
    Deed setup s (ending (image data extension width height setup s))
  | fetched {s : Session} (direct : IsDirect s.part) (address : String) (width height : Value) :
    Deed setup s (ending (fetched address width height setup s))
  | chart {s : Session} (direct : IsDirect s.part) (kind : String) (rows : Value) (title : Option String)
    (width height : Value) : Deed setup s (ending (chart kind rows title width height setup s))
  | beside {s s' : Session} (beside : s.Beside s') : Deed setup s s'

/-- Any number of deeds. -/
abbrev Deeds (setup : Setup) : Session → Session → Prop :=
  ReflTransGen (Deed setup)

end Embed

/-- Work on the package that only provides manifests is beside embedding. -/
theorem Embed.deeds_onPackage {α : Type} {wanted opened : String → Prop} {operation : Packaging α}
    {post : α → Package → Prop} (providing : Providing wanted opened operation s.package post)
    (manifests : ∀ name, wanted name → IsManifest name) :
    Deeds setup s (ending (onPackage operation setup s)) := by
  unfold Providing at providing
  unfold onPackage
  cases ran : operation s.package with
  | ok a q =>
    rw [ran] at providing
    exact ReflTransGen.single (.beside (.of_provides providing.1 manifests))
  | error fault q =>
    rw [ran] at providing
    exact ReflTransGen.single (.beside (.of_provides providing manifests))

/-- Moves of a kind that are a run of deeds. -/
def Tracked (r : World → World → Prop) (setup : Setup) (w w' : World) : Prop :=
  ReflTransGen r w w' ∧ Embed.Deeds setup w.session w'.session

/-- Moves inside the part at work that are a run of deeds. -/
abbrev Stride (setup : Setup) (scope : Scope) : World → World → Prop :=
  Tracked (Move setup scope) setup

/-- Moves of a generation that are a run of deeds. -/
abbrev Stage (setup : Setup) : World → World → Prop :=
  Tracked (Leg setup) setup

variable {r r' : World → World → Prop}

namespace Tracked

theorem runs (steps : ReflTransGen (Tracked r setup) w w') : ReflTransGen r w w' := by
  induction steps with
  | refl => exact ReflTransGen.refl
  | tail _ step ih => exact ih.trans step.1

theorem deeds (steps : ReflTransGen (Tracked r setup) w w') : Embed.Deeds setup w.session w'.session := by
  induction steps with
  | refl => exact ReflTransGen.refl
  | tail _ step ih => exact ih.trans step.2

theorem mono (wider : r ≤ r') : Tracked r setup ≤ Tracked r' setup :=
  fun _ _ step => ⟨ReflTransGen.mono wider _ _ step.1,step.2⟩

theorem of_beside (step : r w w') (beside : w.session.Beside w'.session) : Tracked r setup w w' :=
  ⟨ReflTransGen.single step,ReflTransGen.single (.beside beside)⟩

end Tracked

namespace Ends

variable {α β : Type} {step : Generation α} {post : α → World → Prop}

/-- The deeds are forgotten. -/
theorem coarse (ends : Ends (Tracked r setup) setup step w post) : Ends r setup step w post := by
  unfold Ends at *
  split
  · next ran =>
    rw [ran] at ends
    obtain ⟨w',session_eq,steps,holds⟩ := ends
    exact ⟨w',session_eq,Tracked.runs steps,holds⟩
  · next ran =>
    rw [ran] at ends
    intro own
    obtain ⟨w',session_eq,steps⟩ := ends own
    exact ⟨w',session_eq,Tracked.runs steps⟩

/-- A step is known to be a run of deeds as a whole. -/
theorem tracked (ends : Ends r setup step w post)
    (deeds : Embed.Deeds setup w.session (ending (step setup w.session))) :
    Ends (Tracked r setup) setup step w post := by
  unfold Ends at *
  cases ran : step setup w.session with
  | ok a s =>
    rw [ran] at ends deeds
    obtain ⟨w',rfl,steps,holds⟩ := ends
    exact ⟨w',rfl,ReflTransGen.single ⟨steps,deeds⟩,holds⟩
  | error fault s =>
    rw [ran] at ends deeds
    intro own
    obtain ⟨w',rfl,steps⟩ := ends own
    exact ⟨w',rfl,ReflTransGen.single ⟨steps,deeds⟩⟩

/-- Moves of a kind are remembered where they are seen as moves of a wider kind. -/
theorem retain (ends : Ends (Tracked r setup) setup step w post) (wider : r ≤ r') :
    Ends (Tracked r' setup) setup step w fun a w' => post a w' ∧ ReflTransGen r w w' :=
  (ends.mono fun _ _ steps holds => ⟨holds,Tracked.runs steps⟩).widen (Tracked.mono wider)

/-- One step after another, where the second may rely on the moves of the first. -/
theorem of_then {next : α → Generation β} {mid : α → World → Prop} {post : β → World → Prop}
    (first : Ends (Tracked r setup) setup step w mid)
    (second : ∀ a w', ReflTransGen r w w' → mid a w' → Ends (Tracked r setup) setup (next a) w' post) :
    Ends (Tracked r setup) setup (step >>= next) w post :=
  of_bind first fun a w' steps => second a w' (Tracked.runs steps)

/-- A loop over a list, whose body may rely on the moves before it. -/
theorem of_loop {σ : Type} (kept : σ → World → Prop) {items : List α} {body : α → σ → Generation (ForInStep σ)}
    {init : σ} (begun : kept init w) (each : ∀ a ∈ items, ∀ b w', ReflTransGen r w w' → kept b w' →
      Ends (Tracked r setup) setup (body a b) w' fun next w'' => ∃ b', next = .yield b' ∧ kept b' w'') :
    Ends (Tracked r setup) setup (forIn items init body) w kept :=
  of_forIn kept begun fun a member b w' steps => each a member b w' (Tracked.runs steps)

end Ends
end MailMerge
