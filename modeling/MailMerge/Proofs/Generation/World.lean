import MailMerge.Generate
import MailMerge.Proofs.Package.Manifest
import MailMerge.Proofs.Package.Numbers
import MailMerge.Proofs.Tree.Work

/-! The moves of a generation. A world is the state of a generation together with what the proofs
remember of its past: the parts that own the elements, the levels of the elements, and what has been
embedded so far. Every step of the engine comes down to a few moves, so what all moves keep is
kept by every run.
-/
namespace MailMerge
open Xml Docx Package Relation

/-- Data that became a part of the package: the part that shows it, how it is shown, the key of its
relationship, and the new part with its contents. -/
structure Embedding where
  part : String
  shape : Shape
  key : String
  file : String
  data : ByteArray

/-- A state of a generation with its past. -/
structure World where
  session : Session
  owner : NodeId → String
  level : NodeId → Nat
  /-- what is embedded and not shown yet -/
  pending : Option Embedding := none
  /-- the number of the drawing that will show it -/
  number : Int := 0
  /-- what is embedded, with the elements that show it -/
  made : List (Embedding × NodeId) := []

namespace World

/-- The package at work. -/
def package (w : World) : Package :=
  w.session.package

/-- The forest with its owners and levels. -/
def grove (w : World) : Grove :=
  ⟨w.package.forest,w.owner,w.level⟩

/-- The same past with a changed package. -/
def withPackage (w : World) (p : Package) : World :=
  { w with session := { w.session with package := p } }

/-- A world with changed elements. -/
def withGrove (w : World) (g : Grove) : World :=
  { w with
    session := { w.session with package := { w.session.package with forest := g.forest } }
    owner := g.owner
    level := g.level }

/-- The tree at work. -/
def plot (w : World) : Plot :=
  ⟨w.grove,w.session.index⟩

/-- A world with a changed tree at work. -/
def withPlot (w : World) (v : Plot) : World :=
  { w.withGrove v.grove with
    session := { w.session with
      index := v.index
      package := { w.session.package with forest := v.grove.forest } } }

end World

/-- The kind and target of the relationship that leads to an embedding. -/
def Embedding.kind (e : Embedding) : String :=
  match e.shape with
  | .image => imageRelation
  | .chart => chartRelation

/-- The extension of a part with an image. -/
def Embedding.extension (e : Embedding) (extension : String) : Prop :=
  ∃ stem : List Char, e.file.toList = stem ++ '.' :: extension.toList

/-- Where the data of an embedding comes from: a fetched image, or the text of a chart. -/
def Embedding.Genuine (e : Embedding) (setup : Setup) : Prop :=
  match e.shape with
  | .image => ∃ address, setup.network.fetch setup.settings address = .ok e.data
  | .chart => ∃ (p : Package) (kind : String) (rows : Value) (title : Option String)
    (root : Element), chartOf setup.settings kind rows title = .ok root ∧
      e.data = Text.encode (Embed.chartText p root)

/-- The manifest of the part that shows an embedding has one relationship with its key, and that
one leads to the new part. -/
def Embedding.Linked (e : Embedding) (p : Package) : Prop :=
  ∃ t target, p.trees.lookup (Path.relationships e.part) = some t ∧
    (p.forest.links t.root).filter (fun a => a.get? (.bare "Id") == some e.key) =
      [Forest.link e.key e.kind target] ∧ Path.join (Path.folder e.part) target = e.file

/-- The manifest of content types knows the new part of an embedding: charts by their name, images
by their extension. -/
def Embedding.Typed (e : Embedding) (s : Settings) (p : Package) : Prop :=
  ∃ t, p.trees.lookup typesPart = some t ∧
    match e.shape with
    | .image => ∃ extension, e.extension extension ∧
      (s.imageTypes.lookup extension).isSome ∧ p.forest.hasDefault t.root extension = true
    | .chart => p.forest.overrideType? t.root e.file = some Embed.chartType

/-- A part whose content type the engine sets: the document, or the chart just embedded. -/
def World.Owns (w : World) (part type : String) : Prop :=
  part = documentPart ∨ ∃ e, w.pending = some e ∧ part = e.file ∧ type = Embed.chartType

/-- A part is known by a tree with a root. -/
def World.Knows (w : World) (name : String) (root : NodeId) : Prop :=
  ∃ t, w.package.trees.lookup name = some t ∧ t.root = root

/-- How images and charts are counted: the next one gets a greater count than all before it, and the
number of its drawing comes after the base of its kind. -/
inductive Counts (s : Settings) (before : Session) : Nat → Nat → Int → Prop
  | image {n : Nat} (more : before.images < n) : Counts s before n before.charts (s.imageBase + n)
  | chart {n : Nat} (more : before.charts < n) : Counts s before before.images n (s.chartBase + n)

/-- The number of a watermark: no drawing in the document and the headers, which are all read, has
it. -/
structure World.Free (w : World) (s : Settings) (number : Int) : Prop where
  beyond : s.watermarkBase < number
  read : ∀ part ∈ w.package.numberedParts s, ∃ root, w.Knows part root
  new : ∀ part ∈ w.package.numberedParts s, ∀ id k, w.grove.Bears (w.Knows part) part id k →
    (k : Int) ≠ number

/-- A move that serves the package or the journal. -/
inductive Serve : World → World → Prop
  | note {w : World} (journal : Journal) (outcomes : List Outcome) (watermarks : Nat) :
    Serve w { w with session := { w.session with
      outcomes := outcomes
      watermarks := watermarks
      package := { w.session.package with journal := journal } } }
  | touch {w : World} (name : String) : Serve w (w.withPackage (w.package.touch name))
  | read {w : World} {name : String} {data : ByteArray} {e : Element} (markup : IsMarkup name)
    (unread : w.package.trees.lookup name = none) (held : w.package.part? name = some data)
    (reading : (readBytes data).root = .ok e) :
    Serve w ((w.withPackage ({ w.package.registerAll (readBytes data).declared with
      trees := Package.store w.package.trees name (treeOf data (w.package.forest.plant e).1) }.touch
        name)).withGrove (w.grove.plant name e))
  | create {w : World} {name : String} (space stem : String) (manifest : IsManifest name)
    (missing : w.package.hasPart name = false) :
    Serve w ((w.withPackage (w.package.setTree name w.package.forest.nodes.size space)).withGrove
      (w.grove.plant name (.node (.within space stem) [] [])))
  | useTypes {w : World} {t : PartTree} (known : w.package.trees.lookup typesPart = some t) :
    Serve w (w.withPackage { w.package with types := some t.root })
  | useLinks {w : World} {name : String} {t : PartTree}
    (known : w.package.trees.lookup name = some t) :
    Serve w (w.withPackage
      { w.package with manifests := Package.store w.package.manifests name t.root })
  | relate {w : World} {part : String} {t : PartTree} {key : String} (kind target : String)
    (direct : IsDirect part)
    (known : w.package.trees.lookup (Path.relationships part) = some t)
    (new : some key ∉ w.package.forest.relationshipIds t.root) :
    Serve w (w.withGrove (w.grove.enter (Path.relationships part) t.root
      (.within relationshipsSpace "Relationship") (Forest.link key kind target)))
  | declare {w : World} {t : PartTree} (extension type : String)
    (known : w.package.trees.lookup typesPart = some t) :
    Serve w (w.withGrove (w.grove.enter typesPart t.root (.within typesSpace "Default")
      [(.bare "Extension",extension),(.bare "ContentType",type)]))
  | override {w : World} {t : PartTree} {part type : String}
    (known : w.package.trees.lookup typesPart = some t) (own : w.Owns part type)
    (missing : w.package.forest.override? t.root part = none) :
    Serve w (w.withGrove (w.grove.enter typesPart t.root (.within typesSpace "Override")
      [(.bare "PartName",Forest.rooted part),(.bare "ContentType",type)]))
  | retype {w : World} {t : PartTree} {part type : String} {id : NodeId}
    (known : w.package.trees.lookup typesPart = some t) (own : w.Owns part type)
    (found : w.package.forest.override? t.root part = some id) :
    Serve w (w.withGrove (w.grove.withForest
      (w.package.forest.setAttribute id (.bare "ContentType") type)))

/-- A move inside the part at work. -/
inductive Move (setup : Setup) (scope : Scope) : World → World → Prop
  | serve {w w' : World} (step : Serve w w') : Move setup scope w w'
  | work {w : World} {v : Plot} (direct : IsDirect w.session.part)
    (step : Plot.Work setup.settings w.session.part scope w.plot v) :
    Move setup scope w (w.withPlot v)
  | store {w : World} (e : Embedding) {images charts : Nat} {number : Int}
    (counts : Counts setup.settings w.session images charts number) (embedded : IsEmbedded e.file)
    (new : w.package.hasPart e.file = false) (genuine : e.Genuine setup) :
    Move setup scope w { w with
      session := { w.session with
        images := images
        charts := charts
        package := w.session.package.write e.file e.data }
      pending := some e
      number := number }
  | show {w : World} {e : Embedding} {shown : Element} {id : Nat}
    (direct : IsDirect w.session.part) (pending : w.pending = some e)
    (here : e.part = w.session.part) (linked : e.Linked w.package)
    (typed : e.Typed setup.settings w.package)
    (new : w.package.forest.nodes.size ≤ id)
    (inside : id < (w.package.forest.plant shown).2.nodes.size)
    (shows : ∀ other : Nat, w.package.forest.nodes.size ≤ other →
      (w.package.forest.plant shown).2.shown? other =
        if other = id then some (e.shape,e.key) else none)
    (numbered : numbersBy shown = (numeral? (toString w.number)).toList) (closed : Closed shown)
    (tableless : Lacks tableName shown) :
    Move setup scope w { w.withGrove (w.grove.plant w.session.part shown) with
      pending := none
      made := (e,id) :: w.made }

/-- A move of a generation. -/
inductive Leg (setup : Setup) : World → World → Prop
  | move {scope : Scope} {w w' : World} (step : Move setup scope w w') : Leg setup w w'
  | edit {w : World} {g : Grove} (direct : IsDirect w.session.part)
    (step : Grove.Edit setup.settings w.session.part w.grove g) : Leg setup w (w.withGrove g)
  | mark {w : World} {text : Value} {number : Int} {e : Element} (direct : IsDirect w.session.part)
    (drawn : watermark setup.settings text (toString number) = .ok e)
    (free : w.Free setup.settings number) :
    Leg setup w (w.withGrove (w.grove.plant w.session.part e))
  | goTo {w : World} (part : String) : Leg setup w { w with
      session := { w.session with part := part } }
  | index {w : World} (root : NodeId) : Leg setup w { w with
      session := { w.session with index := .of w.session.package.forest root } }
  | flush {w : World} : Leg setup w (w.withPackage w.package.flush)

/-- What holds of every state of a generation: trees are sorted and belong to the parts they were
read from, and what is in use is known by its tree. -/
structure World.Sound (w : World) : Prop where
  sorted : w.grove.Sorted
  branching : w.package.forest.Branching
  tree : ∀ name t, w.package.trees.lookup name = some t →
    w.grove.Within name t.root ∧ IsMarkup name ∧ w.package.hasPart name = true
  types : ∀ root, w.package.types = some root →
    ∃ t, w.package.trees.lookup typesPart = some t ∧ t.root = root
  manifests : ∀ name root, w.package.manifests.lookup name = some root →
    ∃ t, w.package.trees.lookup name = some t ∧ t.root = root

/-- The index knows elements of the part at work only. -/
def World.At (w : World) : Prop :=
  w.session.index.Within w.grove w.session.part

/-- The elements of a sound state are orderly. -/
theorem World.Sound.orderly {w : World} (sound : w.Sound) : w.grove.Orderly :=
  ⟨sound.sorted,sound.branching⟩

variable {setup : Setup} {scope scope' : Scope} {w w' : World}

theorem later_retype (g : Grove) (id : NodeId) (name : Name) (value : String) :
    Grove.Later g (g.withForest (g.forest.setAttribute id name value)) :=
  Grove.later_update g id fun _ => rfl

theorem Serve.later (step : Serve w w') : Grove.Later w.grove w'.grove := by
  cases step with
  | note | useTypes | useLinks | touch => exact Grove.Later.refl w.grove
  | read => exact Grove.later_plant w.grove _ _
  | create => exact Grove.later_plant w.grove _ _
  | relate | declare | override => exact Grove.later_enter
  | retype => exact later_retype w.grove _ _ _

theorem Move.later (step : Move setup scope w w') : Grove.Later w.grove w'.grove := by
  cases step with
  | serve step => exact step.later
  | work direct step => exact step.edits.later
  | store => exact Grove.Later.refl w.grove
  | «show» => exact Grove.later_plant w.grove _ _

theorem Leg.later (step : Leg setup w w') : Grove.Later w.grove w'.grove := by
  cases step with
  | move step => exact step.later
  | edit direct step => exact step.later
  | mark => exact Grove.later_plant w.grove _ _
  | goTo | index | flush => exact Grove.Later.refl w.grove

theorem package_withGrove (w : World) (g : Grove) :
    (w.withGrove g).package = { w.package with forest := g.forest } := rfl

namespace World.Sound

/-- Moves that change elements only. -/
private theorem of_same (sound : w.Sound) (later : Grove.Later w.grove w'.grove)
    (orderly : w'.grove.Orderly) (trees : w'.package.trees = w.package.trees)
    (parts : ∀ name, w.package.hasPart name = true → w'.package.hasPart name = true)
    (types : w'.package.types = w.package.types)
    (manifests : w'.package.manifests = w.package.manifests) : w'.Sound where
  sorted := orderly.sorted
  branching := orderly.branching
  tree name t known := by
    rw [trees] at known
    obtain ⟨within,markup,held⟩ := sound.tree name t known
    exact ⟨later.within within,markup,parts name held⟩
  types := by
    rw [types,trees]
    exact sound.types
  manifests := by
    rw [manifests,trees]
    exact sound.manifests

/-- A part that was not known as a tree gets one. -/
private theorem of_new (sound : w.Sound) (later : Grove.Later w.grove w'.grove)
    (orderly : w'.grove.Orderly) {name : String} {t : PartTree} (markup : IsMarkup name)
    (unread : w.package.trees.lookup name = none) (within : w'.grove.Within name t.root)
    (trees : ∀ other, w'.package.trees.lookup other =
      if other = name then some t else w.package.trees.lookup other)
    (held : w'.package.hasPart name = true)
    (parts : ∀ name, w.package.hasPart name = true → w'.package.hasPart name = true)
    (types : w'.package.types = w.package.types)
    (manifests : w'.package.manifests = w.package.manifests) : w'.Sound where
  sorted := orderly.sorted
  branching := orderly.branching
  tree other t' known := by
    rw [trees] at known
    split at known
    · next same =>
      subst same
      obtain rfl := Option.some.inj known
      exact ⟨within,markup,held⟩
    · obtain ⟨within',markup',held'⟩ := sound.tree other t' known
      exact ⟨later.within within',markup',parts other held'⟩
  types root used := by
    rw [types] at used
    obtain ⟨t',known,same⟩ := sound.types root used
    have other : typesPart ≠ name := by
      rintro rfl
      simp [unread] at known
    exact ⟨t',by rw [trees,if_neg other,known],same⟩
  manifests other root used := by
    rw [manifests] at used
    obtain ⟨t',known,same⟩ := sound.manifests other root used
    have different : other ≠ name := by
      rintro rfl
      simp [unread] at known
    exact ⟨t',by rw [trees,if_neg different,known],same⟩

/-- A part without contents has no tree. -/
theorem unread (sound : w.Sound) {name : String} (missing : w.package.hasPart name = false) :
    w.package.trees.lookup name = none := by
  cases known : w.package.trees.lookup name with
  | none => rfl
  | some t =>
    have held := (sound.tree name t known).2.2
    simp [missing] at held

theorem serve (sound : w.Sound) (step : Serve w w') : w'.Sound := by
  have later := step.later
  cases step with
  | note | touch =>
    exact ⟨sound.sorted,sound.branching,sound.tree,sound.types,sound.manifests⟩
  | @read name data e markup unread held reading =>
    obtain ⟨journal,same⟩ := w.package.registerAll_eq (readBytes data).declared
    refine of_new sound later (sound.orderly.plant name e) markup unread
      (t := treeOf data (w.package.forest.plant e).1) (Grove.within_plant w.grove name e).1
      (lookup_store w.package.trees name · _) ?_ ?_ ?_ ?_
    · simp only [package_withGrove,same]
      exact hasPart_iff.mpr ⟨data,held⟩
    · simp only [package_withGrove,same]
      exact fun _ => id
    · simp only [package_withGrove,same]
      rfl
    · simp only [package_withGrove,same]
      rfl
  | @create name space stem manifest missing =>
    refine of_new sound later (sound.orderly.plant _ _) (Or.inr manifest) (sound.unread missing)
      (t := ⟨w.package.forest.nodes.size,[],space⟩) (Grove.within_plant w.grove _ _).1
      (lookup_trees_setTree w.package name · _ space) ?_ ?_ rfl rfl
    · apply hasPart_iff.mpr
      exact ⟨.empty,(part?_setTree w.package name name w.package.forest.nodes.size space).trans
        (if_pos rfl)⟩
    · intro other held
      obtain ⟨data,held⟩ := hasPart_iff.mp held
      have different : other ≠ name := by
        rintro rfl
        simp [hasPart_eq_false_iff.mp missing] at held
      apply hasPart_iff.mpr
      exact ⟨data,(part?_setTree w.package name other w.package.forest.nodes.size space).trans
        (by rw [if_neg different,held])⟩
  | useTypes known =>
    refine ⟨sound.sorted,sound.branching,sound.tree,?_,sound.manifests⟩
    intro root used
    obtain rfl := Option.some.inj used
    exact ⟨_,known,rfl⟩
  | @useLinks name t known =>
    refine ⟨sound.sorted,sound.branching,sound.tree,sound.types,?_⟩
    intro other root used
    have used' := (lookup_store w.package.manifests name other t.root).symm.trans used
    split at used'
    · next same =>
      subst same
      exact ⟨t,known,Option.some.inj used'⟩
    · exact sound.manifests other root used'
  | relate kind target direct known new =>
    exact of_same sound later (sound.orderly.enter (sound.tree _ _ known).1) rfl (fun _ => id) rfl rfl
  | declare extension type known =>
    exact of_same sound later (sound.orderly.enter (sound.tree _ _ known).1) rfl (fun _ => id) rfl rfl
  | override known own missing =>
    exact of_same sound later (sound.orderly.enter (sound.tree _ _ known).1) rfl (fun _ => id) rfl rfl
  | retype known own found =>
    exact of_same sound later ⟨Forest.Sorted.update sound.sorted _ fun _ => rfl,
      sound.branching.update _ fun _ => rfl⟩ rfl (fun _ => id) rfl rfl

theorem move (sound : w.Sound) (step : Move setup scope w w') : w'.Sound := by
  have later := step.later
  cases step with
  | serve step => exact sound.serve step
  | work direct step =>
    exact of_same sound later (sound.orderly.edits step.edits) rfl (fun _ => id) rfl rfl
  | store e counts embedded new genuine =>
    have trees (name : String) (t : PartTree) : w.package.trees.lookup name = some t →
        (w.package.write e.file e.data).trees.lookup name = some t := by
      intro known
      have different : name ≠ e.file := by
        rintro rfl
        exact (sound.tree _ t known).2.1.not_isEmbedded embedded
      rw [lookup_trees_write,if_neg different,known]
    refine ⟨sound.sorted,sound.branching,?_,?_,?_⟩
    · intro name t known
      have known' := (lookup_trees_write w.package e.file name e.data).symm.trans known
      split at known'
      · simp at known'
      · next different =>
        obtain ⟨within,markup,held⟩ := sound.tree name t known'
        obtain ⟨data,held⟩ := hasPart_iff.mp held
        refine ⟨within,markup,hasPart_iff.mpr ⟨data,?_⟩⟩
        exact (part?_write w.package e.file name e.data).trans (by rw [if_neg different,held])
    · intro root used
      obtain ⟨t,known,same⟩ := sound.types root used
      exact ⟨t,trees _ t known,same⟩
    · intro name root used
      obtain ⟨t,known,same⟩ := sound.manifests name root used
      exact ⟨t,trees _ t known,same⟩
  | «show» => exact of_same sound later (sound.orderly.plant _ _) rfl (fun _ => id) rfl rfl

theorem leg (sound : w.Sound) (step : Leg setup w w') : w'.Sound := by
  have later := step.later
  cases step with
  | move step => exact sound.move step
  | edit direct step =>
    exact of_same sound later (sound.orderly.edits (ReflTransGen.single step)) rfl (fun _ => id) rfl
      rfl
  | mark => exact of_same sound later (sound.orderly.plant _ _) rfl (fun _ => id) rfl rfl
  | goTo | index =>
    exact ⟨sound.sorted,sound.branching,sound.tree,sound.types,sound.manifests⟩
  | flush => exact of_same sound later sound.orderly rfl w.package.hasPart_flush rfl rfl

end World.Sound

theorem Serve.at (step : Serve w w') (home : w.At) : w'.At := by
  have later := step.later
  cases step <;> exact home.later later

theorem Move.at (step : Move setup scope w w') (home : w.At) : w'.At := by
  have later := step.later
  cases step with
  | serve step => exact step.at home
  | store | «show» => exact home.later later
  | work direct step => exact step.home home

theorem Serve.part_eq (step : Serve w w') : w'.session.part = w.session.part := by
  cases step <;> rfl

theorem Move.part_eq (step : Move setup scope w w') : w'.session.part = w.session.part := by
  cases step with
  | serve step => exact step.part_eq
  | work | store | «show» => rfl

namespace World.Sound

variable {name : String} {t : PartTree}

/-- What is known as a tree stays known. -/
private theorem tree_serve (sound : w.Sound) (step : Serve w w')
    (known : w.package.trees.lookup name = some t) : w'.package.trees.lookup name = some t := by
  cases step with
  | note | touch | useTypes | useLinks | relate | declare | override | retype => exact known
  | @read other data e markup unread held reading =>
    have different : name ≠ other := by
      rintro rfl
      simp [unread] at known
    exact (lookup_store w.package.trees other name _).trans (by rw [if_neg different,known])
  | @create other space stem manifest missing =>
    have different : name ≠ other := by
      rintro rfl
      simp [sound.unread missing] at known
    exact (lookup_trees_setTree w.package other name _ space).trans
      (by rw [if_neg different,known])

theorem tree_leg (sound : w.Sound) (step : Leg setup w w')
    (known : w.package.trees.lookup name = some t) : w'.package.trees.lookup name = some t := by
  cases step with
  | edit | mark | goTo | index | flush => exact known
  | move step =>
    cases step with
    | serve step => exact sound.tree_serve step known
    | work | «show» => exact known
    | store e counts embedded new genuine =>
      have different : name ≠ e.file := by
        rintro rfl
        exact (sound.tree _ t known).2.1.not_isEmbedded embedded
      exact (lookup_trees_write w.package e.file name e.data).trans
        (by rw [if_neg different,known])

end World.Sound

/-- Any number of moves that serve the package or the journal. -/
abbrev Serves : World → World → Prop :=
  ReflTransGen Serve

/-- Any number of moves inside the part at work. -/
abbrev Moves (setup : Setup) (scope : Scope) : World → World → Prop :=
  ReflTransGen (Move setup scope)

/-- Any number of moves of a generation. -/
abbrev Legs (setup : Setup) : World → World → Prop :=
  ReflTransGen (Leg setup)

theorem serve_le_move (setup : Setup) (scope : Scope) : Serve ≤ Move setup scope :=
  fun _ _ => Move.serve

theorem move_le_leg (setup : Setup) (scope : Scope) : Move setup scope ≤ Leg setup :=
  fun _ _ => Leg.move

theorem serve_le_leg (setup : Setup) : Serve ≤ Leg setup :=
  fun _ _ step => Leg.move (Move.serve step : Move setup Scope.all _ _)

/-- Moves in a scope are moves in a wider one. -/
theorem move_le_move (setup : Setup) (le : scope.Le scope') :
    Move setup scope ≤ Move setup scope' := by
  intro w w' step
  cases step with
  | serve step => exact .serve step
  | work direct step => exact .work direct (step.mono le)
  | store e counts embedded new genuine => exact .store e counts embedded new genuine
  | «show» direct pending here linked typed new inside shows numbered closed tableless =>
    exact .show direct pending here linked typed new inside shows numbered closed tableless

theorem Serves.moves (setup : Setup) (scope : Scope) (steps : Serves w w') :
    Moves setup scope w w' :=
  ReflTransGen.mono (serve_le_move setup scope) _ _ steps

theorem Moves.legs (steps : Moves setup scope w w') : Legs setup w w' :=
  ReflTransGen.mono (move_le_leg setup scope) _ _ steps

theorem Moves.widen (steps : Moves setup scope w w') (le : scope.Le scope') :
    Moves setup scope' w w' :=
  ReflTransGen.mono (move_le_move setup le) _ _ steps

theorem Legs.later (steps : Legs setup w w') : Grove.Later w.grove w'.grove := by
  induction steps with
  | refl => exact Grove.Later.refl _
  | tail _ step ih => exact ih.trans step.later

theorem Legs.sound (steps : Legs setup w w') (sound : w.Sound) : w'.Sound := by
  induction steps with
  | refl => exact sound
  | tail _ step ih => exact ih.leg step

theorem Legs.tree (steps : Legs setup w w') (sound : w.Sound) {name : String} {t : PartTree}
    (known : w.package.trees.lookup name = some t) : w'.package.trees.lookup name = some t := by
  induction steps with
  | refl => exact known
  | tail steps step ih => exact (Legs.sound steps sound).tree_leg step ih

theorem Moves.at (steps : Moves setup scope w w') (home : w.At) : w'.At := by
  induction steps with
  | refl => exact home
  | tail _ step ih => exact step.at ih

theorem Moves.part_eq (steps : Moves setup scope w w') : w'.session.part = w.session.part := by
  induction steps with
  | refl => rfl
  | tail _ step ih => exact step.part_eq.trans ih

theorem Serves.pending_eq (steps : Serves w w') : w'.pending = w.pending := by
  induction steps with
  | refl => rfl
  | tail _ step ih => exact (by cases step <;> rfl : _ = _).trans ih

theorem Serves.number_eq (steps : Serves w w') : w'.number = w.number := by
  induction steps with
  | refl => rfl
  | tail _ step ih => exact (by cases step <;> rfl : _ = _).trans ih

/-- The state at the beginning, without a past. -/
def World.initial (template : Package) : World where
  session := { package := template }
  owner _ := ""
  level _ := 0

theorem World.sound_initial {template : Package} (fresh : template.Fresh) :
    (World.initial template).Sound := by
  obtain ⟨bare,trees,_,manifests,types⟩ := fresh
  have forest_eq : (World.initial template).package.forest = {} := bare
  have empty (id : NodeId) : (World.initial template).grove.forest.children id = [] := by
    simp [grove,forest_eq,Forest.children,Forest.node]
  refine ⟨⟨?_,?_⟩,?_,?_,?_,?_⟩
  · intro parent child member
    rw [empty] at member
    simp at member
  · intro id inside
    simp [grove,forest_eq] at inside
  · rw [forest_eq]
    exact Forest.branching_empty
  · intro name t known
    simp [package,initial,trees] at known
  · intro root used
    simp [package,initial,types] at used
  · intro name root used
    simp [package,initial,manifests] at used

end MailMerge
