import MailMerge.Proofs.Package.Parts
import MailMerge.Proofs.Tree.Indexed

/-! Packages whose trees look the same. An operation on one ends as it does on the other: with results that belong
together or with the same fault, and the packages stay alike. The numbers of elements have no part in it.
-/
namespace MailMerge
open Xml Docx Forest Package

section
variable {σ α β γ δ : Type}

/-- Ends that belong together: results in related states, or the same fault in related states. -/
inductive Ended (related : Pairing → σ → σ → Prop) (pair : Pairing) (post : Pairing → α → β → Prop) :
    EStateM.Result Fault σ α → EStateM.Result Fault σ β → Prop
  | ok {a : α} {b : β} {s t : σ} (pair' : Pairing) (more : pair ≤ pair') (here : related pair' s t)
    (holds : post pair' a b) : Ended related pair post (.ok a s) (.ok b t)
  | error {fault : Fault} {s t : σ} (pair' : Pairing) (more : pair ≤ pair') (here : related pair' s t) :
    Ended related pair post (.error fault s) (.error fault t)

/-- From related states two steps end alike. -/
def Agree (related : Pairing → σ → σ → Prop) (pair : Pairing) (step : EStateM Fault σ α)
    (step' : EStateM Fault σ β) (s t : σ) (post : Pairing → α → β → Prop) : Prop :=
  Ended related pair post (step s) (step' t)

namespace Agree

variable {related : Pairing → σ → σ → Prop} {pair : Pairing} {s t : σ}

/-- What was paired before is paired. -/
theorem earlier {step : EStateM Fault σ α} {step' : EStateM Fault σ β} {post : Pairing → α → β → Prop}
    {pair' : Pairing} (agree : Agree related pair' step step' s t post) (more : pair ≤ pair') :
    Agree related pair step step' s t post := by
  unfold Agree at *
  generalize step s = r,step' t = r' at agree ⊢
  cases agree with
  | ok pair₂ more' here holds => exact .ok pair₂ (more.trans more') here holds
  | error pair₂ more' here => exact .error pair₂ (more.trans more') here

theorem of_pure {a : α} {b : β} {post : Pairing → α → β → Prop} (here : related pair s t) (holds : post pair a b) :
    Agree related pair (pure a) (pure b) s t post :=
  .ok pair (le_refl pair) here holds

theorem of_throw {fault : Fault} {post : Pairing → α → β → Prop} (here : related pair s t) :
    Agree related pair (throw fault) (throw fault) s t post :=
  .error pair (le_refl pair) here

/-- One step after another, where the second may rely on how the first ran. -/
theorem of_ran {step : EStateM Fault σ α} {step' : EStateM Fault σ β} {next : α → EStateM Fault σ γ}
    {next' : β → EStateM Fault σ δ} {mid : Pairing → α → β → Prop} {post : Pairing → γ → δ → Prop}
    (first : Agree related pair step step' s t mid)
    (second : ∀ pair' a b s' t', step s = .ok a s' → step' t = .ok b t' → pair ≤ pair' → related pair' s' t' →
      mid pair' a b → Agree related pair' (next a) (next' b) s' t' post) :
    Agree related pair (step >>= next) (step' >>= next') s t post := by
  unfold Agree at *
  simp only [bind,EStateM.bind]
  generalize step s = r,step' t = r' at first second ⊢
  cases first with
  | error pair₁ more here => exact .error pair₁ more here
  | @ok a b s' t' pair₁ more here holds => exact earlier (second pair₁ a b s' t' rfl rfl more here holds) more

theorem of_bind {step : EStateM Fault σ α} {step' : EStateM Fault σ β} {next : α → EStateM Fault σ γ}
    {next' : β → EStateM Fault σ δ} {mid : Pairing → α → β → Prop} {post : Pairing → γ → δ → Prop}
    (first : Agree related pair step step' s t mid)
    (second : ∀ pair' a b s' t', pair ≤ pair' → related pair' s' t' → mid pair' a b →
      Agree related pair' (next a) (next' b) s' t' post) :
    Agree related pair (step >>= next) (step' >>= next') s t post :=
  first.of_ran fun pair' a b s' t' _ _ => second pair' a b s' t'

/-- States that belong together in a wider sense. -/
theorem widen {related' : Pairing → σ → σ → Prop} {step : EStateM Fault σ α} {step' : EStateM Fault σ β}
    {post : Pairing → α → β → Prop} (agree : Agree related pair step step' s t post)
    (wider : ∀ pair s t, related pair s t → related' pair s t) : Agree related' pair step step' s t post := by
  unfold Agree at *
  generalize step s = r,step' t = r' at agree ⊢
  cases agree with
  | ok pair₁ more here holds => exact .ok pair₁ more (wider _ _ _ here) holds
  | error pair₁ more here => exact .error pair₁ more (wider _ _ _ here)

theorem of_look {next : σ → EStateM Fault σ α} {next' : σ → EStateM Fault σ β} {post : Pairing → α → β → Prop}
    (agree : Agree related pair (next s) (next' t) s t post) :
    Agree related pair (get >>= next) (get >>= next') s t post :=
  agree

theorem of_modify {change change' : σ → σ} {post : Pairing → Unit → Unit → Prop}
    (here : related pair (change s) (change' t)) (holds : post pair () ()) :
    Agree related pair (modify change) (modify change') s t post :=
  .ok pair (le_refl pair) here holds

theorem of_change {change change' : σ → σ} {next : Unit → EStateM Fault σ α} {next' : Unit → EStateM Fault σ β}
    {post : Pairing → α → β → Prop} (agree : Agree related pair (next ()) (next' ()) (change s) (change' t) post) :
    Agree related pair (modify change >>= next) (modify change' >>= next') s t post :=
  agree

end Agree
end

section
variable {α β : Type} {r r' : α → β → Prop} {o : Option α} {o' : Option β}

theorem rel_mono (met : Option.Rel r o o') (implies : ∀ a b, r a b → r' a b) : Option.Rel r' o o' := by
  cases met with
  | some here => exact .some (implies _ _ here)
  | none => exact .none

end

namespace Forest.Twins

variable {scene : Scene} {pair : Pairing} {f g : Forest} {a b : NodeId}

section
variable (twins : Twins scene pair f g) (met : pair .whole a b)
include twins met

theorem relationshipIds_eq : g.relationshipIds b = f.relationshipIds a := by
  have entries := twins.named met (.within relationshipsSpace "Relationship")
  rw [relationshipIds,relationshipIds,relationships,relationships]
  generalize f.named a _ = ids,g.named b _ = ids' at entries ⊢
  induction entries with
  | nil => rfl
  | cons here _ ih => rw [List.map_cons,List.map_cons,twins.attribute?_eq here,ih]

theorem hasDefault_eq (extension : String) : g.hasDefault b extension = f.hasDefault a extension := by
  have entries := twins.named met (.within typesSpace "Default")
  rw [hasDefault,hasDefault,typeDefaults,typeDefaults]
  generalize f.named a _ = ids,g.named b _ = ids' at entries ⊢
  induction entries with
  | nil => rfl
  | cons here _ ih => rw [List.any_cons,List.any_cons,isFor,twins.attribute?_eq here,ih,isFor]

theorem setAttribute (name : Name) (value : String) :
    Followed scene pair f g pair (f.setAttribute a name value) (g.setAttribute b name value) :=
  .of_size_eq (twins.update met (twins.whole a b met) (fun _ => rfl) fun _ _ => rfl) (size_update ..)
    (size_update ..)

variable (loose : ∀ n, ¬ scene.fixed n)
include loose

theorem addEntry (name : Name) (attributes : Attributes) :
    ∃ pair', Followed scene pair f g pair' (f.addEntry a name attributes) (g.addEntry b name attributes) := by
  obtain ⟨pair',planted,new⟩ := twins.plant (.node name attributes [])
  exact ⟨pair',planted.trans (planted.twins.append (planted.more .whole a b met) (twins.whole a b met) (loose a)
    (loose b) new (outside_plant f _ (twins.lt_left met)) (outside_plant g _ (twins.lt_right met)))⟩

theorem ensureOverride (part type : String) :
    ∃ pair', Followed scene pair f g pair' (f.ensureOverride a part type).2 (g.ensureOverride b part type).2 ∧
      (f.ensureOverride a part type).1 = (g.ensureOverride b part type).1 := by
  have found : Option.Rel (pair .whole) (f.override? a part) (g.override? b part) :=
    rel_find? (fun c d met => by rw [twins.attribute?_eq met]) (twins.named met _)
  unfold Forest.ensureOverride
  rcases rel_cases found with ⟨first,second⟩ | ⟨id,id',first,second,met⟩
  · rw [first,second]
    exact (twins.addEntry met loose _ _).imp fun _ followed => ⟨followed,rfl⟩
  · rw [first,second]
    exact ⟨pair,twins.setAttribute met _ _,rfl⟩

theorem relate (key kind target : String) :
    ∃ pair', Followed scene pair f g pair' (f.relate a key kind target) (g.relate b key kind target) := by
  have found : Option.Rel (pair .whole) (f.relationship? a key) (g.relationship? b key) :=
    rel_find? (fun c d met => by rw [twins.attribute?_eq met]) (twins.named met _)
  unfold Forest.relate
  rcases rel_cases found with ⟨first,second⟩ | ⟨id,id',first,second,met⟩
  · rw [first,second]
    exact twins.addEntry met loose _ _
  · rw [first,second]
    have typed := twins.setAttribute met (.bare "Type") kind
    exact ⟨pair,typed.trans (typed.twins.setAttribute met _ _)⟩

end
end Forest.Twins

namespace Package

/-- A package without its trees. -/
def bare (p : Package) : Package :=
  { p with forest := {}, trees := [], manifests := [], types := none }

/-- Packages with the same parts, where the trees of all parts but one look the same. -/
structure Twins (scene : Scene) (part : String) (ix ix' : Index) (pair : Pairing) (p q : Package) : Prop where
  forests : Forest.Twins scene pair p.forest q.forest
  index : Index.Twins scene pair p.forest q.forest ix ix'
  rest : p.bare = q.bare
  trees : ∀ name, name ≠ part →
    Option.Rel (fun t t' => pair .whole t.root t'.root) (p.trees.lookup name) (q.trees.lookup name)
  manifests : ∀ name, name ≠ part →
    Option.Rel (pair .whole) (p.manifests.lookup name) (q.manifests.lookup name)
  types : Option.Rel (pair .whole) p.types q.types

namespace Twins

variable {scene : Scene} {part name : String} {ix ix' : Index} {pair pair' : Pairing} {p q : Package} {f g : Forest}
  {a b : NodeId}

section
variable (twins : Twins scene part ix ix' pair p q)
include twins

theorem part?_eq : q.part? name = p.part? name :=
  congrArg (·.part? name) twins.rest.symm

theorem hasPart_eq : q.hasPart name = p.hasPart name :=
  congrArg (·.hasPart name) twins.rest.symm

theorem loosen : Twins scene.loose part ix ix' pair p q where
  __ := twins
  forests := twins.forests.loosen
  index := { twins.index with }

/-- The forests have changed alike. -/
theorem follow (followed : Followed scene pair p.forest q.forest pair' f g) :
    Twins scene part ix ix' pair' { p with forest := f } { q with forest := g } where
  forests := followed.twins
  index := twins.index.followed twins.forests followed
  rest := twins.rest
  trees name other := rel_mono (twins.trees name other) fun t t' => followed.more .whole t.root t'.root
  manifests name other := rel_mono (twins.manifests name other) (followed.more .whole)
  types := rel_mono twins.types (followed.more .whole)

/-- What has changed has no part in the trees. -/
theorem around {p' q' : Package} (rest : p'.bare = q'.bare)
    (same : p'.forest = p.forest ∧ p'.trees = p.trees ∧ p'.manifests = p.manifests ∧ p'.types = p.types)
    (same' : q'.forest = q.forest ∧ q'.trees = q.trees ∧ q'.manifests = q.manifests ∧ q'.types = q.types) :
    Twins scene part ix ix' pair p' q' := by
  obtain ⟨forest,trees,manifests,types⟩ := same
  obtain ⟨forest',trees',manifests',types'⟩ := same'
  refine ⟨?_,?_,rest,?_,?_,?_⟩
  · rw [forest,forest']
    exact twins.forests
  · rw [forest,forest']
    exact twins.index
  · rw [trees,trees']
    exact twins.trees
  · rw [manifests,manifests']
    exact twins.manifests
  · rw [types,types']
    exact twins.types

theorem log (level : Level) (message : String) :
    Agree (Twins scene part ix ix') pair (Packaging.log level message) (Packaging.log level message) p q
      fun _ _ _ => True :=
  .of_modify (twins.around (congrArg (·.log level message) twins.rest) ⟨rfl,rfl,rfl,rfl⟩ ⟨rfl,rfl,rfl,rfl⟩) trivial

theorem edit {change change' : Forest → Forest}
    (followed : ∃ pair', Followed scene pair p.forest q.forest pair' (change p.forest) (change' q.forest)) :
    Agree (Twins scene part ix ix') pair (Packaging.edit change) (Packaging.edit change') p q fun _ _ _ => True := by
  obtain ⟨pair',followed⟩ := followed
  exact .ok pair' followed.more (twins.follow followed) trivial

theorem grow {α β : Type} {change : Forest → α × Forest} {change' : Forest → β × Forest}
    {post : Pairing → α → β → Prop}
    (followed : ∃ pair', Followed scene pair p.forest q.forest pair' (change p.forest).2 (change' q.forest).2 ∧
      post pair' (change p.forest).1 (change' q.forest).1) :
    Agree (Twins scene part ix ix') pair (Packaging.grow change) (Packaging.grow change') p q post := by
  obtain ⟨pair',followed,holds⟩ := followed
  exact .ok pair' followed.more (twins.follow followed) holds

theorem plant (e : Element) :
    Agree (Twins scene part ix ix') pair (Packaging.grow (·.plant e)) (Packaging.grow (·.plant e)) p q
      fun pair a b => ∀ k, pair k a b :=
  twins.grow (twins.forests.plant e)

theorem touch (name : String) : Twins scene part ix ix' pair (p.touch name) (q.touch name) :=
  twins.around (congrArg (·.touch name) twins.rest) ⟨rfl,rfl,rfl,rfl⟩ ⟨rfl,rfl,rfl,rfl⟩

/-- A part gets trees that look the same. -/
theorem enter {t t' : PartTree} (met : pair .whole t.root t'.root) :
    Twins scene part ix ix' pair { p with trees := store p.trees name t }
      { q with trees := store q.trees name t' } where
  __ := twins
  trees other apart := by
    rw [lookup_store,lookup_store]
    split
    · exact .some met
    · exact twins.trees other apart

theorem write (name : String) (data : ByteArray) :
    Twins scene part ix ix' pair (p.write name data) (q.write name data) where
  __ := twins
  rest := congrArg (·.write name data) twins.rest
  trees other apart := by
    rw [lookup_trees_write,lookup_trees_write]
    split
    · exact .none
    · exact twins.trees other apart

theorem readTree (data : ByteArray) :
    Agree (Twins scene part ix ix') pair (Packaging.readTree data) (Packaging.readTree data) p q
      fun pair t t' => pair .whole t.root t'.root := by
  have registered : Twins scene part ix ix' pair (p.registerAll (readBytes data).declared)
      (q.registerAll (readBytes data).declared) := by
    have bare_eq (p : Package) (declared : List (String × String)) :
        (p.registerAll declared).bare = p.bare.registerAll declared := by
      unfold registerAll
      refine (List.foldl_hom bare fun p d => ?_).symm
      dsimp only
      split
      · rfl
      · split <;> rfl
    have same (p : Package) : (p.registerAll (readBytes data).declared).forest = p.forest ∧
        (p.registerAll (readBytes data).declared).trees = p.trees ∧
        (p.registerAll (readBytes data).declared).manifests = p.manifests ∧
        (p.registerAll (readBytes data).declared).types = p.types := by
      obtain ⟨journal,registered⟩ := p.registerAll_eq (readBytes data).declared
      rw [registered]
      exact ⟨rfl,rfl,rfl,rfl⟩
    refine twins.around ?_ (same p) (same q)
    rw [bare_eq,bare_eq,twins.rest]
  refine .of_change ?_
  dsimp only
  split
  · exact .of_throw registered
  · next e _ => exact (registered.plant e).of_bind fun pair a b p q _ twins new => .of_pure twins (new .whole)

/-- The trees of a part that is not the one at work are read alike. -/
theorem root? (apart : name ≠ part) :
    Agree (Twins scene part ix ix') pair (Packaging.root? name) (Packaging.root? name) p q
      fun pair => Option.Rel (pair .whole) := by
  refine .of_look ?_
  rcases rel_cases (twins.trees name apart) with ⟨first,second⟩ | ⟨t,t',first,second,met⟩
  · rw [first,second]
    refine .of_look ?_
    rw [twins.part?_eq]
    split
    · exact .of_pure twins .none
    · next data _ =>
      refine (twins.readTree data).of_bind fun pair t t' p q _ twins met => ?_
      exact .of_change (.of_pure ((twins.enter met).touch name) (.some met))
  · rw [first,second]
    exact .of_change (.of_pure (twins.touch name) (.some met))

theorem newManifest (name space stem : String) :
    Agree (Twins scene part ix ix') pair (Packaging.newManifest name space stem)
      (Packaging.newManifest name space stem) p q fun _ _ _ => True := by
  have planted := twins.plant (.node (.within space stem) [] [])
  change Agree _ pair (Packaging.grow (·.add { name := .within space stem }))
    (Packaging.grow (·.add { name := .within space stem })) p q _ at planted
  refine planted.of_bind fun pair a b p q _ twins new => .of_modify (touch ?_ name) trivial
  exact { twins.enter (new .whole) with rest := congrArg (fun p : Package => { p with
    parts := store p.parts name .empty }) twins.rest }

section
variable (loose : ∀ n, ¬ scene.fixed n)
include loose

theorem ensureDefault (met : pair .whole a b) (extension type : String) :
    Agree (Twins scene part ix ix') pair (Packaging.ensureDefault a extension type)
      (Packaging.ensureDefault b extension type) p q fun _ known known' => known = known' := by
  refine .of_look ?_
  rw [twins.forests.hasDefault_eq met]
  split
  · exact .of_pure twins rfl
  · refine (twins.edit (twins.forests.addEntry met loose _ _)).of_bind fun pair _ _ p q _ twins _ => ?_
    exact (twins.log _ _).of_bind fun pair _ _ p q _ twins _ => .of_pure twins rfl

theorem ensureOverride (met : pair .whole a b) (name type : String) :
    Agree (Twins scene part ix ix') pair (Packaging.ensureOverride a name type)
      (Packaging.ensureOverride b name type) p q fun _ known known' => known = known' :=
  twins.grow (twins.forests.ensureOverride met loose name type)

omit loose in
/-- A manifest that is there is read, and in use from then on. -/
private theorem use (apart : name ≠ part) {keep : NodeId → Package → Package}
    (kept : ∀ {pair p q a b}, Twins scene part ix ix' pair p q → pair .whole a b →
      Twins scene part ix ix' pair (keep a p) (keep b q)) :
    Agree (Twins scene part ix ix') pair (Packaging.root? name >>= fun
        | some root => do
          modify (keep root)
          return root
        | none => throw (.breakdown .operation))
      (Packaging.root? name >>= fun
        | some root => do
          modify (keep root)
          return root
        | none => throw (.breakdown .operation)) p q fun pair => pair .whole := by
  refine (twins.root? apart).of_bind fun pair a b p q _ twins met => ?_
  cases met with
  | none => exact .of_throw twins
  | some met => exact .of_change (.of_pure (kept twins met) met)

theorem contentTypes (apart : typesPart ≠ part) :
    Agree (Twins scene part ix ix') pair Packaging.contentTypes Packaging.contentTypes p q
      fun pair => pair .whole := by
  have kept {pair : Pairing} {p q : Package} {a b : NodeId} (twins : Twins scene part ix ix' pair p q)
      (met : pair .whole a b) : Twins scene part ix ix' pair { p with types := some a } { q with types := some b } :=
    { twins with types := .some met }
  refine .of_look ?_
  rcases rel_cases twins.types with ⟨first,second⟩ | ⟨root,root',first,second,met⟩
  · rw [first,second]
    refine .of_look ?_
    rw [twins.hasPart_eq]
    split
    · refine (twins.log _ _).of_bind fun pair _ _ p q _ twins _ => ?_
      refine (twins.newManifest _ _ _).of_bind fun pair _ _ p q _ twins _ => ?_
      refine (twins.root? apart).of_bind fun pair a b p q _ twins met => ?_
      cases met with
      | none => exact twins.use apart kept
      | some met =>
        refine (twins.ensureDefault loose met _ _).of_bind fun pair₁ _ _ p q more twins _ => ?_
        refine (twins.ensureDefault loose (more _ _ _ met) _ _).of_bind fun pair₂ _ _ p q more' twins _ => ?_
        exact (twins.ensureOverride loose (more' _ _ _ (more _ _ _ met)) _ _).of_bind
          fun pair₃ _ _ p q _ twins _ => twins.use apart kept
    · exact twins.use apart kept
  · rw [first,second]
    exact .of_pure twins met

theorem relationshipsOf (apart : typesPart ≠ part) (other : Path.relationships part ≠ part) :
    Agree (Twins scene part ix ix') pair (Packaging.relationshipsOf part) (Packaging.relationshipsOf part) p q
      fun pair => pair .whole := by
  have kept {pair : Pairing} {p q : Package} {a b : NodeId} (twins : Twins scene part ix ix' pair p q)
      (met : pair .whole a b) : Twins scene part ix ix' pair
        { p with manifests := store p.manifests (Path.relationships part) a }
        { q with manifests := store q.manifests (Path.relationships part) b } := by
    refine { twins with manifests := fun name away => ?_ }
    rw [lookup_store,lookup_store]
    split
    · exact .some met
    · exact twins.manifests name away
  refine .of_look ?_
  rcases rel_cases (twins.manifests (Path.relationships part) other) with
    ⟨first,second⟩ | ⟨root,root',first,second,met⟩
  · rw [first,second]
    refine .of_look ?_
    rw [twins.hasPart_eq]
    split
    · refine (twins.log _ _).of_bind fun pair _ _ p q _ twins _ => ?_
      refine (twins.newManifest _ _ _).of_bind fun pair _ _ p q _ twins _ => ?_
      refine (twins.contentTypes loose apart).of_bind fun pair a b p q _ twins met => ?_
      exact (twins.ensureDefault loose met _ _).of_bind fun pair _ _ p q _ twins _ => twins.use other kept
    · exact twins.use other kept
  · rw [first,second]
    exact .of_pure twins met

end
end
end Twins
end Package
end MailMerge
