import MailMerge.Proofs.Package.Filing
import MailMerge.Proofs.Package.Sketched

/-! The relationships of the parts of a package. They are those in the manifest in use, or else those in the
part that holds them. Finding a manifest reads or makes parts, and declares types of them, but no
relationship of any part is changed by that.
-/
namespace MailMerge
open Xml Docx Forest

namespace Package

/-- The relationships of a part. Without a manifest there are none. -/
def relations (p : Package) (part : String) : List Attributes :=
  ((p.manifest? (Path.relationships part)).map p.forest.links).getD
    (if p.hasPart (Path.relationships part) then (p.links? part).getD [] else [])

variable {p q r : Package} {part name : String} {root : NodeId} {wanted opened : String → Prop}

theorem relations_of_manifest (used : p.manifest? (Path.relationships part) = some root) :
    p.relations part = p.forest.links root := by
  rw [relations,used,Option.map_some,Option.getD_some]

theorem hasPart_congr (content : q.part? name = p.part? name) : q.hasPart name = p.hasPart name :=
  Bool.eq_iff_iff.mpr (by rw [hasPart_iff,hasPart_iff,content])

/-- What the relationships of a part are read from. -/
theorem relations_congr (manifest : q.manifest? (Path.relationships part) = p.manifest? (Path.relationships part))
    (trees : q.trees.lookup (Path.relationships part) = p.trees.lookup (Path.relationships part))
    (content : q.part? (Path.relationships part) = p.part? (Path.relationships part))
    (links : ∀ root, p.Seated (Path.relationships part) root → q.forest.links root = p.forest.links root) :
    q.relations part = p.relations part := by
  rw [relations,relations,manifest,hasPart_congr content,links?,links?,trees,content]
  cases used : p.manifest? (Path.relationships part) with
  | some root => rw [Option.map_some,Option.map_some,links root (Or.inr used),Option.getD_some,Option.getD_some]
  | none =>
    rw [Option.map_none,Option.map_none]
    cases known : p.trees.lookup (Path.relationships part) with
    | some t => simp only [links t.root (Or.inl ⟨t,known,rfl⟩)]
    | none => rfl

/-- The links below a root stay while the elements of its part do. -/
theorem Coherent.links_eq (coherent : p.Coherent) (coherent' : q.Coherent) (seated : p.Seated name root)
    (same : ∀ n, n < p.forest.nodes.size → q.forest.node n = p.forest.node n) :
    q.forest.links root = p.forest.links root := by
  obtain ⟨owner,level,arranged⟩ := coherent
  obtain ⟨owner',level',arranged'⟩ := coherent'
  exact entries_congr arranged.sorted arranged'.sorted (fun n inside _ => same n inside)
    (arranged.seat seated).inside rfl _

/-- A package beside one that had less of its manifests: wanted ones that were missing are made, and some are
opened. All other parts are as they were, and so are the relationships of all parts. -/
structure Provides (wanted opened : String → Prop) (p q : Package) : Prop where
  coherent : q.Coherent
  names_eq : ∃ made : List String, q.names = p.names ++ made ∧ made.Nodup ∧
    ∀ name ∈ made, p.hasPart name = false ∧ wanted name
  part?_eq : ∀ name, p.hasPart name = true → q.part? name = p.part? name
  kept : ∀ name root, p.manifest? name = some root → q.manifest? name = some root
  unopened : ∀ name, ¬ opened name → q.manifest? name = p.manifest? name
  relations_eq : ∀ part, q.relations part = p.relations part

namespace Provides

theorem refl (coherent : p.Coherent) : Provides wanted opened p p :=
  ⟨coherent,⟨[],(List.append_nil _).symm,List.nodup_nil,nofun⟩,fun _ _ => rfl,fun _ _ => id,fun _ _ => rfl,
    fun _ => rfl⟩

theorem hasPart (provides : Provides wanted opened p q) (held : p.hasPart name = true) : q.hasPart name = true := by
  rw [hasPart_congr (provides.part?_eq name held),held]

theorem trans (first : Provides wanted opened p q) (second : Provides wanted opened q r) : Provides wanted opened p r := by
  obtain ⟨made,names,nodup,missing⟩ := first.names_eq
  obtain ⟨made',names',nodup',missing'⟩ := second.names_eq
  refine ⟨second.coherent,⟨made ++ made',?_,?_,?_⟩,fun name held => ?_,fun name root used => ?_,fun name aside => ?_,
    fun part => ?_⟩
  · rw [names',names,List.append_assoc]
  · refine List.nodup_append.mpr ⟨nodup,nodup',fun name here other there same => ?_⟩
    refine notMem_names (missing' other there).1 ?_
    rw [names,← same]
    exact List.mem_append_right _ here
  · intro name member
    rcases List.mem_append.mp member with here | there
    · exact missing name here
    · obtain ⟨absent,asked⟩ := missing' name there
      refine ⟨Bool.eq_false_iff.mpr fun held => ?_,asked⟩
      simp [first.hasPart held] at absent
  · rw [second.part?_eq name (first.hasPart held),first.part?_eq name held]
  · exact second.kept name root (first.kept name root used)
  · rw [second.unopened name aside,first.unopened name aside]
  · rw [second.relations_eq,first.relations_eq]

theorem widen {opened' : String → Prop} (provides : Provides wanted opened p q)
    (more : ∀ name, opened name → opened' name) : Provides wanted opened' p q where
  __ := provides
  unopened name aside := provides.unopened name fun here => aside (more name here)

/-- Nothing is made, and what relationships are read from stays. -/
theorem of_parts (coherent : q.Coherent) (parts : q.parts = p.parts)
    (kept : ∀ name root, p.manifest? name = some root → q.manifest? name = some root)
    (unopened : ∀ name, ¬ opened name → q.manifest? name = p.manifest? name)
    (relations : ∀ part, q.relations part = p.relations part) : Provides wanted opened p q := by
  refine ⟨coherent,⟨[],?_,List.nodup_nil,nofun⟩,fun name _ => ?_,kept,unopened,relations⟩
  · rw [names,names,parts,List.append_nil]
  · rw [part?,part?,parts]

/-- Neither parts nor trees are changed. -/
theorem of_same (coherent : p.Coherent) (parts : q.parts = p.parts) (forest : q.forest = p.forest)
    (trees : q.trees = p.trees) (types : q.types = p.types) (manifests : q.manifests = p.manifests) :
    Provides wanted opened p q := by
  have used (name : String) : q.manifest? name = p.manifest? name := by
    rw [manifest?,manifest?,types,manifests]
  refine .of_parts (coherent.of_same forest trees types manifests) parts
    (fun name root here => (used name).trans here) (fun name _ => used name) fun part => ?_
  exact relations_congr (used _) (by rw [trees]) (by rw [part?,part?,parts]) fun _ _ => by rw [forest]

/-- The manifest of content types is changed. -/
theorem of_reshaped {owner owner' : NodeId → String × NodeId} {level level' : NodeId → Nat}
    (arranged : p.Arranged owner level) (seated : p.Seated typesPart root) {e : Element} {g : Forest}
    (reshaped : Reshaped p.forest owner root e g owner' level') :
    Provides wanted opened p { p with forest := g } := by
  have seat := arranged.seat seated
  refine .of_parts ⟨_,_,(arranged.reshape seat reshaped).1⟩ rfl (fun _ _ => id) (fun _ _ => rfl) fun part => ?_
  refine relations_congr rfl rfl rfl fun other seated' => ?_
  have seat' := arranged.seat seated'
  have apart : owner other ≠ owner root := by
    rw [seat'.owned,seat.owned]
    exact fun same => relationships_ne_typesPart part (Prod.mk.inj same).1
  exact entries_congr arranged.sorted reshaped.sorted
    (fun n inside owned => reshaped.node_eq n inside (owned ▸ apart)) seat'.inside rfl _

end Provides

/-- A step that provides manifests, whether it ends or not. -/
def Providing {α : Type} (wanted opened : String → Prop) (step : Packaging α) (p : Package)
    (post : α → Package → Prop) : Prop :=
  match step p with
  | .ok a q => Provides wanted opened p q ∧ post a q
  | .error _ q => Provides wanted opened p q

namespace Providing

variable {α β γ : Type} {post : α → Package → Prop}

theorem of_bind {step : Packaging α} {next : α → Packaging β} {mid : α → Package → Prop}
    {post : β → Package → Prop} (first : Providing wanted opened step p mid)
    (second : ∀ a q, Provides wanted opened p q → mid a q → Providing wanted opened (next a) q post) :
    Providing wanted opened (step >>= next) p post := by
  unfold Providing at first ⊢
  simp only [bind,EStateM.bind]
  cases ran : step p with
  | error fault q =>
    rw [ran] at first
    exact first
  | ok a q =>
    rw [ran] at first
    obtain ⟨provides,holds⟩ := first
    have later := second a q provides holds
    unfold Providing at later
    dsimp only
    cases ran' : next a q with
    | ok b r =>
      rw [ran'] at later
      exact ⟨provides.trans later.1,later.2⟩
    | error fault r =>
      rw [ran'] at later
      exact provides.trans later

theorem of_pure {a : α} (coherent : p.Coherent) (holds : post a p) : Providing wanted opened (pure a) p post :=
  ⟨.refl coherent,holds⟩

theorem of_throw {fault : Fault} (coherent : p.Coherent) : Providing wanted opened (throw fault) p post :=
  Provides.refl coherent

theorem of_look {next : Package → Packaging α} (provides : Providing wanted opened (next p) p post) :
    Providing wanted opened (get >>= next) p post :=
  provides

theorem of_ran {step : Packaging α} {a : α} (ran : step p = .ok a q) (provides : Provides wanted opened p q)
    (holds : post a q) : Providing wanted opened step p post := by
  unfold Providing
  rw [ran]
  exact ⟨provides,holds⟩

theorem mono {post' : α → Package → Prop} {step : Packaging α} (provides : Providing wanted opened step p post)
    (more : ∀ a q, post a q → post' a q) : Providing wanted opened step p post' := by
  unfold Providing at provides ⊢
  cases ran : step p with
  | error fault q =>
    rw [ran] at provides
    exact provides
  | ok a q =>
    rw [ran] at provides
    exact provides.imp_right (more a q)

/-- A step among others that open more manifests. -/
theorem widen {opened' : String → Prop} {step : Packaging α} (provides : Providing wanted opened' step p post)
    (more : ∀ name, opened' name → opened name) : Providing wanted opened step p fun a q =>
      post a q ∧ ∀ name, ¬ opened' name → q.manifest? name = p.manifest? name := by
  unfold Providing at provides ⊢
  cases ran : step p with
  | error fault q =>
    rw [ran] at provides
    exact provides.widen more
  | ok a q =>
    rw [ran] at provides
    exact ⟨provides.1.widen more,provides.2,provides.1.unopened⟩

theorem still {step : Packaging α} (provides : Providing wanted (fun _ => False) step p post) :
    Providing wanted opened step p fun a q => post a q ∧ ∀ name, q.manifest? name = p.manifest? name :=
  (provides.widen nofun).mono fun _ _ ended => ended.imp_right fun same name => same name id

theorem of_log (coherent : p.Coherent) {level : Level} {message : String} :
    Providing wanted opened (Packaging.log level message) p fun _ q => q = p.log level message :=
  .of_ran rfl (.of_same coherent rfl rfl rfl rfl rfl) rfl

end Providing

/-- A part is read. -/
private theorem provides_read (coherent : p.Coherent) (coherent' : q.Coherent) {data : ByteArray} {e : Element}
    {tag : List Char} {space : String} (unread : p.trees.lookup name = none) (held : p.part? name = some data)
    (reading : (readBytes data).root = .ok e) (forest : q.forest = (p.forest.plant e).2)
    (trees : ∀ other, q.trees.lookup other =
      if other = name then some ⟨(p.forest.plant e).1,tag,space⟩ else p.trees.lookup other)
    (parts : q.parts = p.parts) (used : ∀ other, q.manifest? other = p.manifest? other) :
    Provides wanted opened p q := by
  have old (n : NodeId) (inside : n < p.forest.nodes.size) : q.forest.node n = p.forest.node n := by
    rw [forest]
    exact (grown_plant p.forest e).1.node_eq n inside
  have content (other : String) : q.part? other = p.part? other := by rw [part?,part?,parts]
  refine .of_parts coherent' parts (fun other root here => (used other).trans here) (fun other _ => used other)
    fun part => ?_
  by_cases same : Path.relationships part = name
  · rw [relations,relations,used]
    cases here : p.manifest? (Path.relationships part) with
    | some root => exact coherent.links_eq coherent' (Or.inr here) old
    | none =>
      subst same
      obtain ⟨owner,level,arranged⟩ := coherent'
      have sorted := arranged.sorted
      have links : q.forest.links (p.forest.plant e).1 =
          e.entries (.within relationshipsSpace "Relationship") := by
        rw [Forest.links,entries_eq sorted,element_plant sorted p.forest e fun n _ _ => by rw [forest]]
      have present : p.hasPart (Path.relationships part) = true := hasPart_iff.mpr ⟨data,held⟩
      simp only [hasPart_congr (content _),present,links?,trees,unread,held,reading,links,if_true,Option.bind_some,
        Option.map_none]
  · exact relations_congr (used _) (by rw [trees,if_neg same]) (content _)
      fun root seated => coherent.links_eq coherent' seated old

private theorem Coherent.of_withRead (coherent : p.Coherent) {data : ByteArray} {e : Element}
    (unread : p.trees.lookup name = none) (held : p.part? name = some data)
    (reading : (readBytes data).root = .ok e) : (p.withRead name data e).Coherent := by
  have sketched := sketched_root? coherent name
  unfold Sketched at sketched
  rw [root?_of_read unread held reading] at sketched
  cases ran : Outlining.root? name p.outline with
  | ok b o =>
    rw [ran] at sketched
    exact sketched.2.1
  | error fault o =>
    rw [ran] at sketched
    exact sketched.elim

theorem providing_root? (coherent : p.Coherent) (name : String) :
    Providing wanted opened (Packaging.root? name) p fun found q =>
      ∀ root, found = some root → Rooting name root q := by
  cases known : p.trees.lookup name with
  | some t =>
    have ran : Packaging.root? name p = .ok (some t.root) (p.touch name) := by
      rw [Packaging.root?_run,known]
    exact .of_ran ran (.of_same coherent rfl rfl rfl rfl rfl) fun root found =>
      ⟨t,known,Option.some.inj found⟩
  | none =>
    cases held : p.part? name with
    | none =>
      have ran : Packaging.root? name p = .ok none p := by
        rw [Packaging.root?_run,known,held]
      exact .of_ran ran (.refl coherent) nofun
    | some data =>
      obtain ⟨journal,registered⟩ := p.registerAll_eq (readBytes data).declared
      cases reading : (readBytes data).root with
      | error problem =>
        unfold Providing
        rw [root?_of_misread known held reading,registered]
        exact .of_same coherent rfl rfl rfl rfl rfl
      | ok e =>
        have trees (other : String) : (p.withRead name data e).trees.lookup other =
            if other = name then some (treeOf data (p.forest.plant e).1) else p.trees.lookup other := by
          simp only [Package.withRead,trees_touch,registered]
          exact lookup_store p.trees name other _
        refine .of_ran (root?_of_read known held reading) ?_ fun root found =>
          ⟨_,(trees name).trans (if_pos rfl),Option.some.inj found⟩
        refine provides_read coherent (coherent.of_withRead known held reading) known held reading rfl trees ?_
          fun other => ?_
        · simp only [Package.withRead,registered]
          rfl
        · simp only [manifest?,Package.withRead,types_touch,manifests_touch,registered]

/-- A manifest that is missing is made. -/
theorem providing_newManifest (coherent : p.Coherent) {space stem : String} (missing : p.hasPart name = false)
    (asked : wanted name) (plain : Name.within space stem ≠ .within relationshipsSpace "Relationship") :
    Providing wanted opened (Packaging.newManifest name space stem) p fun _ q => q.hasPart name = true := by
  let e : Element := .mk (.within space stem) [] none [] none
  let q : Package := ({ p with forest := (p.forest.plant e).2 } : Package).setTree name (p.forest.plant e).1 space
  have trees (other : String) : q.trees.lookup other =
      if other = name then some ⟨(p.forest.plant e).1,[],space⟩ else p.trees.lookup other :=
    lookup_trees_setTree { p with forest := (p.forest.plant e).2 } name other _ space
  have content (other : String) : q.part? other = if other = name then some .empty else p.part? other :=
    part?_setTree { p with forest := (p.forest.plant e).2 } name other _ space
  have held : q.hasPart name = true := hasPart_iff.mpr ⟨_,(content name).trans (if_pos rfl)⟩
  have coherent' : q.Coherent := by
    obtain ⟨owner,level,arranged⟩ := coherent
    exact (arranged.plant name e [] space rfl trees fun _ => rfl).1
  have old (n : NodeId) (inside : n < p.forest.nodes.size) : q.forest.node n = p.forest.node n :=
    (grown_plant p.forest e).1.node_eq n inside
  have used (other : String) : q.manifest? other = p.manifest? other := rfl
  refine .of_ran (q := q) rfl ⟨coherent',⟨[name],?_,List.nodup_singleton _,fun other member => ?_⟩,
    fun other here => ?_,fun _ _ => id,fun _ _ => rfl,fun part => ?_⟩ held
  · exact map_store_of_missing .empty (notMem_names missing)
  · rw [List.mem_singleton.mp member]
    exact ⟨missing,asked⟩
  · have different : other ≠ name := by
      rintro rfl
      simp [missing] at here
    rw [content,if_neg different]
  · by_cases same : Path.relationships part = name
    · rw [relations,relations,used]
      cases here : p.manifest? (Path.relationships part) with
      | some root =>
        have links_eq := coherent.links_eq coherent' (Or.inr here) old
        rw [Option.map_some,Option.map_some,links_eq,Option.getD_some,Option.getD_some]
      | none =>
        subst same
        obtain ⟨owner,level,arranged⟩ := coherent'
        have sorted := arranged.sorted
        have links : q.forest.links (p.forest.plant e).1 = [] := by
          rw [Forest.links,entries_eq sorted,element_plant sorted p.forest e fun _ _ _ => rfl,Element.entries_mk,
            if_neg plain]
          rfl
        rw [Option.map_none,Option.map_none,held,missing,if_pos rfl,if_neg Bool.false_ne_true,Option.getD_none,
          Option.getD_none,links?,trees,if_pos rfl]
        exact links
    · exact relations_congr rfl (by rw [trees,if_neg same]) (by rw [content,if_neg same])
        fun root seated => coherent.links_eq coherent' seated old

section
variable (coherent : p.Coherent) (seated : p.Seated typesPart root)
include coherent seated

theorem providing_ensureDefault (extension type : String) :
    Providing wanted opened (Packaging.ensureDefault root extension type) p fun _ q => q.Seated typesPart root := by
  obtain ⟨owner,level,arranged⟩ := id coherent
  have seat := arranged.seat seated
  let entry : Entry := .default extension type
  let q : Package := { p with forest := p.forest.addEntry root entry.name entry.attributes }
  have ran : Packaging.ensureDefault root extension type p =
      if p.forest.hasDefault root extension = true then .ok false p
      else .ok true (q.log .debug s!"Registered content type {type} for .{extension}") := by
    change (if p.forest.hasDefault root extension = true then _ else _ : Packaging Bool) p = _
    split <;> rfl
  by_cases present : p.forest.hasDefault root extension = true
  · rw [if_pos present] at ran
    exact .of_ran ran (.refl coherent) seated
  · rw [if_neg present] at ran
    have entered : Provides wanted opened p q :=
      .of_reshaped arranged seated (reshaped_addEntry arranged.sorted seat.inside seat.nodup entry)
    exact .of_ran ran (entered.trans (.of_same entered.coherent rfl rfl rfl rfl rfl)) seated

theorem providing_ensureOverride (part type : String) :
    Providing wanted opened (Packaging.ensureOverride root part type) p fun _ q => q.Seated typesPart root := by
  obtain ⟨owner,level,arranged⟩ := id coherent
  have seat := arranged.seat seated
  obtain ⟨_,_,reshaped⟩ := reshaped_ensureOverride arranged.sorted seat.inside seat.nodup part type
  exact .of_ran rfl (.of_reshaped arranged seated reshaped) seated

end

/-- The tree of a part becomes a manifest in use. -/
private theorem provides_use (coherent : p.Coherent) (rooting : Rooting name root p) (parts : q.parts = p.parts)
    (forest : q.forest = p.forest) (trees : q.trees = p.trees) (unused : p.manifest? name = none)
    (held : name ≠ typesPart → p.hasPart name = true) (here : opened name)
    (used : ∀ other, q.manifest? other = if other = name then some root else p.manifest? other) :
    Provides wanted opened p q := by
  have content (other : String) : q.part? other = p.part? other := by rw [part?,part?,parts]
  refine .of_parts (coherent.use rooting forest trees used).1 parts (fun other root' kept => ?_)
    (fun other aside => ?_) fun part => ?_
  · have different : other ≠ name := by
      rintro rfl
      simp [unused] at kept
    rw [used,if_neg different,kept]
  · have different : other ≠ name := by
      rintro rfl
      exact aside here
    rw [used,if_neg different]
  · by_cases same : Path.relationships part = name
    · obtain ⟨t,known,rfl⟩ := rooting
      have present := held (same ▸ relationships_ne_typesPart part)
      subst same
      rw [relations,used,if_pos rfl,Option.map_some,Option.getD_some,relations,unused,Option.map_none,Option.getD_none,
        present,if_pos rfl,links?,known,forest]
      rfl
    · exact relations_congr (by rw [used,if_neg same]) (by rw [trees]) (content _) fun _ _ => by rw [forest]

private theorem manifest?_types (p : Package) : p.manifest? typesPart = p.types :=
  if_pos rfl

/-- The root of a manifest that is not in use is looked for and used from then on. -/
private theorem providing_use {use : NodeId → Package → Package} {next : Option NodeId → Packaging NodeId}
    {fault : Fault} (coherent : p.Coherent) (unused : p.manifest? name = none)
    (held : name ≠ typesPart → p.hasPart name = true) (here : opened name)
    (next_some : ∀ root, next (some root) = do modify (use root); return root)
    (next_none : next none = throw fault)
    (aside : ∀ root r, (use root r).parts = r.parts ∧ (use root r).forest = r.forest ∧ (use root r).trees = r.trees)
    (used : ∀ root r other, (use root r).manifest? other = if other = name then some root else r.manifest? other) :
    Providing wanted opened (Packaging.root? name >>= next) p fun root q => q.manifest? name = some root := by
  refine .of_bind (.still (providing_root? coherent name)) ?_
  rintro found r provides ⟨rooting,same⟩
  cases found with
  | none =>
    rw [next_none]
    exact .of_throw provides.coherent
  | some root =>
    rw [next_some]
    obtain ⟨parts,forest,trees⟩ := aside root r
    exact .of_ran (q := use root r) rfl (provides_use provides.coherent (rooting root rfl) parts forest trees
      ((same _).trans unused) (fun apart => provides.hasPart (held apart)) here (used root r))
      ((used root r name).trans (if_pos rfl))

theorem providing_contentTypes (coherent : p.Coherent) (asked : wanted typesPart) (here : opened typesPart) :
    Providing wanted opened Packaging.contentTypes p fun root q => q.Seated typesPart root := by
  unfold Packaging.contentTypes
  apply Providing.of_look
  cases used : p.types with
  | some root => exact .of_pure coherent (Or.inr ((manifest?_types p).trans used))
  | none =>
    apply Providing.of_look
    have unused : p.manifest? typesPart = none := (manifest?_types p).trans used
    have keeps (root : NodeId) (r : Package) (other : String) :
        { r with types := some root : Package }.manifest? other =
          if other = typesPart then some root else r.manifest? other := by
      by_cases types : other = typesPart <;> simp [manifest?,types]
    have last {next : Option NodeId → Packaging NodeId} {q : Package} (coherent : q.Coherent)
        (unused : q.manifest? typesPart = none)
        (next_some : ∀ root, next (some root) = do modify fun p => { p with types := some root }; return root)
        (next_none : next none = throw (.breakdown .operation)) :
        Providing wanted opened (Packaging.root? typesPart >>= next) q fun root r => r.Seated typesPart root :=
      (providing_use coherent unused (absurd rfl) here next_some next_none (fun _ _ => ⟨rfl,rfl,rfl⟩) keeps).mono
        fun _ _ seated => Or.inr seated
    split
    · next missing =>
      have missing : p.hasPart typesPart = false := by simpa using missing
      refine .of_bind (.of_log coherent) ?_
      rintro _ _ provides₁ rfl
      refine .of_bind (.still (providing_newManifest provides₁.coherent missing asked (by decide))) ?_
      rintro _ q₂ provides₂ ⟨-,same₂⟩
      refine .of_bind (.still (providing_root? provides₂.coherent typesPart)) ?_
      rintro found q₃ provides₃ ⟨rooting,same₃⟩
      have unused₃ : q₃.manifest? typesPart = none := (same₃ _).trans ((same₂ _).trans unused)
      cases found with
      | none => exact last provides₃.coherent unused₃ (fun _ => rfl) rfl
      | some root =>
        have seated₃ : q₃.Seated typesPart root := Or.inl (rooting root rfl)
        refine .of_bind (.still (providing_ensureDefault provides₃.coherent seated₃ _ _)) ?_
        rintro _ q₄ provides₄ ⟨seated₄,same₄⟩
        refine .of_bind (.still (providing_ensureDefault provides₄.coherent seated₄ _ _)) ?_
        rintro _ q₅ provides₅ ⟨seated₅,same₅⟩
        refine .of_bind (.still (providing_ensureOverride provides₅.coherent seated₅ _ _)) ?_
        rintro _ q₆ provides₆ ⟨-,same₆⟩
        exact last provides₆.coherent ((same₆ _).trans ((same₅ _).trans ((same₄ _).trans unused₃))) (fun _ => rfl) rfl
    · exact last coherent unused (fun _ => rfl) rfl

/-- Finding the manifest of a part changes no relationships, whatever it makes on the way. -/
theorem providing_relationshipsOf (coherent : p.Coherent) (part : String)
    (asked : wanted (Path.relationships part)) (asked' : wanted typesPart)
    (here : opened (Path.relationships part)) (here' : opened typesPart) :
    Providing wanted opened (Packaging.relationshipsOf part) p fun root q =>
      q.manifest? (Path.relationships part) = some root := by
  have different := relationships_ne_typesPart part
  have lookup (q : Package) : q.manifest? (Path.relationships part) =
      q.manifests.lookup (Path.relationships part) := if_neg different
  unfold Packaging.relationshipsOf
  apply Providing.of_look
  dsimp only
  cases used : p.manifests.lookup (Path.relationships part) with
  | some root => exact .of_pure coherent ((lookup p).trans used)
  | none =>
    apply Providing.of_look
    have unused : p.manifest? (Path.relationships part) = none := (lookup p).trans used
    have keeps (root : NodeId) (r : Package) (other : String) :
        { r with manifests := store r.manifests (Path.relationships part) root : Package }.manifest? other =
          if other = Path.relationships part then some root else r.manifest? other := by
      by_cases types : other = typesPart
      · simp [manifest?,types,Ne.symm different]
      · simp [manifest?,types,lookup_store]
    split
    · next missing =>
      have missing : p.hasPart (Path.relationships part) = false := by simpa using missing
      refine .of_bind (.of_log coherent) ?_
      rintro _ _ provides₁ rfl
      refine .of_bind (.still (providing_newManifest provides₁.coherent missing asked (by decide))) ?_
      rintro _ q₂ provides₂ ⟨held₂,same₂⟩
      have contentTypes : Providing wanted (· = typesPart) Packaging.contentTypes q₂ _ :=
        providing_contentTypes provides₂.coherent asked' rfl
      refine .of_bind (contentTypes.widen fun _ same => same ▸ here') ?_
      rintro types q₃ provides₃ ⟨seated₃,same₃⟩
      refine .of_bind (.still (providing_ensureDefault provides₃.coherent seated₃ _ _)) ?_
      rintro _ q₄ provides₄ ⟨-,same₄⟩
      exact providing_use provides₄.coherent ((same₄ _).trans ((same₃ _ different).trans ((same₂ _).trans unused)))
        (fun _ => provides₄.hasPart (provides₃.hasPart held₂)) here (fun _ => rfl) rfl (fun _ _ => ⟨rfl,rfl,rfl⟩) keeps
    · next present =>
      have held : p.hasPart (Path.relationships part) = true := by simpa using present
      exact providing_use coherent unused (fun _ => held) here (fun _ => rfl) rfl (fun _ _ => ⟨rfl,rfl,rfl⟩) keeps

end Package
end MailMerge
