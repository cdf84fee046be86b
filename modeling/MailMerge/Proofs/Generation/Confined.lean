import MailMerge.Proofs.Embedding.Places
import MailMerge.Proofs.Generation.Manifests
import MailMerge.Proofs.Package.Filing

/-! What the steps of a generation do to the parts of the package while one part is at work: they read
the part, its manifest and the manifest of content types, and create parts for what is embedded.
Nothing else becomes a part or gets a tree, whatever the data and the settings are.
-/
namespace MailMerge
open Xml Docx Package Relation Generation

/-- Between two worlds one thing happened to the parts. -/
def Files (s : Settings) (o : Options) (w w' : World) : Prop :=
  ∃ created, Filing s o w.package created w'.package

/-- One thing happened to the parts, and the part at work is the same. -/
def Stays (s : Settings) (o : Options) (w w' : World) : Prop :=
  w'.session.part = w.session.part ∧ Files s o w w'

/-- A part that is filled, under a name that is stored as it is. -/
structure Hosts (s : Settings) (o : Options) (part : String) : Prop where
  filled : Filled s o part
  fits : Fits s part

/-- With a certain part at work, all that a step does to parts is what may happen to them. -/
def Confined {α : Type} (setup : Setup) (o : Options) (here : String → Prop)
    (step : Generation α) : Prop :=
  ∀ w : World, here w.session.part →
    Ends (Stays setup.settings o) setup step w fun _ _ => True

variable {setup : Setup} {o : Options} {here : String → Prop} {α β : Type}

theorem stays_le_files (s : Settings) (o : Options) : Stays s o ≤ Files s o :=
  fun _ _ stays => stays.2

theorem part_of_stays {s : Settings} {w w' : World} (moves : ReflTransGen (Stays s o) w w') :
    w'.session.part = w.session.part := by
  induction moves with
  | refl => rfl
  | tail _ last ih => exact last.1.trans ih

theorem files_of_stays {s : Settings} {w w' : World} (moves : ReflTransGen (Stays s o) w w') :
    ReflTransGen (Files s o) w w' :=
  ReflTransGen.mono (stays_le_files s o) _ _ moves

theorem filings_of_moves {s : Settings} {w w' : World} (moves : ReflTransGen (Files s o) w w') :
    ∃ created, Filings s o w.package created w'.package := by
  induction moves with
  | refl => exact ⟨[],.refl⟩
  | tail _ last ih =>
    obtain ⟨created,earlier⟩ := ih
    obtain ⟨made,last⟩ := last
    exact ⟨created ++ made,earlier.tail last⟩

/-- A part that is there stays there. -/
theorem hasPart_of_files {s : Settings} {w w' : World} (moves : ReflTransGen (Files s o) w w')
    {name : String} (held : w.package.hasPart name = true) : w'.package.hasPart name = true := by
  obtain ⟨_,steps⟩ := filings_of_moves moves
  exact steps.hasPart held

/-- Neither parts nor trees are added or replaced. -/
theorem stays_aside {s : Settings} {w w' : World} (part : w'.session.part = w.session.part)
    (parts : w'.package.parts = w.package.parts) (order : w'.package.order = w.package.order)
    (trees : w'.package.trees = w.package.trees) : Stays s o w w' :=
  ⟨part,[],.aside parts order trees⟩

theorem stays_withPackage {s : Settings} {w : World} (p : Package)
    (parts : p.parts = w.package.parts) (order : p.order = w.package.order)
    (trees : p.trees = w.package.trees) : Stays s o w (w.withPackage p) :=
  stays_aside rfl parts order trees

namespace Confined

/-- Work that needs no part. -/
theorem anywhere {step : Generation α} (confined : Confined setup o (fun _ => True) step)
    (w : World) : Ends (Stays setup.settings o) setup step w fun _ _ => True :=
  confined w trivial

theorem of_pure (a : α) : Confined setup o here (pure a) :=
  fun _ _ => Ends.of_pure trivial

theorem of_throw (fault : Fault) : Confined (α := α) setup o here (throw fault) :=
  fun _ _ => Ends.of_throw

theorem of_bind {step : Generation α} {next : α → Generation β}
    (first : Confined setup o here step) (second : ∀ a, Confined setup o here (next a)) :
    Confined setup o here (step >>= next) := by
  intro w at_work
  apply Ends.of_bind (first w at_work)
  intro a w' moves _
  exact second a w' (part_of_stays moves ▸ at_work)

theorem of_look {next : Session → Generation α} (all : ∀ s, Confined setup o here (next s)) :
    Confined setup o here (get >>= next) :=
  fun w at_work => Ends.of_look (all w.session w at_work)

theorem of_look_setup {next : Setup → Generation α} (same : Confined setup o here (next setup)) :
    Confined setup o here (read >>= next) :=
  fun w at_work => Ends.of_look_setup (same w at_work)

theorem of_look_forest {next : Forest → Generation α} (all : ∀ f, Confined setup o here (next f)) :
    Confined setup o here (forest >>= next) :=
  fun w at_work => Ends.of_look_forest (all w.package.forest w at_work)

theorem of_ofExcept (result : Except Fault α) :
    Confined setup o here (Generation.ofExcept result) :=
  fun _ _ => Ends.of_ofExcept fun _ _ => trivial

theorem of_given {result : Except Fault α} {next : α → Generation β}
    (each : ∀ a, result = .ok a → Confined setup o here (next a)) :
    Confined setup o here (Generation.ofExcept result >>= next) :=
  fun w at_work => Ends.of_given fun a given => each a given w at_work

theorem of_guarded {step : Generation α} (confined : Confined setup o here step) :
    Confined setup o here (guarded step) :=
  fun w at_work => Ends.of_guarded _ (confined w at_work) fun _ _ _ => trivial

theorem of_forIn {σ : Type} {items : List α} {init : σ} {body : α → σ → Generation (ForInStep σ)}
    (each : ∀ a ∈ items, ∀ b, Confined setup o here (body a b)) :
    Confined setup o here (forIn items init body) := by
  induction items generalizing init with
  | nil => exact of_pure init
  | cons a items ih =>
    rw [List.forIn_cons]
    refine of_bind (each a List.mem_cons_self init) fun next => ?_
    cases next with
    | done b => exact of_pure b
    | yield b => exact ih fun a' member => each a' (List.mem_cons_of_mem a member)

theorem of_mapM {step : α → Generation β} (each : ∀ a, Confined setup o here (step a))
    (items : List α) : Confined setup o here (items.mapM step) := by
  induction items with
  | nil => exact of_pure []
  | cons a items ih =>
    rw [List.mapM_cons]
    exact of_bind (each a) fun _ => of_bind ih fun _ => of_pure _

/-- A step that only changes the session beside its part and its package, or the package beside its
parts and trees. -/
theorem of_modify {change : Session → Session} (part : ∀ s, (change s).part = s.part)
    (parts : ∀ s, (change s).package.parts = s.package.parts)
    (order : ∀ s, (change s).package.order = s.package.order)
    (trees : ∀ s, (change s).package.trees = s.package.trees) :
    Confined setup o here (modify change) :=
  fun w _ => Ends.of_modify _ { w with session := change w.session }
    rfl (stays_aside (part _) (parts _) (order _) (trees _)) trivial

theorem of_edit (change : Forest → Forest) : Confined setup o here (edit change) :=
  fun w _ => Ends.of_packaged_modify _ (stays_withPackage
    { w.package with forest := change w.package.forest } rfl rfl rfl) rfl trivial

theorem of_plant (e : Element) : Confined setup o here (plant e) :=
  fun w _ => ⟨w.withPackage { w.package with forest := (w.package.forest.plant e).2 },rfl,
    ReflTransGen.single (stays_aside rfl rfl rfl rfl),trivial⟩

theorem of_log (level : Level) (message : String) : Confined setup o here (log level message) :=
  fun w _ => Ends.of_packaged_modify _ (stays_withPackage (w.package.log level message) rfl rfl rfl)
    rfl trivial

theorem of_record {kind : Directive.Kind} {key : Value} {status : Status} {reason : String} :
    Confined setup o here (record kind key status reason) := by
  unfold record
  refine of_look fun s => of_bind (of_modify (fun _ => rfl) (fun _ => rfl) (fun _ => rfl)
    fun _ => rfl) fun _ => ?_
  cases status with
  | applied => exact of_pure ()
  | failed => exact of_log _ _
  | skipped =>
    dsimp only
    split
    · exact of_log _ _
    · exact of_pure ()

/-- Work on a tree through its index. -/
theorem of_change (step : Index → Forest → Except Fault (Bool × Index × Forest)) :
    Confined setup o here (change step) := by
  intro w _
  unfold change
  apply Ends.of_look
  apply Ends.of_given
  rintro ⟨known,index,forest⟩ _
  let w' : World := { w with session := { w.session with
    index := index
    package := { w.session.package with forest := forest } } }
  exact ⟨w',rfl,ReflTransGen.single (stays_aside rfl rfl rfl rfl),trivial⟩

end Confined

/-! Reading parts and using manifests. -/

namespace Confined

theorem of_packaged_bind {operation : Packaging α} {next : α → Packaging β}
    (first : Confined setup o here (onPackage operation))
    (second : ∀ a, Confined setup o here (onPackage (next a))) :
    Confined setup o here (onPackage (operation >>= next)) := by
  intro w at_work
  apply Ends.of_packaged_bind (first w at_work)
  intro a w' moves _
  exact second a w' (part_of_stays moves ▸ at_work)

theorem of_packaged_pure (a : α) : Confined setup o here (onPackage (pure a)) :=
  fun _ _ => Ends.of_packaged_pure trivial

theorem of_packaged_throw (fault : Fault) :
    Confined (α := α) setup o here (onPackage (throw fault)) :=
  fun _ _ => Ends.of_packaged_throw

theorem of_packaged_look {next : Package → Packaging α}
    (all : ∀ p, Confined setup o here (onPackage (next p))) :
    Confined setup o here (onPackage (get >>= next)) :=
  fun w at_work => Ends.of_packaged_look (all w.package w at_work)

/-- An operation on the package beside its parts and trees. -/
theorem of_packaged_modify {change : Package → Package} (parts : ∀ p, (change p).parts = p.parts)
    (order : ∀ p, (change p).order = p.order) (trees : ∀ p, (change p).trees = p.trees) :
    Confined setup o here (onPackage (modify change)) :=
  fun w _ => Ends.of_packaged_modify _
    (stays_withPackage (change w.package) (parts _) (order _) (trees _)) rfl trivial

end Confined

variable {w : World}

/-- Reading the root of a part leaves the manifests in use as they are. -/
theorem stays_root? {name : String} (touchable : Touchable setup.settings o name) :
    Ends (Stays setup.settings o) setup (onPackage (Packaging.root? name)) w fun _ w' =>
      w'.package.types = w.package.types := by
  unfold Ends onPackage
  rw [Packaging.root?_run]
  cases known : w.package.trees.lookup name with
  | some t =>
    have known' : w.session.package.trees.lookup name = some t := known
    simp only [known']
    exact ⟨w.withPackage (w.package.touch name),rfl,
      ReflTransGen.single (stays_aside rfl rfl rfl rfl),rfl⟩
  | none =>
    have known' : w.session.package.trees.lookup name = none := known
    simp only [known']
    cases held : w.package.part? name with
    | none =>
      have held' : w.session.package.part? name = none := held
      simp only [held']
      exact ⟨w,rfl,ReflTransGen.refl,rfl⟩
    | some data =>
      have held' : w.session.package.part? name = some data := held
      simp only [held']
      cases reading : (readBytes data).root with
      | error problem => simp [Fault.isOwn]
      | ok e =>
        obtain ⟨journal,same⟩ := w.package.registerAll_eq (readBytes data).declared
        have same' : w.session.package.registerAll (readBytes data).declared = _ := same
        -- first the prefixes are registered and the tree planted, then the tree is the part's
        let planted : Package := { w.package with
          prefixes := w.package.prefixes.enter (readBytes data).declared
          journal := journal
          forest := (w.package.forest.plant e).2 }
        let t := treeOf data (w.package.forest.plant e).1
        have first : Stays setup.settings o w (w.withPackage planted) :=
          stays_aside rfl rfl rfl rfl
        have present : planted.hasPart name = true := hasPart_iff.mpr ⟨data,held⟩
        have second : Stays setup.settings o (w.withPackage planted) (w.withPackage
            ({ planted with trees := Package.store planted.trees name t }.touch name)) :=
          ⟨rfl,[],.read t touchable present⟩
        refine ⟨_,?_,(ReflTransGen.single first).tail second,rfl⟩
        simp only [World.withPackage,same']
        rfl

theorem touchable_typesPart (s : Settings) (o : Options) : Touchable s o typesPart :=
  Or.inl rfl

theorem fits_typesPart (s : Settings) : Fits s typesPart :=
  fun _ => by decide

theorem Hosts.touchable {s : Settings} {part : String} (hosts : Hosts s o part) :
    Touchable s o part :=
  Or.inr (Or.inl hosts.filled)

theorem Hosts.touchable_relationships {s : Settings} {part : String} (hosts : Hosts s o part) :
    Touchable s o (Path.relationships part) :=
  Or.inr (Or.inr ⟨part,hosts.filled,rfl⟩)

namespace Confined

theorem of_packaged_log (level : Level) (message : String) :
    Confined setup o here (onPackage (Packaging.log level message)) :=
  of_log level message

theorem of_root? {name : String} (touchable : Touchable setup.settings o name) :
    Confined setup o here (onPackage (Packaging.root? name)) :=
  fun _ _ => (stays_root? touchable).mono fun _ _ _ _ => trivial

theorem of_ensureDefault (root : NodeId) (extension type : String) :
    Confined setup o here (onPackage (Packaging.ensureDefault root extension type)) := by
  unfold Packaging.ensureDefault
  refine of_packaged_look fun p => ?_
  split
  · exact of_packaged_pure _
  · exact of_packaged_bind (of_edit _) fun _ => of_packaged_bind (of_packaged_log _ _) fun _ =>
      of_packaged_pure _

theorem of_ensureOverride (root : NodeId) (part type : String) :
    Confined setup o here (onPackage (Packaging.ensureOverride root part type)) :=
  fun w _ => ⟨w.withPackage { w.package with
    forest := (w.package.forest.ensureOverride root part type).2 },rfl,
      ReflTransGen.single (stays_aside rfl rfl rfl rfl),trivial⟩

end Confined

theorem stays_log (level : Level) (message : String) : Ends (Stays setup.settings o) setup
    (onPackage (Packaging.log level message)) w fun _ w' =>
      w'.package = w.package.log level message :=
  Ends.of_packaged_modify _ (stays_withPackage (w.package.log level message) rfl rfl rfl) rfl rfl

/-- A manifest that is made becomes a part. -/
theorem stays_newManifest {name : String} (touchable : Touchable setup.settings o name)
    (fits : Fits setup.settings name) (missing : w.package.hasPart name = false)
    (space stem : String) : Ends (Stays setup.settings o) setup
      (onPackage (Packaging.newManifest name space stem)) w fun _ w' =>
        w'.package.hasPart name = true := by
  let planted : Package := { w.package with
    forest := (w.package.forest.add { name := .within space stem }).2 }
  let root := (w.package.forest.add { name := .within space stem }).1
  have first : Stays setup.settings o w (w.withPackage planted) := stays_aside rfl rfl rfl rfl
  have second : Stays setup.settings o (w.withPackage planted)
      (w.withPackage (planted.setTree name root space)) :=
    ⟨rfl,_,.create root space touchable missing fits⟩
  refine ⟨w.withPackage (planted.setTree name root space),rfl,
    (ReflTransGen.single first).tail second,?_⟩
  exact hasPart_iff.mpr ⟨_,(part?_setTree planted name name root space).trans (if_pos rfl)⟩

/-- The manifest of content types is read and from then on in use. -/
private theorem confined_useTypes : Confined setup o here (onPackage do
    match ← Packaging.root? typesPart with
    | some root =>
      modify fun p => { p with types := some root }
      return root
    | none => throw (.breakdown .operation)) := by
  refine .of_packaged_bind (.of_root? (touchable_typesPart _ _)) fun found => ?_
  cases found with
  | none => exact .of_packaged_throw _
  | some root => exact .of_packaged_bind (.of_packaged_modify (fun _ => rfl) (fun _ => rfl)
      fun _ => rfl) fun _ => .of_packaged_pure root

/-- When it is asked for for the first time, the manifest of content types becomes a part if it was
none. -/
theorem stays_contentTypes : Ends (Stays setup.settings o) setup (onPackage Packaging.contentTypes) w
    fun _ w' => w.package.types = none → w'.package.hasPart typesPart = true := by
  have used : Confined setup o (fun _ => True) _ := confined_useTypes
  have last (w' : World) (held : w'.package.hasPart typesPart = true) :=
    (used.anywhere w').mono fun _ _ moves _ =>
      (fun _ => hasPart_of_files (files_of_stays moves) held : w.package.types = none → _)
  unfold Packaging.contentTypes
  apply Ends.of_packaged_look
  split
  · next root used => exact Ends.of_packaged_pure (by simp [used])
  · apply Ends.of_packaged_look
    dsimp only
    split
    · next missing =>
      have absent : w.package.hasPart typesPart = false := by simpa using missing
      apply Ends.of_packaged_bind (stays_log _ _)
      intro _ w₁ _ logged
      have absent₁ : w₁.package.hasPart typesPart = false := by
        rw [logged]
        exact absent
      apply Ends.of_packaged_bind (stays_newManifest (touchable_typesPart _ _) (fits_typesPart _)
        absent₁ _ _)
      intro _ w₂ _ made
      apply Ends.of_packaged_bind
        ((Confined.of_root? (touchable_typesPart _ o)).anywhere w₂)
      intro found w₃ moves₃ _
      have made₃ := hasPart_of_files (files_of_stays moves₃) made
      cases found with
      | none => exact last w₃ made₃
      | some root =>
        apply Ends.of_packaged_bind ((Confined.of_ensureDefault root _ _).anywhere w₃)
        intro _ w₄ moves₄ _
        have made₄ := hasPart_of_files (files_of_stays moves₄) made₃
        apply Ends.of_packaged_bind ((Confined.of_ensureDefault root _ _).anywhere w₄)
        intro _ w₅ moves₅ _
        have made₅ := hasPart_of_files (files_of_stays moves₅) made₄
        apply Ends.of_packaged_bind ((Confined.of_ensureOverride root _ _).anywhere w₅)
        intro _ w₆ moves₆ _
        exact last w₆ (hasPart_of_files (files_of_stays moves₆) made₅)
    · next present => exact last w (by simpa using present)

theorem Confined.of_contentTypes : Confined setup o here (onPackage Packaging.contentTypes) :=
  fun _ _ => stays_contentTypes.mono fun _ _ _ _ => trivial

/-- A manifest of relationships is read and from then on in use. -/
private theorem confined_useLinks {name : String} (touchable : Touchable setup.settings o name) :
    Confined setup o here (onPackage do
      match ← Packaging.root? name with
      | some root =>
        modify fun p => { p with manifests := Package.store p.manifests name root }
        return root
      | none => throw (.breakdown .operation)) := by
  refine .of_packaged_bind (.of_root? touchable) fun found => ?_
  cases found with
  | none => exact .of_packaged_throw _
  | some root => exact .of_packaged_bind (.of_packaged_modify (fun _ => rfl) (fun _ => rfl)
      fun _ => rfl) fun _ => .of_packaged_pure root

/-- The manifest of a part that is filled. -/
theorem Confined.of_relationshipsOf {part : String} (hosts : Hosts setup.settings o part) :
    Confined setup o here (onPackage (Packaging.relationshipsOf part)) := by
  intro w at_work
  have touchable := hosts.touchable_relationships
  have fits : Fits setup.settings (Path.relationships part) :=
    fun plain => (hosts.fits plain).relationships
  unfold Packaging.relationshipsOf
  apply Ends.of_packaged_look
  split
  · exact Ends.of_packaged_pure trivial
  · apply Ends.of_packaged_look
    dsimp only
    split
    · next missing =>
      have absent : w.package.hasPart (Path.relationships part) = false := by simpa using missing
      apply Ends.of_packaged_bind (stays_log _ _)
      intro _ w₁ moves₁ logged
      have absent₁ : w₁.package.hasPart (Path.relationships part) = false := by
        rw [logged]
        exact absent
      apply Ends.of_packaged_bind (stays_newManifest touchable fits absent₁ _ _)
      intro _ w₂ moves₂ _
      have last : Confined setup o (fun _ => True) (onPackage do
          let types ← Packaging.contentTypes
          let _ ← Packaging.ensureDefault types "rels" Packaging.relationshipsType
          match ← Packaging.root? (Path.relationships part) with
          | some root =>
            modify fun p =>
              { p with manifests := Package.store p.manifests (Path.relationships part) root }
            return root
          | none => throw (.breakdown .operation)) :=
        .of_packaged_bind .of_contentTypes fun types =>
          .of_packaged_bind (.of_ensureDefault types _ _) fun _ => confined_useLinks touchable
      exact last w₂ trivial
    · exact confined_useLinks touchable w at_work

/-! Embedding. -/

namespace Embed
open Archive

private theorem notMem_numeral (n : Nat) : '\x00' ∉ n.repr.toList := by
  rw [Nat.repr,String.toList_ofList]
  exact notMem_toDigits n (by decide)

/-- Different images of one kind go into different parts, whatever part shows them. -/
theorem image_part_injective (folder stored : String) :
    Function.Injective fun n => Path.join folder (imageFile stored n) := by
  intro m n same
  have relative (n : Nat) : Text.startsWith ['/'] (imageFile stored n).toList = false := by
    simp [toList_imageFile,Text.startsWith,Text.after?]
  apply imageFile_injective stored
  simp only [Path.join,relative,Bool.false_or] at same
  split at same
  · exact same
  · split at same
    · simpa using same
    · simpa using same

theorem fits_image {s : Settings} {part : String} (fits : Fits s part) {data : ByteArray}
    {extension stored : String} {detected : Bool}
    (known : imageExtension s data extension = .ok (stored,detected)) (n : Nat) :
    Fits s (imagePart part stored n) := by
  intro plain
  have inside : stored ∈ s.extensions := by
    unfold imageExtension at known
    split at known
    · next typed =>
      obtain ⟨rfl,_⟩ := Prod.mk.inj (Except.ok.inj known)
      obtain ⟨type,found⟩ := Option.isSome_iff_exists.mp typed
      exact List.mem_append_left _ (List.mem_map_of_mem (mem_of_lookup found))
    · split at known
      · next found =>
        obtain ⟨rfl,_⟩ := Prod.mk.inj (Except.ok.inj known)
        obtain ⟨format,_,found⟩ := Option.bind_eq_some_iff.mp found
        exact List.mem_append_right _ (List.mem_map_of_mem (mem_of_lookup found))
      · simp at known
  have file : IsShort (imageFile stored n) := by
    have short := plain stored inside
    simp only [IsShort,toList_imageFile,List.mem_append,List.mem_cons,not_or] at short ⊢
    exact ⟨⟨by decide,notMem_numeral n⟩,by decide,short⟩
  exact ((fits plain).folder.join (by decide)).join file

theorem fits_chart (s : Settings) (n : Nat) : Fits s (chartPart n) := by
  intro _
  simp only [IsShort,toList_chartPart,List.mem_append,not_or]
  exact ⟨by decide,⟨by decide,notMem_numeral n⟩,by decide⟩

/-- Data becomes a part under a name that is free, and the session knows it. -/
theorem stays_store {w : World} {name : String} {data : ByteArray} {change : Session → Session}
    {next : Generation Element} (hosts : Hosts setup.settings o w.session.part)
    (missing : w.package.hasPart name = false) (fits : Fits setup.settings name)
    (part : (change w.session).part = w.session.part)
    (written : (change w.session).package = w.package.write name data)
    (rest : Confined setup o (Hosts setup.settings o) next) :
    Ends (Stays setup.settings o) setup (modify change >>= fun _ => next) w fun _ _ => True := by
  have stores : Stays setup.settings o w { w with session := change w.session } :=
    ⟨part,[name],(congrArg (Filing _ _ _ _) written).mpr (.write data missing fits)⟩
  apply Ends.of_bind (Ends.of_modify (fun _ w' => w'.session.part = w.session.part)
    { w with session := change w.session } rfl stores part)
  intro _ w' _ same
  exact rest w' (same ▸ hosts)

theorem confined_image (data : ByteArray) (extension : String) (width height : Value) :
    Confined setup o (Hosts setup.settings o) (image data extension width height) := by
  unfold image
  refine .of_look_setup ?_
  extract_lets s key
  refine .of_given ?_
  rintro ⟨stored,detected⟩ known
  dsimp -zeta only
  extract_lets file store
  have confined_store : Confined setup o (Hosts setup.settings o) (store ()) := by
    simp -zeta only [store]
    intro w₁ hosts₁
    apply Ends.of_look
    apply Ends.of_bind (Confined.of_relationshipsOf hosts₁ w₁ hosts₁)
    intro links w₂ moves₂ _
    have hosts₂ : Hosts setup.settings o w₂.session.part := part_of_stays moves₂ ▸ hosts₁
    apply Ends.of_look
    extract_lets folder part
    apply Ends.of_look
    apply Ends.of_look
    extract_lets n finish
    have absent : w₂.package.hasPart (part n) = false :=
      (nextNumber_free w₂.package links w₂.session.images (image_part_injective _ stored)
        (key_injective s.imageBase)).1
    have fits : Fits setup.settings (part n) := fits_image hosts₂.fits known n
    clear_value n
    have rest : Confined setup o (Hosts setup.settings o) (finish ()) :=
      .of_bind (.of_log _ _) fun _ => .of_given fun _ _ => .of_pure _
    refine stays_store hosts₂ absent fits rfl rfl
      (.of_bind (.of_edit _) fun _ => .of_bind .of_contentTypes fun types => ?_)
    split
    · exact .of_bind (.of_ensureDefault _ _ _) fun _ => rest
    · exact .of_bind (.of_throw _) fun _ => rest
  split
  · exact .of_bind (.of_log _ _) fun _ => confined_store
  · exact confined_store

theorem confined_fetched {address : String} {width height : Value} :
    Confined setup o (Hosts setup.settings o) (fetched address width height) := by
  unfold fetched
  refine .of_look_setup ?_
  extract_lets s embed
  have confined_embed : Confined setup o (Hosts setup.settings o) (embed ()) :=
    .of_given fun data _ => .of_bind (.of_log _ _) fun _ => .of_given fun extension _ =>
      confined_image data extension width height
  refine .of_look fun state => ?_
  split
  · exact .of_bind (.of_throw _) fun _ => confined_embed
  · exact confined_embed

theorem confined_chart {kind : String} {rows : Value} {title : Option String}
    {width height : Value} :
    Confined setup o (Hosts setup.settings o) (chart kind rows title width height) := by
  unfold chart
  refine .of_look_setup ?_
  extract_lets s part key
  refine .of_given fun root _ => .of_look fun state => ?_
  extract_lets data
  intro w₁ hosts₁
  apply Ends.of_look
  apply Ends.of_bind (Confined.of_relationshipsOf hosts₁ w₁ hosts₁)
  intro links w₂ moves₂ _
  have hosts₂ : Hosts setup.settings o w₂.session.part := part_of_stays moves₂ ▸ hosts₁
  apply Ends.of_look
  apply Ends.of_look
  extract_lets n
  have absent : w₂.package.hasPart (part n) = false :=
    (nextNumber_free w₂.package links w₂.session.charts chartPart_injective
      (key_injective s.chartBase)).1
  have fits : Fits setup.settings (part n) := fits_chart _ n
  clear_value n
  apply stays_store hosts₂ absent fits rfl rfl
  exact .of_look fun _ => .of_bind (.of_edit _) fun _ => .of_bind .of_contentTypes fun types =>
    .of_bind (.of_ensureOverride _ _ _) fun _ => .of_bind (.of_log _ _) fun _ =>
      .of_given fun _ _ => .of_pure _

end Embed

end MailMerge
