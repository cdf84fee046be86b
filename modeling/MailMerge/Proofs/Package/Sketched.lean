import MailMerge.Proofs.Package.Arranged

/-! Operations on packages follow those on their outlines.
-/
namespace MailMerge
open Xml Docx Package Forest

/-- A step on a package ends as a step on its outline does, with the outline of the package there,
and the results satisfy a condition. -/
def Sketched {α β : Type} (step : Packaging α) (sketch : Outlining β) (p : Package)
    (post : α → β → Package → Prop) : Prop :=
  match step p, sketch p.outline with
  | .ok a q, .ok b o => o = q.outline ∧ q.Coherent ∧ post a b q
  | .error _ q, .error _ o => o = q.outline ∧ q.Coherent
  | _, _ => False

namespace Sketched

variable {α β γ δ : Type} {p q : Package}

theorem of_bind {step : Packaging α} {sketch : Outlining β} {next : α → Packaging γ}
    {next' : β → Outlining δ} {mid : α → β → Package → Prop} {post : γ → δ → Package → Prop}
    (first : Sketched step sketch p mid)
    (second : ∀ a b q, q.Coherent → mid a b q → Sketched (next a) (next' b) q post) :
    Sketched (step >>= next) (sketch >>= next') p post := by
  unfold Sketched at first ⊢
  simp only [bind,EStateM.bind]
  cases ran : step p <;> cases ran' : sketch p.outline <;> rw [ran,ran'] at first
  · obtain ⟨rfl,coherent,holds⟩ := first
    exact second _ _ _ coherent holds
  · exact first.elim
  · exact first.elim
  · exact first

theorem of_pure {a : α} {b : β} {post : α → β → Package → Prop} (coherent : p.Coherent)
    (holds : post a b p) : Sketched (pure a) (pure b) p post :=
  ⟨rfl,coherent,holds⟩

theorem of_throw {fault : Fault} {post : α → β → Package → Prop} (coherent : p.Coherent) :
    Sketched (throw fault) (throw ()) p post :=
  ⟨rfl,coherent⟩

/-- Looking at the package and at its outline. -/
theorem of_look {next : Package → Packaging α} {next' : Outline → Outlining β}
    {post : α → β → Package → Prop} (sketched : Sketched (next p) (next' p.outline) p post) :
    Sketched (get >>= next) (get >>= next') p post :=
  sketched

/-- A step that ends at a package whose outline is drawn at once. -/
theorem of_ran {step : Packaging α} {change' : Outline → Outline} {a : α}
    {post : α → Unit → Package → Prop} (ran : step p = .ok a q)
    (outline : q.outline = change' p.outline) (coherent : q.Coherent) (holds : post a () q) :
    Sketched step (modify change') p post := by
  unfold Sketched
  rw [ran]
  exact ⟨outline.symm,coherent,holds⟩

/-- Messages are not seen in an outline. -/
theorem of_log {level : Level} {message : String} {next : Unit → Packaging α}
    {sketch : Outlining β} {post : α → β → Package → Prop}
    (sketched : Sketched (next ()) sketch (p.log level message) post) :
    Sketched (Packaging.log level message >>= next) sketch p post :=
  sketched

end Sketched

namespace Package

variable {p : Package}

theorem Coherent.touch (coherent : p.Coherent) (name : String) : (p.touch name).Coherent :=
  coherent.of_same rfl rfl rfl rfl

theorem Coherent.log (coherent : p.Coherent) (level : Level) (message : String) :
    (p.log level message).Coherent :=
  coherent.of_same rfl rfl rfl rfl

/-- A package in which a part was just read. -/
def withRead (p : Package) (name : String) (data : ByteArray) (e : Element) : Package :=
  ({ p.registerAll (readBytes data).declared with
    forest := (p.forest.plant e).2
    trees := store p.trees name (treeOf data (p.forest.plant e).1) } : Package).touch name

theorem root?_of_read {name : String} {data : ByteArray} {e : Element}
    (unread : p.trees.lookup name = none) (held : p.part? name = some data)
    (reading : (readBytes data).root = .ok e) :
    Packaging.root? name p = .ok (some (p.forest.plant e).1) (p.withRead name data e) := by
  obtain ⟨journal,registered⟩ := p.registerAll_eq (readBytes data).declared
  simp only [Packaging.root?_run,unread,held,reading,withRead,registered]

theorem root?_of_misread {name : String} {data : ByteArray} {problem : Misreading}
    (unread : p.trees.lookup name = none) (held : p.part? name = some data)
    (reading : (readBytes data).root = .error problem) :
    Packaging.root? name p = .error (.breakdown (Packaging.misread problem))
      (p.registerAll (readBytes data).declared) := by
  simp only [Packaging.root?_run,unread,held,reading]

/-- The root of a part's tree, as a package finds it. -/
def Rooted (name : String) (found : Option NodeId) (known : Bool) (q : Package) : Prop :=
  match found with
  | some root => known = true ∧ ∃ t, q.trees.lookup name = some t ∧ t.root = root
  | none => known = false

private theorem Coherent.withRead (coherent : p.Coherent) {name : String}
    (unread : p.trees.lookup name = none) (data : ByteArray) (e : Element) :
    (p.withRead name data e).Coherent ∧
      (p.withRead name data e).outline =
        (({ p.outline with prefixes := p.prefixes.enter (readBytes data).declared } :
          Outline).draw name (.of data e)).touch name ∧
      (p.withRead name data e).trees.lookup name = some (treeOf data (p.forest.plant e).1) := by
  obtain ⟨owner,level,arranged⟩ := coherent
  obtain ⟨journal,registered⟩ := p.registerAll_eq (readBytes data).declared
  have trees (other : String) : (p.withRead name data e).trees.lookup other =
      if other = name then some (treeOf data (p.forest.plant e).1) else p.trees.lookup other := by
    simp only [Package.withRead,trees_touch,registered]
    exact lookup_store p.trees name other _
  have forest : (p.withRead name data e).forest = (p.forest.plant e).2 := rfl
  have used (other : String) : (p.withRead name data e).manifest? other = p.manifest? other := by
    simp only [manifest?,Package.withRead,types_touch,manifests_touch,registered]
  obtain ⟨coherent,drafts,manifests⟩ := arranged.plant name e _ _ forest trees used
  have unfollowed : (p.outline.manifests name).map (fun _ => false) =
      p.outline.manifests name := by
    simp only [outline,unread,Option.map_map]
    rfl
  refine ⟨coherent,?_,(trees name).trans (if_pos rfl)⟩
  have parts : (p.withRead name data e).parts = p.parts := by
    simp only [Package.withRead,registered]
    rfl
  apply Outline.ext
  · exact parts
  · simp only [Package.withRead,outline,registered]
    rfl
  · exact drafts
  · simp only [Package.withRead,outline,registered]
    rfl
  · funext other
    rw [manifests,unfollowed]
    split
    · next same => rw [same]; rfl
    · rfl
  · simp only [Package.withRead,outline,registered]
    rfl

theorem sketched_root? (coherent : p.Coherent) (name : String) :
    Sketched (Packaging.root? name) (Outlining.root? name) p (Rooted name) := by
  cases known : p.trees.lookup name with
  | some t =>
    have drawn : p.outline.drafts name =
        some ⟨p.forest.element t.root,t.tag,t.defaultSpace⟩ := by simp [outline,known]
    unfold Packaging.root? Outlining.root?
    apply Sketched.of_look
    rw [known,drawn]
    exact ⟨rfl,coherent.touch name,rfl,t,known,rfl⟩
  | none =>
    have undrawn : p.outline.drafts name = none := by simp [outline,known]
    have same : p.outline.parts.lookup name = p.part? name := rfl
    cases held : p.part? name with
    | none =>
      unfold Packaging.root? Outlining.root?
      apply Sketched.of_look
      rw [known,undrawn]
      apply Sketched.of_look
      rw [same,held]
      exact Sketched.of_pure coherent rfl
    | some data =>
      cases reading : (readBytes data).root with
      | error problem =>
        obtain ⟨journal,registered⟩ := p.registerAll_eq (readBytes data).declared
        have ran : Outlining.root? name p.outline = .error ()
            { p.outline with prefixes := p.prefixes.enter (readBytes data).declared } := by
          simp only [Outlining.root?_run,undrawn,same,held,reading]
          rfl
        unfold Sketched
        rw [root?_of_misread known held reading,ran,registered]
        exact ⟨rfl,coherent.of_same rfl rfl rfl rfl⟩
      | ok e =>
        obtain ⟨coherent',outline_eq,known'⟩ := coherent.withRead known data e
        have ran : Outlining.root? name p.outline = .ok true (p.withRead name data e).outline := by
          rw [outline_eq]
          simp only [Outlining.root?_run,undrawn,same,held,reading]
          rfl
        unfold Sketched
        rw [root?_of_read known held reading,ran]
        exact ⟨rfl,coherent',rfl,_,known',rfl⟩

/-- A root is that of the tree of a part. -/
def Rooting (name : String) (root : NodeId) (q : Package) : Prop :=
  ∃ t, q.trees.lookup name = some t ∧ t.root = root

theorem sketched_newManifest (coherent : p.Coherent) (name space stem : String) :
    Sketched (Packaging.newManifest name space stem) (Outlining.newManifest name space stem) p
      fun _ _ _ => True := by
  obtain ⟨owner,level,arranged⟩ := coherent
  let e : Element := .mk (.within space stem) [] none [] none
  let q : Package := ({ p with forest := (p.forest.plant e).2 } : Package).setTree name
    (p.forest.plant e).1 space
  have trees (other : String) : q.trees.lookup other =
      if other = name then some ⟨(p.forest.plant e).1,[],space⟩ else p.trees.lookup other :=
    lookup_trees_setTree { p with forest := (p.forest.plant e).2 } name other _ space
  obtain ⟨coherent',drafts,manifests⟩ :=
    arranged.plant name e [] space (q := q) rfl trees fun _ => rfl
  refine Sketched.of_ran (q := q) rfl ?_ coherent' trivial
  exact Outline.ext rfl rfl drafts rfl (funext manifests) rfl

theorem Amended.following {name : String} {root : NodeId} {change : Element → Element}
    {q : Package} (amended : Amended p name root change q) (rooting : Rooting name root p) :
    q.outline = p.outline.amend name change ∧ Rooting name root q := by
  constructor
  · rw [amended.outline,if_pos (following_iff.mpr rooting)]
  · rw [Rooting,amended.trees]
    exact rooting

/-- A manifest in use is changed. -/
theorem Amended.change {name : String} {root : NodeId} {change : Element → Element}
    {q : Package} (amended : Amended p name root change q) (used : p.manifest? name = some root) :
    q.outline = p.outline.change name change ∧ q.manifest? name = some root := by
  constructor
  · have same : p.outline.manifests name =
        some ((p.trees.lookup name).any (·.root == root)) := by simp [Package.outline,used]
    rw [amended.outline,Outline.change,same]
    simp only [Option.some.injEq]
  · rw [amended.manifest,used]

section
variable {name : String} {root : NodeId}

theorem Rooting.seated (rooting : Rooting name root p) : p.Seated name root :=
  Or.inl rooting

theorem sketched_amend_ensureDefault (coherent : p.Coherent) (rooting : Rooting name root p)
    (extension type : String) : Sketched (Packaging.ensureDefault root extension type)
      (modify (·.amend name (·.ensureDefault extension type))) p
        fun _ _ q => Rooting name root q := by
  obtain ⟨new,q,ran,amended,_⟩ :=
    coherent.amended_ensureDefault rooting.seated extension type
  obtain ⟨outline_eq,rooting'⟩ := amended.following rooting
  exact Sketched.of_ran ran outline_eq amended.coherent rooting'

theorem sketched_amend_ensureOverride (coherent : p.Coherent) (rooting : Rooting name root p)
    (part type : String) : Sketched (Packaging.ensureOverride root part type)
      (modify (·.amend name (·.ensureOverride part type))) p
        fun _ _ q => Rooting name root q := by
  have amended := coherent.amended_ensureOverride rooting.seated part type
  obtain ⟨outline_eq,rooting'⟩ := amended.following rooting
  exact Sketched.of_ran rfl outline_eq amended.coherent rooting'

end

/-- The tree of a part becomes a manifest in use. -/
theorem Coherent.use (coherent : p.Coherent) {name : String} {root : NodeId} {q : Package}
    (rooting : Rooting name root p) (forest : q.forest = p.forest) (trees : q.trees = p.trees)
    (used : ∀ other, q.manifest? other = if other = name then some root else p.manifest? other) :
    q.Coherent ∧ q.outline.drafts = p.outline.drafts ∧
      q.outline.manifests = (p.outline.use name).manifests := by
  obtain ⟨owner,level,arranged⟩ := coherent
  refine ⟨⟨owner,level,forest ▸ arranged.sorted,?_,?_⟩,?_,?_⟩
  · rw [forest,trees]
    exact arranged.tree
  · intro other root' used'
    rw [used] at used'
    rw [forest]
    split at used'
    · next same =>
      obtain rfl := Option.some.inj used'
      exact same ▸ arranged.seat rooting.seated
    · exact arranged.manifest other root' used'
  · simp only [outline,forest,trees]
  · funext other
    simp only [outline,Outline.use,used,trees]
    split
    · next same =>
      subst same
      simp [following_iff.mpr rooting]
    · rfl

/-- What finding a manifest ends with: its root is in use. -/
def Used (name : String) (root : NodeId) (_ : Unit) (q : Package) : Prop :=
  q.manifest? name = some root

theorem sketched_contentTypes (coherent : p.Coherent) :
    Sketched Packaging.contentTypes Outlining.contentTypes p (Used typesPart) := by
  unfold Packaging.contentTypes Outlining.contentTypes
  apply Sketched.of_look
  have same : p.outline.manifests typesPart = p.types.map fun root =>
      (p.trees.lookup typesPart).any (·.root == root) := by simp [outline,manifest?]
  rw [same]
  cases used : p.types with
  | some root => exact Sketched.of_pure coherent (by simp [Used,manifest?,used])
  | none =>
    simp only [Option.map_none]
    apply Sketched.of_look
    -- whether the manifest was made or not, its tree is looked for and put to use
    have last (q : Package) (coherent : q.Coherent) : Sketched
        (do
          match ← Packaging.root? typesPart with
          | some root =>
            modify fun p => { p with types := some root }
            return root
          | none => throw (.breakdown .operation))
        (do if ← Outlining.root? typesPart then modify (·.use typesPart) else throw ())
        q (Used typesPart) := by
      apply Sketched.of_bind (sketched_root? coherent typesPart)
      intro found known q' coherent' rooted
      cases found with
      | none =>
        obtain rfl : known = false := rooted
        exact Sketched.of_throw coherent'
      | some root =>
        obtain ⟨rfl,rooting⟩ := rooted
        obtain ⟨coherent'',drafts,manifests⟩ :=
          coherent'.use (q := { q' with types := some root }) rooting rfl rfl (by
            intro other
            by_cases same : other = typesPart <;> simp [manifest?,same])
        have outline_eq : ({ q' with types := some root } : Package).outline =
            q'.outline.use typesPart := Outline.ext rfl rfl drafts rfl manifests rfl
        exact ⟨outline_eq.symm,coherent'',by simp [Used,manifest?]⟩
    have held : p.outline.parts.any (·.1 == typesPart) = p.hasPart typesPart := rfl
    rw [held]
    split
    · apply Sketched.of_log
      apply Sketched.of_bind (sketched_newManifest (coherent.log _ _) _ _ _)
      intro _ _ q coherent _
      apply Sketched.of_bind (sketched_root? coherent typesPart)
      intro found known q coherent rooted
      cases found with
      | none =>
        obtain rfl : known = false := rooted
        exact last q coherent
      | some root =>
        obtain ⟨rfl,rooting⟩ := rooted
        apply Sketched.of_bind (sketched_amend_ensureDefault coherent rooting _ _)
        intro _ _ q coherent rooting
        apply Sketched.of_bind (sketched_amend_ensureDefault coherent rooting _ _)
        intro _ _ q coherent rooting
        apply Sketched.of_bind (sketched_amend_ensureOverride coherent rooting _ _)
        intro _ _ q coherent rooting
        exact last q coherent
    · exact last p coherent

/-- A change of a manifest in use. -/
theorem sketched_change {name : String} {root : NodeId} {change : Element → Element}
    {step : Packaging α} {a : α} {q : Package} {post : α → Unit → Package → Prop}
    (ran : step p = .ok a q) (amended : Amended p name root change q)
    (used : p.manifest? name = some root) (holds : post a () q) :
    Sketched step (modify (·.change name change)) p post :=
  Sketched.of_ran ran (amended.change used).1 amended.coherent holds

theorem sketched_relationshipsOf (coherent : p.Coherent) (part : String) :
    Sketched (Packaging.relationshipsOf part) (Outlining.relationshipsOf part) p
      (Used (Path.relationships part)) := by
  unfold Packaging.relationshipsOf Outlining.relationshipsOf
  apply Sketched.of_look
  have different := relationships_ne_typesPart part
  have same : p.outline.manifests (Path.relationships part) =
      (p.manifests.lookup (Path.relationships part)).map fun root =>
        (p.trees.lookup (Path.relationships part)).any (·.root == root) := by
    simp [outline,manifest?,different]
  simp only [same]
  cases used : p.manifests.lookup (Path.relationships part) with
  | some root => exact Sketched.of_pure coherent (by simp [Used,manifest?,different,used])
  | none =>
    simp only [Option.map_none]
    apply Sketched.of_look
    have last (q : Package) (coherent : q.Coherent) : Sketched
        (do
          match ← Packaging.root? (Path.relationships part) with
          | some root =>
            modify fun p =>
              { p with manifests := store p.manifests (Path.relationships part) root }
            return root
          | none => throw (.breakdown .operation))
        (do
          if ← Outlining.root? (Path.relationships part) then
            modify (·.use (Path.relationships part))
          else throw ())
        q (Used (Path.relationships part)) := by
      apply Sketched.of_bind (sketched_root? coherent _)
      intro found known q' coherent' rooted
      cases found with
      | none =>
        obtain rfl : known = false := rooted
        exact Sketched.of_throw coherent'
      | some root =>
        obtain ⟨rfl,rooting⟩ := rooted
        let q'' : Package :=
          { q' with manifests := store q'.manifests (Path.relationships part) root }
        have used (other : String) : q''.manifest? other =
            if other = Path.relationships part then some root else q'.manifest? other := by
          by_cases types : other = typesPart
          · simp [manifest?,q'',types,Ne.symm different]
          · simp [manifest?,q'',types,lookup_store]
        obtain ⟨coherent'',drafts,manifests⟩ := coherent'.use (q := q'') rooting rfl rfl used
        have outline_eq : q''.outline = q'.outline.use (Path.relationships part) :=
          Outline.ext rfl rfl drafts rfl manifests rfl
        exact ⟨outline_eq.symm,coherent'',(used _).trans (if_pos rfl)⟩
    have held : p.outline.parts.any (·.1 == Path.relationships part) =
      p.hasPart (Path.relationships part) := rfl
    rw [held]
    split
    · apply Sketched.of_log
      apply Sketched.of_bind (sketched_newManifest (coherent.log _ _) _ _ _)
      intro _ _ q coherent _
      apply Sketched.of_bind (sketched_contentTypes coherent)
      intro root _ q coherent used
      obtain ⟨new,q',ran,amended,_⟩ := coherent.amended_ensureDefault (Or.inr used) "rels"
        Packaging.relationshipsType
      have sketched : Sketched (Packaging.ensureDefault root "rels" Packaging.relationshipsType)
          (modify (·.change typesPart (·.ensureDefault "rels" Packaging.relationshipsType))) q
            fun _ _ _ => True := sketched_change ran amended used trivial
      apply Sketched.of_bind sketched
      intro _ _ q coherent _
      exact last q coherent
    · exact last p coherent

theorem Coherent.write (coherent : p.Coherent) (name : String) (data : ByteArray) :
    (p.write name data).Coherent ∧ (p.write name data).outline = p.outline.write name data := by
  obtain ⟨owner,level,arranged⟩ := coherent
  have trees (other : String) := p.lookup_trees_write name other data
  constructor
  · refine ⟨owner,level,arranged.sorted,?_,arranged.manifest⟩
    intro other t known
    rw [trees] at known
    split at known
    · simp at known
    · exact arranged.tree other t known
  · refine Outline.ext rfl rfl (funext fun other => ?_) rfl (funext fun other => ?_) rfl
    · simp only [outline,Outline.write,trees]
      split <;> rfl
    · have used : (p.write name data).manifest? other = p.manifest? other := rfl
      simp only [outline,Outline.write,used,trees]
      split
      · next same =>
        subst same
        rw [Option.map_map]
        rfl
      · rfl

theorem Coherent.flush (coherent : p.Coherent) :
    p.flush.Coherent ∧ p.flush.outline = p.outline.flush := by
  refine ⟨coherent.of_same rfl rfl rfl rfl,Outline.ext ?_ rfl rfl rfl rfl rfl⟩
  simp only [outline,Package.flush,Outline.flush]
  congr 1
  funext parts name
  cases p.trees.lookup name <;> rfl

/-- What an operation does to a package is what it does to the outline. -/
theorem Coherent.after (coherent : p.Coherent) (o : Operation) :
    (p.after o).Coherent ∧ (p.after o).outline = p.outline.after o := by
  have follows (sketched : Sketched o.perform o.sketch p fun _ _ _ => True) :
      (p.after o).Coherent ∧ (p.after o).outline = p.outline.after o := by
    unfold Sketched at sketched
    unfold Package.after Outline.after
    cases ran : o.perform p <;> cases ran' : o.sketch p.outline <;>
      simp only [ran,ran'] at sketched
    · exact ⟨sketched.2.1,sketched.1.symm⟩
    · exact ⟨sketched.2,sketched.1.symm⟩
  cases o with
  | relate part key kind target =>
    apply follows
    apply Sketched.of_bind (sketched_relationshipsOf coherent part)
    intro root _ q coherent used
    exact sketched_change rfl (coherent.amended_relate (Or.inr used) key kind target) used trivial
  | ensureDefault extension type =>
    apply follows
    apply Sketched.of_bind (sketched_contentTypes coherent)
    intro root _ q coherent used
    obtain ⟨new,q',ran,amended,_⟩ := coherent.amended_ensureDefault (Or.inr used) extension type
    have ran' : (Packaging.ensureDefault root extension type >>= fun new =>
        pure (if new then some (typesPart,Entry.default extension type) else none)) q =
          .ok (if new then some (typesPart,Entry.default extension type) else none) q' := by
      simp only [bind,EStateM.bind,ran]
      rfl
    exact sketched_change ran' amended used trivial
  | ensureOverride part type =>
    apply follows
    apply Sketched.of_bind (sketched_contentTypes coherent)
    intro root _ q coherent used
    exact sketched_change rfl (coherent.amended_ensureOverride (Or.inr used) part type) used
      trivial
  | edit name change =>
    apply follows
    apply Sketched.of_bind (sketched_root? coherent name)
    intro found known q coherent rooted
    cases found with
    | none =>
      obtain rfl : known = false := rooted
      exact Sketched.of_pure coherent trivial
    | some root =>
      obtain ⟨rfl,rooting⟩ := rooted
      have amended := coherent.amended_rewrite (Rooting.seated rooting) change
      exact Sketched.of_ran rfl (amended.following rooting).1 amended.coherent trivial
  | write name data => exact coherent.write name data
  | flush => exact coherent.flush
  | save =>
    have saved : p.after .save = p.flush := by
      simp only [Package.after,Operation.perform,Packaging.save,bind_assoc,run_modify_bind,
        run_get_bind]
      cases p.flush.entries <;> rfl
    rw [saved]
    exact coherent.flush

theorem Coherent.run (coherent : p.Coherent) (os : List Operation) :
    (p.run os).Coherent ∧ (p.run os).outline = p.outline.run os := by
  induction os generalizing p with
  | nil => exact ⟨coherent,rfl⟩
  | cons o os ih =>
    obtain ⟨coherent',outline_eq⟩ := coherent.after o
    rw [run_cons,Outline.run_cons,← outline_eq]
    exact ih coherent'

end Package
end MailMerge
