import MailMerge.Proofs.Generation.Kept

/-! What a generation owes to its template and to what it has embedded. No part of the template is
lost and its manifests only grow; whatever was embedded stays in a part of its own; and an element
that shows something either was in the template or is recorded with what it shows.
-/
namespace MailMerge
open Xml Docx Package Relation

variable {setup : Setup} {w w' : World}

/-- The contents of a part that was not read stay as they are. -/
theorem Leg.part?_eq (step : Leg setup w w') {name : String} {data : ByteArray}
    (held : w.package.part? name = some data) (unread : w.package.trees.lookup name = none) :
    w'.package.part? name = some data := by
  have present := hasPart_iff.mpr ⟨data,held⟩
  cases step with
  | edit | mark | goTo | index => exact held
  | flush => exact (part?_flush_of_unread w.package unread).trans held
  | move step =>
    cases step with
    | work | «show» => exact held
    | store e counts embedded new genuine =>
      have different : name ≠ e.file := by
        rintro rfl
        simp [new] at present
      exact (part?_write w.package e.file name e.data).trans (by rw [if_neg different,held])
    | serve step =>
      cases step with
      | note | touch | useTypes | useLinks | relate | declare | override | retype => exact held
      | @read other contents e =>
        obtain ⟨journal,same⟩ := w.package.registerAll_eq (readBytes contents).declared
        rw [package_withGrove]
        simp only [same]
        exact held
      | @create other space stem markup missing =>
        have different : name ≠ other := by
          rintro rfl
          simp [missing] at present
        exact (part?_setTree w.package other name w.package.forest.nodes.size space).trans
          (by rw [if_neg different,held])

/-- Moves of a generation lose no part. -/
theorem Leg.hasPart (sound : w.Sound) (step : Leg setup w w') {name : String}
    (held : w.package.hasPart name = true) : w'.package.hasPart name = true := by
  cases known : w.package.trees.lookup name with
  | none =>
    obtain ⟨data,held⟩ := hasPart_iff.mp held
    exact hasPart_iff.mpr ⟨data,step.part?_eq held known⟩
  | some t => exact ((sound.leg step).tree name t (sound.tree_leg step known)).2.2

theorem Legs.hasPart (steps : Legs setup w w') (sound : w.Sound) {name : String}
    (held : w.package.hasPart name = true) : w'.package.hasPart name = true := by
  induction steps with
  | refl => exact held
  | tail steps step ih => exact step.hasPart (Legs.sound steps sound) ih

/-- A part that was never read has its contents. -/
theorem Legs.part?_eq (steps : Legs setup w w') (sound : w.Sound) {name : String} {data : ByteArray}
    (held : w.package.part? name = some data) (unread : w'.package.trees.lookup name = none) :
    w'.package.part? name = some data := by
  induction steps with
  | refl => exact held
  | @tail mid w' steps step ih =>
    have unread_mid : mid.package.trees.lookup name = none := by
      cases known : mid.package.trees.lookup name with
      | none => rfl
      | some t =>
        rw [(Legs.sound steps sound).tree_leg step known] at unread
        simp at unread
    exact step.part?_eq (ih unread_mid) unread_mid

/-- A part that was not read gets the tree of its contents. -/
theorem Leg.tree_of_unread (step : Leg setup w w') {name : String} {data : ByteArray}
    {t : PartTree} (held : w.package.part? name = some data)
    (unread : w.package.trees.lookup name = none) (known : w'.package.trees.lookup name = some t) :
    ∃ e, (readBytes data).root = .ok e ∧ t.root = (w.package.forest.plant e).1 ∧
      w'.package.forest = (w.package.forest.plant e).2 := by
  have same_trees (same : w'.package.trees = w.package.trees) : False := by
    rw [same,unread] at known
    simp at known
  cases step with
  | edit | mark | goTo | index | flush => exact (same_trees rfl).elim
  | move step =>
    cases step with
    | work | «show» => exact (same_trees rfl).elim
    | store e counts embedded new genuine =>
      have known' := (lookup_trees_write w.package e.file name e.data).symm.trans known
      rw [unread,ite_self] at known'
      simp at known'
    | serve step =>
      cases step with
      | note | touch | useTypes | useLinks | relate | declare | override | retype =>
        exact (same_trees rfl).elim
      | @read other contents e markup unread' held' reading =>
        have known' := (lookup_store w.package.trees other name _).symm.trans known
        split at known'
        · next here =>
          subst here
          obtain rfl := Option.some.inj (held.symm.trans held')
          exact ⟨e,reading,by rw [← Option.some.inj known']; rfl,rfl⟩
        · simp [unread] at known'
      | @create other space stem markup missing =>
        have known' := (lookup_trees_setTree w.package other name _ space).symm.trans known
        split at known'
        · next here =>
          subst here
          have present := hasPart_iff.mpr ⟨data,held⟩
          simp [missing] at present
        · simp [unread] at known'

/-- The relationships of every part are kept; new ones come after them. -/
theorem Leg.links? (sound : w.Sound) (step : Leg setup w w') {part : String}
    {links : List Attributes} (former : w.package.links? part = some links) :
    ∃ new, w'.package.links? part = some (links ++ new) := by
  have filled : ¬ IsDirect (Path.relationships part) := fun direct =>
    direct.ne_relationships part rfl
  cases known : w.package.trees.lookup (Path.relationships part) with
  | some t =>
    have known' := sound.tree_leg step known
    simp only [Package.links?,known,Option.some.injEq] at former
    simp only [Package.links?,known',Option.some.injEq]
    rcases step.links sound filled (relationships_ne_typesPart part) known with
      same | ⟨key,kind,target,_,more⟩
    · exact ⟨[],by rw [same,former,List.append_nil]⟩
    · exact ⟨[Forest.link key kind target],by rw [more,former]⟩
  | none =>
    simp only [Package.links?,known] at former
    obtain ⟨data,held,reading⟩ := Option.bind_eq_some_iff.mp former
    refine ⟨[],?_⟩
    rw [List.append_nil]
    cases known' : w'.package.trees.lookup (Path.relationships part) with
    | none =>
      simp only [Package.links?,known',step.part?_eq held known]
      exact reading
    | some t =>
      obtain ⟨e,read,root_eq,forest_eq⟩ := step.tree_of_unread held known known'
      have sorted : w'.package.forest.Sorted w'.owner w'.level := (sound.leg step).sorted
      have element_eq : w'.package.forest.element t.root = e := by
        rw [root_eq]
        apply Forest.element_plant sorted w.package.forest e
        intro id _ _
        rw [forest_eq]
      simp only [read] at reading
      simp only [Package.links?,known',Forest.links,Forest.entries_eq sorted,element_eq]
      exact reading

theorem Legs.links? (steps : Legs setup w w') (sound : w.Sound) {part : String}
    {links : List Attributes} (former : w.package.links? part = some links) :
    ∃ new, w'.package.links? part = some (links ++ new) := by
  induction steps with
  | refl => exact ⟨[],by rw [former,List.append_nil]⟩
  | tail steps step ih =>
    obtain ⟨new,grown⟩ := ih
    obtain ⟨new',grown'⟩ := step.links? (Legs.sound steps sound) grown
    exact ⟨new ++ new',by rw [grown',List.append_assoc]⟩

/-- What shows something was in the part when it was read, or is recorded with what it shows. -/
def World.Accounted (w : World) : Prop :=
  ∀ (id : Nat) (shape : Shape) (key : String), w.package.forest.shown? id = some (shape,key) →
    (∃ t, w.package.trees.lookup (w.owner id) = some t ∧ id ≤ t.root) ∨
      ∃ e, (e,id) ∈ w.made ∧ e.part = w.owner id ∧ e.shape = shape ∧ e.key = key

namespace World.Accounted

/-- Moves that change nothing that is shown. -/
private theorem of_same (accounted : w.Accounted) (later : Grove.Later w.grove w'.grove)
    (trees : ∀ name t, w.package.trees.lookup name = some t →
      w'.package.trees.lookup name = some t)
    (made : w'.made = w.made)
    (same : ∀ id, w'.package.forest.shown? id = w.package.forest.shown? id) : w'.Accounted := by
  intro id shape key shows
  rw [same] at shows
  have old : id < w.grove.forest.nodes.size := by
    by_contra large
    rw [w.package.forest.shown?_of_size_le (Nat.le_of_not_lt large)] at shows
    simp at shows
  have owner_eq : w'.owner id = w.owner id := later.owner_eq id old
  rw [owner_eq,made]
  rcases accounted id shape key shows with ⟨t,known,small⟩ | recorded
  · exact Or.inl ⟨t,trees _ t known,small⟩
  · exact Or.inr recorded

/-- What a part shows when it is read has no number beyond that of its root. -/
private theorem of_read (accounted : w.Accounted) {name : String} {e : Element}
    {t : PartTree} (forest_eq : w'.package.forest = (w.package.forest.plant e).2)
    (owner_eq : w'.owner = Forest.ownedFrom w.package.forest.nodes.size w.owner name)
    (root_eq : t.root = (w.package.forest.plant e).1)
    (trees : ∀ other t, w.package.trees.lookup other = some t →
      w'.package.trees.lookup other = some t)
    (read : w'.package.trees.lookup name = some t) (made : w'.made = w.made) :
    w'.Accounted := by
  intro id shape key shows
  obtain ⟨grown,_,last⟩ := Forest.grown_plant w.package.forest e
  rw [forest_eq] at shows
  rcases Nat.lt_or_ge id w.package.forest.nodes.size with old | new
  · have shows' : w.package.forest.shown? id = some (shape,key) := by
      rw [← shows]
      simp only [Forest.shown?,grown.node_eq id old]
    rw [owner_eq,Forest.ownedFrom_of_lt old,made]
    rcases accounted id shape key shows' with ⟨t,known,small⟩ | recorded
    · exact Or.inl ⟨t,trees _ t known,small⟩
    · exact Or.inr recorded
  · rw [owner_eq,Forest.ownedFrom_of_le new]
    refine Or.inl ⟨t,read,?_⟩
    have bound : id < (w.package.forest.plant e).2.nodes.size := by
      by_contra large
      rw [Forest.shown?_of_size_le _ (Nat.le_of_not_lt large)] at shows
      simp at shows
    rw [root_eq]
    exact Nat.le_of_lt_succ (Nat.lt_of_lt_of_eq bound last.symm)

private theorem serve (accounted : w.Accounted) (sound : w.Sound) (step : Serve w w') :
    w'.Accounted := by
  have later := step.later
  have trees (name : String) (t : PartTree) (known : w.package.trees.lookup name = some t) :
      w'.package.trees.lookup name = some t :=
    sound.tree_leg (move_le_leg default Scope.all _ _ (Move.serve step)) known
  cases step with
  | note | touch | useTypes | useLinks => exact accounted
  | @read name data e markup unread held reading =>
    have read : _ = some (treeOf data (w.package.forest.plant e).1) :=
      (lookup_store w.package.trees name name _).trans (if_pos rfl)
    exact accounted.of_read rfl rfl rfl trees read rfl
  | @create name space stem =>
    have blank : shownBy (.node (.within space stem) [] []) = [] := by simp [Element.node]
    exact accounted.of_same later trees rfl (w.package.forest.shown?_plant_of_blank blank)
  | @relate part t key kind target =>
    have blank : shown? (.within relationshipsSpace "Relationship")
        (Forest.link key kind target) = none := shown?_within _ _ (by decide) (by decide)
    exact accounted.of_same later trees rfl (Grove.shown?_enter (Path.relationships part) blank)
  | @declare t extension type =>
    have blank : shown? (.within typesSpace "Default")
        [(.bare "Extension",extension),(.bare "ContentType",type)] = none :=
      shown?_within _ _ (by decide) (by decide)
    exact accounted.of_same later trees rfl (Grove.shown?_enter typesPart blank)
  | @override t part type =>
    have blank : shown? (.within typesSpace "Override")
        [(.bare "PartName",Forest.rooted part),(.bare "ContentType",type)] = none :=
      shown?_within _ _ (by decide) (by decide)
    exact accounted.of_same later trees rfl (Grove.shown?_enter typesPart blank)
  | @retype t part type changed =>
    apply accounted.of_same later trees rfl
    intro id
    apply w.package.forest.shown?_update changed id
    intro n
    have embed : Name.within relationSpace "embed" ≠ .bare "ContentType" := by decide
    have key : Name.within relationSpace "id" ≠ .bare "ContentType" := by decide
    simp [Docx.shown?,Attributes.get?_set,embed,key]

theorem leg (accounted : w.Accounted) (sound : w.Sound) (step : Leg setup w w') :
    w'.Accounted := by
  have later := step.later
  have trees (name : String) (t : PartTree) (known : w.package.trees.lookup name = some t) :
      w'.package.trees.lookup name = some t := sound.tree_leg step known
  cases step with
  | goTo | index | flush => exact accounted
  | edit direct step => exact accounted.of_same later trees rfl step.shown?_eq
  | mark direct drawn =>
    exact accounted.of_same later trees rfl
      (w.package.forest.shown?_plant_of_blank (shownBy_watermark drawn))
  | move step =>
    cases step with
    | serve step => exact accounted.serve sound step
    | work direct step => exact accounted.of_same later trees rfl step.edits.shown?_eq
    | store => exact accounted.of_same later trees rfl fun _ => rfl
    | @«show» e shown id direct pending pending_here linked typed new inside shows =>
      intro other shape key shown_here
      obtain ⟨grown,_⟩ := Forest.grown_plant w.package.forest shown
      rcases Nat.lt_or_ge other w.package.forest.nodes.size with old | large
      · have former : w.package.forest.shown? other = some (shape,key) := by
          rw [← shown_here]
          exact congrArg (fun n => Docx.shown? n.name n.attributes) (grown.node_eq other old).symm
        have owner_eq : (w.grove.plant w.session.part shown).owner other = w.owner other :=
          Forest.ownedFrom_of_lt old
        rcases accounted other shape key former with ⟨t,known,small⟩ | ⟨e',recorded,home,same⟩
        · exact Or.inl ⟨t,(congrArg (List.lookup · w.package.trees) owner_eq).trans known,small⟩
        · exact Or.inr ⟨e',List.mem_cons_of_mem _ recorded,home.trans owner_eq.symm,same⟩
      · have here := (shows other large).symm.trans shown_here
        split at here
        · next same =>
          subst same
          obtain ⟨rfl,rfl⟩ := Prod.mk.inj (Option.some.inj here)
          refine Or.inr ⟨e,List.mem_cons_self,?_,rfl,rfl⟩
          exact pending_here.trans (Forest.ownedFrom_of_le large).symm
        · simp at here

end World.Accounted

/-- All that was embedded, the one that is not shown yet included. -/
def World.embeddings (w : World) : List Embedding :=
  w.pending.toList ++ w.made.map (·.1)

/-- What was embedded is in a part that the template did not have. -/
structure Embedding.Stored (e : Embedding) (setup : Setup) (template p : Package) : Prop where
  embedded : IsEmbedded e.file
  new : template.hasPart e.file = false
  held : p.part? e.file = some e.data
  genuine : e.Genuine setup

/-- What a generation owes to its template and to what it has embedded. -/
structure World.Ledger (w : World) (setup : Setup) (template : Package) : Prop where
  kept : ∀ name, template.hasPart name = true → w.package.hasPart name = true
  stored : ∀ e ∈ w.embeddings, e.Stored setup template w.package
  distinct : (w.embeddings.map (·.file)).Nodup
  linked : ∀ entry ∈ w.made, entry.1.Linked w.package
  typed : ∀ entry ∈ w.made, entry.1.Typed setup.settings w.package
  accounted : w.Accounted

namespace World.Ledger

variable {template : Package}

/-- Moves that embed nothing. -/
private theorem of_same (ledger : w.Ledger setup template) (sound : w.Sound)
    (step : Leg setup w w') (embeddings : w'.embeddings = w.embeddings)
    (recorded : ∀ entry ∈ w'.made, entry ∈ w.made ∨
      (entry.1.Linked w'.package ∧ entry.1.Typed setup.settings w'.package)) :
    w'.Ledger setup template where
  kept name held := step.hasPart sound (ledger.kept name held)
  stored e member := by
    rw [embeddings] at member
    obtain ⟨embedded,new,held,genuine⟩ := ledger.stored e member
    have unread : w.package.trees.lookup e.file = none := by
      cases known : w.package.trees.lookup e.file with
      | none => rfl
      | some t => exact absurd embedded (sound.tree _ t known).2.1.not_isEmbedded
    exact ⟨embedded,new,step.part?_eq held unread,genuine⟩
  distinct := by
    rw [embeddings]
    exact ledger.distinct
  linked entry member := by
    rcases recorded entry member with former | ⟨linked,_⟩
    · exact (ledger.linked entry former).leg sound step
    · exact linked
  typed entry member := by
    rcases recorded entry member with former | ⟨_,typed⟩
    · have embedded := (ledger.stored entry.1 (List.mem_append_right _
        (List.mem_map_of_mem former))).embedded
      exact (ledger.typed entry former).leg sound embedded step
    · exact typed
  accounted := ledger.accounted.leg sound step

/-- A new embedding gets a part that neither the template nor another embedding has. -/
private theorem store (ledger : w.Ledger setup template) (sound : w.Sound) {e : Embedding}
    {images charts : Nat} {number : Int} (counts : Counts setup.settings w.session images charts number)
    (embedded : IsEmbedded e.file) (new : w.package.hasPart e.file = false) (genuine : e.Genuine setup) :
    World.Ledger { w with
      session := { w.session with
        images := images
        charts := charts
        package := w.session.package.write e.file e.data }
      pending := some e
      number := number } setup template := by
  have step : Leg setup w _ := move_le_leg setup Scope.all _ _
    (Move.store e counts embedded new genuine)
  have stored (e' : Embedding) (member : e' ∈ w.made.map (·.1)) :
      e'.Stored setup template w.package := ledger.stored e' (List.mem_append_right _ member)
  have unnamed : e.file ∉ (w.made.map (·.1)).map (·.file) := by
    intro member
    obtain ⟨e',recorded,same⟩ := List.mem_map.mp member
    have present := hasPart_iff.mpr ⟨_,(stored e' recorded).held⟩
    rw [same,new] at present
    exact Bool.false_ne_true present
  refine ⟨?_,?_,?_,?_,?_,ledger.accounted.leg sound step⟩
  · exact fun name held => step.hasPart sound (ledger.kept name held)
  · intro e' member
    rcases List.mem_cons.mp member with rfl | former
    · refine ⟨embedded,?_,(part?_write _ _ _ _).trans (if_pos rfl),genuine⟩
      by_contra present
      rw [ledger.kept e'.file (by simpa using present)] at new
      exact Bool.false_ne_true new.symm
    · have ⟨embedded',new',held,genuine'⟩ := stored e' former
      refine ⟨embedded',new',(part?_write _ _ _ _).trans ?_,genuine'⟩
      rw [if_neg]
      · exact held
      · intro same
        exact unnamed (same ▸ List.mem_map_of_mem former)
  · have rest := ledger.distinct
    rw [World.embeddings,List.map_append] at rest
    exact List.nodup_cons.mpr ⟨unnamed,(List.nodup_append.mp rest).2.1⟩
  · exact fun entry member => (ledger.linked entry member).leg sound step
  · intro entry member
    have former := stored entry.1 (List.mem_map_of_mem member)
    exact (ledger.typed entry member).leg sound former.embedded step

theorem leg (ledger : w.Ledger setup template) (sound : w.Sound) (step : Leg setup w w') :
    w'.Ledger setup template := by
  have step' := step
  cases step' with
  | edit | mark | goTo | index | flush => exact ledger.of_same sound step rfl fun _ => Or.inl
  | move step' =>
    cases step' with
    | serve step' =>
      have same : w'.embeddings = w.embeddings ∧ w'.made = w.made := by
        cases step' <;> exact ⟨rfl,rfl⟩
      refine ledger.of_same sound step same.1 ?_
      rw [same.2]
      exact fun _ => Or.inl
    | work => exact ledger.of_same sound step rfl fun _ => Or.inl
    | @«show» e shown id direct pending here linked typed =>
      refine ledger.of_same sound step ?_ ?_
      · simp [World.embeddings,pending]
      · intro entry member
        rcases List.mem_cons.mp member with rfl | former
        · have stored := ledger.stored e (by simp [World.embeddings,pending])
          exact Or.inr ⟨linked.leg sound step,typed.leg sound stored.embedded step⟩
        · exact Or.inl former
    | store e counts embedded new genuine => exact ledger.store sound counts embedded new genuine

theorem legs (ledger : w.Ledger setup template) (sound : w.Sound) (steps : Legs setup w w') :
    w'.Ledger setup template := by
  induction steps with
  | refl => exact ledger
  | tail steps step ih => exact ih.leg (Legs.sound steps sound) step

end World.Ledger

end MailMerge
