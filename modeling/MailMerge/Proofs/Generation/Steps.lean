import MailMerge.Proofs.Generation.Deeds
import MailMerge.Proofs.Generation.Manifests
import MailMerge.Proofs.Tree.Fates
import MailMerge.Proofs.Tree.Rework

/-! The elementary steps of a generation: messages, outcomes, edits of the tree of the part at work
and changes through its index.
-/
namespace MailMerge
open Xml Docx Forest Package Relation Generation

/-- Work in a part: the state is sound and the part is one that is filled, whose tree is known. -/
structure World.Placed (w : World) : Prop where
  sound : w.Sound
  direct : IsDirect w.session.part
  held : ∃ t, w.package.trees.lookup w.session.part = some t

/-- Work through an index that is that of the part, with new elements from a bound on. -/
structure World.Ready (w : World) (base : Nat) : Prop extends w.Placed where
  home : w.At
  based : base ≤ w.package.forest.nodes.size

/-- An element belongs to the part at work. -/
def World.Owned (w : World) (id : NodeId) : Prop :=
  w.grove.Within w.session.part id

/-- A paragraph of the part at work. -/
structure World.Paragraph (w : World) (id : NodeId) : Prop where
  owned : w.Owned id
  kind : w.package.forest.name id = paragraphName

variable {setup : Setup} {scope : Scope} {w w' : World}

theorem World.Placed.moves (placed : w.Placed) (moves : Moves setup scope w w') : w'.Placed where
  sound := moves.legs.sound placed.sound
  direct := moves.part_eq ▸ placed.direct
  held := placed.held.imp fun _ known => moves.part_eq ▸ moves.legs.tree placed.sound known

theorem World.Ready.moves {base : Nat} (ready : w.Ready base) (moves : Moves setup scope w w') :
    w'.Ready base where
  toPlaced := ready.toPlaced.moves moves
  home := moves.at ready.home
  based := Nat.le_trans ready.based moves.legs.later.size_le

theorem World.Ready.fewer {base base' : Nat} (ready : w.Ready base) (le : base' ≤ base) :
    w.Ready base' :=
  ⟨ready.toPlaced,ready.home,Nat.le_trans le ready.based⟩

theorem World.Owned.moves {id : NodeId} (owned : w.Owned id) (moves : Moves setup scope w w') :
    w'.Owned id := by
  unfold World.Owned
  rw [moves.part_eq]
  exact moves.legs.later.within owned

theorem World.Owned.forall_moves {ids : List NodeId} (owned : ∀ id ∈ ids, w.Owned id)
    (moves : Moves setup scope w w') : ∀ id ∈ ids, w'.Owned id :=
  fun id member => (owned id member).moves moves

theorem World.Owned.name_eq {id : NodeId} (owned : w.Owned id) (moves : Moves setup scope w w') :
    w'.package.forest.name id = w.package.forest.name id :=
  moves.legs.later.name_eq id owned.1

theorem World.Paragraph.moves {id : NodeId} (paragraph : w.Paragraph id)
    (moves : Moves setup scope w w') : w'.Paragraph id :=
  ⟨paragraph.owned.moves moves,(paragraph.owned.name_eq moves).trans paragraph.kind⟩

/-- A step of work on the tree at work is a move, and done beside embedding. -/
theorem stride_work (placed : w.Placed) {v : Plot}
    (work : Plot.Work setup.settings w.session.part scope w.plot v) : Stride setup scope w (w.withPlot v) :=
  .of_beside (Move.work placed.direct work) (beside_work placed.sound placed.direct work)

theorem strides_of_works (placed : w.Placed) {v : Plot}
    (steps : Plot.Works setup.settings w.session.part scope w.plot v) :
    ReflTransGen (Stride setup scope) w (w.withPlot v) := by
  induction steps with
  | refl => exact ReflTransGen.refl
  | @tail v v' _ step ih =>
    exact ih.tail (stride_work (placed.moves (Tracked.runs ih)) step)

theorem tracks_log (level : Level) (message : String) :
    Ends (Tracked Serve setup) setup (log level message) w fun _ w' =>
      w'.package = w.package.log level message :=
  (ends_packaged_log level message).tracked (ReflTransGen.single (.beside (.of_same rfl rfl rfl)))

theorem ends_log (level : Level) (message : String) :
    Ends (Stride setup scope) setup (log level message) w fun _ w' =>
      w'.package = w.package.log level message :=
  (tracks_log level message).widen (Tracked.mono (serve_le_move setup scope))

theorem tracks_root? (sound : w.Sound) {name : String} (markup : IsMarkup name) :
    Ends (Tracked Serve setup) setup (onPackage (Packaging.root? name)) w fun found w' =>
      (∀ root, found = some root → w'.Knows name root) ∧
        (found = none → w.package.hasPart name = false) := by
  have providing : Providing (fun _ => False) (fun _ => True) (Packaging.root? name) w.package _ :=
    providing_root? sound.coherent name
  exact (ends_root? markup).tracked (Embed.deeds_onPackage providing fun _ => False.elim)

theorem tracks_contentTypes (sound : w.Sound) :
    Ends (Tracked Serve setup) setup (onPackage Packaging.contentTypes) w fun root w' => w'.Knows typesPart root := by
  have providing : Providing (· = typesPart) (fun _ => True) Packaging.contentTypes w.package _ :=
    providing_contentTypes sound.coherent rfl trivial
  exact (ends_contentTypes sound).tracked (Embed.deeds_onPackage providing fun _ => Or.inl)

/-- Recording an outcome serves the journal. -/
theorem ends_recording (kind : Directive.Kind) (key : Value) (status : Status) (reason : String) :
    Ends (Tracked Serve setup) setup (record kind key status reason) w fun _ _ => True := by
  unfold record
  apply Ends.of_look
  have note : Tracked Serve setup w _ := .of_beside (Serve.note w.package.journal
    (w.session.outcomes ++ [⟨kind,key,status,reason,w.session.part⟩]) w.session.watermarks) (.of_same rfl rfl rfl)
  apply Ends.of_bind (Ends.of_modify (fun _ _ => True) _ rfl note trivial)
  intro _ w' _ _
  split
  · exact (tracks_log _ _).mono fun _ _ _ _ => trivial
  · split
    · exact (tracks_log _ _).mono fun _ _ _ _ => trivial
    · exact Ends.of_pure trivial
  · exact Ends.of_pure trivial

theorem ends_record (kind : Directive.Kind) (key : Value) (status : Status) (reason : String) :
    Ends (Stride setup scope) setup (record kind key status reason) w fun _ _ => True :=
  (ends_recording kind key status reason).widen (Tracked.mono (serve_le_move setup scope))

/-- A new element of the part at work, planted for an element. -/
structure World.Planted (w w' : World) (id : NodeId) (e : Element) : Prop where
  owned : w'.Owned id
  deeper : ∀ n, w.Owned n → w'.grove.level n < w'.grove.level id
  loose : w'.package.forest.Loose id
  last : id + 1 = w'.package.forest.nodes.size
  name_eq : w'.package.forest.name id = e.name
  novel : ∀ base, w.Ready base → Plot.Novel w'.plot w'.session.part base id

theorem planted_plant (placed : w.Placed) (e : Element)
    (plot_eq : w'.plot = ⟨w.grove.plant w.session.part e,w.session.index⟩)
    (part_eq : w'.session.part = w.session.part) :
    w.Planted w' (w.package.forest.plant e).1 e := by
  obtain ⟨within,deeper⟩ := Grove.within_plant w.grove w.session.part e
  have grove_eq : w'.grove = w.grove.plant w.session.part e := congrArg Plot.grove plot_eq
  have forest_eq : w'.package.forest = (w.package.forest.plant e).2 :=
    congrArg Grove.forest grove_eq
  refine ⟨?_,?_,?_,?_,?_,?_⟩
  · rw [World.Owned,grove_eq,part_eq]
    exact within
  · intro n owned
    rw [grove_eq]
    exact deeper n owned.1 placed.sound.sorted
  · rw [forest_eq]
    exact (branching_plant placed.sound.branching e).2
  · rw [forest_eq]
    exact (grown_plant w.package.forest e).2.2
  · rw [forest_eq]
    exact (copies_plant w.package.forest e).1
  · intro base ready
    rw [plot_eq,part_eq]
    exact Plot.novel_plant placed.sound.orderly ready.home ready.based e

theorem ends_plant (placed : w.Placed) {e : Element} (built : Built setup.settings e)
    (tableless : (∀ q, ¬scope.may q .becameTable) → Lacks tableName e) :
    Ends (Stride setup scope) setup (plant e) w fun id w' => w.Planted w' id e := by
  have stride : Stride setup scope w _ := stride_work placed (Plot.work_plant built tableless)
  exact ⟨_,rfl,ReflTransGen.single stride,planted_plant placed e rfl rfl⟩

/-- A paragraph shows what is embedded and not shown yet. -/
structure World.Awaits (w : World) (s : Settings) (shown : Element) : Prop where
  pending : ∃ e, w.pending = some e ∧ e.part = w.session.part ∧ e.Linked w.package ∧
    e.Typed s w.package ∧ shownBy shown = [(e.shape,e.key)]
  numbered : numbersBy shown = (numeral? (toString w.number)).toList
  kind : shown.name = paragraphName
  closed : Closed shown
  tableless : Lacks tableName shown

/-- The element that shows what was embedded is planted. -/
theorem ends_show (placed : w.Placed) {shown : Element} (awaits : w.Awaits setup.settings shown) :
    Ends (Stride setup scope) setup (plant shown) w fun id w' => w.Planted w' id shown := by
  obtain ⟨e,pending,here,linked,typed,one⟩ := awaits.pending
  obtain ⟨id,new,inside,shows,blank⟩ := w.package.forest.shown?_plant one
  have only (other : Nat) (new' : w.package.forest.nodes.size ≤ other) :
      (w.package.forest.plant shown).2.shown? other =
        if other = id then some (e.shape,e.key) else none := by
    split
    · next same => rw [same,shows]
    · next different => exact blank other new' different
  have step : Move setup scope w _ := Move.show placed.direct pending here linked typed new inside
    only awaits.numbered awaits.closed awaits.tableless
  have stride : Stride setup scope w _ := .of_beside step (beside_plant placed.sound (Leg.move step) rfl)
  exact ⟨_,rfl,ReflTransGen.single stride,planted_plant placed shown rfl rfl⟩

/-- The tree is reworked without any paragraph leaving its place. -/
theorem ends_edit (placed : w.Placed) (change : Forest → Forest)
    (reaches : w.grove.Reaches setup.settings w.session.part scope w.session.index
      (change w.package.forest)) :
    Ends (Stride setup scope) setup (edit change) w fun _ _ => True := by
  obtain ⟨g,forest_eq,steps⟩ := reaches
  refine ⟨w.withPlot ⟨g,w.session.index⟩,?_,strides_of_works placed steps,trivial⟩
  simp only [World.withPlot,World.withGrove,forest_eq]
  rfl

theorem ends_isAttached (id : NodeId) :
    Ends (Stride setup scope) setup (isAttached id) w fun found w' =>
      w = w' ∧ found = w.session.index.isAttached id :=
  ⟨w,rfl,ReflTransGen.refl,rfl,rfl⟩

/-- A step that is one move of work. -/
theorem Ends.of_work {α : Type} {step : Generation α} {a : α} {v : Plot} (placed : w.Placed)
    (ran : step setup w.session = .ok a (w.withPlot v).session)
    (work : Plot.Work setup.settings w.session.part scope w.plot v) :
    Ends (Stride setup scope) setup step w fun _ _ => True := by
  rw [Ends,ran]
  exact ⟨_,rfl,ReflTransGen.single (stride_work placed work),trivial⟩

/-- A step that changes nothing. -/
theorem Ends.of_still {α : Type} {r : World → World → Prop} {step : Generation α} {a : α}
    (ran : step setup w.session = .ok a w.session) : Ends r setup step w fun _ _ => True := by
  rw [Ends,ran]
  exact ⟨w,rfl,ReflTransGen.refl,trivial⟩

/-- A step that breaks down. -/
theorem Ends.of_breakdown {α : Type} {r : World → World → Prop} {step : Generation α}
    {fault : Fault} {s : Session} (foreign : fault.isOwn = false)
    (ran : step setup w.session = .error fault s) {post : α → World → Prop} :
    Ends r setup step w post := by
  rw [Ends,ran]
  intro own
  rw [foreign] at own
  exact Bool.noConfusion own

end MailMerge
