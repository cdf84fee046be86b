import MailMerge.Proofs.Generation.Coverage
import MailMerge.Proofs.Tree.Endings

/-! How the cells of a document end when its body is filled. Page breaks take the places of paragraphs,
so cells that end with a paragraph go on to do so. In the body a cell may lose the paragraphs at its
end: it gets a new one if no other is left in it, and is stranded if there is one further up. All other
cells, generated ones among them, end with a paragraph.
-/
namespace MailMerge
open Xml Docx Forest Package Relation

variable {setup : Setup} {scope : Scope} {w w' : World}

/-- Where paragraphs are replaced at most, cells go on to end with a paragraph. -/
theorem Moves.endsWithParagraph (moves : Moves setup scope w w') (placed : w.Placed)
    (only : ∀ q fate, scope.may q fate → fate = .replaced) {cell : NodeId}
    (begun : cell < w.package.forest.nodes.size → w.package.forest.EndsWithParagraph cell)
    (within : w'.grove.Within w.session.part cell) (kind : w'.package.forest.name cell = cellName) :
    w'.package.forest.EndsWithParagraph cell := by
  induction moves with
  | refl => exact begun within.1
  | @tail mid w' moves step ih =>
    have placed_mid := placed.moves moves
    have stir := step.stir placed_mid
    rw [Moves.part_eq moves] at stir
    rcases Nat.lt_or_ge cell mid.package.forest.nodes.size with inside | planted
    · have within_mid : mid.grove.Within w.session.part cell :=
        ⟨inside,(stir.later.owner_eq cell inside).symm.trans within.2⟩
      have kind_mid : mid.package.forest.name cell = cellName :=
        (stir.later.name_eq cell inside).symm.trans kind
      exact stir.change.endsWithParagraph (fun q fate may _ => only q fate may)
        placed_mid.sound.branching within_mid kind_mid stir.later (ih within_mid kind_mid)
    · exact stir.closed cell planted within.2 kind

/-- Where only paragraphs of the beginning meet their fates, the children of an old cell come from those
it had, and new cells end with a paragraph. -/
theorem Moves.comes {met : NodeId → Prop}
    (moves : Moves setup ⟨w.package.forest.nodes.size,fun q _ => met q⟩ w w') (placed : w.Placed)
    (small : ∀ q, met q → q < w.package.forest.nodes.size) {cell : NodeId}
    (begun : cell < w.package.forest.nodes.size → w.package.forest.EndsWithParagraph cell)
    (within : w'.grove.Within w.session.part cell) (kind : w'.package.forest.name cell = cellName) :
    (cell < w.package.forest.nodes.size → Comes w'.package.forest.name w.package.forest.nodes.size
      (w.package.forest.children cell) (w'.package.forest.children cell)) ∧
    (w.package.forest.nodes.size ≤ cell → w'.package.forest.EndsWithParagraph cell) := by
  induction moves with
  | refl => exact ⟨fun _ => comes_self (begun within.1),fun new => absurd within.1 (Nat.not_lt.mpr new)⟩
  | @tail mid w' moves step ih =>
    have placed_mid := placed.moves moves
    have remains := Moves.remains moves placed (Plot.remains_self placed.sound.orderly _) small
    have stir := step.stir placed_mid
    rw [Moves.part_eq moves] at stir
    rcases Nat.lt_or_ge cell mid.package.forest.nodes.size with inside | planted
    · have within_mid : mid.grove.Within w.session.part cell :=
        ⟨inside,(stir.later.owner_eq cell inside).symm.trans within.2⟩
      have kind_mid : mid.package.forest.name cell = cellName :=
        (stir.later.name_eq cell inside).symm.trans kind
      obtain ⟨comes,ends⟩ := ih within_mid kind_mid
      constructor
      · intro old
        refine stir.change.comes (fun q _ => small q) remains.based placed_mid.sound.branching
          within_mid kind_mid stir.later ?_ (comes old)
        intro c member
        exact Nat.lt_of_lt_of_le (placed.sound.branching.below cell c member) remains.based
      · intro new
        refine stir.change.endsWithParagraph ?_ placed_mid.sound.branching within_mid kind_mid
          stir.later (ends new)
        intro q fate may member
        exact absurd (remains.fresh cell q within_mid new member) (Nat.not_le.mpr (small q may))
    · refine ⟨fun old => ?_,fun _ => stir.closed cell planted within.2 kind⟩
      exact absurd old (Nat.not_lt.mpr (Nat.le_trans remains.based planted))

namespace Fill

variable {template : Package}

/-- The cells of a tree end with a paragraph. -/
def CellsEnd (f : Forest) (root : NodeId) : Prop :=
  ∀ cell ∈ f.tree root, f.name cell = cellName → f.EndsWithParagraph cell

/-- Page breaks leave the cells of the document closed. -/
theorem Prepared.cellsEnd {before start : World} {root : NodeId}
    (prepared : Prepared setup before start root) (closed : CellsEnd before.package.forest root) :
    CellsEnd start.package.forest root := by
  have remains := prepared.remains
  have sorted := remains.orderly.sorted
  have within : start.grove.Within before.session.part root := remains.later.within prepared.owned
  intro cell inside kind
  refine Moves.endsWithParagraph prepared.moves prepared.ready.toPlaced (fun q fate may => may.1)
    (fun old => ?_) (sorted.within_tree within inside) kind
  have path : before.package.forest.Below root cell :=
    remains.below_old within ((mem_tree_iff sorted).mp inside) old
  exact closed cell ((mem_tree_iff prepared.ready.sound.sorted).mpr path)
    ((remains.later.name_eq cell old).symm.trans kind)

/-- How the cells of a document end when its body has been filled. Where all of them ended with a
paragraph before, one ends otherwise if and only if it has become stranded. -/
theorem body_cells (fresh : template.Fresh) (usual : setup.settings = {}) {o : Options}
    {root id : NodeId} {s₀ s s' : Session}
    (opened : opening o setup { package := template } = .ok root s₀)
    (closed : CellsEnd s₀.package.forest root)
    (ready : prepare root setup s₀ = .ok () s)
    (found : s.package.forest.childNamed? root bodyName = some id)
    (filled : body id setup s = .ok () s') :
    CellsEnd s.package.forest root ∧
    ∀ cell ∈ s'.package.forest.tree root, s'.package.forest.name cell = cellName →
      (¬s'.package.forest.EndsWithParagraph cell ↔
        s.package.forest.Stranded s'.package.forest cell) := by
  obtain ⟨before,start,last,rounds,forest_eq,rfl,rfl,-,run⟩ :=
    exists_run fresh usual opened ready found filled
  have snapshot := run.prepared.cellsEnd (forest_eq ▸ closed)
  refine ⟨snapshot,?_⟩
  intro cell inside kind
  have site := run.site
  have sound := site.ready.sound
  obtain ⟨-,-,moves⟩ := run.fair
  have small : ∀ q ∈ passed rounds, q < start.package.forest.nodes.size := fun q member =>
    (sound.sorted.within_named (site.place_owned ⟨ReflTransGen.refl,Or.inl rfl⟩)
      (run.passed_subset member)).1
  have remains := Moves.remains moves site.ready.toPlaced
    (Plot.remains_self sound.orderly _) small
  have sorted' := remains.orderly.sorted
  have within_root : last.grove.Within start.session.part root := remains.later.within site.owned
  have within := sorted'.within_tree within_root inside
  have children_old (c : NodeId) (member : c ∈ start.package.forest.children cell) :=
    sound.branching.below cell c member
  have same (c : NodeId) (member : c ∈ start.package.forest.children cell) :
      last.package.forest.name c = start.package.forest.name c :=
    remains.later.name_eq c (children_old c member)
  have begun (old : cell < start.package.forest.nodes.size) :
      start.package.forest.EndsWithParagraph cell := by
    have path : start.package.forest.Below root cell :=
      remains.below_old within_root ((mem_tree_iff sorted').mp inside) old
    exact snapshot cell ((mem_tree_iff sound.sorted).mpr path)
      ((remains.later.name_eq cell old).symm.trans kind)
  obtain ⟨comes,new⟩ := Moves.comes moves site.ready.toPlaced small begun within kind
  constructor
  · intro open_end
    rcases Nat.lt_or_ge cell start.package.forest.nodes.size with old | planted
    · exact (ends_or_stranded (comes old) same (sound.branching.nodup cell) children_old).resolve_left
        open_end
    · exact absurd (new planted) open_end
  · exact fun stranded => stranded.not_endsWithParagraph same

/-- A template with a cell that ends with a nested table and a conditional paragraph. -/
def conditionalTemplate : Package where
  parts := [(documentPart,Text.encode ("<document " ++
    "xmlns=\"http://schemas.openxmlformats.org/wordprocessingml/2006/main\"><body><tbl><tr><tc><p/>" ++
    "<tbl><tr><tc><p/></tc></tr></tbl><p><r><t>\x7b#if a\x7dx\x7b/if\x7d</t></r></p>" ++
    "</tc></tr></tbl></body></document>"))]
  order := [documentPart]

instance (f : Forest) (cell : NodeId) : Decidable (f.EndsWithParagraph cell) :=
  inferInstanceAs (Decidable (_ = _))

instance (f : Forest) (root : NodeId) : Decidable (CellsEnd f root) :=
  inferInstanceAs (Decidable (∀ _ ∈ _, _))

private def conditionalCheck (root _ : NodeId) (s₀ _ : Session) (_ : List Round) (s' : Session) :
    Bool :=
  decide (CellsEnd s₀.package.forest root) && decide (¬CellsEnd s'.package.forest root)

theorem body_cells_conditional : ∃ root id s₀ s s', conditionalTemplate.Fresh ∧
    ({} : Setup).settings = {} ∧ opening {} {} { package := conditionalTemplate } = .ok root s₀ ∧
      CellsEnd s₀.package.forest root ∧ prepare root {} s₀ = .ok () s ∧
        s.package.forest.childNamed? root bodyName = some id ∧ body id {} s = .ok () s' ∧
          CellsEnd s.package.forest root ∧ ∃ cell ∈ s'.package.forest.tree root,
            s'.package.forest.name cell = cellName ∧ ¬s'.package.forest.EndsWithParagraph cell ∧
              s.package.forest.Stranded s'.package.forest cell := by
  have ran : bodyRun {} {} conditionalTemplate conditionalCheck = true := by decide +kernel
  obtain ⟨root,id,s₀,s,rounds,s',opened,ready,found,filled,checked⟩ := exists_bodyRun ran
  have fresh : conditionalTemplate.Fresh := ⟨rfl,rfl,rfl,rfl,rfl⟩
  obtain ⟨closed,broken⟩ := Bool.and_eq_true_iff.mp checked
  have filled := body_of_bodyRounds filled
  obtain ⟨snapshot,cells⟩ :=
    body_cells fresh rfl opened (of_decide_eq_true closed) ready found filled
  have broken := of_decide_eq_true broken
  simp only [CellsEnd,not_forall] at broken
  obtain ⟨cell,inside,kind,open_end⟩ := broken
  exact ⟨root,id,s₀,s,s',fresh,rfl,opened,of_decide_eq_true closed,ready,found,filled,snapshot,cell,
    inside,kind,open_end,(cells cell inside kind).mp open_end⟩

end Fill
end MailMerge
