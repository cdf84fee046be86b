import MailMerge.Fill.Document
import MailMerge.Proofs.Generation.Noted
import MailMerge.Proofs.Generation.Parallel

/-! Tables filled side by side. The first cells of their rows hold no table that is passed over, so that the same
is read in them; what is in other cells is looked at by nothing but the paragraphs there.
-/
namespace MailMerge
open Xml Docx Forest Package Fill Generation

variable {setup : Setup} {scene : Scene} {pair : Pairing} {s t : Session} {a b : NodeId}

/-- Paired rows that are not changed themselves, with first cells that are paired throughout. -/
structure Table.Rows (scene : Scene) (pair : Pairing) (row row' : NodeId) : Prop where
  inner : pair .inner row row'
  left : scene.fixed row
  right : scene.fixed row'
  cell : Option.Rel (pair .whole) (scene.left.childNamed? row cellName) (scene.right.childNamed? row' cellName)

theorem Table.Rows.mono {pair' : Pairing} (rows : Table.Rows scene pair a b) (more : pair ≤ pair') :
    Table.Rows scene pair' a b :=
  ⟨more _ a b rows.inner,rows.left,rows.right,rel_mono rows.cell (more .whole)⟩

namespace Forest.Twins

variable {f g : Forest} (twins : Twins scene pair f g)
include twins

theorem cellText_eq (met : pair .whole a b) : g.cellText b = f.cellText a := by
  have paragraphs := twins.named met paragraphName
  rw [cellText,cellText]
  generalize f.named a paragraphName = ids,g.named b paragraphName = ids' at paragraphs
  induction paragraphs with
  | nil => rfl
  | cons here _ ih => rw [List.flatMap_cons,List.flatMap_cons,ih,twins.paragraphText_eq here]

variable (acyclic : scene.left.Acyclic) (acyclic' : scene.right.Acyclic) (row : Table.Rows scene pair a b)
include acyclic acyclic' row

/-- The first cells of the rows are those they had at the beginning. -/
theorem firstCell : Option.Rel (pair .whole) (f.childNamed? a cellName) (g.childNamed? b cellName) := by
  rw [twins.left.childNamed?_eq row.left (acyclic.inside a),twins.right.childNamed?_eq row.right (acyclic'.inside b)]
  exact row.cell

theorem firstCellText_eq : Table.firstCellText g b = Table.firstCellText f a := by
  unfold Table.firstCellText
  rcases rel_cases (twins.firstCell acyclic acyclic' row) with ⟨first,second⟩ | ⟨cell,cell',first,second,met⟩
  · rw [first,second]
  · rw [first,second]
    exact twins.cellText_eq met

end Forest.Twins

namespace Generation.Alike

section
variable (twins : Session.Twins scene pair s t)
include twins

theorem ruleHolds (item : Value) (rule : Directive.RowRule) :
    Alike scene setup pair (Table.ruleHolds item rule) (Table.ruleHolds item rule) s t fun _ x y => x = y := by
  refine of_bind (ofExcept twins _) ?_
  rintro pair judged _ s t - twins rfl
  cases judged with
  | holds b => exact of_pure twins rfl
  | invalid reason => exact of_bind (log twins _ _) fun _ twins _ => of_pure twins rfl

/-- A row is taken out of its table. -/
theorem dropRow {row row' : NodeId} (met : pair .inner a b) (unpassed : a ∉ scene.tables) (free : ¬ scene.fixed a)
    (free' : ¬ scene.fixed b) (inner : pair .inner row row')
    (above : ∀ n, s.index.parent? row = some n → ¬ scene.fixed n)
    (above' : ∀ n, t.index.parent? row' = some n → ¬ scene.fixed n) :
    Alike scene setup pair (Table.dropRow a row true) (Table.dropRow b row' true) s t fun _ _ _ => True := by
  have forests := twins.package.forests
  refine of_bind (change twins (twins.package.index.remove forests (forests.known _ _ inner)
    (twins.package.index.low _ _ inner) above above')) ?_
  rintro pair known _ s t more twins rfl
  dsimp only
  split
  · exact edit twins ⟨_,twins.package.forests.detach (more _ _ _ met) unpassed free free'
      (more _ _ _ (forests.alike _ _ _ inner))⟩
  · exact of_pure twins trivial

variable (acyclic : scene.left.Acyclic) (acyclic' : scene.right.Acyclic)
include acyclic acyclic'

theorem bind (met : pair .inner a b) (unpassed : a ∉ scene.tables) (free : ¬ scene.fixed a) (free' : ¬ scene.fixed b)
    (rows : List.Forall₂ (Table.Rows scene pair) (Table.rows s.package.forest a) (Table.rows t.package.forest b))
    (above : ∀ row ∈ Table.rows s.package.forest a, ∀ n, s.index.parent? row = some n → ¬ scene.fixed n)
    (above' : ∀ row ∈ Table.rows t.package.forest b, ∀ n, t.index.parent? row = some n → ¬ scene.fixed n) :
    Alike scene setup pair (Table.bind a true) (Table.bind b true) s t fun _ x y => x = y := by
  refine of_forest ?_
  generalize Table.rows s.package.forest a = headers,Table.rows t.package.forest b = headers' at rows above above'
  cases rows with
  | nil => exact of_pure twins rfl
  | @cons header header' _ _ here _ =>
    dsimp only
    rw [twins.package.forests.firstCellText_eq acyclic acyclic' here]
    split
    · exact of_pure twins rfl
    · refine of_read ?_
      split
      · split
        · refine of_bind (dropRow twins met unpassed free free' here.inner (above _ List.mem_cons_self)
            (above' _ List.mem_cons_self)) fun _ twins _ => ?_
          exact of_bind (record twins _ _ _ _) fun _ twins _ => of_pure twins rfl
        · exact of_bind (record twins _ _ _ _) fun _ twins _ => of_pure twins rfl
      · exact of_bind (record twins _ _ _ _) fun _ twins _ => of_pure twins rfl

theorem applyRule (row : Table.Rows scene pair a b) (item : Value) (recorded : Bool) :
    Alike scene setup pair (Table.applyRule a item recorded) (Table.applyRule b item recorded) s t
      fun _ _ _ => True := by
  have cells := twins.package.forests.firstCell acyclic acyclic' row
  refine of_forest ?_
  rcases rel_cases cells with ⟨first,second⟩ | ⟨cell,cell',first,second,met⟩
  · rw [first,second]
    exact of_pure twins trivial
  · rw [first,second]
    dsimp only
    rw [twins.package.forests.cellText_eq met]
    split
    · exact of_pure twins trivial
    · next found _ =>
      have stripped (status : Status) {pair : Pairing} {s t : Session} (twins : Session.Twins scene pair s t)
          (met : pair .whole cell cell') : Alike scene setup pair
            (do
              Generation.edit (Table.strip · cell found.raw)
              if recorded then
                Generation.record .rowCondition
                  (.text (found.value.field ++ found.value.operator ++ found.value.value)) status)
            (do
              Generation.edit (Table.strip · cell' found.raw)
              if recorded then
                Generation.record .rowCondition
                  (.text (found.value.field ++ found.value.operator ++ found.value.value)) status) s t fun _ _ _ => True := by
        refine of_bind (edit twins (twins.package.forests.strip met _)) fun _ twins _ => ?_
        split
        · exact record twins _ _ _ _
        · exact of_pure twins trivial
      have styled {pair : Pairing} {s t : Session} (twins : Session.Twins scene pair s t)
          (inner : pair .inner a b) (u : Settings) (style : String) : Alike scene setup pair
            (Generation.edit (Table.styleRow u · a style)) (Generation.edit (Table.styleRow u · b style)) s t
            fun _ _ _ => True := by
        have open' : a ∉ scene.tables := twins.package.forests.unpassed inner
          (twins.package.forests.left.fixed_name row.left ▸ by decide)
        exact edit twins (twins.package.forests.styleRow u inner open' style)
      refine of_bind (ruleHolds twins item found.value) ?_
      rintro pair holds _ s t more twins rfl
      have met := more _ _ _ met
      have inner := more _ _ _ row.inner
      split
      · refine of_read ?_
        split
        · refine of_bind (log twins _ _) fun more twins _ => ?_
          exact of_bind (styled twins (more _ _ _ inner) _ _) fun more' twins _ =>
            stripped _ twins (more' _ _ _ (more _ _ _ met))
        · exact of_bind (styled twins inner _ _) fun more twins _ => stripped _ twins (more _ _ _ met)
      · exact stripped _ twins met

theorem applyRules (items : List Value) (recorded : Bool)
    (rows : List.Forall₂ (Table.Rows scene pair) (Table.rows s.package.forest a) (Table.rows t.package.forest b)) :
    Alike scene setup pair (Table.applyRules a items recorded) (Table.applyRules b items recorded) s t
      fun _ _ _ => True := by
  refine of_forest (of_bind (of_forIn (fun pair (x y : NodeId × Value) => Table.Rows scene pair x.1 y.1 ∧ x.2 = y.2)
    (fun more both => both.imp_left (·.mono more)) ?_ twins ?_) fun _ twins _ => of_pure twins trivial)
  · rintro pair s t ⟨row,item⟩ ⟨row',_⟩ twins ⟨both,rfl⟩
    exact of_bind (applyRule twins acyclic acyclic' both item recorded) fun _ twins _ => of_pure twins ⟨rfl,rfl⟩
  · have later := List.forall₂_drop 1 rows
    generalize (Table.rows s.package.forest a).drop 1 = as,(Table.rows t.package.forest b).drop 1 = bs at later
    induction later generalizing items with
    | nil => exact .nil
    | cons here _ ih =>
      cases items with
      | nil => exact .nil
      | cons item items => exact .cons ⟨here,rfl⟩ (ih items)

end

/-- A row that is taken out leaves no element with more children. -/
private theorem gives_dropRow (table row : NodeId) : Gives setup (Table.dropRow table row true) s fun _ s' =>
    ∀ n, s'.package.forest.children n ⊆ s.package.forest.children n := by
  refine .of_bind fun known s' ran => ?_
  have removed : ∀ n, s'.package.forest.children n ⊆ s.package.forest.children n := by
    rw [Generation.remove,change_apply,Index.remove] at ran
    cases above : s.index.parent? row with
    | none =>
      simp only [above] at ran
      obtain ⟨-,rfl⟩ := EStateM.Result.ok.inj ran
      exact fun n => List.Subset.refl _
    | some parent =>
      cases found : Index.position s.package.forest parent row with
      | error fault =>
        simp only [above,found] at ran
        cases ran
      | ok i =>
        simp only [above,found] at ran
        obtain ⟨-,rfl⟩ := EStateM.Result.ok.inj ran
        exact fun n => children_detach_subset _ _ _ n
  cases known with
  | true => exact .of_pure removed
  | false =>
    intro _ s'' ran
    obtain ⟨-,rfl⟩ := EStateM.Result.ok.inj ran
    exact fun n => List.Subset.trans (children_detach_subset _ _ _ n) (removed n)

private theorem gives_bind (table : NodeId) : Gives setup (Table.bind table true) s fun _ s' =>
    ∀ n, s'.package.forest.children n ⊆ s.package.forest.children n := by
  have recorded {s' : Session} (kind : Directive.Kind) (key : Value) (status : Status) (reason : String)
      (result : Option (List Value)) (fewer : ∀ n, s'.package.forest.children n ⊆ s.package.forest.children n) :
      Gives setup (do
        Generation.record kind key status reason
        return result) s' fun _ s' => ∀ n, s'.package.forest.children n ⊆ s.package.forest.children n := by
    refine .of_bind fun _ s'' ran => .of_pure ?_
    rw [((Noting.of_record kind key status reason).of_ok ran).forest_eq]
    exact fewer
  unfold Table.bind
  refine .of_look_forest ?_
  split
  · exact .of_pure fun n => List.Subset.refl _
  · dsimp only
    split
    · exact .of_pure fun n => List.Subset.refl _
    · refine .of_look_setup ?_
      split
      · split
        · exact .of_bind fun _ s' ran => recorded _ _ _ _ _ (gives_dropRow _ _ _ _ ran)
        · exact recorded _ _ _ _ _ fun n => List.Subset.refl _
      · exact recorded _ _ _ _ _ fun n => List.Subset.refl _

section
variable (twins : Session.Twins scene pair s t) (left : s.package.forest = scene.left)
  (right : t.package.forest = scene.right) (met : pair .inner a b) (kind : scene.left.name a = tableName)
  (unpassed : a ∉ scene.tables)
  (rows : List.Forall₂ (Table.Rows scene pair) (Table.rows scene.left a) (Table.rows scene.right b))
  (above : ∀ row ∈ Table.rows scene.left a, ∀ n, s.index.parent? row = some n → ¬ scene.fixed n)
  (above' : ∀ row ∈ Table.rows scene.right b, ∀ n, t.index.parent? row = some n → ¬ scene.fixed n)
include twins left right met kind unpassed rows above above'

theorem tableRows : Alike scene setup pair (Fill.tableRows a) (Fill.tableRows b) s t fun _ _ _ => True := by
  have acyclic : scene.left.Acyclic := left ▸ twins.package.forests.left.acyclic
  have acyclic' : scene.right.Acyclic := right ▸ twins.package.forests.right.acyclic
  obtain ⟨free,free'⟩ := twins.package.forests.free met (by rw [left,kind]; decide)
  rw [← left,← right] at rows
  rw [← left] at above
  rw [← right] at above'
  refine of_ran (bind twins acyclic acyclic' met unpassed free free' rows above above') ?_
  rintro pair' found _ s' t' ran ran' more twins' rfl
  cases found with
  | none => exact of_pure twins' trivial
  | some items =>
    refine applyRules twins' acyclic acyclic' items true ?_
    -- the rows that are left are among those at the beginning
    have listed := twins'.package.forests.childrenNamed (more _ _ _ met) unpassed rowName
    refine (forall₂_mem listed).imp fun row row' here => ?_
    obtain ⟨member,kind⟩ := List.mem_filter.mp here.1
    have former : row ∈ s.package.forest.children a := gives_bind _ _ _ ran a member
    have old : row < scene.left.nodes.size := acyclic.inside a row (left ▸ former)
    rw [twins'.package.forests.left.names row old,← left] at kind
    obtain ⟨partner,-,paired⟩ := exists_right rows (List.mem_filter.mpr ⟨former,kind⟩)
    obtain rfl := (twins'.package.forests.eq_iff here.2 (more _ _ _ paired.inner)).mp rfl
    exact paired.mono more

/-- Tables are filled. -/
theorem table : Alike scene.loose setup pair (Fill.table a) (Fill.table b) s t fun _ _ _ => True := by
  refine of_bind (tableRows twins left right met kind unpassed rows above above').loosen fun more twins _ => ?_
  have forests := twins.package.forests
  refine of_forest (of_bind (of_forIn (fun pair x y => pair .inner x y ∧ pair .whole x y) ?_ ?_ twins ?_)
    fun _ twins _ => of_pure twins trivial)
  · exact fun more both => both.imp (more _ _ _) (more _ _ _)
  · rintro pair s t p q twins ⟨inner,whole⟩
    exact of_bind (paragraph twins (fun _ => id) inner whole) fun _ twins _ => of_pure twins ⟨rfl,rfl⟩
  · obtain ⟨level,sorted⟩ := forests.left.acyclic.sorted
    refine (forall₂_mem (forests.outside (more _ _ _ met) unpassed paragraphName)).imp fun p q here => ⟨here.2,?_⟩
    exact forests.paragraphs p q here.2 ((mem_outside_iff sorted).mp here.1).1

end
end Generation.Alike
end MailMerge
