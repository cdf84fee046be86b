import MailMerge.Proofs.Generation.Spared
import MailMerge.Proofs.Generation.Steps
import MailMerge.Proofs.Tree.Remains
import MailMerge.Proofs.Generation.Paragraph
import MailMerge.Proofs.Generation.Table

/-! What moves inside a part do to its tree. Work in the manifests leaves the tree of the part alone, so
every move is a step of the tree as its scope allows; what remains of the tree in one step remains in
all of them.
-/
namespace MailMerge
open Xml Docx Forest Package Relation

variable {setup : Setup} {scope : Scope} {w w' : World}

private theorem stir_self (part : String) (scope : Scope) (v : Plot) : Plot.Stir part scope v v :=
  Plot.stir_of_size_eq (Grove.Later.refl _) rfl (.still (fun _ _ => rfl) rfl)

/-- Serving the package does nothing to the tree of the part at work. -/
theorem Serve.stir (step : Serve w w') (placed : w.Placed) (scope : Scope) :
    Plot.Stir w.session.part scope w.plot w'.plot := by
  obtain ⟨t,held⟩ := placed.held
  have spares := step.spares placed.sound placed.direct
  have unnamed (n : Nat) (new : w.package.forest.nodes.size ≤ n)
      (owned : w'.owner n = w.session.part) : w'.package.forest.name n = .bare "" := by
    rcases Nat.lt_or_ge n w'.package.forest.nodes.size with inside | large
    · rcases step.owner_new new inside with manifest | ⟨e,reads⟩
      · exact absurd (owned ▸ manifest) placed.direct.not_isManifest
      · have unread := reads.unread
        simp [owned,held] at unread
    · rw [Forest.name,node_of_size_le _ large]
  refine ⟨spares.later,spares.fresh,?_,?_,.still (fun n within =>
    congrArg Node.children (spares.node_eq n within.1 within.2)) (by cases step <;> rfl)⟩
  · intro n new owned cell
    exact absurd ((unnamed n new owned).symm.trans cell) (by decide)
  · intro _ n new owned table
    exact absurd ((unnamed n new owned).symm.trans table) (by decide)

/-- Every move is a step of the tree of the part at work. -/
theorem Move.stir (step : Move setup scope w w') (placed : w.Placed) :
    Plot.Stir w.session.part scope w.plot w'.plot := by
  cases step with
  | serve step => exact step.stir placed scope
  | work direct step => exact step.stir
  | store => exact stir_self _ scope _
  | «show» direct pending here linked typed new inside shows numbered closed tableless =>
    exact Plot.stir_plant closed fun _ => tableless

/-- What remains of a tree in every move remains in a run of them. -/
theorem Moves.remains {start : Plot} {met : NodeId → Prop}
    (moves : Moves setup ⟨start.forest.nodes.size,fun q _ => met q⟩ w w') (placed : w.Placed)
    (remains : Plot.Remains w.session.part start met w.plot)
    (small : ∀ q, met q → q < start.forest.nodes.size) :
    Plot.Remains w.session.part start met w'.plot := by
  induction moves with
  | refl => exact remains
  | @tail mid w' moves step ih =>
    have placed_mid := placed.moves moves
    have stir := step.stir placed_mid
    rw [Moves.part_eq moves] at stir
    exact ih.step stir small (placed_mid.moves (ReflTransGen.single step)).sound.orderly

/-- Where no paragraph may become a table, there are no new tables. -/
theorem Moves.tableless (moves : Moves setup scope w w') (placed : w.Placed)
    (none : ∀ q, ¬scope.may q .becameTable) (n : NodeId) (new : w.package.forest.nodes.size ≤ n)
    (owned : w'.grove.owner n = w.session.part) : w'.package.forest.name n ≠ tableName := by
  induction moves with
  | refl =>
    rw [Forest.name,node_of_size_le _ new]
    decide
  | @tail mid w' moves step ih =>
    have stir := step.stir (placed.moves moves)
    rw [Moves.part_eq moves] at stir
    by_cases planted : mid.package.forest.nodes.size ≤ n
    · exact stir.tableless none n planted owned
    · have inside := Nat.not_le.mp planted
      have name_eq : w'.package.forest.name n = mid.package.forest.name n :=
        step.later.name_eq n inside
      rw [name_eq]
      exact ih ((step.later.owner_eq n inside).symm.trans owned)

end MailMerge

/-! Filling a tree goes in rounds. A round lists the paragraphs that are outside the tables of an
element and fills them one after the other; the first is that of the body or of the root of a header
or footer, and each table that is filled has one. The rounds of a run are kept here beside it, and
each of them moves no paragraph but those it has listed.
-/
namespace MailMerge.Fill
open Docx Package Relation Generation

/-- A round of a run: the element whose paragraphs are filled, the state in which they are listed, and
the paragraphs that are filled. A table that is passed over has none. -/
structure Round where
  element : NodeId
  state : Session
  passed : List NodeId

/-- Fills the paragraphs that are outside the tables of an element. -/
def pass (id : NodeId) : Generation Round := do
  let s ← get
  let ids := s.package.forest.outside id paragraphName tableName
  paragraphs ids
  return ⟨id,s,ids⟩

/-- Fills a table, with its round. -/
def tableRound (id : NodeId) : Generation Round := do
  tableRows id
  pass id

/-- The round of a table. One that has left the tree may be passed over. -/
def tableRound? (checked : Bool) (id : NodeId) : Generation Round := do
  if checked && !(← isAttached id) then return ⟨id,← get,[]⟩ else tableRound id

/-- Fills tables, with their rounds. -/
def tableRounds (checked : Bool) : List NodeId → Generation (List Round)
  | [] => return []
  | t :: ts => do
    let round ← tableRound? checked t
    return round :: (← tableRounds checked ts)

/-- Fills the body of a document, with its rounds. -/
def bodyRounds (id : NodeId) : Generation (List Round) := do
  let f ← Generation.forest
  let first ← pass id
  return first :: (← tableRounds true (f.named id tableName))

/-- Fills the tree of a header or footer, with its rounds. -/
def marginRounds (root : NodeId) : Generation (List Round) := do
  Generation.indexTree root
  let f ← Generation.forest
  let first ← pass root
  return first :: (← tableRounds false (f.childrenNamed root tableName))

theorem table_eq (id : NodeId) : table id = do
    let _ ← tableRound id
    return () := by
  simp only [table,tableRound,pass,Generation.forest,bind_assoc,pure_bind,bind_pure_unit]

/-- Looking at the session twice gives the same. -/
private theorem get_bind_get {α : Type} (next : Session → Session → Generation α) :
    (do next (← get) (← get)) = (do let s ← get; next s s) := rfl

/-- Tables are filled by their rounds. -/
private theorem forIn_tables (checked : Bool) (ts : List NodeId)
    {fill : NodeId → PUnit → Generation (ForInStep PUnit)}
    (each : ∀ t, fill t ⟨⟩ = do
      let _ ← tableRound? checked t
      return .yield ⟨⟩) :
    forIn ts PUnit.unit fill = do
      let _ ← tableRounds checked ts
      return () := by
  induction ts with
  | nil => rfl
  | cons t ts ih =>
    rw [List.forIn_cons,each,tableRounds]
    simp only [bind_assoc,pure_bind,ih]

/-- The body is filled by its rounds. -/
theorem body_eq (id : NodeId) : body id = do
    let _ ← bodyRounds id
    return () := by
  have each (t : NodeId) : (do
      if ← isAttached t then table t
      return ForInStep.yield PUnit.unit) = do
        let _ ← tableRound? true t
        return ForInStep.yield PUnit.unit := by
    simp only [tableRound?,table_eq,bind_assoc,pure_bind]
    refine bind_congr fun attached => ?_
    cases attached <;> rfl
  simp only [body,bodyRounds,pass,Generation.forest,bind_assoc,pure_bind,get_bind_get]
  refine bind_congr fun s => bind_congr fun _ => ?_
  rw [forIn_tables true _ each]
  simp only [bind_assoc,pure_bind]

/-- A header or footer is filled by its rounds. -/
theorem marginTree_eq (root : NodeId) : marginTree root = do
    let _ ← marginRounds root
    return () := by
  have each (t : NodeId) : (do
      table t
      return ForInStep.yield PUnit.unit) = do
        let _ ← tableRound? false t
        return ForInStep.yield PUnit.unit := by
    simp only [table_eq,bind_assoc,pure_bind]
    rfl
  simp only [marginTree,marginRounds,pass,Generation.forest,bind_assoc,pure_bind,get_bind_get]
  refine bind_congr fun _ => bind_congr fun s => bind_congr fun _ => ?_
  rw [forIn_tables false _ each]
  simp only [bind_assoc,pure_bind]

variable {setup : Setup} {scope : Scope} {w w' : World} {base : Nat}

/-- What is listed outside a boundary are paragraphs of the part. -/
theorem paragraphs_outside (sound : w.Sound) {id : NodeId} {boundary : Xml.Name} (owned : w.Owned id) :
    ∀ p ∈ w.package.forest.outside id paragraphName boundary, w.Paragraph p :=
  fun _ member => ⟨sound.sorted.within_outside owned member,
    ((Forest.mem_outside_iff sound.sorted).mp member).1⟩

theorem ends_paragraphs (ready : w.Ready scope.base) {ids : List NodeId}
    (owned : ∀ id ∈ ids, w.Paragraph id) (may : ∀ id ∈ ids, ∀ fate, scope.may id fate) :
    Ends (Stride setup scope) setup (paragraphs ids) w fun _ _ => True := by
  unfold paragraphs
  apply Ends.of_then (Ends.of_loop (fun _ _ => True) trivial ?_)
  · intro _ _ _ _
    exact Ends.of_pure trivial
  · intro id member _ w' moves _
    apply Ends.of_then (ends_paragraph (ready.moves moves) ((owned id member).moves moves)
      (may id member))
    intro _ _ _ _
    exact Ends.of_pure ⟨_,rfl,trivial⟩

theorem ends_tableRows (ready : w.Ready scope.base) {id : NodeId} (owned : w.Owned id)
    (kind : w.package.forest.name id = tableName) :
    Ends (Stride setup scope) setup (tableRows id) w fun _ _ => True := by
  unfold tableRows
  apply Ends.of_then (Table.ends_bind ready owned kind true)
  intro items w₁ moves₁ _
  split
  · exact Table.ends_applyRules (ready.moves moves₁) (owned.moves moves₁) _ true
  · exact Ends.of_pure trivial


/-- A round fills the paragraphs that it lists in the state it is in. -/
theorem ends_pass (ready : w.Ready base) {id : NodeId} (owned : w.Owned id) :
    Ends (Stride setup
      ⟨base,fun q _ => q ∈ w.package.forest.outside id paragraphName tableName⟩) setup (pass id) w
        fun round _ => round =
          ⟨id,w.session,w.package.forest.outside id paragraphName tableName⟩ := by
  unfold pass
  apply Ends.of_look
  apply Ends.of_then (ends_paragraphs ready (paragraphs_outside ready.sound owned)
    fun _ member _ => member)
  intro _ _ _ _
  exact Ends.of_pure rfl

/-- What rounds do, one after the other. Before a round lists its paragraphs, none leaves its place,
and after that only those that it has listed. -/
inductive Courses (setup : Setup) (base : Nat) (checked : Bool) : World → List Round → World → Prop
  | nil {w : World} : Courses setup base checked w [] w
  | omitted {w w' : World} {round : Round} {rounds : List Round} (optional : checked = true)
    (kind : w.package.forest.name round.element = tableName)
    (away : w.session.index.isAttached round.element = false) (state_eq : round.state = w.session)
    (none : round.passed = []) (rest : Courses setup base checked w rounds w') :
    Courses setup base checked w (round :: rounds) w'
  | round {w mid w' w'' : World} {round : Round} {rounds : List Round}
    (before : Moves setup (Scope.still base) w mid) (state_eq : round.state = mid.session)
    (listed : round.passed = mid.package.forest.outside round.element paragraphName tableName)
    (after : Moves setup ⟨base,fun q _ => q ∈ round.passed⟩ mid w')
    (rest : Courses setup base checked w' rounds w'') :
    Courses setup base checked w (round :: rounds) w''

namespace Courses

theorem append {checked : Bool} {w'' : World} {rounds rounds' : List Round}
    (courses : Courses setup base checked w rounds w')
    (rest : Courses setup base checked w' rounds' w'') :
    Courses setup base checked w (rounds ++ rounds') w'' := by
  induction courses with
  | nil => exact rest
  | omitted optional kind away state_eq none _ ih =>
    exact .omitted optional kind away state_eq none (ih rest)
  | round before state_eq listed after _ ih => exact .round before state_eq listed after (ih rest)

end Courses

theorem ends_tableRound (ready : w.Ready base) {id : NodeId} (owned : w.Owned id)
    (kind : w.package.forest.name id = tableName) (checked : Bool) :
    Ends (Stride setup Scope.all) setup (tableRound id) w fun round w' =>
      Courses setup base checked w [round] w' ∧ round.element = id := by
  unfold tableRound
  have bound : Ends (Stride setup (Scope.still base)) setup (tableRows id) w fun _ _ => True :=
    ends_tableRows ready owned kind
  apply Ends.of_then (bound.retain (move_le_move setup (Scope.le_all _)))
  rintro _ mid - ⟨-,moves⟩
  apply ((ends_pass (ready.moves moves) (owned.moves moves)).retain
    (move_le_move setup (Scope.le_all _))).mono
  rintro round w' - ⟨rfl,moves'⟩
  exact ⟨.round moves rfl rfl moves' .nil,rfl⟩

theorem ends_tableRound? (ready : w.Ready base) {id : NodeId} (owned : w.Owned id)
    (kind : w.package.forest.name id = tableName) (checked : Bool) :
    Ends (Stride setup Scope.all) setup (tableRound? checked id) w fun round w' =>
      Courses setup base checked w [round] w' ∧ round.element = id := by
  unfold tableRound?
  apply Ends.of_then (ends_isAttached id)
  rintro attached _ - ⟨rfl,rfl⟩
  split
  · next away =>
    obtain ⟨optional,away⟩ := Bool.and_eq_true_iff.mp away
    exact Ends.of_look (Ends.of_pure
      ⟨.omitted optional kind (by simpa using away) rfl rfl .nil,rfl⟩)
  · exact ends_tableRound ready owned kind checked

theorem ends_tableRounds (ready : w.Ready base) {ids : List NodeId}
    (owned : ∀ id ∈ ids, w.Owned id) (kind : ∀ id ∈ ids, w.package.forest.name id = tableName)
    (checked : Bool) :
    Ends (Stride setup Scope.all) setup (tableRounds checked ids) w fun rounds w' =>
      Courses setup base checked w rounds w' ∧ rounds.map (·.element) = ids := by
  induction ids generalizing w with
  | nil => exact Ends.of_pure ⟨.nil,rfl⟩
  | cons id ids ih =>
    obtain ⟨owned_id,rest_owned⟩ := List.forall_mem_cons.mp owned
    obtain ⟨kind_id,rest_kind⟩ := List.forall_mem_cons.mp kind
    rw [tableRounds]
    apply Ends.of_then (ends_tableRound? ready owned_id kind_id checked)
    rintro round w₁ moves₁ ⟨course,rfl⟩
    apply Ends.of_then (ih (ready.moves moves₁) (World.Owned.forall_moves rest_owned moves₁)
      fun t member => ((rest_owned t member).name_eq moves₁).trans (rest_kind t member))
    rintro rounds w₂ - ⟨courses,rfl⟩
    exact Ends.of_pure ⟨course.append courses,rfl⟩

/-- The rounds of an element and of tables below it. -/
private theorem ends_rounds (ready : w.Ready base) {id : NodeId} (owned : w.Owned id)
    {ids : List NodeId} (owned_ids : ∀ t ∈ ids, w.Owned t)
    (kind : ∀ t ∈ ids, w.package.forest.name t = tableName) (checked : Bool) :
    Ends (Stride setup Scope.all) setup (do
        let first ← pass id
        return first :: (← tableRounds checked ids)) w fun rounds w' =>
      Courses setup base checked w rounds w' ∧ rounds.map (·.element) = id :: ids := by
  apply Ends.of_then ((ends_pass ready owned).retain (move_le_move setup (Scope.le_all _)))
  rintro first w₁ moves₁ ⟨rfl,first_moves⟩
  apply Ends.of_then (ends_tableRounds (ready.moves moves₁) (World.Owned.forall_moves owned_ids moves₁)
    (fun t member => ((owned_ids t member).name_eq moves₁).trans (kind t member)) checked)
  rintro rounds w₂ - ⟨courses,rfl⟩
  exact Ends.of_pure ⟨.round ReflTransGen.refl rfl rfl first_moves courses,rfl⟩

theorem ends_bodyRounds (ready : w.Ready base) {id : NodeId} (owned : w.Owned id) :
    Ends (Stride setup Scope.all) setup (bodyRounds id) w fun rounds w' =>
      Courses setup base true w rounds w' ∧
        rounds.map (·.element) = id :: w.package.forest.named id tableName := by
  unfold bodyRounds
  apply Ends.of_look_forest
  exact ends_rounds ready owned (fun t member => ready.sound.sorted.within_named owned member)
    (fun t member => (Forest.mem_named.mp member).2) true

/-- The rounds of a header or footer begin when its tree has been indexed. -/
theorem ends_marginRounds (placed : w.Placed) {root : NodeId} (owned : w.Owned root) :
    Ends (Stage setup) setup (marginRounds root) w fun rounds w' => ∃ start : World,
      start.session = { w.session with index := .of w.package.forest root } ∧
        start.Ready w.package.forest.nodes.size ∧ start.Owned root ∧
          Courses setup w.package.forest.nodes.size false start rounds w' ∧
            rounds.map (·.element) = root :: w.package.forest.childrenNamed root tableName := by
  let start : World := { w with
    session := { w.session with index := .of w.package.forest root } }
  have leg : Leg setup w start := Leg.index root
  have home := Index.within_of placed.sound.sorted owned
  have ready : start.Ready w.package.forest.nodes.size :=
    ⟨⟨placed.sound.leg leg,placed.direct,placed.held⟩,home,Nat.le_refl _⟩
  unfold marginRounds
  apply Ends.of_then (Ends.of_modify (fun _ w' => w' = start) _ rfl (.of_beside leg (.of_same rfl rfl rfl)) rfl)
  rintro _ _ - rfl
  apply Ends.of_look_forest
  apply ((ends_rounds ready owned
    (fun t member => ready.sound.sorted.within_childrenNamed owned member)
    (fun t member => eq_of_beq (List.mem_filter.mp member).2) false).widen
      (Tracked.mono (move_le_leg setup Scope.all))).mono
  rintro rounds w' - ⟨courses,elements⟩
  exact ⟨start,rfl,ready,owned,courses,elements⟩

end MailMerge.Fill
