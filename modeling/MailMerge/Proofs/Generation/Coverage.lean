import MailMerge.Proofs.Generation.Document
import MailMerge.Proofs.Generation.Passed

/-! Which paragraphs of a document are filled. In the body, the paragraphs outside tables, together with
those that each table has outside its nested tables, are all paragraphs, each once; in a run each of
them is filled at most once, and nothing else is. In a header or footer only the paragraphs outside
tables and those of the tables that stand directly in it are filled.
-/
namespace MailMerge.Fill
open Docx Package Relation Forest

variable {setup : Setup} {template : Package}

/-- A body that is filled has been filled in rounds. -/
theorem bodyRounds_of_body {id : NodeId} {s s' : Session} (filled : body id setup s = .ok () s') :
    ∃ rounds, bodyRounds id setup s = .ok rounds s' := by
  rw [body_eq,Generation.bind_apply] at filled
  split at filled
  · next rounds s'' ran =>
    obtain rfl := (EStateM.Result.ok.inj filled).2
    exact ⟨rounds,ran⟩
  · simp at filled

theorem body_of_bodyRounds {id : NodeId} {s s' : Session} {rounds : List Round}
    (ran : bodyRounds id setup s = .ok rounds s') : body id setup s = .ok () s' := by
  rw [body_eq,Generation.bind_apply,ran]
  rfl

/-- A run through the body of a document. Page breaks are put in first; then the body is filled in
rounds, which have the body and its tables for their elements. -/
structure Run (setup : Setup) (before start last : World) (root id : NodeId) (rounds : List Round) :
    Prop where
  prepared : Prepared setup before start root
  site : Site start root id
  kind : start.package.forest.name id = bodyName
  courses : Courses setup start.package.forest.nodes.size true start rounds last
  elements : rounds.map (·.element) = id :: start.package.forest.named id tableName

theorem exists_run (fresh : template.Fresh) (usual : setup.settings = {}) {o : Options}
    {root id : NodeId} {s₀ s s' : Session}
    (opened : opening o setup { package := template } = .ok root s₀)
    (ready : prepare root setup s₀ = .ok () s)
    (found : s.package.forest.childNamed? root bodyName = some id)
    (filled : body id setup s = .ok () s') : ∃ before start last rounds,
      before.package.forest = s₀.package.forest ∧ start.session = s ∧ last.session = s' ∧
        bodyRounds id setup s = .ok rounds s' ∧ Run setup before start last root id rounds := by
  obtain ⟨w₀,rfl,-,sound₀,knows⟩ :=
    (ends_opening (World.sound_initial fresh) (.of_default usual) o).coarse.of_ok opened
  obtain ⟨start,rfl,-,before,grove_eq,-,prepared⟩ := (ends_prepare sound₀ knows).of_ok ready
  have ready := prepared.ready.moves prepared.moves
  have child : start.package.forest.Child root id := List.mem_of_find?_eq_some found
  have kind : start.package.forest.name id = bodyName :=
    eq_of_beq (List.find?_some (p := fun id => start.package.forest.name id == bodyName) found)
  have site : Site start root id :=
    ⟨⟨ready.toPlaced,ready.home,Nat.le_refl _⟩,prepared.owned.moves prepared.moves,
      prepared.remains.root_eq.trans prepared.root_eq,ReflTransGen.single child⟩
  obtain ⟨rounds,ran⟩ := bodyRounds_of_body filled
  have owned : start.Owned id := site.place_owned ⟨ReflTransGen.refl,Or.inl rfl⟩
  obtain ⟨last,rfl,-,courses,elements⟩ := (ends_bodyRounds site.ready owned).of_ok ran
  exact ⟨before,start,last,rounds,congrArg Grove.forest grove_eq,rfl,rfl,ran,
    prepared,site,kind,courses,elements⟩

namespace Run

variable {before start last : World} {root id : NodeId} {rounds : List Round}
  (run : Run setup before start last root id rounds)
include run

theorem place {round : Round} (member : round ∈ rounds) : Site.Place start id round.element := by
  have listed : round.element ∈ rounds.map (·.element) := List.mem_map_of_mem member
  rw [run.elements,List.mem_cons] at listed
  rcases listed with same | listed
  · exact ⟨same ▸ ReflTransGen.refl,Or.inl same⟩
  · obtain ⟨path,named⟩ := (mem_named_iff run.site.ready.sound.sorted).mp listed
    exact ⟨path,Or.inr named⟩

/-- The rounds are fair, they fill no paragraph twice, and only what they fill meets its fate. -/
theorem fair : (passed rounds).Nodup ∧
    (∀ before round after, rounds = before ++ round :: after →
      round.Fair start.package.forest root (passed before)) ∧
    Moves setup ⟨start.package.forest.nodes.size,fun q _ => q ∈ passed rounds⟩ start last := by
  have sorted := run.site.ready.sound.sorted
  have branching := run.site.ready.sound.branching
  have nodup : (id :: start.package.forest.named id tableName).Nodup := by
    refine List.nodup_cons.mpr ⟨fun member => ?_,nodup_named sorted branching id tableName⟩
    exact absurd (run.kind.symm.trans (Forest.mem_named.mp member).2) (by decide)
  exact run.site.fair_run run.courses (fun _ => run.place) (run.elements ▸ nodup)
    fun _ _ => run.prepared.attests

/-- What is filled is a paragraph of the body. -/
theorem passed_subset : passed rounds ⊆ start.package.forest.named id paragraphName := by
  have sorted := run.site.ready.sound.sorted
  obtain ⟨-,fair,-⟩ := run.fair
  intro p member
  obtain ⟨round,listed,member⟩ := List.mem_flatMap.mp member
  obtain ⟨before,after,split⟩ := List.append_of_mem listed
  obtain ⟨named,clear⟩ := (mem_outside_iff sorted).mp ((fair before round after split).listed member)
  exact (mem_named_iff sorted).mpr ⟨(run.place listed).path.trans clear.path,named⟩

end Run

/-- The paragraphs of the body that are filled, and what has become of the others. The snapshot `f` is
the tree in which the paragraphs of the body and its tables are listed. -/
theorem bodyRounds_cover (fresh : template.Fresh) (usual : setup.settings = {}) {o : Options}
    {root id : NodeId} {s₀ s s' : Session}
    (opened : opening o setup { package := template } = .ok root s₀)
    (ready : prepare root setup s₀ = .ok () s)
    (found : s.package.forest.childNamed? root bodyName = some id)
    (filled : body id setup s = .ok () s') :
    let f := s.package.forest
    (f.named id paragraphName).Nodup ∧
    (f.outside id paragraphName tableName ++ (f.named id tableName).flatMap
      (f.outside · paragraphName tableName)).Perm (f.named id paragraphName) ∧
    ∃ rounds, bodyRounds id setup s = .ok rounds s' ∧
      rounds.map (·.element) = id :: f.named id tableName ∧
      (passed rounds).Nodup ∧ passed rounds ⊆ f.named id paragraphName ∧
      ∀ p ∈ f.named id paragraphName, p ∉ passed rounds → ∃ before round after,
        rounds = before ++ round :: after ∧ p ∈ f.outside round.element paragraphName tableName ∧
          round.Missed f root (passed before) p := by
  obtain ⟨before,start,last,rounds,-,rfl,rfl,ran,run⟩ := exists_run fresh usual opened ready found filled
  have sorted := run.site.ready.sound.sorted
  have branching := run.site.ready.sound.branching
  obtain ⟨once,fair,-⟩ := run.fair
  have plain : start.package.forest.name id ≠ paragraphName := run.kind ▸ by decide
  have other : start.package.forest.name id ≠ tableName := run.kind ▸ by decide
  have partition := outside_perm sorted branching plain other
  refine ⟨nodup_named sorted branching _ _,partition,rounds,ran,run.elements,once,
    run.passed_subset,?_⟩
  intro p member omitted
  have home : p ∈ (rounds.map (·.element)).flatMap
      (start.package.forest.outside · paragraphName tableName) := by
    rw [run.elements,List.flatMap_cons]
    exact partition.mem_iff.mpr member
  obtain ⟨_,element,outside⟩ := List.mem_flatMap.mp home
  obtain ⟨round,listed,rfl⟩ := List.mem_map.mp element
  obtain ⟨before,after,split⟩ := List.append_of_mem listed
  refine ⟨before,round,after,split,outside,(fair before round after split).missed p outside ?_⟩
  exact fun member => omitted (List.mem_flatMap.mpr ⟨round,listed,member⟩)

/-- A run through the body of a document passes a check of its root, its body, the state before the page
breaks, the snapshot, the rounds and the state at the end. -/
def bodyRun (o : Options) (setup : Setup) (template : Package)
    (check : NodeId → NodeId → Session → Session → List Round → Session → Bool) : Bool :=
  match opening o setup { package := template } with
  | .error _ _ => false
  | .ok root s₀ =>
    match prepare root setup s₀ with
    | .error _ _ => false
    | .ok () s =>
      match s.package.forest.childNamed? root bodyName with
      | none => false
      | some id =>
        match bodyRounds id setup s with
        | .error _ _ => false
        | .ok rounds s' => check root id s₀ s rounds s'

theorem exists_bodyRun {o : Options}
    {check : NodeId → NodeId → Session → Session → List Round → Session → Bool}
    (checked : bodyRun o setup template check = true) : ∃ root id s₀ s rounds s',
      opening o setup { package := template } = .ok root s₀ ∧ prepare root setup s₀ = .ok () s ∧
        s.package.forest.childNamed? root bodyName = some id ∧
          bodyRounds id setup s = .ok rounds s' ∧ check root id s₀ s rounds s' = true := by
  unfold bodyRun at checked
  split at checked
  · simp at checked
  next root s₀ opened =>
  split at checked
  · simp at checked
  next s ready =>
  split at checked
  · simp at checked
  next id found =>
  split at checked
  · simp at checked
  next rounds s' filled =>
  exact ⟨root,id,s₀,s,rounds,s',opened,ready,found,filled,checked⟩

/-- A template with a table whose second row has a rule, and in that row a shading with a paragraph. -/
def shadedTemplate : Package where
  parts := [(documentPart,Text.encode ("<document " ++
    "xmlns=\"http://schemas.openxmlformats.org/wordprocessingml/2006/main\"><body><tbl><tr><tc>" ++
    "<p><r><t>R\x7bformat-table:r\x7d</t></r></p></tc></tr><tr><tc><tcPr><shd><p/></shd></tcPr>" ++
    "<p><r><t>\x7bif:n==1\x7dred\x7b/if\x7d</t></r></p></tc></tr></tbl></body></document>"))]
  order := [documentPart]

/-- Data for the one row, which make it red. -/
def shadedSetup : Setup where
  data := .map [(.text "r",.list [.map [(.text "n",.text "1")]])]

/-- A paragraph is not filled, and whatever at or above it has left its place is neither a paragraph
that was filled nor a row of a table. -/
def LeftOut (f : Forest) (root : NodeId) (rounds : List Round) (p : NodeId) : Prop :=
  p ∉ passed rounds ∧ ∀ round ∈ rounds, ∀ n ∈ f.tree root, ∀ c ∈ f.children n, p ∈ f.tree c →
    c ∉ round.state.package.forest.children n →
      c ∉ passed rounds ∧ ¬(f.name n = tableName ∧ f.name c = rowName)

instance (f : Forest) (root : NodeId) (rounds : List Round) (p : NodeId) :
    Decidable (LeftOut f root rounds p) :=
  inferInstanceAs (Decidable (_ ∧ _))

private def shadedCheck (root id : NodeId) (_ s : Session) (rounds : List Round) (_ : Session) : Bool :=
  decide (∃ p ∈ s.package.forest.named id paragraphName, LeftOut s.package.forest root rounds p)

private theorem shaded_run : bodyRun {} shadedSetup shadedTemplate shadedCheck = true := by
  decide +kernel

theorem bodyRounds_leftOut : ∃ root id s₀ s rounds s',
    opening {} shadedSetup { package := shadedTemplate } = .ok root s₀ ∧
      prepare root shadedSetup s₀ = .ok () s ∧
        s.package.forest.childNamed? root bodyName = some id ∧
          bodyRounds id shadedSetup s = .ok rounds s' ∧
            ∃ p ∈ s.package.forest.named id paragraphName,
              LeftOut s.package.forest root rounds p := by
  obtain ⟨root,id,s₀,s,rounds,s',opened,ready,found,filled,checked⟩ := exists_bodyRun shaded_run
  exact ⟨root,id,s₀,s,rounds,s',opened,ready,found,filled,of_decide_eq_true checked⟩

theorem bodyRounds_cover_shaded : ∃ root id s₀ s s' rounds, shadedTemplate.Fresh ∧
    shadedSetup.settings = {} ∧ opening {} shadedSetup { package := shadedTemplate } = .ok root s₀ ∧
      prepare root shadedSetup s₀ = .ok () s ∧
        s.package.forest.childNamed? root bodyName = some id ∧ body id shadedSetup s = .ok () s' ∧
          bodyRounds id shadedSetup s = .ok rounds s' ∧ (passed rounds).Nodup ∧
            passed rounds ⊆ s.package.forest.named id paragraphName := by
  obtain ⟨root,id,s₀,s,rounds,s',opened,ready,found,ran,-⟩ := exists_bodyRun shaded_run
  have filled := body_of_bodyRounds ran
  have fresh : shadedTemplate.Fresh := ⟨rfl,rfl,rfl,rfl,rfl⟩
  obtain ⟨-,-,rounds',ran',-,once,inside,-⟩ :=
    bodyRounds_cover fresh rfl opened ready found filled
  exact ⟨root,id,s₀,s,s',rounds',fresh,rfl,opened,ready,found,filled,ran',once,inside⟩

/-- The headers and footers that are filled when a document is opened, and which of their paragraphs
are. -/
theorem openingRounds_cover (fresh : template.Fresh) (usual : setup.settings = {}) {o : Options}
    {root : NodeId} {s : Session} (opened : opening o setup { package := template } = .ok root s) :
    ∃ margins, openingRounds o setup { package := template } = .ok (root,margins) s ∧
      ∀ m ∈ margins, Covers m.before.package.forest m.root m.rounds := by
  rw [opening_eq,Generation.bind_apply] at opened
  split at opened
  · next r s' ran =>
    obtain ⟨rfl,rfl⟩ := EStateM.Result.ok.inj opened
    obtain ⟨_,-,-,-,-,covered⟩ :=
      (ends_openingRounds (World.sound_initial fresh) (.of_default usual) o).coarse.of_ok ran
    exact ⟨r.2,ran,covered⟩
  · simp at opened

/-- A template with a header in which a table stands in a cell of another one. -/
def nestedTemplate : Package where
  parts := [(documentPart,Text.encode "<d/>"),("word/header1.xml",Text.encode ("<hdr " ++
    "xmlns=\"http://schemas.openxmlformats.org/wordprocessingml/2006/main\"><tbl><tr><tc>" ++
    "<tbl><tr><tc><p/></tc></tr></tbl></tc></tr></tbl></hdr>"))]
  order := [documentPart,"word/header1.xml"]

/-- A header is wanted. -/
def nestedOptions : Options :=
  { header := .text "T" }

/-- A paragraph of a deeper table that is in the tree to the end and is not filled. -/
def DeepLeft (m : Margin) (s : Session) : Prop :=
  ∃ t ∈ m.before.package.forest.named m.root tableName, t ≠ m.root ∧
    t ∉ m.before.package.forest.children m.root ∧
      ∃ p ∈ m.before.package.forest.outside t paragraphName tableName,
        p ∈ s.package.forest.tree m.root ∧ p ∉ passed m.rounds

instance (m : Margin) (s : Session) : Decidable (DeepLeft m s) :=
  inferInstanceAs (Decidable (∃ _ ∈ _, _))

private def nestedRun : Bool :=
  match openingRounds nestedOptions {} { package := nestedTemplate } with
  | .ok (_,margins) s => decide (∃ m ∈ margins, DeepLeft m s)
  | .error _ _ => false

theorem openingRounds_cover_nested : ∃ root margins s, nestedTemplate.Fresh ∧
    ({} : Setup).settings = {} ∧
      opening nestedOptions {} { package := nestedTemplate } = .ok root s ∧
        openingRounds nestedOptions {} { package := nestedTemplate } = .ok (root,margins) s ∧
          (∀ m ∈ margins, Covers m.before.package.forest m.root m.rounds) ∧
            ∃ m ∈ margins, DeepLeft m s := by
  have ran : nestedRun = true := by decide +kernel
  unfold nestedRun at ran
  split at ran
  · next root margins s filled =>
    have opened : opening nestedOptions {} { package := nestedTemplate } = .ok root s := by
      rw [opening_eq,Generation.bind_apply,filled]
      rfl
    have fresh : nestedTemplate.Fresh := ⟨rfl,rfl,rfl,rfl,rfl⟩
    obtain ⟨margins',filled',covered⟩ := openingRounds_cover fresh rfl opened
    rw [filled] at filled'
    obtain ⟨⟨-,rfl⟩,-⟩ := EStateM.Result.ok.inj filled'
    exact ⟨root,margins,s,fresh,rfl,opened,filled,covered,of_decide_eq_true ran⟩
  · simp at ran

end MailMerge.Fill
