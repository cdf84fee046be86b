import MailMerge.Fill.Document
import MailMerge.Proofs.Generation.Passed

/-! Filling headers and footers. Of the tables of a header or footer only those that stand directly in
it are filled, so a paragraph in it is filled if and only if the nearest table around it, if there is
any, is one of these; the paragraphs of deeper tables stay as they are.
-/
namespace MailMerge.Fill
open Docx Package Relation Generation

variable {setup : Setup} {scope : Scope} {w : World}

/-- Moves inside a part, seen as moves of a generation. -/
theorem ends_moved (scope : Scope) {α : Type} {step : Generation α} {post : α → World → Prop}
    (ends : Ends (Stride setup scope) setup step w post) :
    Ends (Stage setup) setup step w fun a w' => post a w' ∧ Moves setup scope w w' :=
  ends.retain (move_le_leg setup scope)

/-- The root that is asked for belongs to its part. -/
theorem ends_partRoot (sound : w.Sound) {part : String} (direct : IsDirect part) :
    Ends (Stage setup) setup (onPackage (Packaging.root? part)) w fun found w' => w'.Sound ∧
      ∀ root, found = some root → w'.Knows part root := by
  apply ((tracks_root? sound (Or.inl direct)).retain (serve_le_leg setup)).mono
  rintro found w' - ⟨⟨known,-⟩,serves⟩
  exact ⟨Serves.sound serves sound,known⟩

/-- Work goes on in a part whose tree is known. -/
theorem ends_goTo (sound : w.Sound) {part : String} (direct : IsDirect part)
    {root : NodeId} (knows : w.Knows part root) :
    Ends (Stage setup) setup (moveTo part) w fun _ w' => w'.Placed ∧ w'.Owned root := by
  obtain ⟨t,known,rfl⟩ := knows
  have leg : Leg setup w _ := Leg.goTo part
  exact Ends.of_modify _ _ rfl (.of_beside leg (.of_same rfl rfl rfl))
    ⟨⟨sound.leg leg,direct,t,known⟩,(sound.tree part t known).1⟩

/-- A new element is put in front of the children of a root. -/
theorem ends_putFirst (placed : w.Placed) {root new : NodeId} (owned : w.Owned root)
    (new_owned : w.Owned new) (deeper : w.grove.level root < w.grove.level new)
    (loose : w.package.forest.Loose new) (last : new + 1 = w.package.forest.nodes.size) :
    Ends (Stage setup) setup (edit (·.insertAt root 0 new)) w fun _ w' =>
      w'.Placed ∧ w'.Owned root ∧ (∀ id, w.Paragraph id → w'.Paragraph id) ∧
        ∃ g, Grove.Edit setup.settings w.session.part w.grove g ∧ w' = w.withGrove g := by
  have put : Grove.Edit setup.settings w.session.part w.grove _ :=
    Grove.Edit.put owned (List.nil_append _).symm new_owned deeper loose last
  have leg : Leg setup w _ := Leg.edit placed.direct put
  have inserted : w.package.forest.insertAt root 0 new =
      (w.grove.setChildren root ([] ++ new :: w.grove.forest.children root)).forest :=
    Forest.insertAt_eq w.package.forest (List.nil_append _).symm new
  have stage : Stage setup w _ := .of_beside leg (beside_edit placed.sound placed.direct put)
  refine ⟨_,?_,ReflTransGen.single stage,⟨placed.sound.leg leg,placed.direct,placed.held⟩,
    put.later.within owned,fun id paragraph => ⟨put.later.within paragraph.owned,
      (put.later.name_eq id paragraph.owned.1).trans paragraph.kind⟩,_,put,rfl⟩
  simp only [World.withGrove,← inserted]
  rfl

theorem ends_firstParagraph (placed : w.Placed) {root : NodeId} (owned : w.Owned root) :
    Ends (Stage setup) setup (firstParagraph root) w fun first w' =>
      w'.Placed ∧ w'.Owned root ∧ w'.Paragraph first := by
  unfold firstParagraph
  apply Ends.of_look_forest
  split
  · next first found =>
    have kind := List.find?_some (p := fun id => w.package.forest.name id == paragraphName) found
    exact Ends.of_pure ⟨placed,owned,placed.sound.sorted.within_childNamed owned found,
      eq_of_beq kind⟩
  · apply Ends.of_then (ends_moved Scope.all
      (ends_plant placed Built.emptyParagraph fun _ => lacks_table_emptyParagraph))
    rintro first w₁ - ⟨planted,moves₁⟩
    have paragraph : w₁.Paragraph first := ⟨planted.owned,planted.name_eq⟩
    apply Ends.of_then (ends_putFirst (placed.moves moves₁) (owned.moves moves₁) planted.owned
      (planted.deeper root owned) planted.loose planted.last)
    rintro _ w₂ - ⟨placed₂,owned₂,kept,-⟩
    exact Ends.of_pure ⟨placed₂,owned₂,kept first paragraph⟩

/-- What is recorded when there is no part to work in. -/
theorem ends_noPart (sound : w.Sound) (message : String) (kind : Directive.Kind)
    (key : Value) (reason : String) : Ends (Stage setup) setup (do
      log .warning message
      moveTo ""
      record kind key .skipped reason) w fun _ w' => w'.Sound := by
  apply Ends.of_then (ends_moved Scope.all (ends_log .warning message))
  rintro _ w₁ - ⟨_,moves₁⟩
  have sound₁ := (Moves.legs moves₁).sound sound
  have leg : Leg setup w₁ _ := Leg.goTo ""
  have stage : Stage setup w₁ _ := .of_beside leg (.of_same rfl rfl rfl)
  apply Ends.of_then (Ends.of_modify (fun _ w' => w'.Sound) _ rfl stage (sound₁.leg leg))
  intro _ w₂ _ sound₂
  apply (ends_moved Scope.all (ends_record kind key .skipped reason)).mono
  rintro _ w₃ - ⟨_,moves₃⟩
  exact (Moves.legs moves₃).sound sound₂

/-- A header or footer that was filled: its part and the root of its tree, the state in which the tree
is indexed, and the rounds in which it is filled. -/
structure Margin where
  part : String
  root : NodeId
  before : Session
  rounds : List Round

/-- Which paragraphs below the root of a header or footer are filled: those that the root or a table
that stands directly below it has outside its tables, if they are in the tree when their round comes. -/
structure Covers (f : Forest) (root : NodeId) (rounds : List Round) : Prop where
  elements : rounds.map (·.element) = root :: f.childrenNamed root tableName
  once : (passed rounds).Nodup
  inside : passed rounds ⊆ f.named root paragraphName
  filled : ∀ round ∈ rounds, ∀ p ∈ f.outside round.element paragraphName tableName,
    p ∈ passed rounds ↔ round.state.package.forest.Below root p
  deep : ∀ t ∈ f.named root tableName, t ≠ root → t ∉ f.children root →
    ∀ p ∈ f.outside t paragraphName tableName, p ∉ passed rounds

/-- What holds of the headers or footers that were filled. -/
def AllCovered (margins : List Margin) : Prop :=
  ∀ m ∈ margins, Covers m.before.package.forest m.root m.rounds

/-- Fills a header or footer as `marginPart` does, with its rounds. -/
def marginPartRounds (kind : Directive.Kind) (text : Value) (part : String) :
    Generation (List Margin) := do
  match ← Generation.onPackage (Packaging.root? part) with
  | none => return []
  | some root =>
    Generation.moveTo part
    let first ← firstParagraph root
    let text ← Generation.ofExcept text.written
    Generation.edit (·.setParagraphText first text)
    let before ← get
    let rounds ← marginRounds root
    Generation.record kind (.text part) .applied
    Generation.log .debug s!"Updated {kind.label} part {part}"
    return [⟨part,root,before,rounds⟩]

/-- Fills some headers or footers. -/
def marginPartsRounds (kind : Directive.Kind) (text : Value) : List String →
    Generation (List Margin)
  | [] => return []
  | part :: parts => do
    let here ← marginPartRounds kind text part
    return here ++ (← marginPartsRounds kind text parts)

/-- Fills all headers or all footers as `margins` does, with their rounds. -/
def marginsRounds (kind : Directive.Kind) (pattern : String) (text : Value) :
    Generation (List Margin) := do
  match ← Generation.ofExcept ((← get).package.find pattern) with
  | [] =>
    Generation.log .warning s!"No {kind.label} files found in the template"
    Generation.moveTo ""
    Generation.record kind (.text kind.label) .skipped s!"template has no {kind.label} parts"
    return []
  | parts => marginPartsRounds kind text parts

theorem marginPart_eq (kind : Directive.Kind) (text : Value) (part : String) :
    marginPart kind text part = do
      let _ ← marginPartRounds kind text part
      return () := by
  simp only [marginPart,marginPartRounds,marginTree_eq,bind_assoc]
  refine bind_congr fun found => ?_
  cases found with
  | none => rfl
  | some root =>
    simp only [bind_assoc,pure_bind,bind_pure_unit]
    rfl

theorem margins_eq (kind : Directive.Kind) (pattern : String) (text : Value) :
    margins kind pattern text = do
      let _ ← marginsRounds kind pattern text
      return () := by
  have parts_eq (parts : List String) :
      (do for part in parts do marginPart kind text part) = do
        let _ ← marginPartsRounds kind text parts
        return () := by
    induction parts with
    | nil => rfl
    | cons part parts ih =>
      simp only [List.forIn_cons,marginPart_eq,marginPartsRounds,bind_assoc,pure_bind] at ih ⊢
      simp only [ih]
  simp only [margins,marginsRounds,bind_assoc]
  refine bind_congr fun s => bind_congr fun parts => ?_
  cases parts with
  | nil => rfl
  | cons part parts => exact parts_eq (part :: parts)

section
variable {start w' : World} {root : NodeId} {rounds : List Round} (site : Site start root root)
  (courses : Courses setup start.package.forest.nodes.size false start rounds w')
  (elements : rounds.map (·.element) = root :: start.package.forest.childrenNamed root tableName)
include elements

private theorem margin_element {round : Round} (member : round ∈ rounds) : round.element = root ∨
    (start.package.forest.Child root round.element ∧
      start.package.forest.name round.element = tableName) := by
  have listed : round.element ∈ rounds.map (·.element) := List.mem_map_of_mem member
  rw [elements,List.mem_cons] at listed
  exact listed.imp_right fun child =>
    ⟨List.mem_of_mem_filter child,eq_of_beq (List.mem_filter.mp child).2⟩

private theorem margin_place {round : Round} (member : round ∈ rounds) :
    Site.Place start root round.element := by
  rcases margin_element elements member with same | ⟨child,named⟩
  · exact ⟨same ▸ ReflTransGen.refl,Or.inl same⟩
  · exact ⟨ReflTransGen.single child,Or.inr named⟩

include site courses

/-- The rounds of a header or footer are fair, and they have different elements. -/
private theorem margin_run : (rounds.map (·.element)).Nodup ∧ (passed rounds).Nodup ∧
    ∀ before round after, rounds = before ++ round :: after →
      round.Fair start.package.forest root (passed before) := by
  have sorted := site.ready.sound.sorted
  have branching := site.ready.sound.branching
  have nodup : (rounds.map (·.element)).Nodup := by
    rw [elements]
    refine List.nodup_cons.mpr ⟨fun member => ?_,(branching.nodup root).filter _⟩
    exact Nat.lt_irrefl _ (sorted.below _ _ (List.mem_of_mem_filter member)).2.2
  obtain ⟨once,fair,-⟩ := site.fair_run courses (fun _ => margin_place elements) nodup
    fun optional => Bool.noConfusion optional
  exact ⟨nodup,once,fair⟩

/-- What is filled is a paragraph outside for the element of its round. -/
private theorem margin_home {p : NodeId} (member : p ∈ passed rounds) : ∃ round ∈ rounds,
    p ∈ start.package.forest.outside round.element paragraphName tableName ∧
      round.state.package.forest.Below round.element p := by
  obtain ⟨-,-,fair⟩ := margin_run site courses elements
  obtain ⟨round,listed,here⟩ := List.mem_flatMap.mp member
  obtain ⟨before,after,split⟩ := List.append_of_mem listed
  have fair := fair before round after split
  exact ⟨round,listed,fair.listed here,fair.present p here⟩

/-- The tables that stand directly in a header or footer stay there. -/
private theorem margin_stays {round : Round} (member : round ∈ rounds) :
    round.state.package.forest.Below root round.element := by
  have sorted := site.ready.sound.sorted
  obtain ⟨-,-,fair⟩ := margin_run site courses elements
  rcases margin_element elements member with same | ⟨child,named⟩
  · rw [same]
  · obtain ⟨before,after,split⟩ := List.append_of_mem member
    by_cases stays : round.state.package.forest.Child root round.element
    · exact ReflTransGen.single stays
    rcases (fair before round after split).left root _ ReflTransGen.refl child stays with
      filled | ⟨-,other⟩ | ⟨-,other⟩
    · have filled' : round.element ∈ passed rounds := by
        rw [split,passed,List.flatMap_append]
        exact List.mem_append_left _ filled
      obtain ⟨_,-,outside,-⟩ := margin_home site courses elements filled'
      have paragraph := ((Forest.mem_outside_iff sorted).mp outside).1
      exact absurd (paragraph.symm.trans named) (by decide)
    · exact absurd (named.symm.trans other) (by decide)
    · exact absurd (named.symm.trans other) (by decide)

private theorem covers_of_courses : Covers start.package.forest root rounds := by
  have sorted := site.ready.sound.sorted
  obtain ⟨nodup,once,fair⟩ := margin_run site courses elements
  refine ⟨elements,once,?_,?_,?_⟩
  · intro p member
    obtain ⟨round,listed,outside,-⟩ := margin_home site courses elements member
    obtain ⟨named,clear⟩ := (Forest.mem_outside_iff sorted).mp outside
    exact (Forest.mem_named_iff sorted).mpr
      ⟨(margin_place elements listed).path.trans clear.path,named⟩
  · intro round listed p outside
    constructor
    · intro member
      obtain ⟨round',listed',outside',below⟩ := margin_home site courses elements member
      have same := site.place_unique (margin_place elements listed) (margin_place elements listed')
        outside outside'
      obtain rfl := List.inj_on_of_nodup_map nodup listed listed' same
      exact (margin_stays site courses elements listed).trans below
    · intro below
      obtain ⟨before,after,split⟩ := List.append_of_mem listed
      by_contra omitted
      refine ((fair before round after split).missed p outside fun member => ?_).away below
      exact omitted (List.mem_flatMap.mpr ⟨round,listed,member⟩)
  · intro t inside other deep p outside member
    obtain ⟨path,named⟩ := (Forest.mem_named_iff sorted).mp inside
    obtain ⟨round,listed,outside',-⟩ := margin_home site courses elements member
    have same := site.place_unique ⟨path,Or.inr named⟩ (margin_place elements listed) outside outside'
    rcases margin_element elements listed with here | ⟨child,-⟩
    · exact other (same.trans here)
    · exact deep (same ▸ child)

end

theorem ends_marginPartRounds (sound : w.Sound) (kind : Directive.Kind) (text : Value)
    {part : String} (direct : IsDirect part) :
    Ends (Stage setup) setup (marginPartRounds kind text part) w fun filled w' =>
      w'.Sound ∧ AllCovered filled := by
  unfold marginPartRounds
  apply Ends.of_then (ends_partRoot sound direct)
  rintro found w₁ - ⟨sound₁,known⟩
  split
  · exact Ends.of_pure ⟨sound₁,by simp [AllCovered]⟩
  · next root =>
    apply Ends.of_then (ends_goTo sound₁ direct (known root rfl))
    rintro _ w₂ - ⟨placed₂,owned₂⟩
    apply Ends.of_then (ends_firstParagraph placed₂ owned₂)
    rintro first w₃ - ⟨placed₃,owned₃,paragraph⟩
    apply Ends.of_given
    intro text _
    apply Ends.of_then (ends_moved Scope.all (ends_edit placed₃
      (·.setParagraphText first text) (Grove.reaches_setParagraphText placed₃.sound.orderly
        paragraph.owned paragraph.kind text)))
    rintro _ w₄ - ⟨-,moves₄⟩
    have placed₄ := placed₃.moves moves₄
    apply Ends.of_look
    apply Ends.of_then (ends_marginRounds placed₄ (owned₃.moves moves₄))
    rintro rounds w₅ legs₅ ⟨start,session_eq,ready,owned,courses,elements⟩
    have sound₅ := Legs.sound legs₅ placed₄.sound
    apply Ends.of_then (ends_moved Scope.all (ends_record kind _ _ _))
    rintro _ w₆ - ⟨-,moves₆⟩
    apply Ends.of_then (ends_moved Scope.all (ends_log _ _))
    rintro _ w₇ - ⟨-,moves₇⟩
    refine Ends.of_pure ⟨(Moves.legs (moves₆.trans moves₇)).sound sound₅,?_⟩
    intro m member
    obtain rfl := List.mem_singleton.mp member
    have forest_eq : start.package.forest = w₄.package.forest := by
      rw [World.package,session_eq]
      rfl
    have site : Site start root root := ⟨?_,owned,?_,ReflTransGen.refl⟩
    · rw [← forest_eq] at elements courses
      exact forest_eq ▸ covers_of_courses site courses elements
    · exact forest_eq ▸ ready
    · rw [session_eq]
      exact Index.root_recordBelow _ _ root

private theorem ends_marginPartsRounds (sound : w.Sound) (kind : Directive.Kind) (text : Value)
    {parts : List String} (direct : ∀ part ∈ parts, IsDirect part) :
    Ends (Stage setup) setup (marginPartsRounds kind text parts) w fun filled w' =>
      w'.Sound ∧ AllCovered filled := by
  induction parts generalizing w with
  | nil => exact Ends.of_pure ⟨sound,by simp [AllCovered]⟩
  | cons part parts ih =>
    obtain ⟨here,rest⟩ := List.forall_mem_cons.mp direct
    rw [marginPartsRounds]
    apply Ends.of_then (ends_marginPartRounds sound kind text here)
    rintro first w₁ - ⟨sound₁,covered₁⟩
    apply Ends.of_then (ih sound₁ rest)
    rintro others w₂ - ⟨sound₂,covered₂⟩
    exact Ends.of_pure ⟨sound₂,fun m member =>
      (List.mem_append.mp member).elim (covered₁ m) (covered₂ m)⟩

theorem ends_marginsRounds (sound : w.Sound) (kind : Directive.Kind) {pattern : String}
    (usual : pattern = ({} : Settings).headerPattern ∨ pattern = ({} : Settings).footerPattern)
    (text : Value) :
    Ends (Stage setup) setup (marginsRounds kind pattern text) w fun filled w' =>
      w'.Sound ∧ AllCovered filled := by
  unfold marginsRounds
  apply Ends.of_look
  apply Ends.of_given
  intro parts found
  split
  · have none : Ends (Stage setup) setup ((do
        log .warning s!"No {kind.label} files found in the template"
        moveTo ""
        record kind (.text kind.label) .skipped s!"template has no {kind.label} parts") >>=
          fun _ => (pure [] : Generation (List Margin))) w
        fun filled w' => w'.Sound ∧ AllCovered filled := by
      apply Ends.of_then (ends_noPart sound _ kind _ _)
      intro _ _ _ sound'
      exact Ends.of_pure ⟨sound',by simp [AllCovered]⟩
    simpa only [bind_assoc] using none
  · exact ends_marginPartsRounds sound kind text (isDirect_of_mem_find usual found)

end MailMerge.Fill
