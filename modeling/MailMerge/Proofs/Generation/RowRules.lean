import MailMerge.Proofs.Directive.Tight
import MailMerge.Proofs.Generation.Recorded
import MailMerge.Proofs.Tree.Dressed
import MailMerge.Table.Style

/-! Rules of rows. Each row after the first is judged against its item, styled when the rule holds, and loses
the rule. The rule is found in the text of the whole cell, but it is taken out of the first paragraph that
holds all of it: a rule that is spread over paragraphs stays. What one row does leaves the texts of all other
cells alone, so that every rule is the one that was there at the beginning.
-/
namespace MailMerge
open Xml Docx Directive Generation Relation

namespace Forest

/-- An element in which no paragraph is inside another one, and no run. -/
structure Level (f : Forest) (id : NodeId) : Prop where
  paragraphs : ∀ p q, f.Below id p → f.name p = paragraphName → f.Below p q → f.name q = paragraphName → q = p
  runs : ∀ r r', f.Below id r → f.name r = runName → f.Below r r' → f.name r' = runName → r' = r

variable {f g : Forest} {place : NodeId → Prop} {id p : NodeId}

theorem Neat.level (neat : f.Neat)
    (paragraphs : ∀ p ∈ f.named id paragraphName, ∀ q ∈ f.named p paragraphName, q = p)
    (runs : ∀ r ∈ f.named id runName, ∀ r' ∈ f.named r runName, r' = r) : f.Level id :=
  ⟨fun p q above kind below kind' =>
      paragraphs p (neat.mem_named.mpr ⟨above,kind⟩) q (neat.mem_named.mpr ⟨below,kind'⟩),
    fun r r' above kind below kind' =>
      runs r (neat.mem_named.mpr ⟨above,kind⟩) r' (neat.mem_named.mpr ⟨below,kind'⟩)⟩

theorem Level.dressed (level : f.Level id) (neat : f.Neat) (inside : id < f.nodes.size)
    (dressed : Dressed f g place) : g.Level id := by
  have back {name : Name} (bearer : isBearer name = true) {top n : NodeId} (inside : top < f.nodes.size)
      (path : g.Below top n) (kind : g.name n = name) :
      f.Below top n ∧ f.name n = name ∧ n < f.nodes.size := by
    have member := dressed.named_eq neat bearer inside ▸ dressed.neat.mem_named.mpr ⟨path,kind⟩
    obtain ⟨path,kind⟩ := neat.mem_named.mp member
    exact ⟨path,kind,lt_size_of_isBearer (kind ▸ bearer)⟩
  refine ⟨fun p q path kind path' kind' => ?_,fun r r' path kind path' kind' => ?_⟩
  · obtain ⟨above,named,old⟩ := back (by decide) inside path kind
    obtain ⟨below,named',-⟩ := back (by decide) old path' kind'
    exact level.paragraphs p q above named below named'
  · obtain ⟨above,named,old⟩ := back (by decide) inside path kind
    obtain ⟨below,named',-⟩ := back (by decide) old path' kind'
    exact level.runs r r' above named below named'

theorem Neat.mem_textElements (neat : f.Neat) {n : NodeId} (member : n ∈ f.textElements p) :
    f.Below p n ∧ f.name n = textName := by
  obtain ⟨run,above,below⟩ := List.mem_flatMap.mp member
  obtain ⟨path,-⟩ := neat.mem_named.mp above
  exact (neat.mem_named.mp below).imp_left path.trans

end Forest

namespace Table
open Forest

variable {f g : Forest} {place : NodeId → Prop} {cell : NodeId}

/-- A rule is taken out of the first paragraph of a cell that holds it, and no other text is changed. -/
theorem dressed_strip (neat : f.Neat) (level : f.Level cell) {raw : List Char}
    (some : raw ≠ []) :
    Dressed f (strip f cell raw) (· ∈ f.named cell textName) ∧
      (strip f cell raw).paragraphTexts cell = stripFirst raw (f.paragraphTexts cell) := by
  unfold strip
  cases found : (f.named cell paragraphName).find? fun p => Text.occursIn raw (f.paragraphText p) with
  | none =>
    refine ⟨.refl neat,(stripFirst_of_absent fun t member => ?_).symm⟩
    obtain ⟨p,listed,rfl⟩ := List.mem_map.mp member
    exact Bool.eq_false_of_not_eq_true (List.find?_eq_none.mp found p listed)
  | some p =>
    obtain ⟨present,before,after,split,absent⟩ := List.find?_eq_some_iff_append.mp found
    have listed {q : NodeId} (member : q ∈ before ++ p :: after) : f.Below cell q ∧ f.name q = paragraphName :=
      neat.mem_named.mp (split ▸ member)
    obtain ⟨path,kind⟩ := listed (List.mem_append_right before List.mem_cons_self)
    obtain ⟨depth,sorted⟩ := neat.acyclic.sorted
    have nodup := nodup_named sorted neat.branching cell paragraphName
    rw [split] at nodup
    have texts : f.textElements p ≠ [] := by
      intro empty
      have silent : f.paragraphText p = [] := by rw [paragraphText,empty,joinedText,List.flatMap_nil]
      simp [silent,Text.occursIn,Text.cut?,some] at present
    have sorted' : f.Sorted (fun _ => "") depth :=
      ⟨fun parent child here => ⟨(sorted.below parent child here).1,rfl,(sorted.below parent child here).2.2⟩,
        sorted.bounded⟩
    have flat : f.Flat p := ⟨kind,neat.branching,⟨_,_,sorted'⟩,
      fun r r' above named below named' => level.runs r r' (path.trans above) named below named'⟩
    have retexted := (written_setParagraphText sorted neat.branching kind
      (String.ofList (Text.replaceFirst raw [] (f.paragraphText p)))).filled texts
    have written := flat.paragraphText_eq (Text.replaceFirst raw [] (f.paragraphText p))
    dsimp only
    generalize f.setParagraphText p _ = g at retexted written
    have dressed := neat.retext retexted
    refine ⟨dressed.mono fun n member => ?_,?_⟩
    · obtain ⟨below,text⟩ := neat.mem_textElements member
      exact neat.mem_named.mpr ⟨path.trans below,text⟩
    -- a text element of another paragraph would put one of the two inside the other
    have aside {q : NodeId} (member : q ∈ before ++ p :: after) (other : q ≠ p) :
        g.paragraphText q = f.paragraphText q := by
      obtain ⟨path',kind'⟩ := listed member
      refine dressed.paragraphText_eq neat (lt_size_of_isBearer (kind' ▸ by decide)) fun n here here' => ?_
      rcases neat.branching.total (neat.mem_textElements here).1 (neat.mem_textElements here').1 with way | way
      · exact other (level.paragraphs q p path' kind' way kind).symm
      · exact other (level.paragraphs p q path kind way kind')
    obtain ⟨-,once,apart⟩ := List.nodup_append.mp nodup
    have front : before.map g.paragraphText = before.map f.paragraphText :=
      List.map_congr_left fun q member =>
        aside (List.mem_append_left _ member) (apart q member p List.mem_cons_self)
    have back : after.map g.paragraphText = after.map f.paragraphText :=
      List.map_congr_left fun q member => aside (List.mem_append_right _ (List.mem_cons_of_mem p member))
        fun same => (List.nodup_cons.mp once).1 (same ▸ member)
    have silent : ∀ t ∈ before.map f.paragraphText, Text.occursIn raw t = false := by
      intro t member
      obtain ⟨q,listed,rfl⟩ := List.mem_map.mp member
      simpa using absent q listed
    rw [paragraphTexts,paragraphTexts,retexted.named_eq,split,List.map_append,List.map_append,List.map_cons,
      List.map_cons,stripFirst_append raw _ silent present,front,back,written]

/-- A rule in the first cell of a row, with what the row's item makes of it. -/
structure Ruling where
  row : NodeId
  cell : NodeId
  rule : Found RowRule
  holds : Bool

/-- What an item makes of a rule. A rule that cannot be judged does not hold. -/
def judged (item : Value) (rule : RowRule) : Bool :=
  match Condition.judgeRow item rule.field rule.operator rule.value with
  | .ok (.holds b) => b
  | _ => false

/-- The first rule in the text of a row's first cell. -/
def ruling? (f : Forest) (pair : NodeId × Value) : Option Ruling := do
  let cell ← f.childNamed? pair.1 cellName
  let rule ← first? rowRule? (f.cellText cell)
  return ⟨pair.1,cell,rule,judged pair.2 rule.value⟩

/-- The rules of a table's rows after the first, each with the item at its place. -/
def rulings (f : Forest) (table : NodeId) (items : List Value) : List Ruling :=
  (((rows f table).drop 1).zip items).filterMap (ruling? f)

namespace Ruling

/-- Styles the row of a rule that holds, and takes the rule out of its cell. -/
def apply (s : Settings) (f : Forest) (r : Ruling) : Forest :=
  strip (if r.holds then styleRow s f r.row r.rule.value.style else f) r.cell r.rule.raw

/-- What is recorded for a rule. -/
def outcome (part : String) (r : Ruling) : Outcome :=
  ⟨.rowCondition,.text (r.rule.value.field ++ r.rule.value.operator ++ r.rule.value.value),
    if r.holds then .applied else .skipped,"",part⟩

end Ruling

/-- What the rules of some rows make of a forest, one after the other. -/
structure Ruled (s : Settings) (f : Forest) (rulings : List Ruling) (g : Forest) : Prop where
  forest_eq : g = rulings.foldl (Ruling.apply s) f
  dressed : Dressed f g fun n => ∃ r ∈ rulings, n ∈ f.named r.cell textName
  texts_eq : ∀ r ∈ rulings, g.paragraphTexts r.cell = stripFirst r.rule.raw (f.paragraphTexts r.cell)

variable {setup : Setup} {s : Session}

private theorem gives_ruleHolds (item : Value) (rule : RowRule) : Gives setup (ruleHolds item rule) s
    fun b s' => b = judged item rule ∧ s.Records [] s' := by
  refine .of_bind fun verdict s₁ ran => ?_
  obtain ⟨given,rfl⟩ := eq_ok_of_ofExcept ran
  cases verdict with
  | holds b => exact .of_pure ⟨by rw [judged,given],.refl s₁⟩
  | invalid reason =>
    refine .of_bind fun _ s₂ logged => .of_pure ⟨by rw [judged,given],?_⟩
    obtain ⟨-,rfl⟩ := EStateM.Result.ok.inj logged
    exact ⟨⟨⟨rfl,rfl,rfl,rfl,rfl⟩,rfl,rfl⟩,(List.append_nil _).symm⟩

/-- A session in which the rule of a row was applied. -/
structure Applied (setup : Setup) (s : Session) (recorded : Bool) (r : Ruling) (s' : Session) : Prop where
  forest_eq : s'.package.forest = r.apply setup.settings s.package.forest
  part_eq : s'.part = s.part
  outcomes_eq : s'.outcomes = s.outcomes ++ if recorded then [r.outcome s.part] else []

/-- The last steps: the rule is taken out and recorded. -/
private theorem gives_applied (recorded : Bool) (r : Ruling) {s₁ : Session}
    (forest_eq : s₁.package.forest = if r.holds then styleRow setup.settings s.package.forest r.row
      r.rule.value.style else s.package.forest)
    (part_eq : s₁.part = s.part) (outcomes_eq : s₁.outcomes = s.outcomes) : Gives setup (do
      edit (strip · r.cell r.rule.raw)
      if recorded then
        record .rowCondition (.text (r.rule.value.field ++ r.rule.value.operator ++ r.rule.value.value))
          (if r.holds then .applied else .skipped)) s₁ fun _ s' => Applied setup s recorded r s' := by
  refine .of_bind fun _ s₂ edited => ?_
  obtain ⟨-,rfl⟩ := EStateM.Result.ok.inj edited
  have stripped : strip s₁.package.forest r.cell r.rule.raw = r.apply setup.settings s.package.forest := by
    rw [forest_eq,Ruling.apply]
  cases recorded with
  | false => exact .of_pure ⟨stripped,part_eq,by simpa using outcomes_eq⟩
  | true =>
    intro _ s' ran
    obtain ⟨_,ran',records⟩ := exists_record .rowCondition _ _ "" setup _
    obtain ⟨-,rfl⟩ := EStateM.Result.ok.inj (ran'.symm.trans ran)
    refine ⟨records.forest_eq.trans stripped,records.part_eq.trans part_eq,records.outcomes_eq.trans ?_⟩
    exact congrArg₂ _ outcomes_eq (by rw [if_pos rfl,Ruling.outcome,← part_eq])

/-- What the rule of one row does. -/
theorem gives_applyRule (row : NodeId) (item : Value) (recorded : Bool) :
    Gives setup (applyRule row item recorded) s fun _ s' => match ruling? s.package.forest (row,item) with
      | none => s' = s
      | some r => Applied setup s recorded r s' := by
  unfold applyRule ruling?
  refine .of_look_forest ?_
  cases cell_eq : s.package.forest.childNamed? row cellName with
  | none => exact .of_pure rfl
  | some cell =>
    dsimp only [Option.bind_eq_bind,Option.bind_some]
    cases rule_eq : first? rowRule? (s.package.forest.cellText cell) with
    | none => exact .of_pure rfl
    | some rule =>
      refine .of_bind fun b s₁ ran => ?_
      obtain ⟨rfl,quiet⟩ := gives_ruleHolds item rule.value b s₁ ran
      have outcomes_eq : s₁.outcomes = s.outcomes := quiet.outcomes_eq.trans (List.append_nil _)
      change Gives setup _ s₁ fun _ s' => Applied setup s recorded ⟨row,cell,rule,judged item rule.value⟩ s'
      cases judged item rule.value with
      | false =>
        rw [if_neg Bool.false_ne_true]
        exact gives_applied recorded ⟨row,cell,rule,false⟩ quiet.forest_eq quiet.part_eq outcomes_eq
      | true =>
        rw [if_pos rfl]
        refine .of_look_setup ?_
        have styled {s₂ : Session} (quiet : s.Records [] s₂) : Gives setup (do
            edit (styleRow setup.settings · row rule.value.style)
            edit (strip · cell rule.raw)
            if recorded then
              record .rowCondition (.text (rule.value.field ++ rule.value.operator ++ rule.value.value)) .applied)
            s₂ fun _ s' => Applied setup s recorded ⟨row,cell,rule,true⟩ s' := by
          refine .of_bind fun _ s₃ edited => ?_
          obtain ⟨-,rfl⟩ := EStateM.Result.ok.inj edited
          exact gives_applied recorded ⟨row,cell,rule,true⟩
            (congrArg (styleRow setup.settings · row rule.value.style) quiet.forest_eq) quiet.part_eq
            (quiet.outcomes_eq.trans (List.append_nil _))
        split
        · refine .of_bind fun _ s₂ logged => ?_
          obtain ⟨-,rfl⟩ := EStateM.Result.ok.inj logged
          exact styled (quiet.trans ⟨⟨⟨rfl,rfl,rfl,rfl,rfl⟩,rfl,rfl⟩,(List.append_nil _).symm⟩)
        · exact styled quiet

section
variable {pairs : List (NodeId × Value)} {rs : List Ruling} {r : Ruling} {row : NodeId} {item : Value}

theorem of_ruling? (found : ruling? f (row,item) = some r) : r.row = row ∧
    f.childNamed? row cellName = some r.cell ∧ first? rowRule? (f.cellText r.cell) = some r.rule ∧
      r.holds = judged item r.rule.value := by
  obtain ⟨cell,cell_eq,found⟩ := Option.bind_eq_some_iff.mp found
  obtain ⟨rule,rule_eq,found⟩ := Option.bind_eq_some_iff.mp found
  obtain rfl := Option.some.inj found
  exact ⟨rfl,cell_eq,rule_eq,rfl⟩

/-- What a rule does is seen in its own cell only. -/
theorem ruled_apply (neat : f.Neat) (s : Settings) (found : ruling? f (row,item) = some r)
    (level : f.Level r.cell) : Ruled s f [r] (r.apply s f) := by
  obtain ⟨rfl,cell_eq,rule_eq,-⟩ := of_ruling? found
  have inside : r.cell < f.nodes.size := neat.branching.below _ _ (List.mem_of_find?_eq_some cell_eq)
  have styled : Dressed f (if r.holds then styleRow s f r.row r.rule.value.style else f) fun _ => False := by
    split
    · exact dressed_styleRow neat s r.row _
    · exact .refl neat
  obtain ⟨-,-,-,-,some,-⟩ := exists_place tight_rowRule rule_eq
  obtain ⟨stripped,texts_eq⟩ := dressed_strip styled.neat (level.dressed neat inside styled) some
  refine ⟨rfl,(styled.mono nofun).trans (stripped.mono fun n member => ?_),fun r' member => ?_⟩
  · exact ⟨r,List.mem_singleton_self r,styled.named_eq neat (by decide : isBearer textName = true) inside ▸ member⟩
  · obtain rfl := List.mem_singleton.mp member
    exact texts_eq.trans (congrArg _ (styled.paragraphTexts_eq neat inside fun _ _ => id))

/-- Rules in cells that have nothing in common do not see each other. -/
theorem Ruled.cons {s : Settings} {h : Forest} (first : Ruled s f [r] g) (later : Ruled s g rs h) (neat : f.Neat)
    (inside : ∀ r' ∈ r :: rs, r'.cell < f.nodes.size)
    (apart : ∀ r' ∈ rs, ∀ n, f.Below r.cell n → ¬ f.Below r'.cell n) : Ruled s f (r :: rs) h := by
  obtain ⟨here,inside⟩ := List.forall_mem_cons.mp inside
  have old {n : NodeId} {r' : Ruling} (member : r' ∈ rs) (listed : n ∈ g.named r'.cell textName) :
      n ∈ f.named r'.cell textName := first.dressed.named_eq neat (by decide : isBearer textName = true) (inside r' member) ▸ listed
  refine ⟨by rw [later.forest_eq,first.forest_eq]; rfl,?_,List.forall_mem_cons.mpr ⟨?_,fun r' member => ?_⟩⟩
  · refine (first.dressed.mono fun n member => ?_).trans (later.dressed.mono fun n member => ?_)
    · obtain ⟨r',one,listed⟩ := member
      exact ⟨r',List.mem_cons.mpr (Or.inl (List.mem_singleton.mp one)),listed⟩
    · obtain ⟨r',member,listed⟩ := member
      exact ⟨r',List.mem_cons_of_mem r member,old member listed⟩
  · have same : h.paragraphTexts r.cell = g.paragraphTexts r.cell := by
      refine later.dressed.paragraphTexts_eq first.dressed.neat
        (Nat.lt_of_lt_of_le here first.dressed.size_le) fun n below => ?_
      rintro ⟨r',member,listed⟩
      obtain ⟨path,kind⟩ := neat.mem_named.mp (old member listed)
      exact apart r' member n ((first.dressed.below_iff neat (by decide) here kind).mp below) path
    exact same.trans (first.texts_eq r (List.mem_singleton_self r))
  · have same : g.paragraphTexts r'.cell = f.paragraphTexts r'.cell := by
      refine first.dressed.paragraphTexts_eq neat (inside r' member) fun n below => ?_
      rintro ⟨_,one,listed⟩
      obtain rfl := List.mem_singleton.mp one
      exact apart r' member n (neat.mem_named.mp listed).1 below
    rw [later.texts_eq r' member,same]

end

/-- Nothing is in cells of different rows of a table. -/
private theorem apart_of_rows (neat : f.Neat) {table row row' cell cell' : NodeId}
    (member : row ∈ rows f table) (member' : row' ∈ rows f table) (different : row ≠ row')
    (here : f.Child row cell) (here' : f.Child row' cell') (n : NodeId) (path : f.Below cell n) :
    ¬ f.Below cell' n := by
  obtain ⟨depth,sorted⟩ := neat.acyclic.sorted
  exact fun path' => different (child_unique sorted neat.branching (List.mem_filter.mp member).1
    (List.mem_filter.mp member').1 (.head here path) (.head here' path'))

section
variable {table : NodeId} {pairs : List (NodeId × Value)}

/-- Rows of a table that are told apart, each with its item. -/
structure Paired (f : Forest) (table : NodeId) (pairs : List (NodeId × Value)) : Prop where
  rows : ∀ pair ∈ pairs, pair.1 ∈ rows f table
  distinct : pairs.Pairwise fun a b => a.1 ≠ b.1
  level : ∀ pair ∈ pairs, ∀ cell, f.childNamed? pair.1 cellName = some cell → f.Level cell

theorem Paired.tail {pair : NodeId × Value} (paired : Paired f table (pair :: pairs)) : Paired f table pairs :=
  ⟨fun other member => paired.rows other (List.mem_cons_of_mem _ member),paired.distinct.of_cons,
    fun other member => paired.level other (List.mem_cons_of_mem _ member)⟩

/-- What the rule of one row does leaves the rules of the others as they were. -/
private theorem Paired.ruled {row : NodeId} {item : Value} {r : Ruling} {s : Settings}
    (paired : Paired f table ((row,item) :: pairs)) (neat : f.Neat) (found : ruling? f (row,item) = some r)
    (ruled : Ruled s f [r] g) : Paired g table pairs ∧
      pairs.filterMap (ruling? g) = pairs.filterMap (ruling? f) := by
  have cells (row : NodeId) : g.childNamed? row cellName = f.childNamed? row cellName :=
    ruled.dressed.childNamed?_eq neat (by decide)
  have inside {row cell : NodeId} (here : f.childNamed? row cellName = some cell) : cell < f.nodes.size :=
    neat.branching.below row cell (List.mem_of_find?_eq_some here)
  refine ⟨⟨fun other member => ?_,paired.tail.distinct,fun other member cell here => ?_⟩,
    List.filterMap_congr fun other member => ?_⟩
  · rw [Table.rows,ruled.dressed.childrenNamed_eq neat (by decide)]
    exact paired.tail.rows other member
  · rw [cells] at here
    exact (paired.tail.level other member cell here).dressed neat (inside here) ruled.dressed
  · unfold ruling?
    rw [cells]
    cases here : f.childNamed? other.1 cellName with
    | none => rfl
    | some cell =>
      obtain ⟨rfl,cell_eq,-,-⟩ := of_ruling? found
      have different : r.row ≠ other.1 := (List.pairwise_cons.mp paired.distinct).1 other member
      have same : g.cellText cell = f.cellText cell := by
        rw [cellText_eq,cellText_eq,ruled.dressed.paragraphTexts_eq neat (inside here)]
        rintro n below ⟨r',one,listed⟩
        obtain rfl := List.mem_singleton.mp one
        exact apart_of_rows neat (paired.rows _ List.mem_cons_self) (paired.tail.rows other member) different
          (List.mem_of_find?_eq_some cell_eq) (List.mem_of_find?_eq_some here) n
            (neat.mem_named.mp listed).1 below
      simp only [Option.bind_eq_bind,Option.bind_some,same]

/-- What the rules of some rows do, one after the other. -/
private theorem gives_rules (neat : s.package.forest.Neat) (paired : Paired s.package.forest table pairs)
    (recorded : Bool) : Gives setup (forIn pairs PUnit.unit fun pair _ => do
      applyRule pair.1 pair.2 recorded
      pure (.yield PUnit.unit)) s fun _ s' =>
    Ruled setup.settings s.package.forest (pairs.filterMap (ruling? s.package.forest)) s'.package.forest ∧
      s'.outcomes = s.outcomes ++ if recorded then
        (pairs.filterMap (ruling? s.package.forest)).map (Ruling.outcome s.part) else [] := by
  induction pairs generalizing s with
  | nil => exact .of_pure ⟨⟨rfl,.refl neat,nofun⟩,by simp⟩
  | cons pair pairs ih =>
    obtain ⟨row,item⟩ := pair
    rw [List.forIn_cons]
    refine .of_bind fun step s₁ stepped => ?_
    obtain ⟨_,_,ran,yields⟩ := exists_of_bind_ok stepped
    obtain ⟨rfl,rfl⟩ := EStateM.Result.ok.inj yields
    have applied := gives_applyRule row item recorded _ _ ran
    cases found : ruling? s.package.forest (row,item) with
    | none =>
      rw [found] at applied
      obtain rfl := applied
      rw [List.filterMap_cons_none found]
      exact ih neat paired.tail
    | some r =>
      rw [found] at applied
      obtain ⟨rfl,cell_eq,-,-⟩ := of_ruling? found
      have first := ruled_apply neat setup.settings found (paired.level _ List.mem_cons_self _ cell_eq)
      rw [← applied.forest_eq] at first
      obtain ⟨paired',same⟩ := paired.ruled neat found first
      intro _ s' ran'
      obtain ⟨later,outcomes_eq⟩ := ih first.dressed.neat paired' _ s' ran'
      rw [same] at later outcomes_eq
      rw [List.filterMap_cons_some found]
      refine ⟨first.cons later neat (List.forall_mem_cons.mpr ⟨?_,fun r' member => ?_⟩) fun r' member => ?_,?_⟩
      · exact neat.branching.below _ _ (List.mem_of_find?_eq_some cell_eq)
      · obtain ⟨⟨row',item'⟩,-,found'⟩ := List.mem_filterMap.mp member
        exact neat.branching.below _ _ (List.mem_of_find?_eq_some (of_ruling? found').2.1)
      · obtain ⟨⟨row',item'⟩,listed,found'⟩ := List.mem_filterMap.mp member
        exact apart_of_rows neat (paired.rows _ List.mem_cons_self) (paired.tail.rows _ listed)
          ((List.pairwise_cons.mp paired.distinct).1 _ listed) (List.mem_of_find?_eq_some cell_eq)
            (List.mem_of_find?_eq_some (of_ruling? found').2.1)
      · rw [outcomes_eq,applied.outcomes_eq,applied.part_eq]
        cases recorded <;> simp

private theorem distinct_zip {rows : List NodeId} (nodup : rows.Nodup) (items : List Value) :
    (rows.zip items).Pairwise fun a b => a.1 ≠ b.1 := by
  induction rows generalizing items with
  | nil => exact .nil
  | cons row rows ih =>
    obtain ⟨absent,nodup⟩ := List.nodup_cons.mp nodup
    cases items with
    | nil => exact .nil
    | cons item items =>
      refine List.pairwise_cons.mpr ⟨fun b member same => absent ?_,ih nodup items⟩
      have same : row = b.1 := same
      exact same ▸ (List.of_mem_zip member).1

/-- The rules of a table. They are those of the rows after the first, as far as there are items, and each is
judged against the item at its place; the row is styled if the rule holds, and in any case the rule is taken out
of the first paragraph of the cell that holds it. Where that is the rule that was found, the text of the cell
loses it; all other cells of the table keep their texts. -/
structure RulesApplied (setup : Setup) (s : Session) (table : NodeId) (items : List Value) (recorded : Bool)
    (s' : Session) : Prop where
  forest_eq : s'.package.forest =
    (rulings s.package.forest table items).foldl (Ruling.apply setup.settings) s.package.forest
  outcomes_eq : s'.outcomes = s.outcomes ++
    if recorded then (rulings s.package.forest table items).map (Ruling.outcome s.part) else []
  texts_eq : ∀ r ∈ rulings s.package.forest table items, s'.package.forest.paragraphTexts r.cell =
    stripFirst r.rule.raw (s.package.forest.paragraphTexts r.cell)
  cellText_eq : ∀ r ∈ rulings s.package.forest table items,
    r.rule.Within (s.package.forest.paragraphTexts r.cell) → s'.package.forest.cellText r.cell =
      (s.package.forest.cellText r.cell).take r.rule.start ++
        (s.package.forest.cellText r.cell).drop r.rule.stop
  others : ∀ row ∈ rows s.package.forest table, ∀ cell ∈ s.package.forest.childrenNamed row cellName,
    (∀ r ∈ rulings s.package.forest table items, r.cell ≠ cell) →
      s'.package.forest.cellText cell = s.package.forest.cellText cell

theorem applyRules_applied {items : List Value} {recorded : Bool} (neat : s.package.forest.Neat)
    (level : ∀ row ∈ rows s.package.forest table, ∀ cell,
      s.package.forest.childNamed? row cellName = some cell → s.package.forest.Level cell)
    {s' : Session} (ran : applyRules table items recorded setup s = .ok () s') :
    RulesApplied setup s table items recorded s' := by
  have listed {pair : NodeId × Value} (member : pair ∈ ((rows s.package.forest table).drop 1).zip items) :
      pair.1 ∈ rows s.package.forest table := List.mem_of_mem_drop (List.of_mem_zip member).1
  have nodup : ((rows s.package.forest table).drop 1).Nodup :=
    ((neat.branching.nodup table).filter _).sublist (List.drop_sublist _ _)
  have paired : Paired s.package.forest table (((rows s.package.forest table).drop 1).zip items) :=
    ⟨fun _ member => listed member,distinct_zip nodup items,fun pair member => level _ (listed member)⟩
  obtain ⟨_,_,looped,rest⟩ := exists_of_bind_ok ((bind_ok (forest_apply setup s)).symm.trans ran)
  obtain ⟨-,rfl⟩ := EStateM.Result.ok.inj rest
  obtain ⟨ruled,outcomes_eq⟩ := gives_rules neat paired recorded _ _ looped
  have place {r : Ruling} (member : r ∈ rulings s.package.forest table items) :
      r.row ∈ rows s.package.forest table ∧ s.package.forest.Child r.row r.cell ∧
        first? rowRule? (s.package.forest.cellText r.cell) = some r.rule := by
    obtain ⟨⟨row,item⟩,paired,found⟩ := List.mem_filterMap.mp member
    obtain ⟨rfl,cell_eq,rule_eq,-⟩ := of_ruling? found
    exact ⟨listed paired,List.mem_of_find?_eq_some cell_eq,rule_eq⟩
  refine ⟨ruled.forest_eq,outcomes_eq,ruled.texts_eq,fun r member within => ?_,
    fun row here cell member others => ?_⟩
  · obtain ⟨-,-,rule_eq⟩ := place member
    rw [Forest.cellText_eq] at rule_eq
    rw [Forest.cellText_eq,Forest.cellText_eq,ruled.texts_eq r member]
    exact flatten_stripFirst tight_rowRule rule_eq within
  · obtain ⟨child,-⟩ := List.mem_filter.mp member
    rw [Forest.cellText_eq,Forest.cellText_eq,
      ruled.dressed.paragraphTexts_eq neat (neat.branching.below row cell child)]
    rintro n below ⟨r,ruling,text⟩
    obtain ⟨here',child',-⟩ := place ruling
    have path := (neat.mem_named.mp text).1
    by_cases same : r.row = row
    · obtain ⟨depth,sorted⟩ := neat.acyclic.sorted
      rw [same] at child'
      exact others r ruling (child_unique sorted neat.branching child' child path below)
    · exact apart_of_rows neat here' here same child' child n path below

end

private def sheetCell (texts : List String) : Element :=
  .node cellName [] (texts.map fun text => paragraph [textRun text])

/-- A table with a rule that is spread over two paragraphs, one within a paragraph, and one without an item. -/
private def sheet : Element :=
  .node tableName [] [.node rowName [] [sheetCell ["n"]],
    .node rowName [] [sheetCell ["\x7bif:n==1\x7dre","d\x7b/if\x7dx"],sheetCell ["a"]],
    .node rowName [] [sheetCell ["y","\x7bif:n==1\x7dbold\x7b/if\x7dz"],sheetCell ["b"]],
    .node rowName [] [sheetCell ["\x7bif:n==1\x7dred\x7b/if\x7d"]]]

private def sheetForest : Forest := (({} : Forest).plant sheet).2

private def sheetTable : NodeId := (({} : Forest).plant sheet).1

private def sheetSession : Session := { package := { forest := sheetForest } }

private def sheetItems : List Value :=
  [.map [(.text "n",.text "1")],.map [(.text "n",.text "2")]]

private def sheetTexts (f : Forest) : List String :=
  (rows f sheetTable).flatMap fun row =>
    (f.childrenNamed row cellName).map fun cell => String.ofList (f.cellText cell)

/-- The first rule holds and shades its row, but it stays; the second one goes without holding. -/
private theorem sheet_run : (match applyRules sheetTable sheetItems true {} sheetSession with
    | .ok _ s' => (sheetTexts s'.package.forest == ["n","\x7bif:n==1\x7dred\x7b/if\x7dx","a","yz","b",
        "\x7bif:n==1\x7dred\x7b/if\x7d"]) && s'.outcomes.map (·.status) == [.applied,.skipped]
    | .error _ _ => false) = true := by
  decide +kernel

private theorem neat_sheet : sheetForest.Neat :=
  neat_plant sheet (by decide +kernel)

private theorem level_sheet : ∀ row ∈ rows sheetForest sheetTable, ∀ cell,
    sheetForest.childNamed? row cellName = some cell → sheetForest.Level cell := by
  have each : ∀ row ∈ rows sheetForest sheetTable, ∀ cell ∈ sheetForest.childNamed? row cellName,
      (∀ p ∈ sheetForest.named cell paragraphName, ∀ q ∈ sheetForest.named p paragraphName, q = p) ∧
        ∀ r ∈ sheetForest.named cell runName, ∀ r' ∈ sheetForest.named r runName, r' = r := by
    decide +kernel
  intro row member cell found
  obtain ⟨paragraphs,runs⟩ := each row member cell found
  exact neat_sheet.level paragraphs runs

theorem applyRules_applied_sheet : ∃ s', sheetForest.Neat ∧
    applyRules sheetTable sheetItems true {} sheetSession = .ok () s' ∧
      sheetTexts s'.package.forest = ["n","\x7bif:n==1\x7dred\x7b/if\x7dx","a","yz","b",
        "\x7bif:n==1\x7dred\x7b/if\x7d"] ∧ s'.outcomes.map (·.status) = [.applied,.skipped] ∧
          RulesApplied {} sheetSession sheetTable sheetItems true s' := by
  have checked := sheet_run
  cases ran : applyRules sheetTable sheetItems true {} sheetSession with
  | ok a s' =>
    rw [ran] at checked
    obtain ⟨texts,statuses⟩ := Bool.and_eq_true_iff.mp checked
    exact ⟨s',neat_sheet,rfl,eq_of_beq texts,eq_of_beq statuses,
      applyRules_applied (s := sheetSession) neat_sheet level_sheet ran⟩
  | error fault s' =>
    rw [ran] at checked
    exact nomatch checked

end Table
end MailMerge
