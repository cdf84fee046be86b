import MailMerge.Proofs.Generation.Fates

/-! Styling the rows of a table comes down to moves inside the part that the table belongs to, and no
paragraph leaves its place.
-/
namespace MailMerge.Table
open Xml Docx Relation Generation

variable {setup : Setup} {scope : Scope} {w : World}

theorem ends_bind (ready : w.Ready scope.base) {table : NodeId} (owned : w.Owned table)
    (kind : w.package.forest.name table = tableName) (indexed : Bool) :
    Ends (Stride setup scope) setup (bind table indexed) w fun _ _ => True := by
  unfold bind
  apply Ends.of_look_forest
  split
  · exact Ends.of_pure trivial
  · next header others listed =>
    have first : header ∈ rows w.package.forest table := by
      rw [listed]
      exact List.mem_cons_self
    obtain ⟨member,row_name⟩ := List.mem_filter.mp first
    dsimp only
    split
    · exact Ends.of_pure trivial
    · next found _ =>
      apply Ends.of_look_setup
      have recorded (status : Status) (reason : String) (items : Option (List Value))
          (w' : World) : Ends (Stride setup scope) setup (do
            Generation.record .formatTable (.text found.value.key) status reason
            return items) w' fun _ _ => True := by
        apply Ends.of_then (ends_record _ _ _ _)
        intro _ _ _ _
        exact Ends.of_pure trivial
      split
      · split
        · apply Ends.of_then (ends_dropRow ready owned kind (eq_of_beq row_name) member indexed)
          intro _ w' _ _
          exact recorded _ _ _ w'
        · exact recorded _ _ _ w
      · exact recorded _ _ _ w

theorem ends_ruleHolds (item : Value) (rule : Directive.RowRule) :
    Ends (Stride setup scope) setup (ruleHolds item rule) w fun _ _ => True := by
  unfold ruleHolds
  apply Ends.of_given
  intro verdict _
  cases verdict with
  | holds b => exact Ends.of_pure trivial
  | invalid reason =>
    apply Ends.of_then (ends_log _ _)
    intro _ _ _ _
    exact Ends.of_pure trivial

theorem ends_applyRule (ready : w.Ready scope.base) {row : NodeId} (owned : w.Owned row) (item : Value)
    (recorded : Bool) :
    Ends (Stride setup scope) setup (applyRule row item recorded) w fun _ _ => True := by
  unfold applyRule
  apply Ends.of_look_forest
  split
  · exact Ends.of_pure trivial
  · next cell found =>
    have cell_owned := ready.sound.sorted.within_childNamed owned found
    split
    · exact Ends.of_pure trivial
    · next directive _ =>
      let rule := directive.value
      have last (holds : Bool) (w' : World) (moves : Moves setup scope w w') : Ends (Stride setup scope) setup (do
          edit (strip · cell directive.raw)
          if recorded then
            record .rowCondition (.text (rule.field ++ rule.operator ++ rule.value))
              (if holds then .applied else .skipped)) w' fun _ _ => True := by
        have ready' := ready.moves moves
        apply Ends.of_then (ends_edit ready'.toPlaced (strip · cell directive.raw)
          (Grove.reaches_strip ready'.sound.orderly (World.Owned.moves cell_owned moves) _))
        intro _ _ _ _
        split
        · exact ends_record _ _ _ _
        · exact Ends.of_pure trivial
      have styled (w' : World) (moves : Moves setup scope w w') : Ends (Stride setup scope) setup (do
          edit (styleRow setup.settings · row rule.style)
          edit (strip · cell directive.raw)
          if recorded then
            record .rowCondition (.text (rule.field ++ rule.operator ++ rule.value)) .applied)
          w' fun _ _ => True := by
        have ready' := ready.moves moves
        apply Ends.of_then (ends_edit ready'.toPlaced (styleRow setup.settings · row rule.style)
          (Grove.reaches_styleRow ready'.sound.orderly (owned.moves moves) _))
        intro _ w'' moves' _
        exact last true w'' (moves.trans moves')
      dsimp only
      apply Ends.of_then (ends_ruleHolds item rule)
      intro holds w₁ moves₁ _
      cases holds with
      | false => exact last false w₁ moves₁
      | true =>
        apply Ends.of_look_setup
        split
        · apply Ends.of_then (ends_log _ _)
          intro _ w₂ moves₂ _
          exact styled w₂ (moves₁.trans moves₂)
        · exact styled w₁ moves₁

theorem ends_applyRules (ready : w.Ready scope.base) {table : NodeId} (owned : w.Owned table)
    (items : List Value) (recorded : Bool) :
    Ends (Stride setup scope) setup (applyRules table items recorded) w fun _ _ => True := by
  unfold applyRules
  apply Ends.of_look_forest
  apply Ends.of_then (Ends.of_loop (fun _ _ => True) trivial ?_)
  · intro _ _ _ _
    exact Ends.of_pure trivial
  · rintro ⟨row,item⟩ member _ w' moves _
    have listed := List.mem_of_mem_drop (List.of_mem_zip member).1
    have row_owned := ready.sound.sorted.within_childrenNamed owned listed
    apply Ends.of_then (ends_applyRule (ready.moves moves) (World.Owned.moves row_owned moves) _ _)
    intro _ _ _ _
    exact Ends.of_pure ⟨_,rfl,trivial⟩

end MailMerge.Table
