import MailMerge.Proofs.Generation.Embed
import MailMerge.Proofs.Generation.Fates

/-! Filling a paragraph comes down to moves inside the part that the paragraph belongs to, whatever
rule applies, and no other paragraph leaves its place.
-/
namespace MailMerge.Fill
open Directive Docx Relation Generation

variable {setup : Setup} {scope : Scope} {w : World}

/-- A target is a paragraph of the part at work with elements of that part. -/
structure Target.Owned (t : Target) (w : World) : Prop where
  paragraph : w.Paragraph t.paragraph
  elements : ∀ id ∈ t.elements, w.Owned id

theorem Target.Owned.moves {t : Target} (owned : t.Owned w) {w' : World}
    (moves : Moves setup scope w w') : t.Owned w' where
  paragraph := owned.paragraph.moves moves
  elements := World.Owned.forall_moves owned.elements moves

theorem ends_write (ready : w.Ready scope.base) {t : Target} (owned : t.Owned w) (text : List Char) :
    Ends (Stride setup scope) setup (t.write text) w fun _ _ => True :=
  ends_edit ready.toPlaced _ (Grove.reaches_writeText ready.sound.orderly owned.paragraph.owned
    owned.paragraph.kind owned.elements _)

/-- What is recorded at the end of a step. -/
theorem ends_recorded {α : Type} (kind : Directive.Kind) (key : Value) (status : Status)
    (reason : String) (result : α) :
    Ends (Stride setup scope) setup (do
      record kind key status reason
      return result) w fun _ _ => True := by
  apply Ends.of_then (ends_record kind key status reason)
  intro _ _ _ _
  exact Ends.of_pure trivial

theorem ends_valueAt (key : String) :
    Ends (Stride setup scope) setup (valueAt key) w fun _ w' => w = w' :=
  Ends.of_look_setup (Ends.of_pure rfl)

theorem ends_holds (condition : String) :
    Ends (Stride setup scope) setup (holds condition) w fun _ _ => True := by
  unfold holds
  apply Ends.of_look_setup
  apply Ends.of_given
  intro verdict _
  cases verdict with
  | holds b => exact Ends.of_pure trivial
  | invalid reason =>
    apply Ends.of_then (ends_log _ _)
    intro _ _ _ _
    exact Ends.of_pure trivial

theorem ends_resolveBlocks (ready : w.Ready scope.base) {id : NodeId} (paragraph : w.Paragraph id)
    (may : scope.may id .removed) (fuel : Nat) (text : List Char) (pos : Nat) (met : Bool) :
    Ends (Stride setup scope) setup (resolveBlocks fuel id text pos met) w fun _ _ => True := by
  induction fuel generalizing w text pos met with
  | zero => exact Ends.of_pure trivial
  | succ fuel ih =>
    unfold resolveBlocks
    split
    · exact Ends.of_pure trivial
    · next found _ =>
      apply Ends.of_then (ends_holds found.value.condition)
      intro verdict w₁ moves₁ _
      have ready₁ := ready.moves moves₁
      split
      · apply Ends.of_then (ends_record _ _ _ _)
        intro _ w₂ moves₂ _
        exact ih (ready₁.moves moves₂) ((paragraph.moves moves₁).moves moves₂) _ _ _
      · apply Ends.of_then (ends_removeParagraph ready₁ (paragraph.moves moves₁) may)
        intro _ w₂ _ _
        exact ends_recorded _ _ _ _ _

/-- A rule comes down to moves, in every scope in which its paragraph may meet any fate. -/
def Sound (rule : Target → List Char → Generation Step) : Prop :=
  ∀ {setup : Setup} {scope : Scope} {w : World} {t : Target} (text : List Char), w.Ready scope.base →
    t.Owned w → (∀ fate, scope.may t.paragraph fate) →
    Ends (Stride setup scope) setup (rule t text) w fun _ _ => True

theorem sound_tableRule : Sound tableRule := by
  intro setup scope w t text ready owned may
  unfold tableRule
  split
  · next found _ =>
    apply Ends.of_then (ends_valueAt found.value.key)
    rintro value _ - rfl
    split
    · next rows _ =>
      apply Ends.of_look_setup
      apply Ends.of_then (Ends.of_guarded (fun result _ =>
        ∀ e, result = .ok e → Built setup.settings e ∧ e.name = tableName)
        (Ends.of_ofExcept ?_) ?_)
      · intro result w₁ moves₁ built
        have ready₁ := ready.moves moves₁
        split
        · exact ends_recorded _ _ _ _ _
        · next element =>
          apply Ends.of_then (ends_plant ready₁.toPlaced (built element rfl).1
            fun none => absurd (may .becameTable) (none _))
          intro table w₂ moves₂ planted
          have ready₂ := ready₁.moves moves₂
          have paragraph := (owned.paragraph.moves moves₁).moves moves₂
          apply Ends.of_then (ends_putTable ready₂ paragraph (may .becameTable)
            (planted.novel _ ready₁) (planted.name_eq.trans (built element rfl).2))
          intro _ w₃ _ _
          apply Ends.of_then (ends_log _ _)
          intro _ _ _ _
          exact ends_recorded _ _ _ _ _
      · rintro e drawn _ ⟨⟩
        exact ⟨Built.table rows e drawn,name_table drawn⟩
      · rintro fault w' _ e ⟨⟩
    · exact ends_recorded _ _ _ _ _
  · exact Ends.of_pure trivial

/-- What awaits to be shown is put in the paragraph's place. -/
private theorem ends_put (ready : w.Ready scope.base) {shown : Xml.Element}
    (awaits : w.Awaits setup.settings shown) {id : NodeId} (paragraph : w.Paragraph id)
    (may : scope.may id .replaced) (kind : Directive.Kind) (key : Value) (ending : Ending) :
    Ends (Stride setup scope) setup (do
      let drawing ← plant shown
      let _ ← replace id drawing
      record kind key .applied
      return Step.ended ending) w fun _ _ => True := by
  apply Ends.of_then (ends_show ready.toPlaced awaits)
  intro drawing w₁ moves₁ planted
  apply Ends.of_then (ends_replace (ready.moves moves₁) (paragraph.moves moves₁) may
    (planted.novel _ ready) (planted.name_eq.trans awaits.kind))
  intro _ w₂ _ _
  exact ends_recorded _ _ _ _ _

theorem sound_chartRule : Sound chartRule := by
  intro setup scope w t text ready owned may
  unfold chartRule
  split
  · next found _ =>
    apply Ends.of_then (ends_valueAt found.value.key)
    rintro value _ - rfl
    split
    · next rows _ =>
      apply Ends.of_then (Ends.of_guarded (fun result w' =>
        ∀ e, result = .ok e → w'.Awaits setup.settings e) ?_ ?_)
      · intro result w₁ moves₁ awaits
        split
        · exact ends_recorded _ _ _ _ _
        · next element =>
          exact ends_put (ready.moves moves₁) (awaits element rfl)
            (owned.paragraph.moves moves₁) (may .replaced) _ _ _
      · apply (((Embed.ends_chart ready _ _ _ _ _).widen (stock_le_move setup scope)).tracked
          (ReflTransGen.single (.chart ready.direct _ _ _ _ _))).mono
        intro shown w' _ awaits e same
        rwa [← Except.ok.inj same]
      · rintro fault w' _ e ⟨⟩
    · exact ends_recorded _ _ _ _ _
  · exact Ends.of_pure trivial

theorem ends_lengthAt (key : String) (usual : Int) :
    Ends (Stride setup scope) setup (lengthAt key usual) w fun _ _ => True := by
  unfold lengthAt
  apply Ends.of_then (ends_valueAt key)
  rintro value _ - rfl
  apply Ends.of_given
  intro length _
  split
  · exact Ends.of_pure trivial
  · exact Ends.of_pure trivial

theorem sound_imageRule : Sound imageRule := by
  intro setup scope w t text ready owned may
  unfold imageRule
  split
  · next found _ =>
    apply Ends.of_then (ends_valueAt found.value.key)
    rintro value _ - rfl
    split
    · next address =>
      split
      · exact ends_recorded _ _ _ _ _
      · apply Ends.of_look_setup
        apply Ends.of_then (ends_lengthAt _ _)
        intro width w₁ moves₁ _
        have ready₁ := ready.moves moves₁
        apply Ends.of_then (ends_lengthAt _ _)
        intro height w₂ moves₂ _
        have ready₂ := ready₁.moves moves₂
        apply Ends.of_then (Ends.of_guarded (fun result w' =>
          ∀ e, result = .ok e → w'.Awaits setup.settings e) ?_ ?_)
        · intro result w₃ moves₃ awaits
          split
          · exact ends_recorded _ _ _ _ _
          · next element =>
            exact ends_put (ready₂.moves moves₃) (awaits element rfl)
              (((owned.paragraph.moves moves₁).moves moves₂).moves moves₃) (may .replaced) _ _ _
        · apply (((Embed.ends_fetched ready₂ _ _ _).widen (stock_le_move setup scope)).tracked
            (ReflTransGen.single (.fetched ready₂.direct _ _ _))).mono
          intro shown w' _ awaits e same
          rwa [← Except.ok.inj same]
        · rintro fault w' _ e ⟨⟩
    · exact ends_recorded _ _ _ _ _
  · exact Ends.of_pure trivial

theorem ends_formatAll (text : List Char) (tags : List (Found FormatTag)) :
    Ends (Stride setup scope) setup (formatAll text tags) w fun _ _ => True := by
  induction tags generalizing w text with
  | nil => exact Ends.of_pure trivial
  | cons found rest ih =>
    unfold formatAll
    apply Ends.of_then (ends_valueAt found.value.key)
    rintro value _ - rfl
    apply Ends.of_given
    intro new _
    apply Ends.of_then (ends_record _ _ _ _)
    intro _ _ _ _
    exact ih _

/-- The text of the paragraph is written at the end of a rule. -/
private theorem ends_written (ready : w.Ready scope.base) {t : Target} (owned : t.Owned w)
    (text : List Char) (ending : Ending) :
    Ends (Stride setup scope) setup (do
      t.write text
      return Step.ended ending) w fun _ _ => True := by
  apply Ends.of_then (ends_write ready owned text)
  intro _ _ _ _
  exact Ends.of_pure trivial

theorem sound_formatRule : Sound formatRule := by
  intro setup scope w t text ready owned may
  unfold formatRule
  split
  · exact Ends.of_pure trivial
  · apply Ends.of_then (ends_formatAll text _)
    intro formatted w₁ moves₁ _
    split
    · exact Ends.of_pure trivial
    · exact ends_written (ready.moves moves₁) (owned.moves moves₁) _ _

theorem sound_loopRule : Sound loopRule := by
  intro setup scope w t text ready owned may
  unfold loopRule
  split
  · next found _ =>
    apply Ends.of_then (ends_valueAt found.value.key)
    rintro value _ - rfl
    split
    · apply Ends.of_given
      intro rendered _
      apply Ends.of_then (ends_write ready owned _)
      intro _ w₂ _ _
      exact ends_recorded _ _ _ _ _
    · exact ends_recorded _ _ _ _ _
  · exact Ends.of_pure trivial

theorem ends_placeholderText (found : Found Placeholder) :
    Ends (Stride setup scope) setup (placeholderText found) w fun _ _ => True := by
  unfold placeholderText
  apply Ends.of_then (ends_valueAt found.value.key)
  rintro value _ - rfl
  apply Ends.of_given
  intro new _
  split
  · exact ends_recorded _ _ _ _ _
  · exact ends_recorded _ _ _ _ _

theorem ends_mapM {α β : Type} {step : α → Generation β}
    (each : ∀ (w : World) (a : α), Ends (Stride setup scope) setup (step a) w fun _ _ => True)
    (items : List α) : Ends (Stride setup scope) setup (items.mapM step) w fun _ _ => True := by
  induction items generalizing w with
  | nil =>
    rw [List.mapM_nil]
    exact Ends.of_pure trivial
  | cons a items ih =>
    rw [List.mapM_cons]
    apply Ends.of_then (each _ a)
    intro _ _ _ _
    apply Ends.of_then ih
    intro _ _ _ _
    exact Ends.of_pure trivial

theorem sound_textRule : Sound textRule := by
  intro setup scope w t text ready owned may
  unfold textRule
  split
  · exact Ends.of_pure trivial
  · apply Ends.of_then (ends_mapM (fun _ => ends_placeholderText) _)
    intro texts w₁ moves₁ _
    exact ends_written (ready.moves moves₁) (owned.moves moves₁) _ _

theorem ends_tryRules (ready : w.Ready scope.base) {t : Target} (owned : t.Owned w)
    (may : ∀ fate, scope.may t.paragraph fate) (text : List Char)
    {rules : List (Target → List Char → Generation Step)} (sound : ∀ rule ∈ rules, Sound rule) :
    Ends (Stride setup scope) setup (tryRules t text rules) w fun _ _ => True := by
  induction rules generalizing w with
  | nil => exact Ends.of_pure trivial
  | cons rule rules ih =>
    unfold tryRules
    apply Ends.of_then (sound rule List.mem_cons_self text ready owned may)
    intro result w₁ moves₁ _
    cases result with
    | next =>
      apply ih (ready.moves moves₁) (owned.moves moves₁)
      exact fun rule member => sound rule (List.mem_cons_of_mem _ member)
    | halt => exact Ends.of_pure trivial
    | ended e => exact Ends.of_pure trivial

theorem sound_of_mem_rules : ∀ rule ∈ rules, Sound rule := by
  simp only [rules,List.forall_mem_cons]
  exact ⟨sound_tableRule,sound_chartRule,sound_imageRule,sound_formatRule,sound_loopRule,
    sound_textRule,by simp⟩

/-- Filling a paragraph moves no other. -/
theorem ends_paragraph (ready : w.Ready scope.base) {id : NodeId} (owned : w.Paragraph id)
    (may : ∀ fate, scope.may id fate) :
    Ends (Stride setup scope) setup (paragraph id) w fun _ _ => True := by
  unfold paragraph
  apply Ends.of_then (ends_isAttached id)
  rintro attached _ - ⟨rfl,-⟩
  split
  · exact Ends.of_pure trivial
  · apply Ends.of_look_forest
    extract_lets t text
    have target_owned : t.Owned w := ⟨owned,fun _ member =>
      ready.sound.sorted.within_textElements owned.owned member⟩
    split
    · exact Ends.of_pure trivial
    · apply Ends.of_then (ends_resolveBlocks ready owned (may .removed) _ text 0 false)
      rintro ⟨left,met⟩ w₁ moves₁ _
      have ready₁ := ready.moves moves₁
      have owned₁ := target_owned.moves moves₁
      cases left with
      | none => exact Ends.of_pure trivial
      | some text =>
        dsimp -zeta only
        extract_lets apply_rules
        have last (w₂ : World) (moves₂ : Moves setup scope w₁ w₂) :
            Ends (Stride setup scope) setup (apply_rules ()) w₂ fun _ _ => True := by
          apply Ends.of_then (ends_tryRules (ready₁.moves moves₂) (owned₁.moves moves₂) may text
            sound_of_mem_rules)
          intro result _ _ _
          cases result <;> exact Ends.of_pure trivial
        split
        · apply Ends.of_then (ends_write ready₁ owned₁ text)
          intro _ w₂ moves₂ _
          exact last w₂ moves₂
        · exact last w₁ ReflTransGen.refl

end MailMerge.Fill
