import MailMerge.Proofs.Generation.Confined

/-! Filling a part does to the parts of the package only what may happen to them while that part is at
work, whatever directives it holds.
-/
namespace MailMerge
open Xml Docx Package Relation Generation

variable {setup : Setup} {o : Options} {here : String → Prop} {α : Type}

/-- What is recorded at the end of a step. -/
theorem Confined.of_recorded {kind : Directive.Kind} {key : Value} {status : Status}
    {reason : String} {result : α} : Confined setup o here (do
      record kind key status reason
      return result) :=
  .of_bind .of_record fun _ => .of_pure result

namespace Table

theorem confined_dropRow (table row : NodeId) (indexed : Bool) :
    Confined setup o here (dropRow table row indexed) := by
  have dropped (known : Bool) : Confined setup o here
      (if !known then edit (·.detach table row) else pure ()) := by
    split
    · exact .of_edit _
    · exact .of_pure ()
  unfold dropRow
  dsimp only
  split
  · exact .of_bind (.of_change _) dropped
  · exact .of_bind (.of_pure false) dropped

theorem confined_bind (table : NodeId) (indexed : Bool) :
    Confined setup o here (bind table indexed) := by
  unfold bind
  refine .of_look_forest fun f => ?_
  split
  · exact .of_pure none
  · dsimp only
    split
    · exact .of_pure none
    · refine .of_look_setup ?_
      split
      · split
        · exact .of_bind (confined_dropRow _ _ _) fun _ => .of_recorded
        · exact .of_recorded
      · exact .of_recorded

theorem confined_ruleHolds (item : Value) (rule : Directive.RowRule) :
    Confined setup o here (ruleHolds item rule) := by
  unfold ruleHolds
  refine .of_given fun verdict _ => ?_
  cases verdict with
  | holds b => exact .of_pure b
  | invalid reason => exact .of_bind (.of_log _ _) fun _ => .of_pure false

theorem confined_applyRule (row : NodeId) (item : Value) (recorded : Bool) :
    Confined setup o here (applyRule row item recorded) := by
  unfold applyRule
  refine .of_look_forest fun f => ?_
  split
  · exact .of_pure ()
  · split
    · exact .of_pure ()
    · next cell _ _ found _ =>
      have last (holds : Bool) : Confined setup o here (do
          edit (strip · cell found.raw)
          if recorded then
            record .rowCondition
              (.text (found.value.field ++ found.value.operator ++ found.value.value))
              (if holds then .applied else .skipped)) := by
        refine .of_bind (.of_edit _) fun _ => ?_
        split
        · exact .of_record
        · exact .of_pure ()
      refine .of_bind (confined_ruleHolds _ _) fun holds => ?_
      extract_lets finish
      split
      · refine .of_look_setup ?_
        extract_lets s style
        have styled : Confined setup o here (style ()) :=
          .of_bind (.of_edit _) fun _ => last holds
        split
        · exact .of_bind (.of_log _ _) fun _ => styled
        · exact styled
      · exact last holds

theorem confined_applyRules (table : NodeId) (items : List Value) (recorded : Bool) :
    Confined setup o here (applyRules table items recorded) := by
  unfold applyRules
  refine .of_look_forest fun f => .of_bind (.of_forIn ?_) fun _ => .of_pure ()
  rintro ⟨row,item⟩ _ _
  exact .of_bind (confined_applyRule row item recorded) fun _ => .of_pure _

end Table

namespace Fill
open Directive

theorem confined_write (t : Target) (text : List Char) : Confined setup o here (t.write text) :=
  .of_edit _

theorem confined_valueAt (key : String) : Confined setup o here (valueAt key) :=
  .of_look_setup (.of_pure _)

theorem confined_holds (condition : String) : Confined setup o here (holds condition) := by
  unfold holds
  refine .of_look_setup (.of_given fun verdict _ => ?_)
  cases verdict with
  | holds b => exact .of_pure b
  | invalid reason => exact .of_bind (.of_log _ _) fun _ => .of_pure false

theorem confined_parent? (id : NodeId) : Confined setup o here (parent? id) :=
  .of_look fun _ => .of_pure _

theorem confined_isAttached (id : NodeId) : Confined setup o here (isAttached id) :=
  .of_look fun _ => .of_pure _

theorem confined_removeParagraph (paragraph : NodeId) :
    Confined setup o here (removeParagraph paragraph) := by
  unfold removeParagraph
  refine .of_bind (confined_parent? _) fun parent => .of_bind (.of_change _) fun _ => ?_
  split
  · refine .of_look_forest fun f => ?_
    split
    · exact .of_bind (.of_plant _) fun _ => .of_edit _
    · exact .of_pure ()
  · exact .of_pure ()

theorem confined_resolveBlocks (fuel : Nat) (paragraph : NodeId) (text : List Char) (pos : Nat)
    (met : Bool) : Confined setup o here (resolveBlocks fuel paragraph text pos met) := by
  induction fuel generalizing text pos met with
  | zero => exact .of_pure _
  | succ fuel ih =>
    unfold resolveBlocks
    split
    · exact .of_pure _
    · refine .of_bind (confined_holds _) fun verdict => ?_
      split
      · exact .of_bind .of_record fun _ => ih _ _ _
      · exact .of_bind (confined_removeParagraph _) fun _ => .of_recorded

theorem confined_putTable (paragraph table : NodeId) :
    Confined setup o here (putTable paragraph table) := by
  unfold putTable
  refine .of_bind (confined_parent? _) fun parent => .of_bind (.of_change _) fun _ => ?_
  split
  · refine .of_look_forest fun f => ?_
    split
    · exact .of_bind (.of_plant _) fun _ => .of_bind (.of_change _) fun _ => .of_pure ()
    · exact .of_pure ()
  · exact .of_pure ()

theorem confined_tableRule (t : Target) (text : List Char) :
    Confined setup o here (tableRule t text) := by
  unfold tableRule
  split
  · refine .of_bind (confined_valueAt _) fun value => ?_
    split
    · next rows _ =>
      refine .of_look_setup (.of_bind (.of_guarded (.of_ofExcept _)) fun result => ?_)
      split
      · exact .of_recorded
      · exact .of_bind (.of_plant _) fun _ => .of_bind (confined_putTable _ _) fun _ =>
          .of_bind (.of_log _ _) fun _ => .of_recorded
    · exact .of_recorded
  · exact .of_pure _

/-- A drawing is put in the paragraph's place. -/
theorem confined_put {paragraph : NodeId} {shown : Element} {kind : Directive.Kind} {key : Value}
    {ending : Ending} : Confined setup o here (do
      let drawing ← plant shown
      let _ ← replace paragraph drawing
      record kind key .applied
      return Step.ended ending) :=
  .of_bind (.of_plant _) fun _ => .of_bind (.of_change _) fun _ => .of_recorded

theorem confined_chartRule (t : Target) (text : List Char) :
    Confined setup o (Hosts setup.settings o) (chartRule t text) := by
  unfold chartRule
  split
  · refine .of_bind (confined_valueAt _) fun value => ?_
    split
    · refine .of_bind (.of_guarded (Embed.confined_chart)) fun result => ?_
      split
      · exact .of_recorded
      · exact confined_put
    · exact .of_recorded
  · exact .of_pure _

theorem confined_lengthAt (key : String) (usual : Int) :
    Confined setup o here (lengthAt key usual) := by
  unfold lengthAt
  refine .of_bind (confined_valueAt _) fun value => .of_given fun length _ => ?_
  split
  · exact .of_pure _
  · exact .of_pure _

theorem confined_imageRule (t : Target) (text : List Char) :
    Confined setup o (Hosts setup.settings o) (imageRule t text) := by
  unfold imageRule
  split
  · refine .of_bind (confined_valueAt _) fun value => ?_
    split
    · split
      · exact .of_recorded
      · refine .of_look_setup (.of_bind (confined_lengthAt _ _) fun _ =>
          .of_bind (confined_lengthAt _ _) fun _ =>
            .of_bind (.of_guarded (Embed.confined_fetched)) fun result => ?_)
        split
        · exact .of_recorded
        · exact confined_put
    · exact .of_recorded
  · exact .of_pure _

theorem confined_formatAll (text : List Char) (found : List (Found FormatTag)) :
    Confined setup o here (formatAll text found) := by
  induction found generalizing text with
  | nil => exact .of_pure text
  | cons first found ih =>
    exact .of_bind (confined_valueAt _) fun _ => .of_given fun _ _ =>
      .of_bind .of_record fun _ => ih _

theorem confined_formatRule (t : Target) (text : List Char) :
    Confined setup o here (formatRule t text) := by
  unfold formatRule
  split
  · exact .of_pure _
  · refine .of_bind (confined_formatAll _ _) fun formatted => ?_
    split
    · exact .of_pure _
    · exact .of_bind (confined_write _ _) fun _ => .of_pure _

theorem confined_loopRule (t : Target) (text : List Char) :
    Confined setup o here (loopRule t text) := by
  unfold loopRule
  split
  · refine .of_bind (confined_valueAt _) fun value => ?_
    split
    · exact .of_given fun _ _ => .of_bind (confined_write _ _) fun _ => .of_recorded
    · exact .of_recorded
  · exact .of_pure _

theorem confined_placeholderText (found : Found Placeholder) :
    Confined setup o here (placeholderText found) := by
  unfold placeholderText
  refine .of_bind (confined_valueAt _) fun value => .of_given fun _ _ => ?_
  dsimp only
  split
  · exact .of_recorded
  · exact .of_recorded

theorem confined_textRule (t : Target) (text : List Char) :
    Confined setup o here (textRule t text) := by
  unfold textRule
  split
  · exact .of_pure _
  · exact .of_bind (.of_mapM confined_placeholderText _) fun _ =>
      .of_bind (confined_write _ _) fun _ => .of_pure _

theorem confined_tryRules (t : Target) (text : List Char)
    (rules : List (Target → List Char → Generation Step))
    (each : ∀ rule ∈ rules, Confined setup o here (rule t text)) :
    Confined setup o here (tryRules t text rules) := by
  induction rules with
  | nil => exact .of_pure none
  | cons rule rules ih =>
    refine .of_bind (each rule List.mem_cons_self) fun step => ?_
    cases step with
    | next => exact ih fun rule member => each rule (List.mem_cons_of_mem _ member)
    | halt => exact .of_pure none
    | ended e => exact .of_pure (some e)

theorem confined_rules (t : Target) (text : List Char) :
    ∀ rule ∈ rules, Confined setup o (Hosts setup.settings o) (rule t text) := by
  simp only [rules,List.forall_mem_cons]
  exact ⟨confined_tableRule t text,confined_chartRule t text,confined_imageRule t text,
    confined_formatRule t text,confined_loopRule t text,confined_textRule t text,by simp⟩

theorem confined_paragraph (id : NodeId) :
    Confined setup o (Hosts setup.settings o) (paragraph id) := by
  unfold paragraph
  refine .of_bind (confined_isAttached _) fun attached => ?_
  split
  · exact .of_pure _
  · refine .of_look_forest fun f => ?_
    extract_lets t text
    split
    · exact .of_pure _
    · refine .of_bind (confined_resolveBlocks _ _ _ _ _) fun resolved => ?_
      split
      · exact .of_pure _
      · next text met =>
        extract_lets apply_rules
        have applied : Confined setup o (Hosts setup.settings o) (apply_rules ()) := by
          refine .of_bind (confined_tryRules t text rules (confined_rules t text)) fun ending => ?_
          split
          · exact .of_pure _
          · exact .of_pure _
        split
        · exact .of_bind (confined_write _ _) fun _ => applied
        · exact applied

theorem confined_paragraphs (ids : List NodeId) :
    Confined setup o (Hosts setup.settings o) (paragraphs ids) := by
  unfold paragraphs
  exact .of_bind (.of_forIn fun _ _ _ => .of_bind (confined_paragraph _) fun _ => .of_pure _)
    fun _ => .of_pure ()

theorem confined_tableRows (id : NodeId) : Confined setup o here (tableRows id) := by
  unfold tableRows
  refine .of_bind (Table.confined_bind _ _) fun items => ?_
  split
  · exact Table.confined_applyRules _ _ _
  · exact .of_pure ()

theorem confined_table (id : NodeId) : Confined setup o (Hosts setup.settings o) (table id) :=
  .of_bind (confined_tableRows id) fun _ => .of_look_forest fun _ => confined_paragraphs _

theorem confined_firstParagraph (root : NodeId) :
    Confined setup o here (firstParagraph root) := by
  unfold firstParagraph
  refine .of_look_forest fun f => ?_
  split
  · exact .of_pure _
  · exact .of_bind (.of_plant _) fun _ => .of_bind (.of_edit _) fun _ => .of_pure _

theorem confined_indexTree (root : NodeId) : Confined setup o here (indexTree root) :=
  .of_modify (fun _ => rfl) (fun _ => rfl) (fun _ => rfl) fun _ => rfl

theorem confined_marginTree (root : NodeId) :
    Confined setup o (Hosts setup.settings o) (marginTree root) := by
  unfold marginTree
  refine .of_bind (confined_indexTree root) fun _ => .of_look_forest fun f =>
    .of_bind (confined_paragraphs _) fun _ => .of_bind (.of_forIn fun _ _ _ => ?_) fun _ =>
      .of_pure ()
  exact .of_bind (confined_table _) fun _ => .of_pure _

theorem confined_pageBreaks (root : NodeId) : Confined setup o here (pageBreaks root) := by
  unfold pageBreaks
  refine .of_look_forest fun f => .of_bind (.of_forIn fun _ _ _ => ?_) fun _ => .of_pure ()
  refine .of_look_forest fun f => ?_
  split
  · exact .of_bind (.of_plant _) fun _ => .of_bind (.of_change _) fun _ =>
      .of_bind .of_record fun _ => .of_pure _
  · exact .of_pure _

theorem confined_body (id : NodeId) : Confined setup o (Hosts setup.settings o) (body id) := by
  unfold body
  refine .of_look_forest fun f => .of_bind (confined_paragraphs _) fun _ =>
    .of_bind (.of_forIn fun _ _ _ => ?_) fun _ => .of_pure ()
  refine .of_bind (confined_isAttached _) fun attached => ?_
  split
  · exact .of_bind (confined_table _) fun _ => .of_pure _
  · exact .of_pure _

end Fill

/-! Filling a document goes from part to part. -/

/-- Wherever a generation is, all that a step does to parts is what may happen to them. -/
abbrev Filed (setup : Setup) (o : Options) (step : Generation α) (w : World) : Prop :=
  Ends (Files setup.settings o) setup step w fun _ _ => True

variable {w : World}

theorem Confined.filed {step : Generation α} (confined : Confined setup o here step)
    (at_work : here w.session.part) : Filed setup o step w :=
  (confined w at_work).widen (stays_le_files _ _)

/-- Work that needs no part. -/
theorem Confined.filed_anywhere {step : Generation α}
    (confined : Confined setup o (fun _ => True) step) : Filed setup o step w :=
  (confined.anywhere w).widen (stays_le_files _ _)

/-- Work that is only done on demand. -/
theorem filed_optional {b : Bool} {step : Generation Unit} {next : Unit → Generation α}
    (wanted : b = true → Filed setup o step w)
    (rest : ∀ w', ReflTransGen (Files setup.settings o) w w' → Filed setup o (next ()) w') :
    Filed setup o (if b then step >>= next else next ()) w := by
  split
  · next demanded =>
    apply Ends.of_bind (wanted demanded)
    intro _ w' moves _
    exact rest w' moves
  · exact rest w ReflTransGen.refl

/-- Work goes on in another part. -/
theorem filed_moveTo (part : String) {next : Generation α}
    (rest : ∀ w' : World, w'.session.part = part → Filed setup o next w') :
    Filed setup o (moveTo part >>= fun _ => next) w := by
  apply Ends.of_bind (Ends.of_modify (fun _ w' => w'.session.part = part)
    { w with session := { w.session with part := part } } rfl ⟨[],.aside rfl rfl rfl⟩ rfl)
  intro _ w' _ there
  exact rest w' there

/-- A world comes from a template by what may happen to parts. -/
def World.From (w : World) (s : Settings) (o : Options) (template : Package) : Prop :=
  ∃ created, Filings s o template created w.package ∧ Grown s o template created w.package

namespace World.From

variable {s : Settings} {template : Package}

theorem moves {w' : World} (came : w.From s o template)
    (moves : ReflTransGen (Files s o) w w') : w'.From s o template := by
  induction moves with
  | refl => exact came
  | tail _ last ih =>
    obtain ⟨created,steps,grown⟩ := ih
    obtain ⟨made,last⟩ := last
    exact ⟨created ++ made,steps.tail last,grown.step last⟩

theorem fits (came : w.From s o template) : ∀ name ∈ w.package.names, Fits s name :=
  came.choose_spec.2.fits

end World.From

theorem hosts_document (s : Settings) (o : Options) : Hosts s o documentPart :=
  ⟨Or.inl rfl,fun _ => by decide⟩

namespace Fill

theorem filed_marginPart (kind : Directive.Kind) (text : Value) {part : String}
    (hosts : Hosts setup.settings o part) : Filed setup o (marginPart kind text part) w := by
  unfold marginPart
  apply Ends.of_bind (Confined.of_root? hosts.touchable).filed_anywhere
  intro found w' _ _
  split
  · next root =>
    apply filed_moveTo
    intro w'' there
    have filled : Confined setup o (Hosts setup.settings o) (do
        let first ← firstParagraph root
        let text ← Generation.ofExcept text.written
        Generation.edit (·.setParagraphText first text)
        marginTree root
        Generation.record kind (.text part) .applied
        Generation.log .debug s!"Updated {kind.label} part {part}") :=
      .of_bind (confined_firstParagraph root) fun _ => .of_given fun _ _ =>
        .of_bind (.of_edit _) fun _ => .of_bind (confined_marginTree root) fun _ =>
          .of_bind .of_record fun _ => .of_log _ _
    exact filled.filed (there ▸ hosts)
  · exact Ends.of_pure trivial

/-- Every part that a pattern finds satisfies what all parts satisfy that it selects. -/
theorem hosts_of_find {p : Package} {pattern : String} {parts : List String}
    (fits : ∀ name ∈ p.names, Fits setup.settings name)
    (filled : ∀ name, Selects pattern name → Filled setup.settings o name)
    (found : p.find pattern = .ok parts) : ∀ part ∈ parts, Hosts setup.settings o part := by
  intro part member
  unfold find at found
  split at found
  · next accepted known =>
    obtain rfl := Except.ok.inj found
    obtain ⟨held,matched⟩ := List.mem_filter.mp (mem_sorted.mp member)
    exact ⟨filled part ⟨_,known,matched⟩,fits part held⟩
  · simp at found

theorem filed_margins (kind : Directive.Kind) {pattern : String} (text : Value)
    (fits : ∀ name ∈ w.package.names, Fits setup.settings name)
    (filled : ∀ name, Selects pattern name → Filled setup.settings o name) :
    Filed setup o (margins kind pattern text) w := by
  unfold margins
  apply Ends.of_look
  apply Ends.of_given
  intro parts found
  have hosts := hosts_of_find fits filled found
  split
  · apply Ends.of_bind (Confined.of_log _ _).filed_anywhere
    intro _ w' _ _
    apply filed_moveTo
    intro w'' _
    exact Confined.of_record.filed_anywhere
  · apply Ends.of_bind (Ends.of_forIn (fun _ _ => True) trivial ?_)
    · intro _ w' _ _
      exact Ends.of_pure trivial
    · intro part member _ w' _ _
      apply Ends.of_bind (filed_marginPart kind text (hosts part member))
      intro _ w'' _ _
      exact Ends.of_pure ⟨_,rfl,trivial⟩

theorem confined_usedNumbers (parts : List String)
    (hosts : ∀ part ∈ parts, Hosts setup.settings o part) :
    Confined setup o here (usedNumbers parts) := by
  induction parts with
  | nil => exact .of_pure []
  | cons part parts ih =>
    unfold usedNumbers
    have rest (numbers : List Nat) : Confined setup o here (do
        return numbers.map Int.ofNat ++ (← usedNumbers parts)) :=
      .of_bind (ih fun other member => hosts other (List.mem_cons_of_mem _ member)) fun _ =>
        .of_pure _
    refine .of_bind (.of_root? (hosts part List.mem_cons_self).touchable) fun found => ?_
    dsimp only
    split
    · exact .of_look_forest fun f => .of_given fun numbers _ => rest numbers
    · exact .of_bind (.of_pure _) rest

theorem filed_watermarkPart (text : Value) (used : List Int) {part : String}
    (hosts : Hosts setup.settings o part) : Filed setup o (watermarkPart text used part) w := by
  unfold watermarkPart
  apply Ends.of_bind (Confined.of_root? hosts.touchable).filed_anywhere
  intro found w' _ _
  split
  · exact Ends.of_pure trivial
  · apply filed_moveTo
    intro w'' _
    apply Confined.filed_anywhere
    refine .of_look_setup (.of_look fun _ => ?_)
    extract_lets settings n
    exact .of_bind (.of_modify (fun _ => rfl) (fun _ => rfl) (fun _ => rfl) fun _ => rfl) fun _ =>
      .of_given fun _ _ => .of_bind (.of_plant _) fun _ => .of_bind (.of_log _ _) fun _ =>
        .of_bind (.of_edit _) fun _ => .of_recorded

theorem filed_watermarks (text : Value) (fits : ∀ name ∈ w.package.names, Fits setup.settings name)
    (filled : ∀ name, Selects setup.settings.headerPattern name → Filled setup.settings o name) :
    Filed setup o (watermarks text) w := by
  unfold watermarks
  apply Ends.of_look
  apply Ends.of_look_setup
  apply Ends.of_given
  intro parts found
  have hosts := hosts_of_find fits filled found
  split
  · apply Ends.of_bind (Confined.of_log _ _).filed_anywhere
    intro _ w' _ _
    apply filed_moveTo
    intro w'' _
    exact Confined.of_record.filed_anywhere
  · have numbered : Confined setup o (fun _ => True) (usedNumbers (documentPart :: parts)) :=
      confined_usedNumbers _ (List.forall_mem_cons.mpr ⟨hosts_document _ _,hosts⟩)
    apply Ends.of_bind numbered.filed_anywhere
    intro used w₁ _ _
    apply Ends.of_bind (Ends.of_forIn (fun _ _ => True) trivial ?_)
    · intro _ w₂ _ _
      exact (Confined.of_log _ _).filed_anywhere
    · intro part member used w₂ _ _
      apply Ends.of_bind (filed_watermarkPart text used (hosts part member))
      intro _ w₃ _ _
      exact Ends.of_pure ⟨_,rfl,trivial⟩

theorem stays_document : Ends (Stays setup.settings o) setup (onPackage Packaging.document) w
    fun _ w' => w'.package.types = w.package.types := by
  unfold Packaging.document
  apply Ends.of_packaged_bind (stays_root? (Or.inr (Or.inl (Or.inl rfl))))
  intro found w' _ same
  cases found with
  | none => exact Ends.of_packaged_throw
  | some root => exact Ends.of_packaged_pure same

/-- Afterwards there is a manifest of content types. -/
theorem ends_opening_files {template : Package} (came : w.From setup.settings o template)
    (unused : w.package.types = none) :
    Ends (Files setup.settings o) setup (opening o) w fun _ w' =>
      w'.package.hasPart typesPart = true := by
  unfold opening
  apply Ends.of_look_setup
  apply Ends.of_bind (stays_document.widen (stays_le_files _ _))
  intro root w₁ moves₁ same
  apply Ends.of_bind (stays_contentTypes.widen (stays_le_files _ _))
  intro types w₂ moves₂ typed
  have held := typed (same.trans unused)
  have came₂ := came.moves (moves₁.trans moves₂)
  suffices rest : Filed setup o _ w₂ from
    rest.mono fun _ _ moves _ => hasPart_of_files moves held
  apply Ends.of_look_forest
  extract_lets entries last marked footed
  apply Ends.of_bind (Confined.of_log _ _).filed_anywhere
  intro _ w₃ moves₃ _
  have came₃ := came₂.moves moves₃
  have ends_marked {w : World} (came : w.From setup.settings o template) :
      Filed setup o (marked ()) w := by
    apply filed_optional
    · intro wanted
      exact filed_watermarks _ came.fits fun name selects =>
        Or.inr (Or.inl ⟨Or.inr wanted,selects⟩)
    · intro w' _
      exact Ends.of_pure trivial
  have ends_footed {w : World} (came : w.From setup.settings o template) :
      Filed setup o (footed ()) w := by
    apply filed_optional
    · intro wanted
      exact filed_margins .footer _ came.fits fun name selects => Or.inr (Or.inr ⟨wanted,selects⟩)
    · intro w' moves
      exact ends_marked (came.moves moves)
  apply filed_optional
  · intro wanted
    exact filed_margins .header _ came₃.fits fun name selects =>
      Or.inr (Or.inl ⟨Or.inl wanted,selects⟩)
  · intro w' moves
    exact ends_footed (came₃.moves moves)

/-- Filling the tree of the document. -/
theorem filed_bodyPass (root : NodeId) : Filed setup o (bodyPass root) w := by
  unfold bodyPass prepare
  simp only [bind_assoc]
  apply filed_moveTo documentPart
  intro w' there
  have hosts : Hosts setup.settings o w'.session.part := there ▸ hosts_document _ _
  suffices rest : Confined setup o (Hosts setup.settings o) _ from rest.filed hosts
  refine .of_bind (confined_indexTree root) fun _ => .of_bind (confined_pageBreaks root) fun _ =>
    .of_look_forest fun f => ?_
  split
  · exact .of_log _ _
  · refine .of_bind (confined_body _) fun _ w'' _ => ?_
    exact Ends.of_modify _ (w''.withPackage w''.package.flush) rfl ⟨rfl,[],.flush⟩ trivial

end Fill
end MailMerge
