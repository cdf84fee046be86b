import MailMerge.Proofs.Data.Structured
import MailMerge.Proofs.Directive.Fills
import MailMerge.Proofs.Generation.Recorded
import MailMerge.Proofs.Generation.Undirected

/-! Placeholders. All of them give way to their values at once, each at its own place, and a value that was
put in is not looked at again. When the braces of the text do not nest and the values have none, the next
pass finds nothing to do.
-/
namespace MailMerge.Fill
open Directive Generation

def shownAt (data : Value) (key : String) : Except Fault String :=
  (data.resolve key).display

def textOutcome (data : Value) (part key : String) : Outcome :=
  if (data.resolve key).isEmptyText then ⟨.text,.text key,.skipped,"unresolved",part⟩
  else ⟨.text,.text key,.applied,"",part⟩

variable {setup : Setup} {s : Session} {p : NodeId} {t : Target} {text : List Char}

theorem exists_placeholderText {f : Found Placeholder} {new : String}
    (given : shownAt setup.data f.value.key = .ok new) (s : Session) :
    ∃ s', placeholderText f setup s = .ok (f,new.toList) s' ∧
      s.Records [textOutcome setup.data s.part f.value.key] s' := by
  have looked := ofExcept_ok given setup s
  unfold textOutcome
  by_cases blank : (setup.data.resolve f.value.key).isEmptyText = true
  · obtain ⟨s',recorded,records⟩ :=
      exists_record .text (.text f.value.key) .skipped "unresolved" setup s
    rw [if_pos blank]
    refine ⟨s',(bind_ok (valueAt_apply _ _ _)).trans ((bind_ok looked).trans ?_),records⟩
    simp only [blank,if_true]
    exact bind_ok recorded
  · obtain ⟨s',recorded,records⟩ := exists_record .text (.text f.value.key) .applied "" setup s
    rw [if_neg blank]
    refine ⟨s',(bind_ok (valueAt_apply _ _ _)).trans ((bind_ok looked).trans ?_),records⟩
    simp only [blank]
    exact bind_ok recorded

private theorem exists_placeholderTexts {found : List (Found Placeholder)}
    (given : ∀ f ∈ found, ∃ new, shownAt setup.data f.value.key = .ok new) (s : Session) :
    ∃ s', found.mapM placeholderText setup s =
        .ok (found.map fun f => (f,written (shownAt setup.data f.value.key))) s' ∧
      s.Records ((found.map (·.value.key)).map (textOutcome setup.data s.part)) s' := by
  induction found generalizing s with
  | nil => exact ⟨s,rfl,.refl s⟩
  | cons f found ih =>
    obtain ⟨⟨new,here⟩,later⟩ := List.forall_mem_cons.mp given
    obtain ⟨s₁,ran,records⟩ := exists_placeholderText here s
    obtain ⟨s₂,ran',records'⟩ := ih later s₁
    refine ⟨s₂,?_,?_⟩
    · rw [List.mapM_cons,List.map_cons,here]
      exact (bind_ok ran).trans (bind_ok ran')
    · rw [records.part_eq] at records'
      exact records.trans records'

/-- What the rule for placeholders does with the text of a paragraph. -/
structure Filled (data : Value) (s : Session) (p : NodeId) (out : List Char) (keys : List String)
    (step : Step) (s' : Session) : Prop where
  step_eq : step = if keys = [] then .next else .ended .rewritten
  paragraphText_eq : s'.package.forest.paragraphText p = out
  outcomes_eq : s'.outcomes = s.outcomes ++ keys.map (textOutcome data s.part)
  index_eq : s'.index = s.index

private theorem exists_filled (flat : s.package.forest.Flat p)
    (given : ∀ f ∈ all placeholder? (s.package.forest.paragraphText p), ∃ new,
      shownAt setup.data f.value.key = .ok new) :
    ∃ step s' out keys,
      textRule ⟨p,s.package.forest.textElements p⟩ (s.package.forest.paragraphText p) setup s =
        .ok step s' ∧
      Fills (shownAt setup.data) (s.package.forest.paragraphText p) out keys ∧
        keys = (all placeholder? (s.package.forest.paragraphText p)).map (·.value.key) ∧
          Filled setup.data s p out keys step s' := by
  generalize text_eq : s.package.forest.paragraphText p = text at given ⊢
  have fills := (finds_all tag_placeholder.proper text).fills given
  obtain ⟨s₁,ran,records⟩ := exists_placeholderTexts given s
  unfold textRule
  cases found : all placeholder? text with
  | nil =>
    rw [found] at fills
    exact ⟨.next,s,_,_,rfl,fills,rfl,rfl,text_eq,(List.append_nil _).symm,rfl⟩
  | cons f fs =>
    rw [found] at fills ran records
    obtain ⟨s₂,wrote,text_eq',index_eq,outcomes_eq⟩ :=
      exists_write (records.forest_eq ▸ flat) (substitute text _) setup
    rw [records.forest_eq] at wrote
    exact ⟨.ended .rewritten,s₂,_,_,(bind_ok ran).trans (bind_ok wrote),fills,rfl,rfl,text_eq',
      outcomes_eq.trans records.outcomes_eq,index_eq.trans records.index_eq⟩

/-- Placeholders are filled in with what structured data has at their keys. -/
theorem textRule_fills (flat : s.package.forest.Flat p) (structured : setup.data.Structured) :
    ∃ step s' out keys,
      textRule ⟨p,s.package.forest.textElements p⟩ (s.package.forest.paragraphText p) setup s =
        .ok step s' ∧
      Fills (shownAt setup.data) (s.package.forest.paragraphText p) out keys ∧
        Filled setup.data s p out keys step s' := by
  obtain ⟨step,s',out,keys,ran,fills,-,filled⟩ :=
    exists_filled flat fun f _ => (structured.resolve f.value.key).exists_display
  exact ⟨step,s',out,keys,ran,fills,filled⟩

/-- Placeholders among other braces: one is not closed, one closes a block, and one has no value. -/
private def mixedText : String :=
  "\x7bname\x7d\x7bx\x7by\x7d\x7b/t\x7d\x7b z \x7d!"

private def mixedSetup : Setup where
  data := .map [(.text "name",.text "\x7by\x7d"),(.text "y",.bool true)]

theorem textRule_fills_mixed : ∃ step s' keys,
    textRule ⟨0,(Forest.line mixedText).textElements 0⟩ mixedText.toList mixedSetup
        { package := { forest := .line mixedText } } = .ok step s' ∧
      Fills (shownAt mixedSetup.data) mixedText.toList "\x7by\x7d\x7bxtrue\x7b/t\x7d!".toList keys ∧
        Filled mixedSetup.data { package := { forest := .line mixedText } } 0
          "\x7by\x7d\x7bxtrue\x7b/t\x7d!".toList keys step s' := by
  let s : Session := { package := { forest := .line mixedText } }
  have text_eq : s.package.forest.paragraphText 0 = mixedText.toList := by decide +kernel
  have structured : mixedSetup.data.Structured := by
    refine .map ?_ ?_
    · simp only [List.forall_mem_cons]
      exact ⟨⟨_,rfl⟩,⟨_,rfl⟩,by simp⟩
    · simp only [List.forall_mem_cons]
      exact ⟨.scalar trivial,.scalar trivial,by simp⟩
  obtain ⟨step,s',out,keys,ran,fills,filled⟩ :=
    @textRule_fills mixedSetup s 0 (Forest.flat_line mixedText) structured
  rw [text_eq] at ran fills
  have computed : (match textRule ⟨0,(Forest.line mixedText).textElements 0⟩ mixedText.toList mixedSetup s with
      | .ok _ s' => s'.package.forest.paragraphText 0
      | .error _ _ => []) = "\x7by\x7d\x7bxtrue\x7b/t\x7d!".toList := by decide +kernel
  have ran' : textRule ⟨0,(Forest.line mixedText).textElements 0⟩ mixedText.toList mixedSetup s =
    .ok step s' := ran
  rw [ran'] at computed
  obtain rfl := filled.paragraphText_eq.symm.trans computed
  exact ⟨step,s',keys,ran,fills,filled⟩

/-- Without conditional blocks a text is left as it is. -/
theorem resolveBlocks_of_silent (silent : Silent conditional? text) (p : NodeId) (setup : Setup)
    (s : Session) : resolveBlocks (text.length + 1) p text 0 false setup s = .ok (some text,false) s := by
  have none : nextConditional? text 0 = none := (first?_eq_none_iff tag_conditional.proper).mpr silent
  rw [resolveBlocks,none]
  rfl

/-- Only the last two rules apply to a text with nothing that takes precedence over loops. -/
theorem tryRules_of_silent (silent : Silent table? text) (silent₁ : Silent chart? text)
    (silent₂ : Silent image? text) (silent₃ : Silent format? text) (t : Target) (setup : Setup)
    (s : Session) : tryRules t text rules setup s = tryRules t text [loopRule,textRule] setup s := by
  have skip {rule : Target → List Char → Generation Step}
      {others : List (Target → List Char → Generation Step)} (next : rule t text setup s = .ok .next s) :
      tryRules t text (rule :: others) setup s = tryRules t text others setup s := bind_ok next
  have table : tableRule t text setup s = .ok .next s := by
    simp only [tableRule,(first?_eq_none_iff tag_table.proper).mpr silent]
    rfl
  have chart : chartRule t text setup s = .ok .next s := by
    simp only [chartRule,(first?_eq_none_iff tag_chart.proper).mpr silent₁]
    rfl
  have image : imageRule t text setup s = .ok .next s := by
    simp only [imageRule,(first?_eq_none_iff tag_image.proper).mpr silent₂]
    rfl
  have format : formatRule t text setup s = .ok .next s := by
    simp only [formatRule,(all_eq_nil_iff tag_format.proper).mpr silent₃]
    rfl
  rw [rules,skip table,skip chart,skip image,skip format]

/-- A paragraph with braces and without conditional blocks is filled by the rules alone. -/
theorem paragraph_of_silent (attached : s.index.isAttached p = true)
    (silent : Silent conditional? (s.package.forest.paragraphText p))
    (braced : '\x7b' ∈ s.package.forest.paragraphText p) (setup : Setup) :
    Fill.paragraph p setup s = (do
      match ← tryRules ⟨p,s.package.forest.textElements p⟩ (s.package.forest.paragraphText p) rules with
      | some e => return e
      | none => return .unchanged) setup s := by
  have looked : Generation.isAttached p setup s = .ok true s := congrArg (EStateM.Result.ok · s) attached
  have held : (s.package.forest.joinedText (s.package.forest.textElements p)).contains '\x7b' = true :=
    List.contains_iff_mem.mpr braced
  refine (bind_ok looked).trans ((bind_ok (forest_apply setup s)).trans ?_)
  simp only [held,Bool.not_true,Bool.false_eq_true,if_false]
  exact bind_ok (resolveBlocks_of_silent silent p setup s)

/-- Of the rules only the last applies to a text with nothing that takes precedence over placeholders. -/
theorem tryRules_of_simple (simple : Simple text) (t : Target) (setup : Setup) (s : Session) :
    tryRules t text rules setup s = tryRules t text [textRule] setup s := by
  have loop : loopRule t text setup s = .ok .next s := by
    simp only [loopRule,(first?_eq_none_iff tag_loop.proper).mpr simple.loop]
    rfl
  rw [tryRules_of_silent simple.table simple.chart simple.image simple.format]
  exact bind_ok loop

theorem paragraph_of_simple (attached : s.index.isAttached p = true)
    (simple : Simple (s.package.forest.paragraphText p))
    (braced : '\x7b' ∈ s.package.forest.paragraphText p) (setup : Setup) :
    Fill.paragraph p setup s = (do
      match ← textRule ⟨p,s.package.forest.textElements p⟩ (s.package.forest.paragraphText p) with
      | .ended e => return e
      | _ => return .unchanged) setup s := by
  rw [paragraph_of_silent attached simple.conditional braced,bind_apply,tryRules_of_simple simple,tryRules,
    bind_apply,bind_apply]
  cases textRule ⟨p,s.package.forest.textElements p⟩ (s.package.forest.paragraphText p) setup s with
  | ok step s' => cases step <;> rfl
  | error fault s' => rfl

theorem paragraph_of_scan_nil (attached : s.index.isAttached p = true)
    (none : scan (s.package.forest.paragraphText p) = []) (setup : Setup) :
    Fill.paragraph p setup s = .ok .unchanged s := by
  obtain ⟨simple,silent⟩ := scan_eq_nil_iff.mp none
  by_cases braced : '\x7b' ∈ s.package.forest.paragraphText p
  · rw [paragraph_of_simple attached simple braced,textRule,(all_eq_nil_iff tag_placeholder.proper).mpr silent]
    rfl
  · exact paragraph_of_plain braced

/-- A second pass over a paragraph finds nothing to do, when its braces do not nest and none of the values put
in for its placeholders has an opening brace. -/
theorem paragraph_settles (flat : s.package.forest.Flat p) (attached : s.index.isAttached p = true)
    (unnested : Unnested (s.package.forest.paragraphText p))
    (placeholders : ∃ f ∈ scan (s.package.forest.paragraphText p), f.value.kind = .text)
    (plain : ∀ f ∈ all placeholder? (s.package.forest.paragraphText p), ∃ new,
      shownAt setup.data f.value.key = .ok new ∧ '\x7b' ∉ new.toList) :
    ∃ s', Fill.paragraph p setup s = .ok .rewritten s' ∧
      scan (s'.package.forest.paragraphText p) = [] ∧ Fill.paragraph p setup s' = .ok .unchanged s' := by
  have simple := simple_of_scan placeholders
  obtain ⟨step,s',out,keys,ran,fills,keys_eq,filled⟩ :=
    exists_filled flat fun f member => (plain f member).imp fun _ => And.left
  have unopened : ∀ key ∈ keys, '\x7b' ∉ written (shownAt setup.data key) := by
    intro key member
    rw [keys_eq] at member
    obtain ⟨f,listed,rfl⟩ := List.mem_map.mp member
    obtain ⟨new,given,plain⟩ := plain f listed
    rw [given]
    exact plain
  have some : all placeholder? (s.package.forest.paragraphText p) ≠ [] := by
    obtain ⟨f,member,-⟩ := placeholders
    rw [simple.scan_eq] at member
    obtain ⟨f,listed,-⟩ := List.mem_map.mp member
    exact List.ne_nil_of_mem listed
  have braced : '\x7b' ∈ s.package.forest.paragraphText p := by
    by_contra plain
    exact some ((all_eq_nil_iff tag_placeholder.proper).mpr (tag_placeholder.toBraced.silent_of_plain plain))
  have settled : scan (s'.package.forest.paragraphText p) = [] := by
    rw [filled.paragraphText_eq]
    exact fills.scan_eq_nil unnested unopened simple
  refine ⟨s',?_,settled,paragraph_of_scan_nil (filled.index_eq ▸ attached) settled setup⟩
  rw [paragraph_of_simple attached simple braced]
  refine (bind_ok ran).trans ?_
  rw [filled.step_eq,if_neg (keys_eq ▸ List.map_eq_nil_iff.not.mpr some)]
  rfl

/-- Two placeholders and a brace that is not closed. -/
private def openText : String :=
  "\x7ba\x7d, \x7bb.0\x7d \x7bc"

private def openSetup : Setup where
  data := .map [(.text "a",.text "#if x\x7d"),(.text "b",.list [.int 1])]

theorem paragraph_settles_open : ∃ s',
    Fill.paragraph 0 openSetup { package := { forest := .line openText }, index := { root := 0 } } =
        .ok .rewritten s' ∧
      scan (s'.package.forest.paragraphText 0) = [] ∧
        Fill.paragraph 0 openSetup s' = .ok .unchanged s' := by
  let s : Session := { package := { forest := .line openText } }
  have text_eq : s.package.forest.paragraphText 0 = openText.toList := by decide +kernel
  have unnested : Unnested openText.toList := by decide +kernel
  have placeholders : (scan openText.toList).any (·.value.kind == .text) = true := by decide +kernel
  have plain : (all placeholder? openText.toList).all (fun f => (shownAt openSetup.data f.value.key).isOk &&
      !(written (shownAt openSetup.data f.value.key)).contains '\x7b') = true := by decide +kernel
  refine @paragraph_settles openSetup s 0 (Forest.flat_line openText) rfl
    (text_eq ▸ unnested) ?_ fun f member => ?_
  · rw [text_eq]
    obtain ⟨f,member,kind⟩ := List.any_eq_true.mp placeholders
    exact ⟨f,member,eq_of_beq kind⟩
  · obtain ⟨shown,unopened⟩ := Bool.and_eq_true_iff.mp (List.all_eq_true.mp plain f (text_eq ▸ member))
    obtain ⟨new,given⟩ := exists_of_isOk shown
    rw [given] at unopened
    exact ⟨new,given,by simpa [written] using unopened⟩

end MailMerge.Fill
