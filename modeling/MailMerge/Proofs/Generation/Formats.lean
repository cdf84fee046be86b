import MailMerge.Proofs.Directive.Fills
import MailMerge.Proofs.Generation.Recorded

/-! Format tags. Their values are put in one after the other, each in the place of the first text that
reads like its tag. That is the tag itself as long as nothing before it reads like the tag, neither in
the old text nor in a value that was put in; then all tags are replaced at their own places.
-/
namespace MailMerge.Fill
open Directive Text Generation

def formatted (data : Value) (tag : FormatTag) : Except Fault String :=
  (data.resolve tag.key).format tag.style

def formatOutcome (part : String) (f : Found FormatTag) : Outcome :=
  ⟨.format,.text f.value.key,.applied,"",part⟩

def formatTexts (data : Value) (found : List (Found FormatTag)) : List (Found FormatTag × List Char) :=
  found.map fun f => (f,written (formatted data f.value))

variable {setup : Setup} {s : Session} {p : NodeId}

/-- Nothing that is put together before the place of a tag reads like the tag. -/
def Distinct (data : Value) (text : List Char) : Prop :=
  ∀ before f after, all format? text = before ++ f :: after →
    occursIn f.raw (substitute (text.take f.start) (formatTexts data before)) = false

theorem distinct_iff {data : Value} {text : List Char} : Distinct data text ↔
    ∀ i, (inside : i < (all format? text).length) → occursIn (all format? text)[i].raw (substitute
      (text.take (all format? text)[i].start) (formatTexts data ((all format? text).take i))) = false := by
  constructor
  · intro distinct i inside
    refine distinct _ _ ((all format? text).drop (i + 1)) ?_
    rw [List.getElem_cons_drop,List.take_append_drop]
  · intro absent before f after split
    have inside : before.length < (all format? text).length := by simp [split]
    have absent := absent before.length inside
    simpa [split] using absent

instance (data : Value) (text : List Char) : Decidable (Distinct data text) :=
  decidable_of_iff _ distinct_iff.symm

/-- The same of the tags that are still ahead, where `done` is put together already. -/
private def Ahead (data : Value) (done : List Char) (start : Nat) (rest : List Char)
    (found : List (Found FormatTag)) : Prop :=
  ∀ before f after, found = before ++ f :: after → occursIn f.raw
    (done ++ substitute.go start (rest.take (f.start - start)) (formatTexts data before)) = false

section
variable {data : Value} {done rest : List Char} {start : Nat} {found : List (Found FormatTag)}

private theorem Ahead.pass {c : Char} (ahead : Ahead data done start (c :: rest) found)
    (more : Finds format? (start + 1) rest found) : Ahead data (done ++ [c]) (start + 1) rest found := by
  intro before f after split
  have behind : start + 1 ≤ f.start := more.le_start f (by simp [split])
  have place : f.start - start = f.start - (start + 1) + 1 := by omega
  have absent := ahead before f after split
  rwa [place,List.take_succ_cons,formatTexts,more.go_pass (by simp [split]),List.append_cons] at absent

private theorem Ahead.read {f : Found FormatTag} {raw : List Char} {new : String}
    (ahead : Ahead data done start (raw ++ rest) (⟨f.value,start,raw⟩ :: found))
    (here : formatted data f.value = .ok new) (more : Finds format? (start + raw.length) rest found) :
    Ahead data (done ++ new.toList) (start + raw.length) rest found := by
  intro before g after split
  have behind : start + raw.length ≤ g.start := more.le_start g (by simp [split])
  have absent := ahead (_ :: before) g after (congrArg _ split)
  have place : g.start - start = raw.length + (g.start - (start + raw.length)) := by omega
  rw [place,List.take_length_add_append,formatTexts,List.map_cons,go_read,← List.append_assoc] at absent
  rwa [here] at absent

end

private theorem exists_formatAll {start : Nat} {rest : List Char} {found : List (Found FormatTag)}
    (finds : Finds format? start rest found)
    (given : ∀ f ∈ found, ∃ new, formatted setup.data f.value = .ok new) {done : List Char}
    (ahead : Ahead setup.data done start rest found) (s : Session) :
    ∃ s', formatAll (done ++ rest) found setup s =
        .ok (done ++ substitute.go start rest (formatTexts setup.data found)) s' ∧
      s.Records (found.map (formatOutcome s.part)) s' := by
  -- on the search of what is left; the first text that reads like the next tag is not in `done`
  induction finds generalizing done s with
  | nil => exact ⟨s,rfl,.refl s⟩
  | @pass start c rest found silent more ih =>
    rw [formatTexts,more.go_pass (List.Subset.refl _),List.append_cons,
      List.append_cons done c (substitute.go _ _ _)]
    exact ih given (ahead.pass more) s
  | @read start value raw rest found some reads more ih =>
    obtain ⟨⟨new,here⟩,later⟩ := List.forall_mem_cons.mp given
    obtain ⟨others,split,once⟩ := format?_raw reads
    obtain rfl : raw = '\x7b' :: others := List.append_cancel_right split
    have absent : occursIn ('\x7b' :: others) done = false := by
      have absent := ahead [] _ found rfl
      rwa [Nat.sub_self,List.take_zero,formatTexts,List.map_nil,substitute.go,List.append_nil] at absent
    have put : replaceFirst ('\x7b' :: others) new.toList (done ++ ('\x7b' :: others ++ rest)) =
        done ++ new.toList ++ rest := replaceFirst_piece once absent new.toList rest
    have looked := ofExcept_ok here setup s
    obtain ⟨s₁,recorded,records⟩ := exists_record .format (.text value.key) .applied "" setup s
    obtain ⟨s₂,ran,records'⟩ := ih later (ahead.read here more) s₁
    refine ⟨s₂,?_,?_⟩
    · rw [formatTexts,List.map_cons,go_read,here]
      rw [← put,List.append_assoc done new.toList (substitute.go _ _ _)] at ran
      exact (bind_ok (valueAt_apply _ _ _)).trans ((bind_ok looked).trans ((bind_ok recorded).trans ran))
    · rw [records.part_eq] at records'
      exact records.trans records'

/-- Format tags give way to their values, where nothing reads like a tag before the tag's own place. -/
theorem formatRule_writes (flat : s.package.forest.Flat p)
    (given : ∀ f ∈ all format? (s.package.forest.paragraphText p), ∃ new,
      formatted setup.data f.value = .ok new)
    (distinct : Distinct setup.data (s.package.forest.paragraphText p)) :
    ∃ step s', formatRule ⟨p,s.package.forest.textElements p⟩ (s.package.forest.paragraphText p) setup s =
        .ok step s' ∧
      s'.package.forest.paragraphText p = substitute (s.package.forest.paragraphText p)
        (formatTexts setup.data (all format? (s.package.forest.paragraphText p))) ∧
      s'.outcomes = s.outcomes ++
        (all format? (s.package.forest.paragraphText p)).map (formatOutcome s.part) := by
  generalize text_eq : s.package.forest.paragraphText p = text at given distinct ⊢
  have ahead : Ahead setup.data [] 0 text (all format? text) := distinct
  obtain ⟨s₁,ran,records⟩ := exists_formatAll (finds_all tag_format.proper text) given ahead s
  change formatAll text (all format? text) setup s = .ok (substitute text _) s₁ at ran
  unfold formatRule
  cases found : all format? text with
  | nil => exact ⟨.next,s,rfl,text_eq,(List.append_nil _).symm⟩
  | cons f fs =>
    rw [found] at ran records
    generalize substitute text (formatTexts setup.data (f :: fs)) = out at ran ⊢
    by_cases same : (out == text) = true
    · refine ⟨.next,s₁,(bind_ok ran).trans ?_,?_,records.outcomes_eq⟩
      · rw [if_pos same]
        rfl
      · rw [records.forest_eq,text_eq,eq_of_beq same]
    · obtain ⟨s₂,wrote,text_eq',-,outcomes_eq⟩ := exists_write (records.forest_eq ▸ flat) out setup
      rw [records.forest_eq] at wrote
      refine ⟨.ended .rewritten,s₂,(bind_ok ran).trans ?_,text_eq',outcomes_eq.trans records.outcomes_eq⟩
      rw [if_neg same]
      exact bind_ok wrote

/-- Two tags, of which the first gives way to the beginning of the second. -/
private def halfText : String :=
  "\x7bformat:a:x\x7d-\x7bformat:b:x\x7d"

private def halfSetup : Setup where
  data := .map [(.text "a",.text "\x7bformat:b:"),(.text "b",.int 2)]

theorem formatRule_writes_half : ∃ step s',
    formatRule ⟨0,(Forest.line halfText).textElements 0⟩ halfText.toList halfSetup
        { package := { forest := .line halfText } } = .ok step s' ∧
      s'.package.forest.paragraphText 0 = "\x7bformat:b:-2".toList ∧ s'.outcomes.length = 2 := by
  let s : Session := { package := { forest := .line halfText } }
  have text_eq : s.package.forest.paragraphText 0 = halfText.toList := by decide +kernel
  have formats : (all format? halfText.toList).all fun f => (formatted halfSetup.data f.value).isOk := by
    decide +kernel
  obtain ⟨step,s',ran,text_eq',outcomes_eq⟩ :=
    @formatRule_writes halfSetup s 0 (Forest.flat_line halfText)
      (fun f member => exists_of_isOk (List.all_eq_true.mp formats f (text_eq ▸ member)))
      (text_eq ▸ (by decide +kernel : Distinct halfSetup.data halfText.toList))
  rw [text_eq] at ran text_eq' outcomes_eq
  refine ⟨step,s',ran,text_eq'.trans ?_,?_⟩
  · decide +kernel
  · rw [outcomes_eq]
    decide +kernel

/-- A value that reads like a later tag is replaced in the place of the tag. -/
example : (match formatAll "\x7bformat:a:x\x7d\x7bformat:b:x\x7d".toList
      (all format? "\x7bformat:a:x\x7d\x7bformat:b:x\x7d".toList)
      { data := .map [(.text "a",.text "\x7bformat:b:x\x7d"),(.text "b",.text "B")] }
      { package := {} } with
    | .ok out _ => out
    | .error _ _ => []) = "B\x7bformat:b:x\x7d".toList := by
  decide +kernel

end MailMerge.Fill
