import MailMerge.Proofs.Data.Structured
import MailMerge.Proofs.Number.Numeral

/-! What conditions break down on. A condition that cannot be judged is false, unless a conversion to a
number breaks down: an integer of the data is beyond all floats, or an information separator stands in
a text that is compared, be it of the data or of the condition itself.
-/
namespace MailMerge
open Number

/-- A value that breaks a conversion to a number down, with the breakdown. -/
inductive Value.Breaks : Value → Fault → Prop
  | large {n : Int} (beyond : Binary64.ofInt? n = none) : Breaks (.int n) (.breakdown .overflow)
  | separated {s : String} {c : Char} (member : c ∈ s.toList) (separator : isSeparator c = true) :
    Breaks (.text s) (.breakdown .value)

/-- A conversion breaks down on some data or on a text that is compared with it. -/
inductive Value.Strains (data : Value) (text : List Char) : Fault → Prop
  | data {part : Value} {fault : Fault} (holds : data.Holds part) (breaks : part.Breaks fault) :
    Strains data text fault
  | text {c : Char} (member : c ∈ text) (separator : isSeparator c = true) :
    Strains data text (.breakdown .value)

theorem Value.Strains.mono {data : Value} {text text' : List Char} {fault : Fault}
    (strains : data.Strains text fault) (subset : text ⊆ text') : data.Strains text' fault := by
  cases strains with
  | data holds breaks => exact .data holds breaks
  | text member separator => exact .text (subset member) separator

namespace Condition
open Value

variable {left right v context : Value} {fault : Fault}

theorem number_error (failed : number v = .error fault) :
    isInvalidity fault = true ∨ v.Breaks fault := by
  unfold number at failed
  split at failed
  · simp at failed
  · split at failed
    · simp at failed
    · next beyond =>
      obtain rfl := Except.error.inj failed
      exact Or.inr (.large beyond)
  · simp at failed
  · split at failed
    · next numeral =>
      split at failed
      · simp at failed
      · next unread =>
        obtain rfl := Except.error.inj failed
        obtain ⟨c,member,separator⟩ := exists_separator numeral unread
        exact Or.inr (.separated member separator)
    · obtain rfl := Except.error.inj failed
      exact Or.inl rfl
  · obtain rfl := Except.error.inj failed
    exact Or.inl rfl

/-- Two values are compared as numbers. -/
private theorem numbers_error {α : Type} {next : Binary64 → Binary64 → Except Fault α}
    (invalid : ∀ x y, next x y = .error fault → isInvalidity fault = true) (failed : (do
      let x ← number left
      let y ← number right
      next x y) = .error fault) :
    isInvalidity fault = true ∨ left.Breaks fault ∨ right.Breaks fault := by
  cases first : number left with
  | error other =>
    simp only [first,bind,Except.bind] at failed
    exact (number_error (Except.error.inj failed ▸ first)).imp_right Or.inl
  | ok x =>
    cases second : number right with
    | error other =>
      simp only [first,second,bind,Except.bind] at failed
      exact (number_error (Except.error.inj failed ▸ second)).imp_right Or.inr
    | ok y =>
      simp only [first,second,bind,Except.bind] at failed
      exact Or.inl (invalid x y failed)

private theorem looseEqual_error (failed : looseEqual left right = .error fault) :
    isInvalidity fault = true ∨ left.Breaks fault ∨ right.Breaks fault := by
  unfold looseEqual at failed
  split at failed
  · unfold falseIfNotANumber at failed
    split at failed
    · simp at failed
    · refine numbers_error ?_ failed
      intro _ _ impossible
      simp [pure,Except.pure] at impossible
  · split at failed <;> simp at failed

private theorem order_error (failed : order left right = .error fault) :
    isInvalidity fault = true ∨ left.Breaks fault ∨ right.Breaks fault := by
  unfold order at failed
  split at failed
  · simp at failed
  · refine numbers_error ?_ failed
    intro _ _ impossible
    simp [pure,Except.pure] at impossible

theorem compare_error {op : Comparison} (failed : compare left op right = .error fault) :
    isInvalidity fault = true ∨ left.Breaks fault ∨ right.Breaks fault := by
  have of_map {α β : Type} {result : Except Fault α} {f : α → β}
      (failed : result.map f = .error fault) : result = .error fault := by
    cases result with
    | error other => exact congrArg _ (Except.error.inj failed)
    | ok a => simp [Except.map] at failed
  unfold compare at failed
  split at failed
  · exact looseEqual_error failed
  · exact looseEqual_error (of_map failed)
  · exact order_error (of_map failed)

theorem compareText_error {spelling : String}
    (failed : compareText left spelling right = .error fault) :
    isInvalidity fault = true ∨ left.Breaks fault ∨ right.Breaks fault := by
  unfold compareText at failed
  split at failed
  · exact compare_error failed
  · obtain rfl := Except.error.inj failed
    exact Or.inl rfl

theorem literal_subset (text : List Char) : literal text ⊆ text := by
  refine List.Subset.trans ?_ (Text.trim_subset text)
  unfold literal
  dsimp only
  split
  · next first middle _ =>
    rw [‹Text.trim text = first :: middle›]
    split
    · exact fun c member => List.mem_cons_of_mem _ ((List.dropLast_sublist middle).subset member)
    · exact List.filter_sublist.subset
  · exact List.nil_subset _

theorem read?_subset {text rest : List Char} {op : Comparison}
    (found : Comparison.read? text = some (op,rest)) : rest ⊆ text := by
  obtain ⟨⟨spelling,op'⟩,-,found⟩ := List.exists_of_findSome?_eq_some found
  obtain ⟨rest',after,same⟩ := Option.map_eq_some_iff.mp found
  obtain ⟨-,rfl⟩ := Prod.mk.inj same
  rw [Text.eq_append_of_after? after]
  exact List.subset_append_right _ _

/-- The operands of an expression are made of its characters. -/
theorem split_subset {fuel : Nat} {operand text first : List Char}
    {more : List (Comparison × List Char)} (parts : split fuel operand text = (first,more)) :
    first ⊆ operand ++ text ∧ ∀ part ∈ more, part.2 ⊆ text := by
  have done {operand text first : List Char} {more : List (Comparison × List Char)}
      (parts : (operand.reverse,[]) = (first,more)) :
      first ⊆ operand ++ text ∧ ∀ part ∈ more, part.2 ⊆ text := by
    obtain ⟨rfl,rfl⟩ := Prod.mk.inj parts
    exact ⟨fun c member => List.mem_append_left _ (List.mem_reverse.mp member),by simp⟩
  induction fuel generalizing operand text first more with
  | zero => exact done parts
  | succ fuel ih =>
    cases text with
    | nil => exact done parts
    | cons c rest =>
      rw [split] at parts
      split at parts
      · next op rest' found =>
        obtain ⟨rfl,rfl⟩ := Prod.mk.inj parts
        have shorter : rest'.dropWhile Text.isBlank ⊆ c :: rest :=
          List.Subset.trans (List.dropWhile_sublist _).subset (read?_subset found)
        obtain ⟨next_subset,more_subset⟩ := ih (Prod.eta _).symm
        refine ⟨?_,List.forall_mem_cons.mpr ⟨List.Subset.trans next_subset shorter,?_⟩⟩
        · intro c member
          exact List.mem_append_left _
            ((List.dropWhile_sublist _).subset (List.mem_reverse.mp member))
        · exact fun part member => List.Subset.trans (more_subset part member) shorter
      · obtain ⟨first_subset,more_subset⟩ := ih parts
        refine ⟨fun d member => ?_,fun part member => List.subset_cons_of_subset _
          (more_subset part member)⟩
        have inside := first_subset member
        simp only [List.mem_append,List.mem_cons] at inside ⊢
        rcases inside with (rfl | inside) | inside
        · exact Or.inr (Or.inl rfl)
        · exact Or.inl inside
        · exact Or.inr (Or.inr inside)

/-- Where a conversion breaks down on the value at a path, it does on the data. -/
theorem strains_resolve {path : String} (breaks : (context.resolve path).Breaks fault)
    (text : List Char) : context.Strains text fault := by
  rcases context.resolve_cases path with same | holds
  · rw [same] at breaks
    cases breaks with
    | separated member => simp at member
  · exact .data holds breaks

private theorem rightValue_error {text : List Char} (failed : rightValue text context = .error fault) :
    context.Strains text fault := by
  unfold rightValue at failed
  split at failed
  · next numeral =>
    split at failed
    · simp at failed
    · next unread =>
      obtain rfl := Except.error.inj failed
      obtain ⟨c,member,separator⟩ := exists_separator numeral unread
      exact .text member separator
  · dsimp only at failed
    split at failed <;> simp at failed

private theorem strains_rightValue {text : List Char} (ok : rightValue text context = .ok v)
    (breaks : v.Breaks fault) : context.Strains text fault := by
  unfold rightValue at ok
  split at ok
  · split at ok
    · obtain rfl := Except.ok.inj ok
      cases breaks
    · simp at ok
  · dsimp only at ok
    split at ok
    · obtain rfl := Except.ok.inj ok
      cases breaks with
      | separated member separator =>
        rw [String.toList_ofList] at member
        exact .text (literal_subset text member) separator
    · obtain rfl := Except.ok.inj ok
      exact strains_resolve breaks text

theorem evaluate_error {expression : List Char}
    (failed : evaluate expression context = .error fault) :
    isInvalidity fault = true ∨ context.Strains expression fault := by
  unfold evaluate at failed
  split at failed
  · simp at failed
  · next left op right parts =>
    obtain ⟨-,operands⟩ := split_subset parts
    have inside : right ⊆ expression := operands _ List.mem_cons_self
    split at failed
    · obtain rfl := Except.error.inj failed
      exact Or.inl rfl
    · cases given : rightValue right context with
      | error other =>
        rw [given] at failed
        obtain rfl := Except.error.inj failed
        exact Or.inr ((rightValue_error given).mono inside)
      | ok value =>
        rw [given] at failed
        refine (compare_error failed).imp_right fun breaks => ?_
        rcases breaks with breaks | breaks
        · exact strains_resolve breaks expression
        · exact (strains_rightValue given breaks).mono inside
  · obtain rfl := Except.error.inj failed
    exact Or.inl rfl

private theorem toVerdict_error {result : Except Fault Bool}
    (failed : toVerdict result = .error fault) :
    result = .error fault ∧ isInvalidity fault = false := by
  unfold toVerdict at failed
  split at failed
  · simp at failed
  · next other =>
    split at failed
    · simp at failed
    · next valid =>
      obtain rfl := Except.error.inj failed
      exact ⟨rfl,Bool.eq_false_iff.mpr valid⟩

/-- What keeps a condition from being judged. -/
theorem judge_error {condition : String} (failed : judge condition context = .error fault) :
    context.Strains condition.toList fault := by
  obtain ⟨failed,valid⟩ := toVerdict_error failed
  rcases evaluate_error failed with invalid | strains
  · rw [valid] at invalid
    exact Bool.noConfusion invalid
  · exact strains.mono (Text.trim_subset _)

/-- What keeps a row rule from being judged. -/
theorem judgeRow_error {row : Value} {field operator value : String}
    (failed : judgeRow row field operator value = .error fault) :
    row.Strains value.toList fault := by
  unfold judgeRow at failed
  split at failed
  · next entries =>
    obtain ⟨failed,valid⟩ := toVerdict_error failed
    have breaks : isInvalidity fault = true ∨
        ((Entries.get? entries field).getD .null).Breaks fault ∨
          (Value.text (String.ofList (literal value.toList))).Breaks fault := by
      split at failed
      · refine numbers_error (fun x y unordered => ?_) failed
        rcases compareText_error unordered with invalid | ⟨⟨⟩⟩ | ⟨⟨⟩⟩
        exact invalid
      · exact compareText_error failed
    rcases breaks with invalid | breaks | breaks
    · rw [valid] at invalid
      exact Bool.noConfusion invalid
    · cases found : Entries.get? entries field with
      | none =>
        rw [found] at breaks
        cases breaks
      | some part =>
        rw [found] at breaks
        exact .data (holds_of_lookup found) breaks
    · cases breaks with
      | separated member separator =>
        rw [String.toList_ofList] at member
        exact .text (literal_subset _ member) separator
  · simp at failed

end Condition
end MailMerge
