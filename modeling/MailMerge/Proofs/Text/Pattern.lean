import MailMerge.Text.Pattern
import Mathlib.Data.List.Basic

/-! What a match of a pattern says about the text: the places before and after it are apart by the
characters that the pattern accepts. The patterns for headers and footers only match names that
stand directly in the folder of the document.
-/
namespace MailMerge.Text.Pattern

/-- Two places of a text with what stands between them. -/
def Spans (text : List Char) (start stop : Nat) (between : List Char) : Prop :=
  text.drop start = between ++ text.drop stop

theorem Spans.refl (text : List Char) (start : Nat) : Spans text start start [] := rfl

theorem Spans.trans {text : List Char} {start middle stop : Nat} {first second : List Char}
    (before : Spans text start middle first) (after : Spans text middle stop second) :
    Spans text start stop (first ++ second) := by
  unfold Spans at *
  rw [before,after,List.append_assoc]

theorem mem_advance {step : Nat → List Nat} {places : List Nat} {stop : Nat} :
    stop ∈ advance step places ↔ ∃ start ∈ places, stop ∈ step start := by
  simp [advance,List.mem_eraseDups]

theorem mem_stops_both {text : List Char} {first second : Pattern} {start stop : Nat}
    (matched : stop ∈ (both first second).stops text start) :
    ∃ middle ∈ first.stops text start, stop ∈ second.stops text middle :=
  mem_advance.mp matched

theorem spans_one {text : List Char} {accepts : Char → Bool} {start stop : Nat}
    (matched : stop ∈ (one accepts).stops text start) :
    ∃ c, accepts c = true ∧ Spans text start stop [c] := by
  simp only [stops] at matched
  split at matched
  · next c here =>
    split at matched
    · next accepted =>
      obtain rfl := List.mem_singleton.mp matched
      obtain ⟨inside,here⟩ := List.getElem?_eq_some_iff.mp here
      refine ⟨c,accepted,?_⟩
      rw [Spans,List.drop_eq_getElem_cons inside,here,List.singleton_append]
    · simp at matched
  · simp at matched

theorem stop_eq_of_place {text : List Char} {accepts : List Char → List Char → Bool}
    {start stop : Nat} (matched : stop ∈ (place accepts).stops text start) :
    stop = start ∧ accepts (text.take start) (text.drop start) = true := by
  simp only [stops] at matched
  split at matched
  · next accepted => exact ⟨List.mem_singleton.mp matched,accepted⟩
  · simp at matched

private theorem spans_within {text : List Char} {accepts : Char → Bool} (count : Nat)
    {places : List Nat} {stop : Nat}
    (matched : stop ∈ within ((one accepts).stops text) places count) :
    ∃ start ∈ places, ∃ between, between.all accepts = true ∧ Spans text start stop between := by
  induction count generalizing places with
  | zero => exact ⟨stop,matched,[],rfl,Spans.refl text stop⟩
  | succ count ih =>
    rw [within,List.mem_eraseDups,List.mem_append] at matched
    rcases matched with member | member
    · exact ⟨stop,member,[],rfl,Spans.refl text stop⟩
    · obtain ⟨middle,advanced,between,accepted,after⟩ := ih member
      obtain ⟨start,member,matched⟩ := mem_advance.mp advanced
      obtain ⟨c,first,before⟩ := spans_one matched
      exact ⟨start,member,c :: between,by simp [first,accepted],before.trans after⟩

/-- A repeated class of characters spans characters of the class. -/
theorem spans_times {text : List Char} {accepts : Char → Bool} {start stop : Nat}
    (matched : stop ∈ (times (one accepts) 0 none).stops text start) :
    ∃ between, between.all accepts = true ∧ Spans text start stop between := by
  obtain ⟨place,here,rest⟩ := spans_within _ matched
  obtain rfl := List.mem_singleton.mp here
  exact rest

/-- A pattern followed by the characters of a text. -/
def followed (p : Pattern) (piece : List Char) : Pattern :=
  piece.foldl (fun p c => both p (one (· == c))) p

theorem spans_followed {text piece : List Char} {p : Pattern} {start stop : Nat}
    (matched : stop ∈ (p.followed piece).stops text start) :
    ∃ middle ∈ p.stops text start, Spans text middle stop piece := by
  induction piece generalizing p with
  | nil => exact ⟨stop,matched,Spans.refl text stop⟩
  | cons c piece ih =>
    obtain ⟨place,reached,after⟩ := ih (p := both p (one (· == c))) matched
    obtain ⟨middle,first,second⟩ := mem_stops_both reached
    obtain ⟨d,same,before⟩ := spans_one second
    obtain rfl := eq_of_beq same
    exact ⟨middle,first,before.trans after⟩

/-- The pattern of a numbered name: what stands before the digits and what stands after them. -/
def numbered (before after : List Char) : Pattern :=
  both (followed (both (followed (both empty (place fun before _ => before.isEmpty)) before)
      (times (one isDecimal) 0 none)) after)
    (place fun _ after => after.isEmpty || after == ['\n'])

/-- A name that the pattern of a numbered name matches is such a name, up to a line feed. -/
theorem startsText_numbered {before after : List Char} {name : String}
    (matched : (numbered before after).startsText name = true) :
    ∃ digits, digits.all isDecimal = true ∧ (name.toList = before ++ digits ++ after ∨
      name.toList = before ++ digits ++ after ++ ['\n']) := by
  simp only [startsText,Bool.not_eq_true',List.isEmpty_eq_false_iff_exists_mem] at matched
  obtain ⟨stop,matched⟩ := matched
  obtain ⟨_,reached,last⟩ := mem_stops_both matched
  obtain ⟨rfl,atEnd⟩ := stop_eq_of_place last
  obtain ⟨_,reached,spansAfter⟩ := spans_followed reached
  obtain ⟨_,reached,counted⟩ := mem_stops_both reached
  obtain ⟨digits,decimal,spansDigits⟩ := spans_times counted
  obtain ⟨_,reached,spansBefore⟩ := spans_followed reached
  obtain ⟨_,reached,begun⟩ := mem_stops_both reached
  obtain ⟨rfl,_⟩ := stop_eq_of_place begun
  obtain rfl := List.mem_singleton.mp reached
  have whole : name.toList = before ++ digits ++ after ++ name.toList.drop stop :=
    (spansBefore.trans spansDigits).trans spansAfter
  refine ⟨digits,decimal,?_⟩
  simp only [Bool.or_eq_true,List.isEmpty_iff,beq_iff_eq] at atEnd
  rcases atEnd with nothing | feed
  · exact Or.inl (by rw [whole,nothing,List.append_nil])
  · exact Or.inr (by rw [whole,feed])

theorem ofText?_header : ofText? "^word/header\\d*\\.xml$" =
    some (numbered "word/header".toList ".xml".toList) := by
  rfl

theorem ofText?_footer : ofText? "^word/footer\\d*\\.xml$" =
    some (numbered "word/footer".toList ".xml".toList) := by
  rfl

end MailMerge.Text.Pattern
