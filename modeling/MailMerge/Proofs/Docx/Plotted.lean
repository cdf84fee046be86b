import MailMerge.Proofs.Docx.Charts
import MailMerge.Proofs.Number.Numeral

/-! The numbers of a chart in words. What is taken for a number may be none and may be infinite, and its word is then
written in the place of a numeral.
-/
namespace MailMerge.Xml.Element
open Docx

/-- The texts of the points in the caches of numbers, wherever these are. -/
def numberTexts (root : Element) : List (Option String) :=
  (root.named (chart "numCache")).flatMap fun cache => (cache.named (chart "v")).map (·.text)

end MailMerge.Xml.Element

namespace MailMerge.Docx
open Xml Number

/-- The rows whose number is not finite. -/
def Endless (row : Value) : Prop :=
  ∃ entries x, row = .map entries ∧ Converts (entryOf entries "value") (.float x) ∧ x.quotient? = none

theorem Converts.unique {v number number' : Value} (converts : Converts v number) (converts' : Converts v number') :
    number = number' :=
  Except.ok.inj ((chartNumber_eq_ok_iff.mpr converts).symm.trans (chartNumber_eq_ok_iff.mpr converts'))

/-- What a value stands for in a chart is an integer or a float. -/
theorem Converts.cases {v number : Value} (converts : Converts v number) :
    (∃ n, number = .int n) ∨ ∃ x, number = .float x := by
  cases converts with
  | null => exact .inl ⟨_,rfl⟩
  | empty => exact .inl ⟨_,rfl⟩
  | int n => exact .inl ⟨n,rfl⟩
  | float x => exact .inr ⟨x,rfl⟩
  | text some read => exact .inr ⟨_,rfl⟩

theorem endless_map_iff {entries : List (Scalar × Value)} {x : Binary64}
    (converts : Converts (entryOf entries "value") (.float x)) :
    Endless (.map entries) ↔ x.quotient? = none := by
  constructor
  · intro ⟨entries',x',same,converts',endless⟩
    obtain rfl := Value.map.inj same
    cases converts.unique converts'
    exact endless
  · intro endless
    exact ⟨entries,x,rfl,converts,endless⟩

theorem not_endless_map_of_int {entries : List (Scalar × Value)} {n : Int}
    (converts : Converts (entryOf entries "value") (.int n)) : ¬ Endless (.map entries) := by
  intro ⟨entries',x,same,converts',endless⟩
  obtain rfl := Value.map.inj same
  exact nomatch converts.unique converts'

/-- A finite number is shown as a decimal numeral, and the others as words. -/
theorem Plots.value_cases {row : Value} {point : ChartPoint} (plots : Plots row point) :
    (¬ Endless row ∧ IsDecimal point.value.toList) ∨ (Endless row ∧ point.value ∈ endlessWords) := by
  obtain ⟨converts,-,valued⟩ := plots
  obtain ⟨n,rfl⟩ | ⟨x,rfl⟩ := converts.cases
  · exact .inl ⟨not_endless_map_of_int converts,Value.isDecimal_of_display_int valued⟩
  · rw [endless_map_iff converts]
    exact Value.display_float_cases valued

section
variable (kind : ChartKind) (title seriesName : String) (points : List ChartPoint)

/-- The cache of the numbers of some points. -/
def numberCache : Element :=
  chartNode "numCache" (.leaf (chart "formatCode") [] "General" :: cachedPoints (points.map (·.value)))

theorem named_cachedPoints_v (texts : List String) :
    (cachedPoints texts).flatMap (·.named (chart "v")) = texts.map (.leaf (chart "v") []) := by
  have point (text place : String) : (plainNode (chart "pt") [("idx",place)]
      [.leaf (chart "v") [] text]).named (chart "v") = [.leaf (chart "v") [] text] := by
    simp [plainNode,Element.node,Element.leaf,Element.named_mk]
  conv_rhs => rw [← List.zipIdx_map_fst 0 texts,List.map_map]
  simp [cachedPoints,List.flatMap_map,point,← List.map_eq_flatMap,Function.comp_def]

theorem texts_numberCache : ((numberCache points).named (chart "v")).map (·.text) =
    (points.map (·.value)).map some := by
  simp [numberCache,Element.leaf,Element.named_mk,named_cachedPoints_v,Element.text,Function.comp_def]

theorem named_chartSeries_numCache : (chartSeries kind seriesName points).named (chart "numCache") =
    [numberCache points] := by
  have cached (texts : List String) : (cachedPoints texts).flatMap (·.named (chart "numCache")) = [] :=
    List.flatMap_eq_nil_iff.mpr fun e member => named_of_lacks (lacks_cachedPoints (by decide) texts e member)
  cases kind <;>
    simp [chartSeries,seriesLook,textReference,numberCache,cached,Element.leaf,Element.named_mk]

/-- A chart has one cache of numbers. -/
theorem named_chartRoot_numCache : (chartRoot kind title seriesName points).named (chart "numCache") =
    [numberCache points] := by
  have titled : (chartTitle title).named (chart "numCache") = [] :=
    named_of_lacks (lacks_chartTitle title (by decide))
  cases kind <;>
    simp [chartRoot,plot,pointLabels,chartAxis,axisNumbers,axes,titled,named_chartSeries_numCache,plainNode,
      Element.node,Element.named_mk]

theorem numberTexts_chartRoot : (chartRoot kind title seriesName points).numberTexts =
    (points.map (·.value)).map some := by
  rw [Element.numberTexts,named_chartRoot_numCache,List.flatMap_singleton,texts_numberCache]

end

/-- What stands for the number of a row in a chart: a decimal numeral for a finite one, a word for another. -/
def Shows (row : Value) (text : String) : Prop :=
  Counted row ∧ ((¬ Endless row ∧ IsDecimal text.toList) ∨ (Endless row ∧ text ∈ endlessWords))

theorem Shows.isDecimal_iff {row : Value} {text : String} (shows : Shows row text) :
    IsDecimal text.toList ↔ ¬ Endless row := by
  obtain ⟨-,⟨finite,isDecimal⟩ | ⟨endless,word⟩⟩ := shows
  · exact iff_of_true isDecimal finite
  · exact iff_of_false (not_isDecimal_of_mem word) (not_not_intro endless)

theorem forall_mem_iff_of_forall₂ {r : α → β → Prop} {p : α → Prop} {q : β → Prop} {as : List α} {bs : List β}
    (both : List.Forall₂ r as bs) (iff : ∀ a b, r a b → (q b ↔ p a)) : (∀ b ∈ bs, q b) ↔ ∀ a ∈ as, p a := by
  induction both with
  | nil => simp
  | cons here _ ih => rw [List.forall_mem_cons,List.forall_mem_cons,iff _ _ here,ih]

/-- The numbers of a chart are those of its rows in their order. They are decimal numerals exactly when all
numbers of the rows are finite, and the words of the others are written as they are. -/
theorem chartOf_numberTexts (s : Settings) {chartType : String} {rows : List Value} (title : Option String)
    {root : Element} (ok : chartOf s chartType (.list rows) title = .ok root) :
    ∃ texts, root.numberTexts = texts.map some ∧ List.Forall₂ Shows rows texts ∧
      ((∀ text ∈ texts, IsDecimal text.toList) ↔ ∀ row ∈ rows, ¬ Endless row) := by
  unfold chartOf at ok
  split at ok
  · exact nomatch ok
  next kind known =>
    obtain ⟨points,read,ok⟩ := exists_of_bind_eq_ok ok
    obtain ⟨-,plots⟩ := chartPoints_eq_ok_iff.mp read
    have shows : List.Forall₂ Shows rows (points.map (·.value)) := by
      rw [List.forall₂_map_right_iff]
      exact plots.imp fun row point plots => ⟨plots.counted,plots.value_cases⟩
    obtain rfl := Except.ok.inj ok
    exact ⟨points.map (·.value),numberTexts_chartRoot kind (titleOf s title) s.seriesName points,shows,
      forall_mem_iff_of_forall₂ shows fun _ _ => Shows.isDecimal_iff⟩

/-- A word, an infinite number and three. -/
private def readings : List Value :=
  [.map [(.text "value",.text "nan")],.map [(.text "value",.float (.infinity true))],
    .map [(.text "value",.float (.finite false 6755399441055744 (-51)))]]

theorem chartOf_numberTexts_readings : ∃ root, chartOf {} "bar" (.list readings) none = .ok root ∧
    root.numberTexts = ["nan","-inf","3"].map some ∧
    ∃ texts, root.numberTexts = texts.map some ∧ List.Forall₂ Shows readings texts ∧
      ((∀ text ∈ texts, IsDecimal text.toList) ↔ ∀ row ∈ readings, ¬ Endless row) := by
  have ok : chartOf {} "bar" (.list readings) none =
      .ok (chartRoot .bar (titleOf {} none) ({} : Settings).seriesName [⟨"","nan"⟩,⟨"","-inf"⟩,⟨"","3"⟩]) := rfl
  exact ⟨_,ok,numberTexts_chartRoot _ _ _ _,chartOf_numberTexts {} none ok⟩

end MailMerge.Docx
