import MailMerge.Docx.Chart
import MailMerge.Proofs.Docx.Cells
import MailMerge.Proofs.Table.Grid

/-! Charts. The rows of a chart are read into points, and a chart that is not refused has one series,
with the labels and the numbers of the points at the same places. A chart with axes refers to its two
axes, and these cross.
-/
namespace MailMerge

theorem exists_forall₂ {r : α → β → Prop} {as : List α} (each : ∀ a ∈ as, ∃ b, r a b) :
    ∃ bs, List.Forall₂ r as bs := by
  induction as with
  | nil => exact ⟨[],.nil⟩
  | cons a as ih =>
    obtain ⟨b,here⟩ := each a List.mem_cons_self
    obtain ⟨bs,later⟩ := ih fun a' member => each a' (List.mem_cons_of_mem a member)
    exact ⟨b :: bs,.cons here later⟩

/-- Two relations of lists hold one after the other when they do so item by item. -/
theorem exists_forall₂_iff {first : α → β → Prop} {second : β → γ → Prop} {as : List α}
    {cs : List γ} :
    (∃ bs, List.Forall₂ first as bs ∧ List.Forall₂ second bs cs) ↔
      List.Forall₂ (fun a c => ∃ b, first a b ∧ second b c) as cs := by
  constructor
  · rintro ⟨bs,firsts,seconds⟩
    induction firsts generalizing cs with
    | nil =>
      cases seconds
      exact .nil
    | cons here _ ih =>
      obtain _ | ⟨there,seconds⟩ := seconds
      exact .cons ⟨_,here,there⟩ (ih seconds)
  · intro both
    induction both with
    | nil => exact ⟨[],.nil,.nil⟩
    | cons here _ ih =>
      obtain ⟨b,first,second⟩ := here
      obtain ⟨bs,firsts,seconds⟩ := ih
      exact ⟨b :: bs,.cons first firsts,.cons second seconds⟩

/-- What two steps give on some items, all of the first before the second, item by item. -/
theorem mapM_bind_mapM_eq_ok_iff {first : α → Except ε β} {second : β → Except ε γ} {items : List α}
    {results : List γ} : (items.mapM first >>= fun found => found.mapM second) = .ok results ↔
      List.Forall₂ (fun a c => ∃ b, first a = .ok b ∧ second b = .ok c) items results := by
  simp only [← exists_forall₂_iff,← mapM_eq_ok_iff]
  constructor
  · exact exists_of_bind_eq_ok
  · rintro ⟨found,firsts,seconds⟩
    rw [firsts]
    exact seconds

end MailMerge

namespace MailMerge.Docx
open Xml

/-- The word of a kind. -/
def ChartKind.word : ChartKind → String
  | bar => "bar"
  | line => "line"
  | pie => "pie"

theorem ChartKind.ofText?_eq_some_iff {word : String} {kind : ChartKind} :
    ofText? word = some kind ↔ word = kind.word := by
  constructor
  · unfold ofText?
    split <;> rintro ⟨⟩ <;> rfl
  · rintro rfl
    cases kind <;> rfl

/-- What stands in a row for its label or its number. -/
def entryOf (entries : List (Scalar × Value)) (key : String) : Value :=
  (Entries.get? entries key).getD .null

/-- The number that a value stands for in a chart. -/
inductive Converts : Value → Value → Prop
  | null : Converts .null (.int 0)
  | empty : Converts .empty (.int 0)
  | int (n : Int) : Converts (.int n) (.int n)
  | float (x : Binary64) : Converts (.float x) (.float x)
  | text {s : String} {x : Binary64} (some : s ≠ "") (read : Number.read? s.toList = .some x) :
      Converts (.text s) (.float x)

/-- The rows that have a number. -/
inductive Counted : Value → Prop
  | row {entries : List (Scalar × Value)} {number : Value}
      (converts : Converts (entryOf entries "value") number) : Counted (.map entries)

/-- What a chart shows of a row: its label and its number, in words. -/
inductive Plots : Value → ChartPoint → Prop
  | row {entries : List (Scalar × Value)} {number : Value} {label value : String}
      (converts : Converts (entryOf entries "value") number)
      (labelled : (entryOf entries "label").display = .ok label)
      (valued : number.display = .ok value) : Plots (.map entries) ⟨label,value⟩

/-- What a row has to show can be put into words. -/
structure Worded (entries : List (Scalar × Value)) : Prop where
  label : ∃ text, (entryOf entries "label").display = .ok text
  number : ∀ number, Converts (entryOf entries "value") number → ∃ text, number.display = .ok text

theorem chartNumber_eq_ok_iff {v number : Value} : chartNumber v = .ok number ↔ Converts v number := by
  constructor
  · intro ok
    unfold chartNumber at ok
    split at ok
    · exact Except.ok.inj ok ▸ .null
    · exact Except.ok.inj ok ▸ .int _
    · exact Except.ok.inj ok ▸ .float _
    next s =>
      split_ifs at ok with empty
      · obtain rfl : s = "" := by simpa using empty
        exact Except.ok.inj ok ▸ .empty
      · split at ok
        next x read => exact Except.ok.inj ok ▸ .text (by simpa using empty) read
        · exact nomatch ok
    · exact nomatch ok
  · rintro (_ | _ | _ | _ | ⟨some,read⟩)
    · rfl
    · rfl
    · rfl
    · rfl
    · simp [chartNumber,some,read]

theorem label_of_chartNumber_eq_error {v : Value} {fault : Fault} (failed : chartNumber v = .error fault) :
    fault.label = "ChartError" := by
  unfold chartNumber at failed
  split at failed
  · exact nomatch failed
  · exact nomatch failed
  · exact nomatch failed
  · split_ifs at failed
    split at failed
    · exact nomatch failed
    · exact Except.error.inj failed ▸ rfl
  · exact Except.error.inj failed ▸ rfl

private theorem chartRow_eq_ok_iff {row : Value} {found : String × Value} : chartRow row = .ok found ↔
    ∃ entries, row = .map entries ∧ (entryOf entries "label").display = .ok found.1 ∧
      Converts (entryOf entries "value") found.2 := by
  constructor
  · intro ok
    unfold chartRow at ok
    split at ok
    next entries =>
      obtain ⟨label,labelled,ok⟩ := exists_of_bind_eq_ok ok
      obtain ⟨number,converts,ok⟩ := exists_of_bind_eq_ok ok
      exact Except.ok.inj ok ▸ ⟨entries,rfl,labelled,chartNumber_eq_ok_iff.mp converts⟩
    · exact nomatch ok
  · rintro ⟨entries,rfl,labelled,converts⟩
    simp only [entryOf,← chartNumber_eq_ok_iff] at labelled converts
    simp only [chartRow,labelled,converts]
    rfl

/-- What is read from a row and then put into words is what a chart shows of it. -/
private theorem plots_iff {row : Value} {point : ChartPoint} :
    (∃ found : String × Value, chartRow row = .ok found ∧
      (do return ⟨found.1,← found.2.display⟩ : Except Fault ChartPoint) = .ok point) ↔
    Plots row point := by
  constructor
  · rintro ⟨found,read,ok⟩
    obtain ⟨value,valued,ok⟩ := exists_of_bind_eq_ok ok
    obtain ⟨entries,rfl,labelled,converts⟩ := chartRow_eq_ok_iff.mp read
    exact Except.ok.inj ok ▸ .row converts labelled valued
  · rintro ⟨converts,labelled,valued⟩
    exact ⟨(_,_),chartRow_eq_ok_iff.mpr ⟨_,rfl,labelled,converts⟩,by rw [valued]; rfl⟩

/-- The points of a chart are what it shows of its rows, in their order. -/
theorem chartPoints_eq_ok_iff {rows : List Value} {points : List ChartPoint} :
    chartPoints (.list rows) = .ok points ↔ rows ≠ [] ∧ List.Forall₂ Plots rows points := by
  cases rows with
  | nil => simp [chartPoints]
  | cons row rows =>
    simp only [chartPoints,ne_eq,reduceCtorEq,not_false_eq_true,true_and]
    rw [mapM_bind_mapM_eq_ok_iff]
    simp only [plots_iff]

theorem Plots.counted {row : Value} {point : ChartPoint} : Plots row point → Counted row
  | .row converts _ _ => .row converts

/-- The rows of which a chart shows something are those that have a number. -/
theorem exists_plots_iff {row : Value} (worded : ∀ entries, row = .map entries → Worded entries) :
    (∃ point, Plots row point) ↔ Counted row := by
  constructor
  · rintro ⟨point,plots⟩
    exact plots.counted
  · rintro ⟨converts⟩
    obtain ⟨label,labelled⟩ := (worded _ rfl).label
    obtain ⟨value,valued⟩ := (worded _ rfl).number _ converts
    exact ⟨⟨label,value⟩,.row converts labelled valued⟩

theorem counted_of_plots {rows : List Value} {points : List ChartPoint}
    (plots : List.Forall₂ Plots rows points) : ∀ row ∈ rows, Counted row := by
  have each : List.Forall₂ (fun row point => Counted row ∧ Plots row point) rows points :=
    plots.imp fun _ _ here => ⟨here.counted,here⟩
  exact ((List.forall₂_and_left rows points).mp each).1

theorem exists_chartPoints {rows : List Value} (some : rows ≠ [])
    (worded : ∀ entries, .map entries ∈ rows → Worded entries) (counted : ∀ row ∈ rows, Counted row) :
    ∃ points, chartPoints (.list rows) = .ok points := by
  have each : ∀ row ∈ rows, ∃ point, Plots row point := fun row member =>
    (exists_plots_iff fun entries is => worded entries (is ▸ member)).mpr (counted row member)
  obtain ⟨points,plots⟩ := exists_forall₂ each
  exact ⟨points,chartPoints_eq_ok_iff.mpr ⟨some,plots⟩⟩

theorem label_of_chartRow_eq_error {row : Value} {fault : Fault}
    (worded : ∀ entries, row = .map entries → Worded entries) (failed : chartRow row = .error fault) :
    fault.label = "ChartError" := by
  unfold chartRow at failed
  split at failed
  next entries =>
    obtain failed | ⟨label,-,failed⟩ := cases_of_bind_eq_error failed
    · obtain ⟨text,labelled⟩ := (worded entries rfl).label
      exact nomatch labelled.symm.trans failed
    · obtain failed | ⟨number,-,failed⟩ := cases_of_bind_eq_error failed
      · exact label_of_chartNumber_eq_error failed
      · exact nomatch failed
  · exact Except.error.inj failed ▸ rfl

/-- Rows are refused for what they are, not for the words of what they have to show. -/
theorem label_of_chartPoints_eq_error {rows : List Value} {fault : Fault}
    (worded : ∀ entries, .map entries ∈ rows → Worded entries)
    (failed : chartPoints (.list rows) = .error fault) : fault.label = "ChartError" := by
  cases rows with
  | nil => exact Except.error.inj failed ▸ rfl
  | cons row rows =>
    obtain failed | ⟨found,read,-⟩ := cases_of_bind_eq_error failed
    · obtain ⟨row',member,failed⟩ := exists_of_mapM_eq_error failed
      exact label_of_chartRow_eq_error (fun entries is => worded entries (is ▸ member)) failed
    · -- All rows have numbers then, and the words for them do not fail.
      have counted : ∀ row' ∈ row :: rows, Counted row' := fun row' member => by
        obtain ⟨pair,-,read⟩ := exists_of_mem_mapM read member
        obtain ⟨entries,rfl,-,converts⟩ := chartRow_eq_ok_iff.mp read
        exact .row converts
      obtain ⟨points,ok⟩ := exists_chartPoints (List.cons_ne_nil row rows) worded counted
      simp [ok] at failed

end MailMerge.Docx

namespace MailMerge.Xml.Element
open Docx

/-- The elements that a path of names leads to, from an element to its children. -/
def along : List Name → Element → List Element
  | [], e => [e]
  | name :: path, e => (e.childrenNamed name).flatMap (along path)

/-- The values of the settings of a name in an element. -/
def settings (e : Element) (stem : String) : List (Option String) :=
  (e.childrenNamed (chart stem)).map (·.attributes.get? (.bare "val"))

theorem named_mk (name : Name) (attributes : Attributes) (text tail : Option String)
    (children : List Element) (other : Name) :
    (mk name attributes text children tail).named other =
      (if name = other then [mk name attributes text children tail] else []) ++
        children.flatMap (·.named other) := by
  rw [named,descendants_mk,List.filter_cons,List.filter_flatMap]
  by_cases same : name = other
  · rw [if_pos (by simpa [Element.name] using same),if_pos same]
    rfl
  · rw [if_neg (by simpa [Element.name] using same),if_neg same]
    rfl

end MailMerge.Xml.Element

namespace MailMerge.Docx
open Xml

/-- The name of the part of a chart in which its series are plotted. -/
def ChartKind.plotName : ChartKind → Name
  | bar => chart "barChart"
  | line => chart "lineChart"
  | pie => chart "pieChart"

/-- A list of texts with their number and their places. -/
structure Caches (cache : Element) (texts : List String) : Prop where
  count_eq : cache.settings "ptCount" = [some (toString texts.length)]
  places_eq : (cache.childrenNamed (chart "pt")).map (·.attributes.get? (.bare "idx")) =
    (List.range texts.length).map fun i => some (toString i)
  texts_eq : (cache.childrenNamed (chart "pt")).map (fun pt => pt.children.map fun v => (v.name,v.text)) =
    texts.map fun text => [(chart "v",some text)]

/-- A series with the labels and the numbers of some points. -/
structure Series (series : Element) (points : List ChartPoint) : Prop where
  labels : ∃ cache, series.along [chart "cat",chart "strRef",chart "strCache"] = [cache] ∧
    Caches cache (points.map (·.label))
  numbers : ∃ cache, series.along [chart "val",chart "numRef",chart "numCache"] = [cache] ∧
    Caches cache (points.map (·.value))

/-- Two axes that cross each other, and a plot that refers to them. -/
structure Crossed (area group : Element) (first second : String) : Prop where
  different : first ≠ second
  names_eq : area.children.map Element.name =
    [chart "layout",group.name,chart "catAx",chart "valAx"]
  group_eq : group.settings "axId" = [some first,some second]
  labels_eq : (area.childrenNamed (chart "catAx")).map (fun axis =>
    (axis.settings "axId",axis.settings "crossAx")) = [([some first],[some second])]
  numbers_eq : (area.childrenNamed (chart "valAx")).map (fun axis =>
    (axis.settings "axId",axis.settings "crossAx")) = [([some second],[some first])]

/-- The names of axes and of references to them. -/
def axisStems : List String :=
  ["axId","catAx","valAx"]

/-- A chart of some points: one series, and two axes unless it is a pie. -/
structure Charts (kind : ChartKind) (points : List ChartPoint) (root : Element) : Prop where
  name_eq : root.name = chart "chartSpace"
  series : ∃ series, root.named (chart "ser") = [series] ∧
    root.along [chart "chart",chart "plotArea",kind.plotName,chart "ser"] = [series] ∧
    Series series points
  crossed : kind ≠ .pie → ∃ area group first second,
    root.along [chart "chart",chart "plotArea"] = [area] ∧ area.along [kind.plotName] = [group] ∧
    Crossed area group first second
  bare : kind = .pie → ∀ stem ∈ axisStems, Lacks (chart stem) root

section
variable (kind : ChartKind) (title seriesName : String) (points : List ChartPoint)

theorem named_of_lacks {name : Name} {e : Element} (lacks : Lacks name e) : e.named name = [] :=
  List.filter_eq_nil_iff.mpr fun x below => by simpa using lacks x below

@[simp] theorem chart_inj {stem stem' : String} : chart stem = chart stem' ↔ stem = stem' := by
  simp [chart,Name.within]

@[simp] theorem drawing_ne_chart (stem stem' : String) : drawing stem ≠ chart stem' := by
  simp [drawing,chart,Name.within,show drawingSpace ≠ chartSpace by decide]

@[simp] theorem name_setting (stem value : String) : (setting stem value).name = chart stem := rfl

@[simp] theorem name_chartNode (stem : String) (children : List Element) :
    (chartNode stem children).name = chart stem := rfl

@[simp] theorem children_chartNode (stem : String) (children : List Element) :
    (chartNode stem children).children = children := rfl

@[simp] theorem childrenNamed_chartNode (stem other : String) (children : List Element) :
    (chartNode stem children).childrenNamed (chart other) =
      children.filter (·.name == chart other) := rfl

@[simp] theorem named_setting (stem value other : String) :
    (setting stem value).named (chart other) = if stem = other then [setting stem value] else [] := by
  simp [setting,plainNode,Element.node,Element.named_mk,chart_inj]

@[simp] theorem named_chartNode (stem other : String) (children : List Element) :
    (chartNode stem children).named (chart other) =
      (if stem = other then [chartNode stem children] else []) ++
        children.flatMap (·.named (chart other)) := by
  simp [chartNode,Element.node,Element.named_mk,chart_inj]

@[simp] theorem lacks_setting {stem value other : String} :
    Lacks (chart other) (setting stem value) ↔ stem ≠ other := by
  simp [setting,plainNode,Element.node,chart_inj]

@[simp] theorem lacks_chartNode {stem other : String} {children : List Element} :
    Lacks (chart other) (chartNode stem children) ↔
      stem ≠ other ∧ ∀ e ∈ children, Lacks (chart other) e := by
  simp [chartNode,Element.node,chart_inj]

theorem lacks_chartTitle (title : String) {stem : String} (other : stem ∉ ["title","tx","rich","overlay"]) :
    Lacks (chart stem) (chartTitle title) := by
  simp only [List.mem_cons,List.not_mem_nil,or_false,not_or] at other
  simp [chartTitle,plainNode,Element.node,Element.leaf,Ne.symm,other]

/-- A point of a cache. -/
private def cachedPoint (point : String × Nat) : Element :=
  plainNode (chart "pt") [("idx",toString point.2)] [.leaf (chart "v") [] point.1]

/-- Texts stand in a cache with their number and their places, whatever else stands before them. -/
theorem caches_chartNode (before : List Element) (stem : String)
    (other : ∀ e ∈ before, e.name ≠ chart "ptCount" ∧ e.name ≠ chart "pt") (texts : List String) :
    Caches (chartNode stem (before ++ cachedPoints texts)) texts := by
  have skipped : before.filter (·.name == chart "ptCount") = [] ∧
      before.filter (·.name == chart "pt") = [] := by
    simpa [forall_and] using other
  have named (point : String × Nat) : (cachedPoint point).name = chart "pt" := rfl
  have inner : cachedPoints texts =
      setting "ptCount" (toString texts.length) :: texts.zipIdx.map cachedPoint := rfl
  have count : (chartNode stem (before ++ cachedPoints texts)).childrenNamed (chart "ptCount") =
      [setting "ptCount" (toString texts.length)] := by
    simp [inner,skipped,named,List.filter_map,Function.comp_def]
  have points : (chartNode stem (before ++ cachedPoints texts)).childrenNamed (chart "pt") =
      texts.zipIdx.map cachedPoint := by
    simp [inner,skipped,named,List.filter_map,Function.comp_def]
  refine ⟨?_,?_,?_⟩
  · rw [Element.settings,count]
    rfl
  · rw [points,List.map_map,List.range_eq_range',← List.zipIdx_map_snd,List.map_map]
    rfl
  · rw [points,List.map_map,← List.zipIdx_map_fst 0 texts,List.map_map,List.zipIdx_map_fst]
    rfl

/-- The labels and the numbers of a series stand in its two caches. -/
theorem series_chartSeries : Series (chartSeries kind seriesName points) points := by
  have labels := caches_chartNode [] "strCache" (by simp) (points.map (·.label))
  have numbers := caches_chartNode [.leaf (chart "formatCode") [] "General"] "numCache"
    (by simp [Element.leaf,Element.name]) (points.map (·.value))
  refine ⟨⟨_,?_,labels⟩,⟨_,?_,numbers⟩⟩ <;> cases kind <;>
    simp [Element.along,chartSeries,seriesLook,textReference]

theorem lacks_cachedPoints {stem : String} (other : stem ∉ ["ptCount","pt","v"]) (texts : List String) :
    ∀ e ∈ cachedPoints texts, Lacks (chart stem) e := by
  simp only [List.mem_cons,List.not_mem_nil,or_false,not_or] at other
  simp [cachedPoints,plainNode,Element.node,Element.leaf,Ne.symm,other,List.forall_mem_map,-List.mem_map]

/-- The names inside a series. -/
def seriesStems : List String :=
  ["ptCount","pt","v","idx","order","tx","strRef","strCache","invertIfNegative","marker","symbol","size",
    "cat","val","numRef","numCache","formatCode","smooth"]

theorem lacks_chartSeries {stem : String} (other : stem ∉ seriesStems) :
    ∀ e ∈ (chartSeries kind seriesName points).children, Lacks (chart stem) e := by
  have cached := lacks_cachedPoints fun member => other (List.mem_append_left _ member)
  simp only [seriesStems,List.mem_cons,List.not_mem_nil,or_false,not_or] at other
  rw [chartSeries,children_chartNode]
  cases kind <;>
    simp [seriesLook,textReference,Element.leaf,Ne.symm,other] <;>
    exact ⟨cached _,cached _,cached _⟩

theorem named_chartSeries : (chartSeries kind seriesName points).named (chart "ser") =
    [chartSeries kind seriesName points] := by
  have inside : (chartSeries kind seriesName points).children.flatMap (·.named (chart "ser")) = [] :=
    List.flatMap_eq_nil_iff.mpr fun e member =>
      named_of_lacks (lacks_chartSeries kind seriesName points (by decide) e member)
  rw [chartSeries,named_chartNode,if_pos rfl]
  exact congrArg _ inside

/-- A chart has one series. -/
theorem named_chartRoot : (chartRoot kind title seriesName points).named (chart "ser") =
    [chartSeries kind seriesName points] := by
  have titled : (chartTitle title).named (chart "ser") = [] :=
    named_of_lacks (lacks_chartTitle title (by decide))
  cases kind <;>
    simp [chartRoot,plot,pointLabels,chartAxis,axisNumbers,axes,titled,named_chartSeries,plainNode,
      Element.node,Element.named_mk]

theorem along_chartRoot : (chartRoot kind title seriesName points).along [chart "chart",chart "plotArea"] =
    [chartNode "plotArea" (chartNode "layout" [] :: plot kind (chartSeries kind seriesName points))] := by
  simp [chartRoot,Element.along,chartTitle]

/-- A pie has no axes. -/
theorem lacks_chartRoot_pie {stem : String} (one : stem ∈ axisStems) :
    Lacks (chart stem) (chartRoot .pie title seriesName points) := by
  have titled : Lacks (chart stem) (chartTitle title) :=
    lacks_chartTitle title ((by decide : ∀ stem ∈ axisStems, stem ∉ _) stem one)
  have series : Lacks (chart stem) (chartSeries .pie seriesName points) := by
    rw [chartSeries,lacks_chartNode]
    exact ⟨(by decide : ∀ stem ∈ axisStems, "ser" ≠ stem) stem one,
      lacks_chartSeries .pie seriesName points
        ((by decide : ∀ stem ∈ axisStems, stem ∉ seriesStems) stem one)⟩
  simp only [axisStems,List.mem_cons,List.not_mem_nil,or_false] at one
  rcases one with rfl | rfl | rfl <;>
    simp [chartRoot,plot,pointLabels,titled,series]

/-- The two axes beside a plot with their numbers cross each other. -/
theorem crossed_axes {stem : String} (plain : stem ∉ ["layout","catAx","valAx"]) {inner : List Element}
    (other : ∀ e ∈ inner, e.name ≠ chart "axId") :
    let group := chartNode stem (inner ++ axisNumbers)
    let area := chartNode "plotArea" (chartNode "layout" [] :: group :: axes)
    area.along [chart stem] = [group] ∧ Crossed area group "42" "43" := by
  have skipped : inner.filter (·.name == chart "axId") = [] :=
    List.filter_eq_nil_iff.mpr fun e member => by simpa using other e member
  simp only [List.mem_cons,List.not_mem_nil,or_false,not_or] at plain
  refine ⟨?_,by decide,?_,?_,?_,?_⟩
  · simp [Element.along,axes,chartAxis,Ne.symm,plain]
  · simp [axes,chartAxis]
  · simp [Element.settings,List.filter_append,skipped,axisNumbers]
    decide
  · simp [axes,chartAxis,plain]
    decide
  · simp [axes,chartAxis,plain]
    decide

theorem crossed_chartRoot (axed : kind ≠ .pie) : ∃ area group first second,
    (chartRoot kind title seriesName points).along [chart "chart",chart "plotArea"] = [area] ∧
      area.along [kind.plotName] = [group] ∧ Crossed area group first second := by
  have along := along_chartRoot kind title seriesName points
  cases kind with
  | bar =>
    refine ⟨_,_,_,_,along,crossed_axes (by decide) ?_⟩
    simp [chartSeries,pointLabels]
  | line =>
    refine ⟨_,_,_,_,along,crossed_axes (by decide) ?_⟩
    simp [chartSeries]
  | pie => exact absurd rfl axed

theorem charts_chartRoot : Charts kind points (chartRoot kind title seriesName points) where
  name_eq := rfl
  series := by
    refine ⟨_,named_chartRoot kind title seriesName points,?_,series_chartSeries kind seriesName points⟩
    cases kind <;>
      simp [chartRoot,Element.along,chartTitle,plot,ChartKind.plotName,chartSeries,pointLabels,
        axisNumbers,axes,chartAxis]
  crossed := crossed_chartRoot kind title seriesName points
  bare is := by
    rintro stem one
    obtain rfl := is
    exact lacks_chartRoot_pie title seriesName points one

end

/-- A digit is short. -/
private theorem isShort_digit {n : Int} (small : n.natAbs < 10) : Number.IsShort n := by
  have some : Number.maxIntegerDigits ≠ 0 := by decide
  unfold Number.IsShort
  generalize Number.maxIntegerDigits = most at some ⊢
  exact Nat.lt_of_lt_of_le small (Nat.le_self_pow some 10)

theorem Converts.structured {v number : Value} (converts : Converts v number) (structured : v.Structured) :
    number.Structured := by
  cases converts with
  | null => exact .scalar (isShort_digit (by decide))
  | empty => exact .scalar (isShort_digit (by decide))
  | int => exact structured
  | float => exact structured
  | text => exact .scalar trivial

/-- Structured rows can be put into words. -/
theorem Worded.of_structured {entries : List (Scalar × Value)} (structured : (Value.map entries).Structured) :
    Worded entries := by
  have stored (key : String) : (entryOf entries key).Structured := by
    unfold entryOf
    cases found : Entries.get? entries key with
    | none => exact .scalar trivial
    | some v => exact structured.of_holds (Value.holds_of_lookup found)
  exact ⟨(stored "label").exists_display,
    fun number converts => (converts.structured (stored "value")).exists_display⟩

/-- What a chart is refused for: its kind, or its rows. -/
def Refused (chartType : String) (rows : List Value) : Prop :=
  (∀ kind : ChartKind, chartType ≠ kind.word) ∨ rows = [] ∨ ∃ row ∈ rows, ¬ Counted row

section
variable (s : Settings) {chartType : String} {rows : List Value} (title : Option String)

/-- What is returned is a chart of the rows. -/
theorem charts_of_chartOf {root : Element} (ok : chartOf s chartType (.list rows) title = .ok root) :
    ∃ kind points, chartType = kind.word ∧ List.Forall₂ Plots rows points ∧
      points.length = rows.length ∧ Charts kind points root := by
  unfold chartOf at ok
  split at ok
  · exact nomatch ok
  next kind known =>
    obtain ⟨points,read,ok⟩ := exists_of_bind_eq_ok ok
    obtain ⟨-,plots⟩ := chartPoints_eq_ok_iff.mp read
    refine ⟨kind,points,ChartKind.ofText?_eq_some_iff.mp known,plots,plots.length_eq.symm,?_⟩
    exact Except.ok.inj ok ▸ charts_chartRoot kind (titleOf s title) s.seriesName points

variable (worded : ∀ entries, .map entries ∈ rows → Worded entries)
include worded

theorem exists_chartOf (accepted : ¬ Refused chartType rows) :
    ∃ root, chartOf s chartType (.list rows) title = .ok root := by
  simp only [Refused,not_or,not_forall,not_exists,not_and,not_not] at accepted
  obtain ⟨⟨kind,known⟩,some,counted⟩ := accepted
  obtain ⟨points,read⟩ := exists_chartPoints some worded counted
  simp only [chartOf,ChartKind.ofText?_eq_some_iff.mpr known,read]
  exact ⟨_,rfl⟩

theorem chartOf_of_refused (refused : Refused chartType rows) :
    ∃ fault, chartOf s chartType (.list rows) title = .error fault ∧ fault.label = "ChartError" := by
  unfold chartOf
  split
  next unknown => exact ⟨_,rfl,rfl⟩
  next kind known =>
    cases read : chartPoints (.list rows) with
    | error fault => exact ⟨fault,rfl,label_of_chartPoints_eq_error worded read⟩
    | ok points =>
      obtain ⟨some,plots⟩ := chartPoints_eq_ok_iff.mp read
      obtain other | none | ⟨row,member,bad⟩ := refused
      · exact absurd (ChartKind.ofText?_eq_some_iff.mp known) (other kind)
      · exact absurd none some
      · exact absurd (counted_of_plots plots row member) bad

end

private def sales : List Value :=
  [.map [(.text "label",.text "North"),(.text "value",.int 7)],.map [(.text "label",.bool true)],
    .map [(.text "value",.text "")]]

private theorem plots_sales : List.Forall₂ Plots sales [⟨"North","7"⟩,⟨"true","0"⟩,⟨"","0"⟩] := by
  have digit (n : Int) (small : n.natAbs < 10) {text : String} (is : toString n = text) :
      (Value.int n).display = .ok text := by
    rw [← is,Value.display,Number.digits_of_isShort (isShort_digit small)]
  exact .cons (.row (.int 7) rfl (digit 7 (by decide) rfl))
    (.cons (.row .null rfl (digit 0 (by decide) rfl)) (.cons (.row .empty rfl (digit 0 (by decide) rfl)) .nil))

private theorem structured_sales : ∀ row ∈ sales, row.Structured := by
  have scalar (s : Scalar) (plain : s.IsPlain) : (Value.scalar s).Structured := .scalar plain
  have short : Number.IsShort 7 := isShort_digit (by decide)
  simp only [sales,List.forall_mem_cons]
  refine ⟨.map ?_ ?_,.map ?_ ?_,.map ?_ ?_,List.forall_mem_nil _⟩
  · simp [Scalar.IsText]
  · simp only [List.forall_mem_cons]
    exact ⟨scalar _ trivial,scalar _ short,List.forall_mem_nil _⟩
  · simp [Scalar.IsText]
  · simp only [List.forall_mem_cons]
    exact ⟨scalar _ trivial,List.forall_mem_nil _⟩
  · simp [Scalar.IsText]
  · simp only [List.forall_mem_cons]
    exact ⟨scalar _ trivial,List.forall_mem_nil _⟩

end MailMerge.Docx
