import MailMerge.Data.Display
import MailMerge.Docx.Drawing
import MailMerge.Settings
import MailMerge.Xml.Writer

/-! Charts of labelled numbers. A chart is a part of its own; the document holds a drawing that
refers to it.
-/
namespace MailMerge.Docx
open Xml

/-- The kinds of chart. -/
inductive ChartKind where
  | bar
  | line
  | pie
  deriving DecidableEq, Repr

/-- The kind that a word names. -/
def ChartKind.ofText? : String → Option ChartKind
  | "bar" => some .bar
  | "line" => some .line
  | "pie" => some .pie
  | _ => none

/-- A label and the text of its number. -/
structure ChartPoint where
  label : String
  value : String
  deriving DecidableEq, Repr

/-- The number of a row: nothing counts as zero, a text must be a numeral. -/
def chartNumber (v : Value) : Except Fault Value :=
  match v with
  | .null => .ok (.int 0)
  | .int n => .ok (.int n)
  | .float x => .ok (.float x)
  | .text s =>
    if s == "" then .ok (.int 0)
    else match Number.read? s.toList with
      | some x => .ok (.float x)
      | none => .error (.badChartValue v.shown)
  | v => .error (.badChartValue v.shown)

/-- Reads the label and the number of a row. -/
def chartRow (row : Value) : Except Fault (String × Value) :=
  match row with
  | .map entries => do
    let label ← ((Entries.get? entries "label").getD .null).display
    let value ← chartNumber ((Entries.get? entries "value").getD .null)
    return (label, value)
  | _ => .error .badChartRow

/-- Reads the rows of a chart; the numbers are put into words once all rows are read. -/
def chartPoints (rows : Value) : Except Fault (List ChartPoint) :=
  match rows with
  | .list (row :: rows) => do
    let found ← (row :: rows).mapM chartRow
    found.mapM fun (label, value) => return ⟨label, ← value.display⟩
  | _ => .error .noChartRows

/-- A name of charts. -/
def chart (stem : String) : Name := .within chartSpace stem

/-- An element that holds only a value. -/
def setting (stem value : String) : Element :=
  plainNode (chart stem) [("val", value)] []

/-- An element without attributes. -/
def chartNode (stem : String) (children : List Element) : Element :=
  .node (chart stem) [] children

/-- Texts by position, with their number first. -/
def cachedPoints (texts : List String) : List Element :=
  setting "ptCount" (toString texts.length) ::
    texts.zipIdx.map fun (text, i) =>
      plainNode (chart "pt") [("idx", toString i)] [.leaf (chart "v") [] text]

/-- A reference to texts. -/
def textReference (texts : List String) : Element :=
  chartNode "strRef" [chartNode "strCache" (cachedPoints texts)]

/-- The title of a chart. -/
def chartTitle (title : String) : Element :=
  chartNode "title"
    [chartNode "tx"
      [chartNode "rich"
        [plainNode (drawing "bodyPr") [] [], plainNode (drawing "lstStyle") [] [],
          plainNode (drawing "p") []
            [plainNode (drawing "pPr") [] [plainNode (drawing "defRPr") [] []],
              plainNode (drawing "r") []
                [plainNode (drawing "rPr") [("lang", "en-US")] [],
                  .leaf (drawing "t") [] title]]]],
      setting "overlay" "0"]

/-- What a series of a kind has between its name and its labels. -/
def seriesLook : ChartKind → List Element
  | .bar => [setting "invertIfNegative" "0"]
  | .line => [chartNode "marker" [setting "symbol" "circle", setting "size" "5"]]
  | .pie => []

/-- The series of a chart. -/
def chartSeries (kind : ChartKind) (name : String) (points : List ChartPoint) : Element :=
  chartNode "ser"
    ([setting "idx" "0", setting "order" "0", chartNode "tx" [textReference [name]]] ++
      seriesLook kind ++
      [chartNode "cat" [textReference (points.map (·.label))],
        chartNode "val"
          [chartNode "numRef"
            [chartNode "numCache"
              (.leaf (chart "formatCode") [] "General" ::
                cachedPoints (points.map (·.value)))]]] ++
      (if kind == .line then [setting "smooth" "0"] else []))

/-- Which labels stand beside the points. -/
def pointLabels (category : String) : Element :=
  chartNode "dLbls"
    [setting "showLegendKey" "0", setting "showVal" "0", setting "showCatName" category,
      setting "showSerName" "0", setting "showPercent" "0", setting "showBubbleSize" "0"]

/-- An axis with its number, the number of the axis it crosses, its side and its further
settings. -/
def chartAxis (stem number crossed side : String) (more : List Element) : Element :=
  chartNode stem
    ([setting "axId" number, chartNode "scaling" [setting "orientation" "minMax"],
      setting "delete" "0", setting "axPos" side,
      plainNode (chart "numFmt") [("formatCode", "General"), ("sourceLinked", "1")] [],
      setting "majorTickMark" "out", setting "minorTickMark" "none",
      setting "tickLblPos" "nextTo", setting "crossAx" crossed, setting "crosses" "autoZero"] ++
      more)

/-- The numbers of the two axes. -/
def axisNumbers : List Element :=
  [setting "axId" "42", setting "axId" "43"]

/-- The two axes. -/
def axes : List Element :=
  [chartAxis "catAx" "42" "43" "b"
      [setting "auto" "1", setting "lblAlgn" "ctr", setting "lblOffset" "100"],
    chartAxis "valAx" "43" "42" "l" [setting "crossBetween" "between"]]

/-- What is plotted. -/
def plot (kind : ChartKind) (series : Element) : List Element :=
  match kind with
  | .bar =>
    chartNode "barChart" ([setting "barDir" "col", setting "grouping" "clustered",
      setting "varyColors" "0", series, pointLabels "0", setting "gapWidth" "150"] ++
      axisNumbers) :: axes
  | .line =>
    chartNode "lineChart" ([setting "grouping" "standard", setting "varyColors" "0", series,
      setting "marker" "1"] ++ axisNumbers) :: axes
  | .pie =>
    [chartNode "pieChart" [setting "varyColors" "1", series, pointLabels "1",
      setting "firstSliceAng" "0"]]

/-- The root of a chart part. -/
def chartRoot (kind : ChartKind) (title seriesName : String) (points : List ChartPoint) :
    Element :=
  chartNode "chartSpace"
    [setting "roundedCorners" "0",
      chartNode "chart"
        [chartTitle title, setting "autoTitleDeleted" "0",
          chartNode "plotArea"
            (chartNode "layout" [] :: plot kind (chartSeries kind seriesName points)),
          chartNode "legend" [setting "legendPos" "r", setting "overlay" "0"],
          setting "plotVisOnly" "1", setting "dispBlanksAs" "gap"]]

/-- The title of a chart, which is never empty. -/
def titleOf (s : Settings) (title : Option String) : String :=
  match title with
  | some title => if title == "" then s.chartTitle else title
  | none => s.chartTitle

/-- The root of the part for a chart of some rows. -/
def chartOf (s : Settings) (chartType : String) (rows : Value) (title : Option String) :
    Except Fault Element :=
  match ChartKind.ofText? chartType with
  | none => .error (.unsupportedChart chartType)
  | some kind => do
    let points ← chartPoints rows
    return chartRoot kind (titleOf s title) s.seriesName points

/-- A paragraph with the drawing that refers to a chart relationship. -/
def chartParagraph (key : String) (extent : Extent) (caption : Caption) : Element :=
  inlineDrawing extent caption chartSpace
    [.node (chart "chart") [(.within relationSpace "id", key)] []]

end MailMerge.Docx
