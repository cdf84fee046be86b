import MailMerge.Data.Display
import MailMerge.Docx.Paragraph
import MailMerge.Settings

/-! Building a table from a list of mappings: the keys of the first are the columns, and every
mapping is a row.
-/
namespace MailMerge.Table
open Docx Xml

/-- A row of cells with one paragraph each. -/
def row (texts : List String) (bold : Bool) : Element :=
  .node rowName [] (texts.map fun text =>
    .node cellName [] [.node (main "tcPr") [] [], paragraph [textRun text bold]])

/-- The lines around and between the cells. -/
def borders (s : Settings) : Element :=
  let edges := ["top", "left", "bottom", "right", "insideH", "insideV"]
  .node (main "tblBorders") [] (edges.map fun edge =>
    .node (main edge)
      [(main "val", s.borderType), (main "sz", toString s.borderSize), (main "space", "0"),
        (main "color", s.borderColor)] [])

/-- The properties of a table. -/
def properties (s : Settings) : Element :=
  .node (main "tblPr") []
    [.node (main "tblStyle") [(main "val", s.tableStyle)] [],
      .node (main "tblW") [(main "w", "0"), (main "type", "auto")] [], borders s]

/-- The widths of the columns. -/
def grid (s : Settings) (columns : Nat) : Element :=
  .node (main "tblGrid") [] (List.replicate columns
    (.node (main "gridCol") [(main "w", toString s.columnWidth)] []))

/-- The texts of a row. A column that a row lacks, and every column of a row that is no mapping, is
empty. -/
def cells (columns : List Scalar) (row : Value) : Except Fault (List String) :=
  match row with
  | .map entries => columns.mapM fun column => ((Entries.lookup entries column).getD .null).display
  | _ => .ok (columns.map fun _ => "")

/-- The table of some rows. -/
def build (s : Settings) (rows : List Value) : Except Fault Element :=
  match rows with
  | [] => .error .noTableRows
  | .map (entry :: entries) :: _ => do
    let columns := (entry :: entries).map (·.1)
    let body ← rows.mapM (cells columns)
    return .node tableName []
      ([properties s, grid s columns.length,
        row (columns.map fun column => (Value.scalar column).bare) true] ++
        body.map (row · false))
  | _ => .error .badFirstRow

/-- The table of a value, which must be a list that is not empty. -/
def ofValue (s : Settings) (v : Value) : Except Fault Element :=
  match v with
  | .list rows => build s rows
  | .text t => .error (if t == "" then .noTableRows else .badFirstRow)
  | .map entries => .error (if entries.isEmpty then .noTableRows else .breakdown .entry)
  | v => .error (if v.isTruthy then .breakdown .kind else .noTableRows)

end MailMerge.Table
