import MailMerge.Data.Value
import MailMerge.Fault
import MailMerge.Package.Path
import MailMerge.Settings
import MailMerge.Text.Lower

/-! What the caller asks for beside the template and the data: a file name, and texts for headers,
footers and a watermark. Options are values of any kind; what is no text is found out where a text
is needed.
-/
namespace MailMerge

/-- The options of a generation. -/
structure Options where
  fileName : Value := .null
  header : Value := .null
  footer : Value := .null
  watermark : Value := .null
  deriving Repr, Inhabited

namespace Options

/-- Options from a mapping; null stands for none. The file name may go by either of two names. -/
def ofValue (v : Value) : Except Fault Options :=
  match v with
  | .null => .ok {}
  | .map entries =>
    let field (key : String) : Value := (Entries.get? entries key).getD .null
    .ok {
      fileName := (Entries.get? entries "file_name").getD (field "fileName")
      header := field "header"
      footer := field "footer"
      watermark := field "watermark" }
  | _ => .error (.breakdown .operation)

/-- The name of the document file: the last name of the path that was asked for, or the usual
one, with the ending of documents. -/
def resolvedFileName (o : Options) (s : Settings) : Except Fault String :=
  let ended (name : String) : String :=
    let name := if name == "" then s.fileName else name
    if Text.endsWith ".docx".toList (Text.lower name).toList then name else name ++ ".docx"
  match o.fileName with
  | .text name => .ok (ended (Path.base name))
  | v => if v.isTruthy then .error (.breakdown .kind) else .ok (ended "")

end Options
end MailMerge
