import MailMerge.Docx.Vocabulary
import MailMerge.Text.Blank

/-! Building runs and paragraphs.
-/
namespace MailMerge.Docx
open Xml

/-- A text that begins or ends with a blank. -/
def hasOuterBlank (text : String) : Bool :=
  text != Text.trimmed text

/-- The attributes of a new text element. -/
def textAttributes (text : String) : Attributes :=
  if hasOuterBlank text then [(keepBlanksName, "preserve")] else []

/-- A text element. -/
def textElement (text : String) : Element :=
  .leaf textName (textAttributes text) text

/-- A run that holds a text, bold if so wanted. -/
def textRun (text : String) (bold : Bool := false) : Element :=
  let look := if bold then [Element.node (main "rPr") [] [.node (main "b") [] []]] else []
  .node runName [] (look ++ [textElement text])

/-- A paragraph of some runs. -/
def paragraph (runs : List Element) : Element :=
  .node paragraphName [] runs

/-- A paragraph that holds nothing but a page break. -/
def pageBreak : Element :=
  paragraph [.node runName [] [.node (main "br") [(main "type", "page")] []]]

end MailMerge.Docx
