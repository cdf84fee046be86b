import MailMerge.Xml.Prefixes

/-! The namespaces of word processing documents, the prefixes that readers of such documents
expect for them, and the names that the engine looks for.
-/
namespace MailMerge.Docx
open Xml

/-- Text and layout. -/
def mainSpace : String := "http://schemas.openxmlformats.org/wordprocessingml/2006/main"

/-- References from markup to relationships. -/
def relationSpace : String := "http://schemas.openxmlformats.org/officeDocument/2006/relationships"

/-- The place of drawings in text. -/
def placeSpace : String := "http://schemas.openxmlformats.org/drawingml/2006/wordprocessingDrawing"

/-- Drawings. -/
def drawingSpace : String := "http://schemas.openxmlformats.org/drawingml/2006/main"

/-- Pictures. -/
def pictureSpace : String := "http://schemas.openxmlformats.org/drawingml/2006/picture"

/-- Charts. -/
def chartSpace : String := "http://schemas.openxmlformats.org/drawingml/2006/chart"

/-- Shapes. -/
def shapeSpace : String := "http://schemas.microsoft.com/office/word/2010/wordprocessingShape"

/-- Further properties of drawings. -/
def drawing14Space : String := "http://schemas.microsoft.com/office/drawing/2010/main"

/-- Alternative contents. -/
def compatibilitySpace : String := "http://schemas.openxmlformats.org/markup-compatibility/2006"

/-- The manifest of content types. -/
def typesSpace : String := "http://schemas.openxmlformats.org/package/2006/content-types"

/-- Manifests of relationships. -/
def relationshipsSpace : String := "http://schemas.openxmlformats.org/package/2006/relationships"

/-- The kind of the relationship to an image. -/
def imageRelation : String := relationSpace ++ "/image"

/-- The kind of the relationship to a chart. -/
def chartRelation : String := relationSpace ++ "/chart"

/-- The prefixes known before any document is read. -/
def knownPrefixes : Registry :=
  [("http://www.w3.org/XML/1998/namespace", "xml"), ("http://www.w3.org/1999/xhtml", "html"),
    ("http://www.w3.org/1999/02/22-rdf-syntax-ns#", "rdf"),
    ("http://schemas.xmlsoap.org/wsdl/", "wsdl"), ("http://www.w3.org/2001/XMLSchema", "xs"),
    ("http://www.w3.org/2001/XMLSchema-instance", "xsi"),
    ("http://purl.org/dc/elements/1.1/", "dc"), (mainSpace, "w"), (relationSpace, "r"),
    (placeSpace, "wp"), (drawingSpace, "a"), (pictureSpace, "pic"), (chartSpace, "c"),
    (shapeSpace, "wps"), (drawing14Space, "a14"), (compatibilitySpace, "mc"),
    ("http://schemas.microsoft.com/office/word/2010/wordml", "w14"),
    ("http://schemas.microsoft.com/office/word/2012/wordml", "w15"),
    ("http://schemas.microsoft.com/office/word/2010/wordprocessingDrawing", "wp14"),
    ("urn:schemas-microsoft-com:vml", "v"), ("urn:schemas-microsoft-com:office:office", "o"),
    ("urn:schemas-microsoft-com:office:word", "w10"),
    ("http://schemas.openxmlformats.org/officeDocument/2006/math", "m")]

/-- A name of text and layout. -/
def main (stem : String) : Name := .within mainSpace stem

/-- A paragraph. -/
def paragraphName : Name := main "p"

/-- A run of text with one look. -/
def runName : Name := main "r"

/-- A piece of text. -/
def textName : Name := main "t"

/-- A table. -/
def tableName : Name := main "tbl"

/-- A row of a table. -/
def rowName : Name := main "tr"

/-- A cell of a row. -/
def cellName : Name := main "tc"

/-- The body of a document. -/
def bodyName : Name := main "body"

/-- The attribute that keeps blanks at the ends of a text. -/
def keepBlanksName : Name := .within "http://www.w3.org/XML/1998/namespace" "space"

end MailMerge.Docx
