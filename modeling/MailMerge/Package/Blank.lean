import MailMerge.Package.Basic

/-! The package that stands in for a template: an empty document with one paragraph style and one
table style.
-/
namespace MailMerge.Package

/-- The manifest of content types of the blank package. -/
def blankTypes : String :=
  declaration ++
  "<Types xmlns=\"http://schemas.openxmlformats.org/package/2006/content-types\">" ++
  "<Default Extension=\"rels\"" ++
  " ContentType=\"application/vnd.openxmlformats-package.relationships+xml\"/>" ++
  "<Default Extension=\"xml\" ContentType=\"application/xml\"/>" ++
  "<Override PartName=\"/word/document.xml\"" ++
  " ContentType=\"application/vnd.openxmlformats-officedocument" ++
  ".wordprocessingml.document.main+xml\"/>" ++
  "<Override PartName=\"/word/styles.xml\"" ++
  " ContentType=\"application/vnd.openxmlformats-officedocument.wordprocessingml.styles+xml\"/>" ++
  "<Override PartName=\"/docProps/core.xml\"" ++
  " ContentType=\"application/vnd.openxmlformats-package.core-properties+xml\"/>" ++
  "<Override PartName=\"/docProps/app.xml\"" ++
  " ContentType=\"application/vnd.openxmlformats-officedocument.extended-properties+xml\"/>" ++
  "</Types>"

/-- The relationships of the blank package. -/
def blankLinks : String :=
  declaration ++
  "<Relationships xmlns=\"http://schemas.openxmlformats.org/package/2006/relationships\">" ++
  "<Relationship Id=\"rId1\"" ++
  " Type=\"http://schemas.openxmlformats.org/officeDocument/2006/relationships/officeDocument\"" ++
  " Target=\"word/document.xml\"/>" ++
  "<Relationship Id=\"rId2\"" ++
  " Type=\"http://schemas.openxmlformats.org/package/2006/relationships/metadata" ++
  "/core-properties\"" ++
  " Target=\"docProps/core.xml\"/>" ++
  "<Relationship Id=\"rId3\"" ++
  " Type=\"http://schemas.openxmlformats.org/officeDocument/2006/relationships" ++
  "/extended-properties\"" ++
  " Target=\"docProps/app.xml\"/>" ++
  "</Relationships>"

/-- The relationships of the blank document. -/
def blankDocumentLinks : String :=
  declaration ++
  "<Relationships xmlns=\"http://schemas.openxmlformats.org/package/2006/relationships\">" ++
  "<Relationship Id=\"rId1\"" ++
  " Type=\"http://schemas.openxmlformats.org/officeDocument/2006/relationships/styles\"" ++
  " Target=\"styles.xml\"/>" ++
  "</Relationships>"

/-- The blank document around the markup of its body. -/
def blankDocument (body : String) : String :=
  declaration ++
  "<w:document" ++
  " xmlns:w=\"http://schemas.openxmlformats.org/wordprocessingml/2006/main\"" ++
  " xmlns:r=\"http://schemas.openxmlformats.org/officeDocument/2006/relationships\"><w:body>" ++
  body ++
  "<w:sectPr><w:pgSz w:w=\"11906\" w:h=\"16838\"/>" ++
  "<w:pgMar w:top=\"1440\" w:right=\"1440\" w:bottom=\"1440\" w:left=\"1440\"" ++
  " w:header=\"708\" w:footer=\"708\" w:gutter=\"0\"/></w:sectPr></w:body></w:document>"

/-- The styles of the blank document. -/
def blankStyles : String :=
  declaration ++
  "<w:styles xmlns:w=\"http://schemas.openxmlformats.org/wordprocessingml/2006/main\">" ++
  "<w:style w:type=\"paragraph\" w:default=\"1\" w:styleId=\"Normal\">" ++
  "<w:name w:val=\"Normal\"/><w:pPr/><w:rPr/></w:style>" ++
  "<w:style w:type=\"table\" w:styleId=\"TableGrid\"><w:name w:val=\"Table Grid\"/><w:tblPr>" ++
  "<w:tblBorders><w:top w:val=\"single\" w:sz=\"4\" w:space=\"0\" w:color=\"auto\"/>" ++
  "<w:left w:val=\"single\" w:sz=\"4\" w:space=\"0\" w:color=\"auto\"/>" ++
  "<w:bottom w:val=\"single\" w:sz=\"4\" w:space=\"0\" w:color=\"auto\"/>" ++
  "<w:right w:val=\"single\" w:sz=\"4\" w:space=\"0\" w:color=\"auto\"/>" ++
  "<w:insideH w:val=\"single\" w:sz=\"4\" w:space=\"0\" w:color=\"auto\"/>" ++
  "<w:insideV w:val=\"single\" w:sz=\"4\" w:space=\"0\" w:color=\"auto\"/></w:tblBorders>" ++
  "</w:tblPr></w:style></w:styles>"

/-- The core properties of a package made at a moment. -/
def blankCore (moment : String) : String :=
  declaration ++
  "<cp:coreProperties" ++
  " xmlns:cp=\"http://schemas.openxmlformats.org/package/2006/metadata/core-properties\"" ++
  " xmlns:dc=\"http://purl.org/dc/elements/1.1/\" xmlns:dcterms=\"http://purl.org/dc/terms/\"" ++
  " xmlns:xsi=\"http://www.w3.org/2001/XMLSchema-instance\">" ++
  "<dc:creator>json2docx</dc:creator><cp:lastModifiedBy>json2docx</cp:lastModifiedBy>" ++
  "<dcterms:created xsi:type=\"dcterms:W3CDTF\">" ++
  moment ++
  "</dcterms:created><dcterms:modified xsi:type=\"dcterms:W3CDTF\">" ++
  moment ++
  "</dcterms:modified></cp:coreProperties>"

/-- The extended properties of the blank package. -/
def blankProperties : String :=
  declaration ++
  "<Properties" ++
  " xmlns=\"http://schemas.openxmlformats.org/officeDocument/2006/extended-properties\">" ++
  "<Application>json2docx</Application></Properties>"

/-- The parts of the blank package made at a moment, with markup for the body of its document. -/
def blankParts (moment body : String) : Archive.Entries :=
  [(typesPart, blankTypes), ("_rels/.rels", blankLinks),
    ("word/_rels/document.xml.rels", blankDocumentLinks), (documentPart, blankDocument body),
    ("word/styles.xml", blankStyles), ("docProps/core.xml", blankCore moment),
    ("docProps/app.xml", blankProperties)].map fun (name, text) => (name, Text.encode text)

/-- The blank package made at a moment, with markup for the body of its document. -/
def blank (moment body : String) : Package :=
  { parts := blankParts moment body }

end MailMerge.Package
