import MailMerge.Data.Value

/-! Everything about a generation that the caller may change: sizes, names, patterns and limits.
Lengths on the page are in the units the document format uses for them.
-/
namespace MailMerge

/-- The settings of a generation; the defaults are those of an ordinary run. -/
structure Settings where
  /-- length units for one pixel -/
  unitsPerPixel : Int := 9525
  fileName : String := "generated-document.docx"
  documentType : String := "application/vnd.openxmlformats-officedocument.wordprocessingml.document"
  imageWidth : Int := 200
  imageHeight : Int := 150
  /-- images get the relationship numbers after this one -/
  imageBase : Int := 1000
  imageExtension : String := "png"
  /-- content types by file extension -/
  imageTypes : List (String × String) :=
    [("png", "image/png"), ("jpg", "image/jpeg"), ("jpeg", "image/jpeg"), ("gif", "image/gif"),
      ("bmp", "image/bmp"), ("svg", "image/svg+xml"), ("tif", "image/tiff"),
      ("tiff", "image/tiff"), ("webp", "image/webp")]
  /-- file extensions by detected image format -/
  formatExtensions : List (String × String) :=
    [("PNG", "png"), ("JPEG", "jpg"), ("GIF", "gif"), ("BMP", "bmp"), ("TIFF", "tiff"),
      ("WEBP", "webp")]
  chartWidth : Int := 400
  chartHeight : Int := 300
  /-- charts get the relationship numbers after this one -/
  chartBase : Int := 2000
  chartTitle : String := "Chart"
  seriesName : String := "Series 1"
  tableStyle : String := "TableGrid"
  columnWidth : Int := 2500
  borderType : String := "single"
  borderSize : Int := 4
  borderColor : String := "auto"
  /-- fill colours by the name of a row style -/
  rowFills : List (String × String) :=
    [("highlight", "FFFF00"), ("red", "FF0000"), ("green", "00FF00")]
  watermarkColor : String := "CCCCCC"
  /-- in points -/
  watermarkSize : Int := 60
  /-- in degrees, an integer or a float -/
  watermarkAngle : Value := .int 45
  watermarkWidth : Int := 5400000
  watermarkHeight : Int := 3600000
  /-- watermarks get the drawing numbers after this one -/
  watermarkBase : Int := 3000
  headerPattern : String := "^word/header\\d*\\.xml$"
  footerPattern : String := "^word/footer\\d*\\.xml$"
  maxTemplateSize : Int := 50 * 1024 * 1024
  maxImages : Int := 500
  maxImageSize : Int := 20 * 1024 * 1024
  deriving Repr, Inhabited

end MailMerge
