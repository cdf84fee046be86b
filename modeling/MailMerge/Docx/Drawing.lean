import MailMerge.Docx.Paragraph

/-! Drawings that stand in a line of text: a frame of some size and what it shows. Lengths are in
the units of the document format.
-/
namespace MailMerge.Docx
open Xml

/-- Attributes without a namespace. -/
def plainAttributes (attributes : List (String × String)) : Attributes :=
  attributes.map fun (stem, value) => (.bare stem, value)

/-- A name of the place of drawings. -/
def place (stem : String) : Name := .within placeSpace stem

/-- A name of drawings. -/
def drawing (stem : String) : Name := .within drawingSpace stem

/-- A name of pictures. -/
def picture (stem : String) : Name := .within pictureSpace stem

/-- An element with plain attributes. -/
def plainNode (name : Name) (attributes : List (String × String)) (children : List Element) :
    Element :=
  .node name (plainAttributes attributes) children

/-- The width and height of a frame. -/
structure Extent where
  width : String
  height : String
  deriving DecidableEq, Repr

/-- The attributes that give an extent. -/
def Extent.attributes (e : Extent) : List (String × String) :=
  [("cx", e.width), ("cy", e.height)]

/-- What a drawing is called: its number in the document, its name and its description. -/
structure Caption where
  number : String
  name : String
  description : String
  deriving DecidableEq, Repr

/-- The attributes that give a caption. -/
def Caption.attributes (c : Caption) : List (String × String) :=
  [("id", c.number), ("name", c.name), ("descr", c.description)]

/-- The part of a frame that holds what is shown, marked with the namespace of its markup. -/
def graphic (space : String) (shown : List Element) : Element :=
  plainNode (drawing "graphic") [] [plainNode (drawing "graphicData") [("uri", space)] shown]

/-- The space around a frame, which is none. -/
def noEffect : Element :=
  plainNode (place "effectExtent") [("l", "0"), ("t", "0"), ("r", "0"), ("b", "0")] []

/-- Whether the sides of a frame keep their proportion. -/
def frameLocks (keep : String) : Element :=
  plainNode (place "cNvGraphicFramePr") []
    [plainNode (drawing "graphicFrameLocks") [("noChangeAspect", keep)] []]

/-- A paragraph with a drawing in its line. -/
def inlineDrawing (extent : Extent) (caption : Caption) (space : String)
    (shown : List Element) : Element :=
  paragraph [.node runName [] [.node (main "drawing") []
    [plainNode (place "inline") [("distT", "0"), ("distB", "0"), ("distL", "0"), ("distR", "0")]
      [plainNode (place "extent") extent.attributes [], noEffect,
        plainNode (place "docPr") caption.attributes [], frameLocks "1", graphic space shown]]]]

/-- A rectangle without a border, at the origin of its frame. -/
def boundlessRectangle (frame : List (String × String)) (extent : Extent) : List Element :=
  [plainNode (drawing "xfrm") frame
      [plainNode (drawing "off") [("x", "0"), ("y", "0")] [],
        plainNode (drawing "ext") extent.attributes []],
    plainNode (drawing "prstGeom") [("prst", "rect")] [plainNode (drawing "avLst") [] []],
    plainNode (drawing "noFill") [] [],
    plainNode (drawing "ln") [] [plainNode (drawing "noFill") [] []]]

/-- A paragraph with the picture of an image relationship. -/
def pictureParagraph (key : String) (extent : Extent) (number : String) : Element :=
  inlineDrawing extent ⟨number, "Picture " ++ number, "Image"⟩ pictureSpace
    [plainNode (picture "pic") []
      [plainNode (picture "nvPicPr") []
        [plainNode (picture "cNvPr") (Caption.mk number "Image" "Image").attributes [],
          plainNode (picture "cNvPicPr") []
            [plainNode (drawing "picLocks")
              [("noChangeAspect", "1"), ("noChangeArrowheads", "1")] []]],
        plainNode (picture "blipFill") []
          [.node (drawing "blip") [(.within relationSpace "embed", key)]
            [plainNode (drawing "extLst") []
              [plainNode (drawing "ext") [("uri", "\x7b28A0092B-C50C-407E-A947-70E740481C1C\x7d")]
                [plainNode (.within drawing14Space "useLocalDpi") [("val", "0")] []]]],
            plainNode (drawing "stretch") [] [plainNode (drawing "fillRect") [] []]],
        plainNode (picture "spPr") [("bwMode", "auto")] (boundlessRectangle [] extent)]]

end MailMerge.Docx
