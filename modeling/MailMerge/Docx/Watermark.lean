import MailMerge.Data.Whole
import MailMerge.Docx.Drawing
import MailMerge.Settings

/-! Watermarks: a turned text box behind the text, anchored to the page.
-/
namespace MailMerge.Docx
open Xml

/-- A name of shapes. -/
def shape (stem : String) : Name := .within shapeSpace stem

/-- The rotation of a watermark in sixty thousandths of a degree, without a fraction. -/
def rotation (angle : Value) : Except Fault Int :=
  match angle with
  | .int n => .ok (n * 60000)
  | .bool b => .ok (if b then 60000 else 0)
  | .float x => (x.times 60000).whole
  | .text _ => .error (.breakdown .value)
  | _ => .error (.breakdown .kind)

/-- A length of zero along an axis of the page. -/
def atPageStart (axis : String) : Element :=
  plainNode (place axis) [("relativeFrom", "page")] [.leaf (place "posOffset") [] "0"]

/-- The paragraph inside a watermark. -/
def watermarkText (s : Settings) (text : String) : Element :=
  let size := toString (s.watermarkSize * 2)
  paragraph [.node runName []
    [.node (main "rPr") []
      [.node (main "color") [(main "val", s.watermarkColor)] [],
        .node (main "sz") [(main "val", size)] [], .node (main "szCs") [(main "val", size)] []],
      textElement text]]

/-- A paragraph with a watermark. -/
def watermark (s : Settings) (text : Value) (number : String) : Except Fault Element := do
  let extent : Extent := ⟨toString s.watermarkWidth, toString s.watermarkHeight⟩
  let turn ← rotation s.watermarkAngle
  let text ← text.written
  return paragraph [.node runName []
    [.node (main "rPr") [] [.node (main "noProof") [] []],
      .node (main "drawing") []
        [plainNode (place "anchor")
          [("distT", "0"), ("distB", "0"), ("distL", "0"), ("distR", "0"), ("simplePos", "0"),
            ("relativeHeight", "251658240"), ("behindDoc", "1"), ("locked", "0"),
            ("layoutInCell", "1"), ("allowOverlap", "1")]
          [plainNode (place "simplePos") [("x", "0"), ("y", "0")] [], atPageStart "positionH",
            atPageStart "positionV", plainNode (place "extent") extent.attributes [], noEffect,
            plainNode (place "wrapNone") [] [],
            plainNode (place "docPr")
              (Caption.mk number ("Watermark " ++ number) "Watermark").attributes [],
            frameLocks "0",
            graphic shapeSpace
              [plainNode (shape "wsp") []
                [plainNode (shape "cNvSpPr") [("txBox", "1")] [],
                  plainNode (shape "spPr") []
                    (boundlessRectangle [("rot", toString turn)] extent),
                  plainNode (shape "txbx") []
                    [.node (main "txbxContent") [] [watermarkText s text]],
                  plainNode (shape "bodyPr") [("wrap", "none"), ("anchor", "ctr")] []]]]]]]

end MailMerge.Docx
