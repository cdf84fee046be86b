import MailMerge.Docx.Paragraph
import MailMerge.Tree.Basic

/-! The text of paragraphs. A paragraph's text is spread over the text elements of its runs;
writing puts all of it into the first of them.
-/
namespace MailMerge.Forest
open Docx

/-- The text elements of the runs below an element, run by run in document order. What is inside
a run within a run is met once for each of them. -/
def textElements (f : Forest) (id : NodeId) : List NodeId :=
  (f.named id runName).flatMap fun run => f.named run textName

/-- The text of one text element. -/
def ownText (f : Forest) (id : NodeId) : String :=
  (f.text id).getD ""

/-- The texts of elements, joined. -/
def joinedText (f : Forest) (ids : List NodeId) : List Char :=
  ids.flatMap fun id => (f.ownText id).toList

/-- The text of a paragraph. -/
def paragraphText (f : Forest) (id : NodeId) : List Char :=
  f.joinedText (f.textElements id)

/-- The text of all paragraphs below an element. -/
def cellText (f : Forest) (id : NodeId) : List Char :=
  (f.named id paragraphName).flatMap f.paragraphText

/-- Gives a text element its text. Blanks at the ends are kept by an attribute, which an empty
text loses and a text without such blanks leaves as it is. -/
def setText (f : Forest) (id : NodeId) (text : String) : Forest :=
  f.update id fun n =>
    { n with
      text := some text
      attributes :=
        if text == "" then n.attributes.erase keepBlanksName
        else if hasOuterBlank text then n.attributes.set keepBlanksName "preserve"
        else n.attributes }

/-- Puts a text into the first of some text elements and empties the others. Without any, the
paragraph gets a new run at its end. -/
def writeText (f : Forest) (paragraph : NodeId) (elements : List NodeId) (text : String) :
    Forest :=
  match elements with
  | [] =>
    let (run, f) := f.plant (textRun text)
    f.append paragraph run
  | first :: others => others.foldl (fun f id => f.setText id "") (f.setText first text)

/-- Writes the text of a paragraph. -/
def setParagraphText (f : Forest) (paragraph : NodeId) (text : String) : Forest :=
  f.writeText paragraph (f.textElements paragraph) text

/-- Puts a child before the first of the children whose names have one of the given stems, or at
the end. -/
def insertInOrder (f : Forest) (parent child : NodeId) (later : List String) : Forest :=
  match (f.children parent).findIdx? fun id => later.contains (f.name id).stem with
  | some i => f.insertAt parent i child
  | none => f.append parent child

/-- The first child with a stem, made and put before all others when there is none. -/
def firstOrNew (f : Forest) (parent : NodeId) (stem : String) : NodeId × Forest :=
  match f.childNamed? parent (main stem) with
  | some id => (id, f)
  | none =>
    let (id, f) := f.add { name := main stem }
    (id, f.insertAt parent 0 id)

end MailMerge.Forest
