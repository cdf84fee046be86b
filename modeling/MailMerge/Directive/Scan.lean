import MailMerge.Directive.Grammar

/-! The lexer: which directives a text holds. Of the kinds present in a text only the one of
highest precedence counts: conditionals, then table, chart, image, formats, loop, placeholders.
-/
namespace MailMerge.Directive

/-- The kinds of directive, and of the steps that outcomes are recorded for. -/
inductive Kind where
  | conditional
  | table
  | chart
  | image
  | format
  | loop
  | text
  | pageBreak
  | formatTable
  | rowCondition
  | header
  | footer
  | watermark
  deriving DecidableEq, Repr, Inhabited

/-- The word for a kind in reports. -/
def Kind.label : Kind → String
  | .conditional => "conditional"
  | .table => "table"
  | .chart => "chart"
  | .image => "image"
  | .format => "format"
  | .loop => "loop"
  | .text => "text"
  | .pageBreak => "section"
  | .formatTable => "format-table"
  | .rowCondition => "row-condition"
  | .header => "header"
  | .footer => "footer"
  | .watermark => "watermark"

/-- A directive of any kind that the lexer finds in a paragraph. -/
inductive Lexeme where
  | conditional (c : Conditional)
  | table (t : TableTag)
  | chart (c : ChartTag)
  | image (i : ImageTag)
  | format (f : FormatTag)
  | loop (l : Loop)
  | text (p : Placeholder)
  deriving Repr

/-- The kind of a directive. -/
def Lexeme.kind : Lexeme → Kind
  | .conditional _ => .conditional
  | .table _ => .table
  | .chart _ => .chart
  | .image _ => .image
  | .format _ => .format
  | .loop _ => .loop
  | .text _ => .text

/-- Directives of the highest precedence once conditional blocks are out of the way. -/
def scanBlocks (text : List Char) : List (Found Lexeme) :=
  match first? table? text with
  | some f => [f.map .table]
  | none =>
    match first? chart? text with
    | some f => [f.map .chart]
    | none =>
      match first? image? text with
      | some f => [f.map .image]
      | none =>
        match all format? text with
        | f :: fs => (f :: fs).map (·.map .format)
        | [] =>
          match first? loop? text with
          | some f => [f.map .loop]
          | none => (all placeholder? text).map (·.map .text)

/-- Directives of the highest precedence in a text. -/
def scan (text : List Char) : List (Found Lexeme) :=
  match all conditional? text with
  | f :: fs => (f :: fs).map (·.map .conditional)
  | [] => scanBlocks text

/-- The first conditional block that starts at or after a position. -/
def nextConditional? (text : List Char) (pos : Nat) : Option (Found Conditional) :=
  firstFrom conditional? pos (text.drop pos)

end MailMerge.Directive
