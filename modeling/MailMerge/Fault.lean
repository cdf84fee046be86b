/-! Everything that can go wrong, as causes. A fault of the engine's own family has a message;
a breakdown comes from a format or an operation below the engine and is reported by its kind.
-/
namespace MailMerge

/-- Breakdowns below the engine: an operation met a value it does not work on. -/
inductive Breakdown where
  /-- markup that is not well formed -/
  | markup
  /-- a value of the right kind that does not denote what is asked for -/
  | value
  /-- a value of a kind that the operation does not take -/
  | kind
  /-- a number beyond the range of the operation -/
  | overflow
  /-- an operation that this kind of value does not have -/
  | operation
  /-- a missing entry -/
  | entry
  /-- a position outside a sequence -/
  | position
  /-- bytes that are not text in the expected encoding -/
  | decoding
  /-- a name that nothing is known by -/
  | naming
  /-- malformed structured data -/
  | json
  /-- a compressed stream or a pattern that cannot be read -/
  | stream
  /-- a feature of the archive format that is not supported -/
  | unsupported
  /-- an archive entry that needs a password -/
  | locked
  /-- a folder where a file is expected -/
  | folder
  /-- a file where a folder is expected -/
  | occupied
  /-- a path that leads through a file -/
  | notAFolder
  /-- a path that leads through a folder that is not there -/
  | notFound
  /-- a path that the file system does not take -/
  | badPath
  deriving DecidableEq, Repr, Inhabited

/-- The word under which a breakdown is reported. -/
def Breakdown.label : Breakdown → String
  | .markup => "ParseError"
  | .value => "ValueError"
  | .kind => "TypeError"
  | .overflow => "OverflowError"
  | .operation => "AttributeError"
  | .entry => "KeyError"
  | .position => "IndexError"
  | .decoding => "UnicodeDecodeError"
  | .naming => "LookupError"
  | .json => "JSONDecodeError"
  | .stream => "error"
  | .unsupported => "NotImplementedError"
  | .locked => "RuntimeError"
  | .folder => "IsADirectoryError"
  | .occupied => "FileExistsError"
  | .notAFolder => "NotADirectoryError"
  | .notFound => "FileNotFoundError"
  | .badPath => "OSError"

/-- A fault of one operation. -/
inductive Fault where
  | notAnArchive
  | templateNotFound (path : String)
  | templateIsText
  | unsupportedTemplate (kind : String)
  | missingDocument
  | templateTooLarge (size : Nat) (limit : Int)
  | noTableRows
  | badFirstRow
  | fetchStatus (status : Nat) (url : String)
  | fetchFailed (url reason : String)
  | emptyImage (url : String)
  | imageTooLarge (limit : Int) (url : String)
  | unsupportedImage (extension : String)
  | imageLimit (limit : Int)
  | notANumber (shown : String)
  | unsupportedOperator (shown : String)
  | notOneOperator
  | missingOperand
  | unsupportedChart (chartType : String)
  | noChartRows
  | badChartRow
  | badChartValue (shown : String)
  | dataNotFound (path : String)
  | malformedDataFile (path detail : String)
  | malformedFrontMatter (path : String)
  | dataFileNotObject (path kind : String)
  | malformedData (detail : String)
  | dataNotObject (kind : String)
  | breakdown (cause : Breakdown)
  deriving DecidableEq, Repr, Inhabited

namespace Fault

/-- The word under which a fault is reported. -/
def label : Fault → String
  | notAnArchive | templateNotFound _ | templateIsText | unsupportedTemplate _ => "TemplateError"
  | missingDocument => "MissingPartError"
  | templateTooLarge .. => "SecurityError"
  | noTableRows | badFirstRow => "EmptyTableDataError"
  | fetchStatus .. | fetchFailed .. | emptyImage _ | imageTooLarge .. => "FetchError"
  | unsupportedImage _ | imageLimit _ => "ImageError"
  | notANumber _ | unsupportedOperator _ | notOneOperator | missingOperand =>
    "InvalidConditionError"
  | unsupportedChart _ | noChartRows | badChartRow | badChartValue _ => "ChartError"
  | dataNotFound _ | malformedDataFile .. | malformedFrontMatter _ | dataFileNotObject ..
  | malformedData _ | dataNotObject _ => "DataError"
  | breakdown cause => cause.label

/-- The message of a fault. A breakdown is named by its kind alone. -/
def message : Fault → String
  | notAnArchive => "Template is not a valid DOCX (ZIP) file"
  | templateNotFound path => "Template not found: " ++ path
  | templateIsText => "Template file object must be opened in binary mode"
  | unsupportedTemplate kind => "Unsupported template source: " ++ kind
  | missingDocument => "Invalid DOCX template: missing word/document.xml"
  | templateTooLarge size limit =>
    s!"Template file too large: {size} bytes (max {limit} bytes)"
  | noTableRows => "Table data is empty or invalid"
  | badFirstRow => "First table row must be a non-empty mapping"
  | fetchStatus status url => s!"Failed to fetch image: {status} {url}"
  | fetchFailed url reason => s!"Failed to fetch image {url}: {reason}"
  | emptyImage url => "Image is empty: " ++ url
  | imageTooLarge limit url => s!"Image too large (max {limit} bytes): {url}"
  | unsupportedImage extension => s!"Unsupported image format '.{extension}'"
  | imageLimit limit => s!"Image count limit reached ({limit})"
  | notANumber shown => "not a number: " ++ shown
  | unsupportedOperator shown => "unsupported operator " ++ shown
  | notOneOperator => "expected a single comparison operator"
  | missingOperand => "missing operand"
  | unsupportedChart chartType => s!"Unsupported chart type '{chartType}'"
  | noChartRows => "Chart data is empty"
  | badChartRow => "Chart rows must be objects with label and value"
  | badChartValue shown => "Chart value must be numeric, got " ++ shown
  | dataNotFound path => "Data file not found: " ++ path
  | malformedDataFile path detail => s!"Invalid JSON in {path}: {detail}"
  | malformedFrontMatter path => "Invalid front matter in " ++ path
  | dataFileNotObject path kind => s!"Data in {path} must be an object, got {kind}"
  | malformedData detail => "Invalid JSON data: " ++ detail
  | dataNotObject kind => "Data must be a JSON object, got " ++ kind
  | breakdown cause => cause.label

/-- Faults of the engine's own family, which a single directive turns into an outcome. -/
def isOwn : Fault → Bool
  | breakdown _ => false
  | _ => true

end Fault
end MailMerge
