import MailMerge.Data.Json.Reader
import MailMerge.Fault

/-! Where data comes from: structured text that must hold a mapping.
-/
namespace MailMerge.DataText

/-- Reads structured text; `refuse` words a failure. An integer too long to read is no failure
of the text but a breakdown. -/
def readJson (text : String) (refuse : String → Fault) : Except Fault Value :=
  match Json.read text.toList with
  | .ok v => .ok v
  | .error failure =>
    if failure.cause == .longInteger then .error (.breakdown .value)
    else .error (refuse (failure.message text.toList))

/-- Passes mappings and refuses every other value by the word for its kind. -/
def requireMap (v : Value) (refuse : String → Fault) : Except Fault Value :=
  match v with
  | .map _ => .ok v
  | v => .error (refuse v.kindName)

/-- The data written in a string, an empty one for no data. -/
def parse (text : String) : Except Fault Value :=
  if text == "" then .ok (.map [])
  else do
    let v ← readJson text .malformedData
    requireMap v .dataNotObject

end MailMerge.DataText
