import MailMerge.Command.Run
import MailMerge.Data.IsoDate
import Std.Time.DateTime.Timestamp

/-! The command line: the files that a command names are read, the command is carried out, and its
document, its text and its journal are written.
-/
namespace MailMerge

/-- What a path of the file system leads to. -/
def foundAt (path : String) : IO Stored := do
  try
    return .file (← IO.FS.readBinFile path)
  catch
    | .inappropriateType .. => return .folder
    | _ => return .nothing

/-- The files that a command names. -/
def storageFor (texts : List String) : IO Storage := do
  let paths := match Command.read texts with
    | .request r => r.template.toList ++ [r.dataFile]
    | _ => []
  let files ← paths.mapM fun path => return (path, ← foundAt path)
  let current ← IO.currentDir
  return { current := toString current, find := fun path => (files.lookup path).getD .nothing }

/-- The present moment in universal time, to the second. -/
def presentMoment : IO String := do
  let seconds := (← Std.Time.Timestamp.now).toSecondsSinceUnixEpoch.toInt.toNat
  let date := (IsoDate.ofOrdinal? (719163 + seconds / 86400)).getD ⟨1970, 1, 1⟩
  let t : Moment :=
    { date := date
      hour := seconds / 3600 % 24
      minute := seconds / 60 % 60
      second := seconds % 60 }
  return t.textWith "T" ++ "Z"

/-- Stores a document and the folders on the way to it. -/
def store (path : String) (entries : Archive.Entries) : IO Unit := do
  IO.FS.createDirAll (Path.folder path)
  IO.FS.writeBinFile path (Archive.write entries)

/-- Runs the command line. -/
def runCommand (texts : List String) : IO UInt32 := do
  match Command.run {} (← storageFor texts) (← presentMoment) texts with
  | .error fault =>
    IO.eprintln fault.label
    return 1
  | .ok r =>
    IO.print r.printed
    if let some (path, entries) := r.stored then store path entries
    for note in r.journal do
      IO.eprintln s!"{note.level.label}: {note.message}"
    if r.exit == 2 then IO.eprint Command.usage
    return r.exit.toUInt32

end MailMerge

/-- The entry of the program. -/
def main (texts : List String) : IO UInt32 :=
  MailMerge.runCommand texts
