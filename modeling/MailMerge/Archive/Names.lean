import MailMerge.Text.CodePage
import MailMerge.Text.Utf8

/-! The names of archive entries. A flag tells whether a name is written in the usual encoding;
without it every byte is a character of the old code page.
-/
namespace MailMerge.Archive

/-- The name written in some bytes. -/
def name? (bytes : ByteArray) (flagged : Bool) : Option String :=
  if flagged then Text.decode? bytes
  else (Text.CodePage.old.decode? bytes).map String.ofList

/-- A name ends before its first zero character. -/
def shortName (name : String) : String :=
  String.ofList (name.toList.takeWhile (· != '\x00'))

end MailMerge.Archive
