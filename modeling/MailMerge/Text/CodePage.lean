/-! Code pages, in which every byte is a character, and the names they go by.
-/
namespace MailMerge.Text

/-- A code page. Bytes below `start` are the characters of the same number; those from there on
are listed, with the replacement character where a byte has no meaning. -/
structure CodePage where
  start : Nat
  upper : String
  deriving Repr

namespace CodePage

/-- The character of a byte. -/
def char? (page : CodePage) (b : UInt8) : Option Char :=
  if b.toNat < page.start then some (Char.ofNat b.toNat)
  else (page.upper.toList[b.toNat - page.start]?).filter (· != '\ufffd')

/-- The text that some bytes stand for. -/
def decode? (page : CodePage) (bytes : ByteArray) : Option (List Char) :=
  bytes.toList.mapM page.char?

/-- The basic Latin letters alone. -/
def ascii : CodePage := ⟨0x80, ""⟩

/-- The first Latin alphabet: every byte is the character of its number. -/
def latin : CodePage := ⟨0x100, ""⟩

/-- The western page. -/
def western : CodePage where
  start := 0x80
  upper :=
  "€\ufffd‚ƒ„…†‡ˆ‰Š‹Œ\ufffdŽ\ufffd\ufffd‘’“”•–—˜™š›œ\ufffdžŸ\u00a0¡¢£¤¥¦§¨©ª«¬\u00ad®¯°±²³´" ++
  "µ¶·¸¹º»¼½¾¿ÀÁÂÃÄÅÆÇÈÉÊËÌÍÎÏÐÑÒÓÔÕÖ×ØÙÚÛÜÝÞßàáâãäåæçèéêëìíîïðñòóôõö÷øùúûüýþÿ"

/-- The page of central Europe. -/
def central : CodePage where
  start := 0x80
  upper :=
  "€\ufffd‚\ufffd„…†‡\ufffd‰Š‹ŚŤŽŹ\ufffd‘’“”•–—\ufffd™š›śťžź\u00a0ˇ˘Ł¤Ą¦§¨©Ş«¬\u00ad®Ż°±˛ł´" ++
  "µ¶·¸ąş»Ľ˝ľżŔÁÂĂÄĹĆÇČÉĘËĚÍÎĎĐŃŇÓÔŐÖ×ŘŮÚŰÜÝŢßŕáâăäĺćçčéęëěíîďđńňóôőö÷řůúűüýţ˙"

/-- The page of Cyrillic letters. -/
def cyrillic : CodePage where
  start := 0x80
  upper :=
  "ЂЃ‚ѓ„…†‡€‰Љ‹ЊЌЋЏђ‘’“”•–—\ufffd™љ›њќћџ\u00a0ЎўЈ¤Ґ¦§Ё©Є«¬\u00ad®Ї°±Ііґµ¶·ё№є»јЅѕїАБВГДЕЖЗИ" ++
  "ЙКЛМНОПРСТУФХЦЧШЩЪЫЬЭЮЯабвгдежзийклмнопрстуфхцчшщъыьэюя"

/-- The second Latin alphabet. -/
def latinTwo : CodePage where
  start := 0xa0
  upper :=
  "\u00a0Ą˘Ł¤ĽŚ§¨ŠŞŤŹ\u00adŽŻ°ą˛ł´ľśˇ¸šşťź˝žżŔÁÂĂÄĹĆÇČÉĘËĚÍÎĎĐŃŇÓÔŐÖ×ŘŮÚŰÜÝŢßŕáâăäĺćçčéęëěí" ++
  "îďđńňóôőö÷řůúűüýţ˙"

/-- Latin and Cyrillic letters. -/
def latinCyrillic : CodePage where
  start := 0xa0
  upper :=
  "\u00a0ЁЂЃЄЅІЇЈЉЊЋЌ\u00adЎЏАБВГДЕЖЗИЙКЛМНОПРСТУФХЦЧШЩЪЫЬЭЮЯабвгдежзийклмнопрстуфхцчшщъыьэ" ++
  "юя№ёђѓєѕіїјљњћќ§ўџ"

/-- Latin and Greek letters. -/
def latinGreek : CodePage where
  start := 0xa0
  upper :=
  "\u00a0‘’£€₯¦§¨©ͺ«¬\u00ad\ufffd―°±²³΄΅Ά·ΈΉΊ»Ό½ΎΏΐΑΒΓΔΕΖΗΘΙΚΛΜΝΞΟΠΡ\ufffdΣΤΥΦΧΨΩΪΫάέήίΰαβγ" ++
  "δεζηθικλμνξοπρςστυφχψωϊϋόύώ\ufffd"

/-- The fifth Latin alphabet. -/
def latinFive : CodePage where
  start := 0xa0
  upper :=
  "\u00a0¡¢£¤¥¦§¨©ª«¬\u00ad®¯°±²³´µ¶·¸¹º»¼½¾¿ÀÁÂÃÄÅÆÇÈÉÊËÌÍÎÏĞÑÒÓÔÕÖ×ØÙÚÛÜİŞßàáâãäåæçèéêëìí" ++
  "îïğñòóôõö÷øùúûüışÿ"

/-- The ninth Latin alphabet. -/
def latinNine : CodePage where
  start := 0xa0
  upper :=
  "\u00a0¡¢£€¥Š§š©ª«¬\u00ad®¯°±²³Žµ¶·ž¹º»ŒœŸ¿ÀÁÂÃÄÅÆÇÈÉÊËÌÍÎÏÐÑÒÓÔÕÖ×ØÙÚÛÜÝÞßàáâãäåæçèéêëìí" ++
  "îïðñòóôõö÷øùúûüýþÿ"

/-- The Russian page. -/
def russian : CodePage where
  start := 0x80
  upper :=
  "─│┌┐└┘├┤┬┴┼▀▄█▌▐░▒▓⌠■∙√≈≤≥\u00a0⌡°²·÷═║╒ё╓╔╕╖╗╘╙╚╛╜╝╞╟╠╡Ё╢╣╤╥╦╧╨╩╪╫╬©юабцдефгхийклмнопяр" ++
  "стужвьызшэщчъЮАБЦДЕФГХИЙКЛМНОПЯРСТУЖВЬЫЗШЭЩЧЪ"

/-- The page of the first personal computers. -/
def old : CodePage where
  start := 0x80
  upper :=
  "ÇüéâäàåçêëèïîìÄÅÉæÆôöòûùÿÖÜ¢£¥₧ƒáíóúñÑªº¿⌐¬½¼¡«»░▒▓│┤╡╢╖╕╣║╗╝╜╛┐└┴┬├─┼╞╟╚╔╩╦╠═╬╧╨╤╥╙╘╒╓╫" ++
  "╪┘┌█▄▌▐▀αßΓπΣσµτΦΘΩδ∞φε∩≡±≥≤⌠⌡÷≈°∙·√ⁿ²■\u00a0"

/-- Names of code pages. A page that is known by the name of a wider encoding has its basic letters
alone. -/
def byName : List (String × CodePage) :=
  [("ascii", ascii), ("us_ascii", ascii), ("us", ascii), ("cp367", ascii), ("ibm367", ascii),
    ("csascii", ascii), ("iso646_us", ascii), ("iso_ir_6", ascii), ("utf_8", ascii),
    ("utf8", ascii), ("utf", ascii), ("u8", ascii), ("utf_8_sig", ascii), ("latin_1", latin),
    ("latin1", latin), ("latin", latin), ("l1", latin), ("iso8859_1", latin),
    ("iso_8859_1", latin), ("iso8859", latin), ("cp819", latin), ("ibm819", latin),
    ("iso_ir_100", latin), ("windows_1252", western), ("cp1252", western),
    ("windows_1250", central), ("cp1250", central), ("windows_1251", cyrillic),
    ("cp1251", cyrillic), ("iso8859_2", latinTwo), ("iso_8859_2", latinTwo), ("latin2", latinTwo),
    ("l2", latinTwo), ("iso_ir_101", latinTwo), ("iso8859_5", latinCyrillic),
    ("iso_8859_5", latinCyrillic), ("cyrillic", latinCyrillic), ("iso_ir_144", latinCyrillic),
    ("iso8859_7", latinGreek), ("iso_8859_7", latinGreek), ("greek", latinGreek),
    ("greek8", latinGreek), ("iso_ir_126", latinGreek), ("iso8859_9", latinFive),
    ("iso_8859_9", latinFive), ("latin5", latinFive), ("l5", latinFive),
    ("iso_ir_148", latinFive), ("iso8859_15", latinNine), ("iso_8859_15", latinNine),
    ("latin9", latinNine), ("l9", latinNine), ("koi8_r", russian), ("cskoi8r", russian),
    ("cp437", old), ("ibm437", old)]

/-- Names of encodings in which a character may take several bytes. -/
def wideNames : List String :=
  ["big5", "big5hkscs", "chinese", "cp932", "cp936", "cp949", "cp950", "euc_cn", "euc_jp",
    "euc_kr", "eucjp", "euckr", "gb18030", "gb2312", "gbk", "johab", "korean", "ms932",
    "shift_jis", "shiftjis", "sjis", "u16", "u32", "u7", "utf16", "utf32", "utf7", "utf_16",
    "utf_16_be", "utf_16_le", "utf_16be", "utf_16le", "utf_32", "utf_32_be", "utf_32_le",
    "utf_32be", "utf_32le", "utf_7"]

/-- The form of a name that is looked up: small letters, and one low line for every run of
characters that are no letters, digits or dots. -/
def plainName (name : String) : String :=
  let isPart (c : Char) : Bool := c.isAlphanum || c == '.'
  let joined := name.toList.foldl (fun done c =>
    if isPart c then done ++ [c.toLower]
    else if done.getLast? == some '_' then done
    else done ++ ['_']) []
  String.ofList (if joined.getLast? == some '_' then joined.dropLast else joined)

/-- The code page of a name. -/
def ofName? (name : String) : Option CodePage :=
  byName.lookup (plainName name)

/-- Whether a name is that of an encoding wider than a byte. -/
def isWide (name : String) : Bool :=
  wideNames.contains (plainName name)

end CodePage
end MailMerge.Text
