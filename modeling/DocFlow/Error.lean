import DocFlow.Detail
import DocFlow.Settings.Basic
import DocFlow.Source.Encoding

namespace DocFlow

inductive FileFault where
  | missing
  | isDirectory
  | notDirectory
  deriving DecidableEq, Repr

def FileFault.message : FileFault → Text
  | .missing => "[Errno 2] No such file or directory".toList
  | .isDirectory => "[Errno 21] Is a directory".toList
  | .notDirectory => "[Errno 20] Not a directory".toList

inductive Error where
  | unsupportedLanguage (language file : Text)
  | unknownEncoding (name : Text)
  /-- A character that the encoding lacks. -/
  | unencodable
  | undecodable (error : DecodeError)
  | unresolvableName (nodeType : String) (line : Nat) (file : Text)
  | reservedSegment (name : Text)
  /-- A decimal integer with too many digits to read. -/
  | longInteger (digits : Nat)
  /-- An integer with too many digits to write. -/
  | longNumber
  /-- An escape above the last code point. -/
  | codePointRange
  /-- An escape that is no machine integer. -/
  | codePointOverflow
  /-- An enum without a name, which no reference can be retargeted to. -/
  | unnamedEnum
  | unknownLanguage (path : Text)
  | fileAccess (fault : FileFault) (path : Text)
  | invalidSettings (faults : SettingFaults)
  /-- A closing tag in a message that closes nothing. -/
  | unmatchedTag
  deriving Repr

namespace Error

def message : Error → Text
  | unsupportedLanguage language _ => "Language not supported: ".toList ++ language
  | unknownEncoding name => "unknown encoding: ".toList ++ name
  | unencodable => "character outside of the encoding".toList
  | undecodable e => e.message
  | unresolvableName .. => "Cannot resolve a name for documented construct".toList
  | reservedSegment _ => "Name path uses reserved segment 'meta'".toList
  | longInteger digits =>
    "Exceeds the limit (4300 digits) for integer string conversion: value has ".toList ++
      Text.ofNat digits ++ " digits; use sys.set_int_max_str_digits() to increase the limit".toList
  | longNumber =>
    ("Exceeds the limit (4300 digits) for integer string conversion; " ++
      "use sys.set_int_max_str_digits() to increase the limit").toList
  | codePointRange => "chr() arg not in range(0x110000)".toList
  | codePointOverflow => "signed integer is greater than maximum".toList
  | unnamedEnum => "enum without a name".toList
  | unknownLanguage path => "Could not detect language for: ".toList ++ path
  | fileAccess fault path => fault.message ++ ": ".toList ++ Text.quoted path
  | unmatchedTag => "closing tag doesn't match any open tag".toList
  | invalidSettings faults => "Invalid settings: ".toList ++ Text.join ", ".toList (faults.map Prod.fst)

/-- What is known about a failure beside its message. -/
def details : Error → List (Text × Detail)
  | unsupportedLanguage _ file => [("file".toList, .text file)]
  | unresolvableName nodeType line file =>
    [("node_type".toList, .text nodeType.toList), ("line".toList, .integer line),
      ("file".toList, .text file)]
  | reservedSegment name => [("name".toList, .text name)]
  | _ => []

def report (e : Error) : Text := Detail.report e.message e.details

end Error

end DocFlow
