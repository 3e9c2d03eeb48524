import DocFlow.Number.Binary64
import DocFlow.Text.Basic

namespace DocFlow

structure Settings where
  logLevel : Text := "INFO".toList
  jsonLogs : Bool := false
  /-- Spaces for each step of depth. -/
  indentWidth : Nat := 4
  language : Text := "javascript".toList
  /-- Whether sources are turned into declarations rather than annotated. -/
  declaration : Bool := true
  deriving DecidableEq, Repr

def Settings.indent (s : Settings) : Text := List.replicate s.indentWidth ' '

/-- A value that is given for a setting. -/
inductive SettingValue where
  | null
  | boolean (value : Bool)
  | integer (value : Int)
  | double (value : Binary64)
  | text (value : Text)
  | compound
  deriving DecidableEq, Repr

inductive SettingFault where
  | notInteger
  | notIntegerText
  | fractional
  | notFinite
  | negative
  | notBoolean
  | notBooleanValue
  | notText
  deriving DecidableEq, Repr

abbrev SettingFaults := List (Text × SettingFault)

end DocFlow
