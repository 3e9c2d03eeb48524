import DocFlow.Error
import DocFlow.Settings.Read
import DocFlow.Text.Uppercase

namespace DocFlow

def logLevel (given : Option Text) (default : Text) : Text := Text.upper (given.getD default)

def logLevels : List Text := [
  "CRITICAL".toList, "DEBUG".toList, "ERROR".toList, "FATAL".toList, "INFO".toList,
  "NOTSET".toList, "WARN".toList, "WARNING".toList]

/-- Why a process ends before it looks at its arguments. -/
inductive StartFault where
  | settings (faults : SettingFaults)
  | logLevel (level : Text)
  deriving Repr

def StartFault.message : StartFault → Text
  | settings faults => (Error.invalidSettings faults).message
  | logLevel level => "module 'logging' has no attribute ".toList ++ Text.quoted level

/-- The settings of a process, which reads them and sets up its logging before anything else. -/
def Settings.atStart (env : List (Text × Text)) : Except StartFault Settings :=
  match Settings.read env [] with
  | .error faults => .error (.settings faults)
  | .ok s =>
    let level := DocFlow.logLevel (env.lookup "LOG_LEVEL".toList) s.logLevel
    if logLevels.contains level then .ok s else .error (.logLevel level)

end DocFlow
