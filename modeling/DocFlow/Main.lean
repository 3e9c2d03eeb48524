import DocFlow.Command.Run

namespace DocFlow.Command

/-- The fault behind a failed access to a file. Other failures are not the command's own. -/
def faultOf? : IO.Error → Option FileFault
  | .noFileOrDirectory .. => some .missing
  | .inappropriateType _ code _ =>
    some (if code = 21 ∨ code = 0 - 21 then .isDirectory else .notDirectory)
  | _ => none

def attempt {α : Type} (access : IO α) : IO (Except FileFault α) := do
  try
    return .ok (← access)
  catch e =>
    match faultOf? e with
    | some fault => return .error fault
    | none => throw e

def environment : IO (List (Text × Text)) := do
  let names := ["LOG_LEVEL", "JSON_LOGS", "INDENT_WIDTH", "LANGUAGE", "DECLARATION"]
  let mut found := []
  for name in "LOG_LEVEL" :: names.map ("JSDOC_FLOWGEN_" ++ ·) do
    if let some value ← IO.getEnv name then
      found := (name.toList, value.toList) :: found
  return found

def readInput (i : Invocation) : IO (Except FileFault Bytes) := do
  if i.path = standardInput then
    return .ok (← (← IO.getStdin).readBinToEnd).toList
  else
    let path := String.ofList (Path.ofText i.path).toText
    attempt do return (← IO.FS.readBinFile path).toList

def crash (e : Error) : IO UInt32 := do
  IO.eprintln (String.ofList e.report)
  return 1

def carryOut : Answer → IO UInt32
  | .failed message => do
    IO.eprint (String.ofList message)
    return 1
  | .crashed e => crash e
  | .printed t => do
    IO.print (String.ofList t)
    return 0
  | .written path bytes => do
    let access := IO.FS.writeBinFile (String.ofList path.toText) (ByteArray.mk bytes.toArray)
    match ← attempt access with
    | .error fault => crash (.fileAccess fault path.toText)
    | .ok () =>
      match line (successMessage path) with
      | .ok message => do
        IO.eprint (String.ofList message)
        return 0
      | .error e => crash e

def usage : String := "Usage: docflow [--inline] [--output FILE] [--language NAME] PATH"

def runWith (args : List Text) : IO UInt32 := do
  match Settings.atStart (← environment) with
  | .error fault => do
    IO.eprintln (String.ofList fault.message)
    return 1
  | .ok settings =>
    match request args with
    | .misuse => do
      IO.eprintln usage
      return 2
    | .help => do
      IO.println usage
      return 0
    | .run i => carryOut (answer scriptParser (.ok settings) i (← readInput i))

end DocFlow.Command

def main (args : List String) : IO UInt32 := DocFlow.Command.runWith (args.map String.toList)
