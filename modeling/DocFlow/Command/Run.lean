import DocFlow.Command.Arguments
import DocFlow.Command.Markup
import DocFlow.Conversion
import DocFlow.Settings.LogLevel
import DocFlow.Source.Directory

namespace DocFlow.Command

/-- What the command does with a conversion. A crash is a failure that it does not report. -/
inductive Answer where
  | failed (message : Text)
  | crashed (error : Error)
  | printed (text : Text)
  | written (path : Path) (bytes : Bytes)

def standardInput : Text := ['-']

/-- Failures that are reported. An escape beyond all machine integers is not foreseen. -/
def isReported : Error → Bool
  | .codePointOverflow => false
  | _ => true

def sourceOf (settings : Conversion.SettingsResult) (i : Invocation)
    (bytes : Except FileFault Bytes) : Except Error Source :=
  if i.path = standardInput then do
    let content ←
      match bytes with
      | .ok bytes => Source.readText "utf-8".toList bytes
      | .error fault => .error (.fileAccess fault standardInput)
    let language ← Conversion.languageOf settings i.language
    return ⟨content, "<stdin>".toList, language, "utf-8".toList⟩
  else Source.ofFile (Path.ofText i.path) i.language "utf-8".toList bytes

def result (parser : TreeParser) (settings : Conversion.SettingsResult) (i : Invocation)
    (bytes : Except FileFault Bytes) : Except Error Text := do
  let source ← sourceOf settings i bytes
  Conversion.run settings { declaration := some !i.isInline } (.source source) parser

def styled (style : String) (message : Text) : Text :=
  ("[" ++ style ++ "]").toList ++ message ++ ("[/" ++ style ++ "]").toList

def failureMessage (e : Error) : Text := styled "red" ("❌ Error: ".toList ++ e.report)

def successMessage (p : Path) : Text := styled "green" ("✅ Wrote ".toList ++ p.toText)

/-- The plain text of a message as a line, or a crash if its tags do not fit. -/
def line (message : Text) : Except Error Text :=
  match Markup.plain? message with
  | some t => .ok (t ++ ['\n'])
  | none => .error .unmatchedTag

def answer (parser : TreeParser) (settings : Conversion.SettingsResult) (i : Invocation)
    (bytes : Except FileFault Bytes) : Answer :=
  match result parser settings i bytes with
  | .ok t =>
    match i.output with
    | none => .printed t
    | some output =>
      match Encoding.utf8.encode? t with
      | some bytes => .written (Path.ofText output) bytes
      | none => .crashed .unencodable
  | .error e =>
    if isReported e then
      match line (failureMessage e) with
      | .ok message => .failed message
      | .error tagError => .crashed tagError
    else .crashed e

/-- What a run leaves behind: an exit code, what it has printed on its two outputs, the directory,
and the failure that ended it unforeseen. -/
structure Outcome where
  exitCode : Nat
  output : Text := []
  messages : Text := []
  directory : Directory
  crash : Option Error := none

def Answer.carryOut (d : Directory) : Answer → Outcome
  | .failed message => { exitCode := 1, messages := message, directory := d }
  | .crashed e => { exitCode := 1, directory := d, crash := some e }
  | .printed t => { exitCode := 0, output := t, directory := d }
  | .written path bytes =>
    match d.write path bytes with
    | .error fault =>
      { exitCode := 1, directory := d, crash := some (.fileAccess fault path.toText) }
    | .ok d =>
      match line (successMessage path) with
      | .ok message => { exitCode := 0, messages := message, directory := d }
      | .error e => { exitCode := 1, directory := d, crash := some e }

/-- The command in a directory, once its process has started, with the variables that settings are
read from and the standard input. -/
def run (env : List (Text × Text)) (args : List Text) (input : Bytes) (d : Directory)
    (parser : TreeParser := scriptParser) : Outcome :=
  match request args with
  | .misuse => { exitCode := 2, directory := d }
  | .help => { exitCode := 0, directory := d }
  | .run i =>
    let bytes := if i.path = standardInput then .ok input else d.read (Path.ofText i.path)
    (answer parser (Settings.read env []) i bytes).carryOut d

/-- A whole process. One that does not start has not touched the directory. -/
def launch (env : List (Text × Text)) (args : List Text) (input : Bytes) (d : Directory)
    (parser : TreeParser := scriptParser) : Except StartFault Outcome :=
  (Settings.atStart env).map fun _ => run env args input d parser

end DocFlow.Command
