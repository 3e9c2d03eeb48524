import DocFlow.Text.Basic

namespace DocFlow.Command

/-- What the command is asked for. -/
structure Invocation where
  path : Text
  isInline : Bool
  output : Option Text
  language : Option Text
  deriving DecidableEq, Repr

inductive Flag where
  | inline
  | output
  | language
  | help
  deriving DecidableEq, Repr

def Flag.takesValue : Flag → Bool
  | .output | .language => true
  | .inline | .help => false

def longFlags : List (Text × Flag) := [
  ("--inline".toList, .inline), ("--output".toList, .output), ("--language".toList, .language),
  ("--help".toList, .help)]

def shortFlags : List (Char × Flag) := [('i', .inline), ('o', .output), ('l', .language)]

/-- The options read so far, and the arguments that are none. -/
structure Reading where
  isInline : Bool := false
  output : Option Text := none
  language : Option Text := none
  help : Bool := false
  operands : List Text := []
  deriving Repr

def Reading.set (r : Reading) (value : Text) : Flag → Reading
  | .inline => { r with isInline := true }
  | .output => { r with output := some value }
  | .language => { r with language := some value }
  | .help => { r with help := true }

/-- What an argument leaves open: nothing, or an option whose value is the next argument. -/
inductive Pending where
  | nothing
  | value (flag : Flag)
  deriving DecidableEq, Repr

/-- Reads letters of short options. A value may follow its letter at once. -/
def readLetters (r : Reading) : List Char → Option (Reading × Pending)
  | [] => some (r, .nothing)
  | c :: rest =>
    match shortFlags.lookup c with
    | none => none
    | some flag =>
      if flag.takesValue then
        if rest = [] then some (r, .value flag) else some (r.set rest flag, .nothing)
      else readLetters (r.set [] flag) rest

/-- Reads one argument that starts with a dash. The text behind an equals sign is a value. -/
def readFlag (r : Reading) (arg : Text) : Option (Reading × Pending) :=
  let (name, value) := arg.span (· != '=')
  match longFlags.lookup name with
  | some flag =>
    match value with
    | [] => if flag.takesValue then some (r, .value flag) else some (r.set [] flag, .nothing)
    | _ :: value => if flag.takesValue then some (r.set value flag, .nothing) else none
  | none => if arg.take 2 = ['-', '-'] then none else readLetters r (arg.drop 1)

/-- Options may stand anywhere before `--`, and of one that is given twice the last value counts. -/
def readArguments (r : Reading) : Pending → List Text → Option Reading
  | .nothing, [] => some r
  | .value _, [] => none
  | .value flag, arg :: rest => readArguments (r.set arg flag) .nothing rest
  | .nothing, arg :: rest =>
    if arg = ['-', '-'] then some { r with operands := r.operands ++ rest }
    else if arg.head? = some '-' ∧ arg.length > 1 then
      match readFlag r arg with
      | none => none
      | some (r, pending) => readArguments r pending rest
    else readArguments { r with operands := r.operands ++ [arg] } .nothing rest

inductive Request where
  | run (invocation : Invocation)
  | help
  /-- Arguments that make no sense. -/
  | misuse
  deriving DecidableEq, Repr

def request (args : List Text) : Request :=
  match readArguments {} .nothing args with
  | none => .misuse
  | some r =>
    if r.help then .help
    else
      match r.operands with
      | [path] => .run ⟨path, r.isInline, r.output, r.language⟩
      | _ => .misuse

end DocFlow.Command
