import DocFlow.Declaration.Collection
import DocFlow.Declaration.Layout
import DocFlow.Inline.Annotation

namespace DocFlow

/-- What is converted: a bare text, or a source that knows its language. -/
inductive Input where
  | text (content : Text)
  | source (s : Source)

structure Choice where
  declaration : Option Bool := none
  language : Option Text := none
  indent : Option Text := none

namespace Conversion

abbrev SettingsResult := Except SettingFaults Settings

def setting {α : Type} (settings : SettingsResult) (f : Settings → α) : Except Error α :=
  match settings with
  | .ok s => .ok (f s)
  | .error faults => .error (.invalidSettings faults)

/-- The language of a bare text. An empty name stands for none. -/
def languageOf (settings : SettingsResult) (language : Option Text) : Except Error Text :=
  match language with
  | none | some [] => setting settings Settings.language
  | some l => .ok l

variable (settings : SettingsResult)

def parse (language : Option Text) (input : Input) (parser : TreeParser := scriptParser) :
    Except Error Document :=
  match input with
  | .source s => Document.ofSource s parser
  | .text content => do
    let language ← languageOf settings language
    Document.ofSource ⟨content, "<string>".toList, language, "utf-8".toList⟩ parser

def declare (language indent : Option Text) (input : Input) (parser : TreeParser := scriptParser) :
    Except Error Text := do
  let ds ← Declarations.ofDocument (← parse settings language input parser)
  let indent ←
    match indent with
    | some t => .ok t
    | none => setting settings Settings.indent
  ds.root.render indent

def annotate (language : Option Text) (input : Input) (parser : TreeParser := scriptParser) :
    Except Error Text := do
  (← parse settings language input parser).annotate

/-- Converts a source in the chosen way. An indentation asks for declarations. -/
def run (choice : Choice) (input : Input) (parser : TreeParser := scriptParser) :
    Except Error Text := do
  match choice.indent with
  | some indent => declare settings choice.language (some indent) input parser
  | none =>
    let declaration ←
      match choice.declaration with
      | some b => .ok b
      | none => setting settings Settings.declaration
    if declaration then declare settings choice.language none input parser
    else annotate settings choice.language input parser

end Conversion

end DocFlow
