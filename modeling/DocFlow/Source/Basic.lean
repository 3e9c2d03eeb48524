import DocFlow.Error
import DocFlow.Script.Parser

namespace DocFlow

structure Source where
  content : Text
  filePath : Text
  language : Text
  encoding : Text
  deriving Repr

def languages : List Text := ["javascript".toList, "js".toList, "jsx".toList]

def isSupported (language : Text) : Bool := languages.contains (Text.lowerASCII language)

/-- What a parser makes of a text: a tree whose positions count characters, and whether some of the
text fits no rule. -/
structure Parsed where
  root : Script.Node
  hasErrors : Bool

/-- How texts are parsed, given the encoding that their bytes are in. -/
abbrev TreeParser := Encoding → Text → Parsed

/-- A parser of scripts without syntax errors. It keeps nothing of any other text, where others
may keep what they understand. -/
def scriptParser : TreeParser := fun _ content =>
  match Script.parse? content.toArray with
  | some root => ⟨root, false⟩
  | none => ⟨.mk (.named .program) none content.length content.length [], true⟩

structure Document where
  source : Source
  encoding : Encoding
  root : Script.Node
  hasErrors : Bool

namespace Document

def ofSource (s : Source) (parser : TreeParser := scriptParser) : Except Error Document :=
  if !isSupported s.language then .error (.unsupportedLanguage s.language s.filePath)
  else
    match Encoding.ofName? s.encoding with
    | none => .error (.unknownEncoding s.encoding)
    | some e =>
      if !e.covers s.content then .error .unencodable
      else
        let parsed := parser e s.content
        .ok ⟨s, e, parsed.root, parsed.hasErrors⟩

def text (d : Document) (n : Script.Node) : Text := n.text d.source.content

def lineOf (d : Document) (place : Nat) : Nat := (d.source.content.take place).count '\n' + 1

def byteOffset (d : Document) (place : Nat) : Nat :=
  d.encoding.byteLength (d.source.content.take place)

def places (d : Document) : List Script.Place := Script.preorder d.root

end Document

end DocFlow
