import DocFlow.Source.Basic

namespace DocFlow

/-- A path: the slashes at its start and the parts between the others. -/
structure Path where
  root : Text
  parts : List Text
  deriving DecidableEq, Repr

namespace Path

/-- Two slashes at the start mean a root of their own. More of them mean one. -/
def rootOf (t : Text) : Text :=
  match (t.takeWhile (· = '/')).length with
  | 0 => []
  | 2 => ['/', '/']
  | _ => ['/']

def ofText (t : Text) : Path :=
  ⟨rootOf t, (Text.splitAt '/' t).filter fun p => p ≠ [] ∧ p ≠ ['.']⟩

def toText (p : Path) : Text :=
  match p.root ++ Text.join ['/'] p.parts with
  | [] => ['.']
  | t => t

def name (p : Path) : Text := p.parts.getLast?.getD []

/-- The end of the name from its last point on. A point at either end of the name opens none. -/
def extension (p : Path) : Text :=
  let (after, before) := p.name.reverse.span (· != '.')
  match before with
  | '.' :: _ :: _ => if after = [] then [] else '.' :: after.reverse
  | _ => []

end Path

abbrev Bytes := List UInt8

namespace Source

def extensions : List Text := [".js".toList, ".jsx".toList, ".mjs".toList, ".cjs".toList]

def languageOf? (p : Path) : Option Text :=
  if extensions.contains (Text.lowerASCII p.extension) then some "javascript".toList else none

/-- Makes every line break of a file a line feed. -/
def unifyBreaks : Text → Text
  | [] => []
  | '\r' :: '\n' :: rest => '\n' :: unifyBreaks rest
  | '\r' :: rest => '\n' :: unifyBreaks rest
  | c :: rest => c :: unifyBreaks rest

def readText (encodingName : Text) (bytes : Bytes) : Except Error Text :=
  match Encoding.ofName? encodingName with
  | none => .error (.unknownEncoding encodingName)
  | some e =>
    match e.decode bytes with
    | .ok t => .ok (unifyBreaks t)
    | .error fault => .error (.undecodable fault)

def ofFile (p : Path) (language : Option Text) (encodingName : Text) (bytes : Except FileFault Bytes) :
    Except Error Source := do
  match bytes with
  | .error fault => .error (.fileAccess fault p.toText)
  | .ok bytes =>
    let content ← readText encodingName bytes
    match language <|> languageOf? p with
    | some language => return ⟨content, p.toText, language, encodingName⟩
    | none => .error (.unknownLanguage p.toText)

end Source

end DocFlow
