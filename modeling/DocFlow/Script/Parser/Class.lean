import DocFlow.Script.Parser.Expression

namespace DocFlow.Script.Parser

def propertyName : Parser Node := do
  let l ← peek
  match l.type with
  | .finish => fail
  | .word => takeAs .propertyIdentifier l
  | .privateName => takeAs .privatePropertyIdentifier l
  | .number => takeAs .number l
  | .mark =>
    if isQuote l then stringAt l
    else if l.isMark "[" then do
      let opening ← take l
      let e ← rule (.expression .inner)
      let closing ← mark "]"
      pure (Node.of .computedPropertyName [opening, e, closing])
    else fail

def startsPropertyName (l : Lexeme) : Bool :=
  match l.type with
  | .word | .privateName | .number => true
  | .mark => isQuote l || l.isMark "["
  | .finish => false

def modifiers : List String := ["static", "async", "get", "set"]

/-- Whether a word is a modifier, because a name follows it. In a class, a line break after it makes
it a name itself. -/
def isModifier (inClass : Bool) (l : Lexeme) : Parser Bool :=
  if l.type = .word && modifiers.contains l.text then
    look do
      moveTo l.stop
      match ← peek? (if inClass then .finish false else .start) with
      | none => pure false
      | some next =>
        pure (startsPropertyName next ||
          (next.isMark "*" && (l.text == "async" || l.text == "static")))
  else pure false

def memberHead (inClass : Bool) : Parser (List Node) := do
  let words ← many do
    let l ← peek
    if ← isModifier inClass l then some <$> take l else pure none
  let star ← mark? "*"
  pure (words ++ star.toList)

def methodOf (head : List Node) (name : Node) : Parser Node := do
  let params ← formalParameters
  let body ← rule (.block false)
  pure (Node.of .methodDefinition (head ++
    [name.withRole .name, params.withRole .parameters, body.withRole .body]))

/-- A member of an object: a spread, a method, a pair, or a name alone, which may have a default if
the object is a pattern. -/
def property : Parser Node := do
  let l ← peek
  if l.isMark "..." then spreadable
  else
    let head ← memberHead false
    let first ← peek
    let name ← rule .propertyName
    let isName := first.type = .word && !isReserved first.text && head.isEmpty
    let next ← peek
    if next.isMark "(" then methodOf head name
    else if next.isMark ":" && head.isEmpty then do
      let colon ← take next
      let value ← rule (.expression .inner)
      pure (Node.of .pair [name.withRole .key, colon, value.withRole .value])
    else if !isName then fail
    else if next.isMark "=" then do
      let sign ← take next
      let value ← rule (.expression .inner)
      pure (Node.of .objectAssignmentPattern
        [(name.retype .shorthandPropertyIdentifierPattern).withRole .left, sign,
          value.withRole .right])
    else pure (name.retype .shorthandPropertyIdentifier)

/-- A decorator: a name with members, which may be called, or a parenthesised expression. -/
def decorator (sign : Lexeme) : Parser Node := do
  let at_ ← take sign
  let l ← peek
  if l.isMark "(" then do
    let e ← parenthesized
    pure (Node.of .decorator [at_, e])
  else do
    let name ← identifier
    let members ← many do
      let next ← peek
      if next.isMark "." then do
        let dot ← take next
        let property ← peek
        if property.type = .word then
          let name ← takeAs .propertyIdentifier property
          pure (some (dot, name))
        else fail
      else pure none
    let target := members.foldl (fun n (dot, property) => Node.of .memberExpression
      [n.withRole .object, dot, property.withRole .property]) name
    let next ← peek
    if next.isMark "(" then do
      let args ← arguments
      pure (Node.of .decorator [at_, callOf target [] args])
    else pure (Node.of .decorator [at_, target])

def decorators : Parser (List Node) := do
  let ds ← many do
    let l ← peek
    if l.isMark "@" then some <$> decorator l else pure none
  pure (ds.map (·.withRole .decorator))

def fieldOf (head : List Node) (name : Node) : Parser Node := do
  match ← peek? (.finish false) with
  | none => pure (Node.of .fieldDefinition (head ++ [name.withRole .property]))
  | some l =>
    if l.isMark "=" then do
      let sign ← take l
      let value ← rule (.expression .outer)
      pure (Node.of .fieldDefinition
        (head ++ [name.withRole .property, sign, value.withRole .value]))
    else pure (Node.of .fieldDefinition (head ++ [name.withRole .property]))

/-- A member of a class: a static block, a method or a field. -/
def classMember : Parser Node := do
  let decorations ← decorators
  let l ← peek
  let next ← look do
    moveTo l.stop
    peek
  if l.isWord "static" && next.isMark "\x7b" then do
    let keyword ← take l
    let body ← rule (.block false)
    pure (Node.of .classStaticBlock [keyword, body.withRole .body])
  else
    let head ← memberHead true
    let name ← rule .propertyName
    match ← peek? (.finish false) with
    | none => fieldOf (decorations ++ head) name
    | some next =>
      if next.isMark "(" then methodOf (decorations ++ head) name
      else fieldOf (decorations ++ head) name

def classBody : Parser Node := do
  let opening ← mark "\x7b"
  let members ← many do
    let l ← peek
    if l.isMark "\x7d" then pure none
    else if l.isMark ";" then do
      let n ← take l
      pure (some [n])
    else do
      let n ← rule .classMember
      let n := n.withRole .member
      if n.isType .fieldDefinition then
        let (ending, _) ← semicolon (n.child? .value).isSome
        pure (some (n :: ending))
      else pure (some [n])
  let closing ← mark "\x7d"
  pure (Node.of .classBody (opening :: members.flatten ++ [closing]))

def classParts : Parser (List Node × Bool) := do
  let decorations ← decorators
  let keyword ← word "class"
  let l ← peek
  let name ← if l.type = .word && !isReserved l.text then some <$> takeAs .identifier l
    else pure none
  let heritage ← do
    match ← word? "extends" with
    | none => pure none
    | some extends_ => do
      let e ← rule (.postfixed .inner)
      pure (some (Node.of .classHeritage [extends_, e]))
  let body ← classBody
  pure (decorations ++ [keyword] ++ (name.map (·.withRole .name)).toList ++ heritage.toList ++
    [body.withRole .body], name.isSome)

def classExpression : Parser Node := do
  let (parts, _) ← classParts
  pure (Node.of .classExpression parts)

end DocFlow.Script.Parser
