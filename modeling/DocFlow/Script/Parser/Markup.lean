import DocFlow.Script.Parser.Expression

namespace DocFlow.Script.Parser

/-- The end of a name in markup, which may hold hyphens. -/
def markupNameEnd (s : Array Char) (i : Nat) : Nat :=
  skipWhile s (fun c => c.isAlphanum || c == '_' || c == '$' || c == '-') i

def markupName (t : NodeType) : Parser Node := do
  let l ← peek
  if l.type = .word then do
    let s ← text
    let j := markupNameEnd s l.start
    let stop := if j > l.stop then j else l.stop
    moveTo stop
    pure (leaf t l.start stop)
  else fail

def markupMembers : Nat → Node → Parser Node
  | 0, n => pure n
  | steps + 1, n => do
    match ← mark? "." with
    | none => pure n
    | some dot => do
      let property ← markupName .propertyIdentifier
      markupMembers steps (Node.of .memberExpression
        [n.withRole .object, dot, property.withRole .property])

def elementName : Parser Node := do
  let first ← markupName .identifier
  match ← mark? ":" with
  | some colon => do
    let second ← markupName .identifier
    pure (Node.of .jsxNamespaceName [first, colon, second])
  | none => markupMembers (← text).size first

def markupExpression : Parser Node := do
  let opening ← mark "\x7b"
  let l ← peek
  if l.isMark "\x7d" then do
    let closing ← take l
    pure (Node.of .jsxExpression [opening, closing])
  else do
    let e ← if l.isMark "..." then spreadable else rule (.expressions .inner)
    let closing ← mark "\x7d"
    pure (Node.of .jsxExpression [opening, e, closing])

def referenceEnd? (s : Array Char) (i : Nat) : Option Nat :=
  if charAt s i == '&' then
    let j :=
      if charAt s (i + 1) == '#' then
        if charAt s (i + 2) == 'x' || charAt s (i + 2) == 'X' then skipWhile s isHexDigit (i + 3)
        else skipWhile s isDigit (i + 2)
      else skipWhile s Char.isAlpha (i + 1)
    if charAt s j == ';' && j > i + 1 then some (j + 1) else none
  else none

def attributeParts (s : Array Char) (q : Char) : Nat → Nat → Option (List Node)
  | 0, _ => none
  | steps + 1, i =>
    if i ≥ s.size then none
    else if charAt s i == q then some [.mk (.token (String.singleton q)) none i (i + 1) []]
    else
      match referenceEnd? s i with
      | some j => (attributeParts s q steps j).map (leaf .htmlCharacterReference i j :: ·)
      | none =>
        let j := skipWhile s (fun c => c != q && c != '&') (i + 1)
        (attributeParts s q steps j).map (leaf .stringFragment i j :: ·)

def attributeString (l : Lexeme) : Parser Node := do
  let s ← text
  let opening ← take l
  let parts ← ofOption (attributeParts s (charAt s l.start) (s.size + 1) l.stop)
  let n := Node.of .string (opening :: parts)
  moveTo n.stop
  pure n

def markupAttribute : Parser (Option Node) := do
  let l ← peek
  if l.isMark "\x7b" then some <$> markupExpression
  else if l.type = .word then do
    let first ← markupName .propertyIdentifier
    let name ← do
      match ← mark? ":" with
      | none => pure first
      | some colon => do
        let second ← markupName .identifier
        pure (Node.of .jsxNamespaceName [first.retype .identifier, colon, second])
    match ← mark? "=" with
    | none => pure (some (Node.of .jsxAttribute [name]))
    | some sign => do
      let v ← peek
      let value ←
        if isQuote v then attributeString v
        else if v.isMark "\x7b" then markupExpression
        else rule .jsxElement
      pure (some (Node.of .jsxAttribute [name, sign, value]))
  else pure none

/-- The end of the plain text of markup from `i` on, and whether it is more than line breaks with
their indentation. -/
def markupTextEnd (s : Array Char) : Nat → Nat → Bool → Bool → Nat × Bool
  | 0, i, _, seen => (i, seen)
  | steps + 1, i, atNewline, seen =>
    let c := charAt s i
    if i ≥ s.size || c == '<' || c == '>' || c == '\x7b' || c == '\x7d' || c == '&' then (i, seen)
    else if c == '\n' then markupTextEnd s steps (i + 1) true seen
    else
      let atNewline := atNewline && isPlainSpace c
      markupTextEnd s steps (i + 1) atNewline (seen || !atNewline)

/-- One mark of markup at the present position, where longer marks of expressions do not count. -/
def singleMark (m : String) : Parser Node := do
  let l ← peek
  let s ← text
  if standsAt s l.start m.toList then do
    let stop := l.start + m.length
    moveTo stop
    pure (.mk (.token m) none l.start stop [])
  else fail

def atSingleMark (m : String) : Parser Bool := do
  let l ← peek
  pure (standsAt (← text) l.start m.toList)

/-- One child of an element, or nothing at its closing tag. -/
def markupChild : Parser (Option Node) := do
  let s ← text
  let i := (← get).pos
  let (j, seen) := markupTextEnd s s.size i false false
  if seen then do
    moveTo j
    pure (some (leaf .jsxText i j))
  else do
    moveTo j
    if standsAt s j ['<', '/'] then pure none
    else if charAt s j == '<' then some <$> rule .jsxElement
    else if charAt s j == '\x7b' then some <$> markupExpression
    else do
      let k ← ofOption (referenceEnd? s j)
      moveTo k
      pure (some (leaf .htmlCharacterReference j k))

def element : Parser Node := do
  let opening ← singleMark "<"
  let head ←
    if ← atSingleMark ">" then pure []
    else do
      let name ← elementName
      let attributes ← many markupAttribute
      pure (name.withRole .name :: attributes.map (·.withRole .markupAttribute))
  if !head.isEmpty && (← atSingleMark "/>") then do
    let closing ← singleMark "/>"
    pure (Node.of .jsxSelfClosingElement (opening :: head ++ [closing]))
  else do
    let bracket ← singleMark ">"
    let openTag := Node.of .jsxOpeningElement (opening :: head ++ [bracket])
    let children ← many markupChild
    let closing ← singleMark "</"
    let name ← if ← atSingleMark ">" then pure none else some <$> elementName
    let bracket ← singleMark ">"
    let closeTag := Node.of .jsxClosingElement
      (closing :: (name.map (·.withRole .name)).toList ++ [bracket])
    pure (Node.of .jsxElement
      (openTag.withRole .openTag :: children ++ [closeTag.withRole .closeTag]))

end DocFlow.Script.Parser
