import DocFlow.Script.Parser.Class

namespace DocFlow.Script.Parser

/-- Statements up to a closing brace, the next case of a switch or the end of the text. -/
def statements : Parser (List Node) := many do
  let l ← peek
  if l.isMark "\x7d" || l.isWord "case" || l.isWord "default" || l.type = .finish then pure none
  else some <$> rule .statement

/-- A block. Its end may lie behind the brace, where a statement may end too. -/
def blockWith (operator : Bool → Bool) : Parser Node := do
  let opening ← mark "\x7b"
  let inside ← statements
  let closing ← mark "\x7d"
  let ending ← end? (operator inside.isEmpty)
  pure (Node.upTo .statementBlock (opening :: inside ++ [closing]) (ending.getD closing.stop))

def block (operator : Bool) : Parser Node := blockWith fun _ => operator

def expressionStatement : Parser Node := do
  let e ← rule (.expressions .outer)
  let (ending, stop) ← semicolon true
  pure (Node.upTo .expressionStatement (e :: ending) stop)

def declarator (m : Mode) : Parser (Node × Bool) := do
  let l ← peek
  let name ←
    if l.isMark "\x7b" || l.isMark "[" then do
      let e ← rule (.primary .inner)
      ofOption (toPattern .target e)
    else identifier
  match ← peek? (.finish false) with
  | none => pure (Node.of .variableDeclarator [name.withRole .name], false)
  | some next =>
    if next.isMark "=" then do
      let sign ← take next
      let value ← rule (.expression m)
      pure (Node.of .variableDeclarator [name.withRole .name, sign, value.withRole .value], true)
    else pure (Node.of .variableDeclarator [name.withRole .name], false)

/-- Further declarators behind commas, and whether the last one has a value. -/
def declarators (m : Mode) : Nat → Bool → Parser (List Node × Bool)
  | 0, _ => fail
  | steps + 1, hasValue => do
    match ← peek? (if hasValue then .after m else .finish false) with
    | none => pure ([], hasValue)
    | some l =>
      if l.isMark "," then do
        let comma ← take l
        let (d, hasValue) ← declarator m
        let (more, hasValue) ← declarators m steps hasValue
        pure (comma :: d :: more, hasValue)
      else pure ([], hasValue)

def declarationTail (m : Mode) (keyword : Node) (first : Node) (hasValue : Bool) : Parser Node := do
  let (more, hasValue) ← declarators m ((← text).size + 1) hasValue
  let (ending, stop) ← semicolon hasValue
  let isVar := keyword.isToken "var"
  pure (Node.upTo (if isVar then .variableDeclaration else .lexicalDeclaration)
    ((if isVar then keyword else keyword.withRole .kind) :: first :: more ++ ending) stop)

def variableDeclaration (l : Lexeme) : Parser Node := do
  let keyword ← take l
  let (first, hasValue) ← declarator .outer
  declarationTail .outer keyword first hasValue

/-- Whether `let` at a token starts a declaration. -/
def isLet (l : Lexeme) : Parser Bool :=
  if l.isWord "let" then
    look do
      moveTo l.stop
      let next ← peek
      pure (next.isMark "[" || next.isMark "\x7b" ||
        (next.type = .word && next.text != "in" && next.text != "instanceof"))
  else pure false

def isDeclarationKeyword (l : Lexeme) : Parser Bool :=
  if l.isWord "var" || l.isWord "const" then pure true else isLet l

/-- Whether a function with a name, with or without `async`, starts at a token. -/
def isNamedFunction (l : Lexeme) : Parser Bool :=
  look do
    moveTo l.stop
    let next ← if l.isWord "async" then peek else pure l
    if next.isWord "function" then do
      moveTo next.stop
      let _ ← mark? "*"
      let name ← peek
      pure (name.type = .word)
    else pure false

def functionDeclaration (operator : Bool) (l : Lexeme) : Parser Node := do
  let keyword ← take l
  let keywords ← if l.isWord "async" then do
      let function ← word "function"
      pure [keyword, function]
    else pure [keyword]
  let (tail, isGenerator, _) ← functionTail operator
  pure (Node.of (if isGenerator then .generatorFunctionDeclaration else .functionDeclaration)
    (keywords ++ tail))

def classDeclaration (operator : Bool) : Parser Node := do
  let (parts, hasName) ← classParts
  if hasName then do
    let n := Node.of .classDeclaration parts
    let ending ← end? operator
    pure (Node.upTo .classDeclaration parts (ending.getD n.stop))
  else fail

def condition : Parser Node := parenthesized

def ifStatement (l : Lexeme) : Parser Node := do
  let keyword ← take l
  let test ← condition
  let yes ← rule .statement
  let head := [keyword, test.withRole .condition, yes.withRole .consequence]
  match ← word? "else" with
  | none => pure (Node.of .ifStatement head)
  | some else_ => do
    let no ← rule .statement
    pure (Node.of .ifStatement
      (head ++ [(Node.of .elseClause [else_, no]).withRole .alternative]))

def whileStatement (l : Lexeme) : Parser Node := do
  let keyword ← take l
  let test ← condition
  let body ← rule .statement
  pure (Node.of .whileStatement [keyword, test.withRole .condition, body.withRole .body])

def withStatement (l : Lexeme) : Parser Node := do
  let keyword ← take l
  let object ← condition
  let body ← rule .statement
  pure (Node.of .withStatement [keyword, object.withRole .object, body.withRole .body])

def doStatement (l : Lexeme) : Parser Node := do
  let keyword ← take l
  let body ← rule .statement
  let while_ ← word "while"
  let test ← condition
  let parts := [keyword, body.withRole .body, while_, test.withRole .condition]
  match ← peek? (.finish false) with
  | none => do pure (Node.upTo .doStatement parts (← get).pos)
  | some next =>
    if next.isMark ";" then do
      let ending ← take next
      pure (Node.of .doStatement (parts ++ [ending]))
    else pure (Node.of .doStatement parts)

/-- The first part of a loop header, before it is known what kind of loop it is. -/
inductive ForHead where
  /-- A keyword with a declared name and whether it has a value. -/
  | declared (keyword declarator : Node) (hasValue : Bool)
  | expression (e : Node)

def loopWord (l : Lexeme) : Bool := l.isWord "in" || l.isWord "of"

def forInTail (head left : List Node) (sign : Lexeme) : Parser Node := do
  let operator ← take sign
  let right ← rule (.expressions .inner)
  let closing ← mark ")"
  let body ← rule .statement
  pure (Node.of .forInStatement (head ++ left ++
    [operator.withRole .operator, right.withRole .right, closing, body.withRole .body]))

def forInLeft : ForHead → Parser (List Node)
  | .declared keyword d _ => do
    let parts := d.children.map fun c => if c.role = some .name then c.withRole .left else c
    pure (keyword.withRole .kind :: parts)
  | .expression e => do
    let left ← ofOption (assignable? e)
    pure [left.withRole .left]

def forCondition : Parser (List Node) := do
  let l ← peek
  if l.isMark ";" then do
    let n ← takeAs .emptyStatement l
    pure [Node.withRole .condition (.mk n.kind none n.start n.stop [.mk (.token ";") none n.start n.stop []])]
  else do
    let e ← rule (.expressions .inner)
    let ending ← mark ";"
    pure [e.withRole .condition, ending.withRole .condition]

/-- The rest of a counting loop, behind its first part. -/
def forTail (head : List Node) : Parser Node := do
  let test ← forCondition
  let l ← peek
  let step ← if l.isMark ")" then pure [] else do
    let e ← rule (.expressions .inner)
    pure [e.withRole .increment]
  let closing ← mark ")"
  let body ← rule .statement
  pure (Node.of .forStatement (head ++ test ++ step ++ [closing, body.withRole .body]))

def forInitial (noIn : Bool) : Parser (List Node) := do
  let l ← peek
  if l.isMark ";" then do
    let n ← takeAs .emptyStatement l
    pure [Node.withRole .initializer
      (.mk n.kind none n.start n.stop [.mk (.token ";") none n.start n.stop []])]
  else if ← isDeclarationKeyword l then do
    let keyword ← take l
    let m : Mode := ⟨true, noIn⟩
    let (first, hasValue) ← declarator m
    let n ← declarationTail m keyword first hasValue
    pure [n.withRole .initializer]
  else do
    let e ← rule (.expressions ⟨false, noIn⟩)
    let ending ← mark ";"
    pure [e.withRole .initializer, ending.withRole .initializer]

/-- The head of a loop over members up to its sign. -/
def forHead : Parser ForHead := do
  let l ← peek
  if ← isDeclarationKeyword l then do
    let keyword ← take l
    let (d, hasValue) ← declarator ⟨false, true⟩
    pure (.declared keyword d hasValue)
  else .expression <$> rule (.expressions ⟨false, true⟩)

def forStatement (l : Lexeme) : Parser Node := do
  let keyword ← take l
  let await_ ← word? "await"
  let opening ← mark "("
  let start := keyword :: await_.toList ++ [opening]
  orElse (do
    let head ← forHead
    let sign ← peek
    if loopWord sign then do
      let left ← forInLeft head
      forInTail start left sign
    else fail) fun _ => do
      let initial ← forInitial false
      forTail (start ++ initial)

def catchClause (keyword : Node) : Parser Node := do
  let parameter ← do
    match ← mark? "(" with
    | none => pure []
    | some opening => do
      let l ← peek
      let name ←
        if l.isMark "\x7b" || l.isMark "[" then do
          let e ← rule (.primary .inner)
          ofOption (toPattern .target e)
        else identifier
      let closing ← mark ")"
      pure [opening, name.withRole .parameter, closing]
  let body ← rule (.block false)
  pure (Node.of .catchClause (keyword :: parameter ++ [body.withRole .body]))

def tryStatement (l : Lexeme) : Parser Node := do
  let keyword ← take l
  let body ← rule (.block false)
  let handler ← do
    match ← word? "catch" with
    | none => pure none
    | some catch_ => some <$> catchClause catch_
  let finalizer ← do
    match ← word? "finally" with
    | none => pure none
    | some finally_ => do
      let b ← rule (.block false)
      pure (some (Node.of .finallyClause [finally_, b.withRole .body]))
  pure (Node.of .tryStatement ([keyword, body.withRole .body] ++
    (handler.map (·.withRole .handler)).toList ++
    (finalizer.map (·.withRole .finalizer)).toList))

/-- One case of a switch, or nothing at its end. -/
def switchCase : Parser (Option Node) := do
  let l ← peek
  if l.isWord "case" then do
    let keyword ← take l
    let value ← rule (.expressions .inner)
    let colon ← mark ":"
    let body ← statements
    pure (some (Node.of .switchCase
      ([keyword, value.withRole .value, colon] ++ body.map (·.withRole .body))))
  else if l.isWord "default" then do
    let keyword ← take l
    let colon ← mark ":"
    let body ← statements
    pure (some (Node.of .switchDefault ([keyword, colon] ++ body.map (·.withRole .body))))
  else pure none

def switchStatement (l : Lexeme) : Parser Node := do
  let keyword ← take l
  let value ← condition
  let opening ← mark "\x7b"
  let cases ← many switchCase
  let closing ← mark "\x7d"
  pure (Node.of .switchStatement [keyword, value.withRole .value,
    (Node.of .switchBody (opening :: cases ++ [closing])).withRole .body])

def jumpStatement (t : NodeType) (l : Lexeme) : Parser Node := do
  let keyword ← take l
  match ← peek? (.finish false) with
  | none => do pure (Node.upTo t [keyword] (← get).pos)
  | some next =>
    let label ←
      if next.type = .word then do
        let n ← takeAs .statementIdentifier next
        pure [n.withRole .label]
      else pure []
    let (ending, stop) ← semicolon false
    pure (Node.upTo t (keyword :: label ++ ending) stop)

def returnStatement (l : Lexeme) : Parser Node := do
  let keyword ← take l
  match ← peek? (.finish false) with
  | none => do pure (Node.upTo .returnStatement [keyword] (← get).pos)
  | some next =>
    if next.isMark ";" then do
      let ending ← take next
      pure (Node.of .returnStatement [keyword, ending])
    else do
      let e ← rule (.expressions .outer)
      let (ending, stop) ← semicolon true
      pure (Node.upTo .returnStatement ([keyword, e] ++ ending) stop)

def throwStatement (l : Lexeme) : Parser Node := do
  let keyword ← take l
  let e ← rule (.expressions .outer)
  let (ending, stop) ← semicolon true
  pure (Node.upTo .throwStatement ([keyword, e] ++ ending) stop)

def debuggerStatement (l : Lexeme) : Parser Node := do
  let keyword ← take l
  let (ending, stop) ← semicolon false
  pure (Node.upTo .debuggerStatement (keyword :: ending) stop)

def labeledStatement (l : Lexeme) : Parser Node := do
  let label ← takeAs .statementIdentifier l
  let colon ← mark ":"
  let body ← rule .statement
  pure (Node.of .labeledStatement [label.withRole .label, colon, body.withRole .body])

def isLabel (l : Lexeme) : Parser Bool :=
  if l.type = .word && !isReserved l.text then
    look do
      moveTo l.stop
      let next ← peek
      pure (next.isMark ":")
  else pure false

/-- What starts with a brace. An object whose first member is a pair is preferred to a block whose
first statement has a label. -/
def braceStatement (l : Lexeme) : Parser Node := do
  let plain := blockWith fun isEmpty => isEmpty
  let labelled ← look do
    moveTo l.stop
    isLabel (← peek)
  if labelled then orElse expressionStatement fun _ => plain
  else orElse plain fun _ => expressionStatement

end DocFlow.Script.Parser
