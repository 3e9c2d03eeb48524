import DocFlow.Script.Parser.Literal
import DocFlow.Script.Pattern

namespace DocFlow.Script.Parser

/-- Items between commas up to a closing mark. Items may be missing. -/
def itemsUntil (closing : String) (item : Parser Node) : Parser (List Node) := do
  let items ← many do
    let l ← peek
    if l.isMark closing then pure none
    else if l.isMark "," then some <$> take l
    else do
      let n ← item
      let next ← peek
      if next.isMark "," || next.isMark closing then pure (some n) else fail
  let close ← mark closing
  pure (items ++ [close])

def spreadable : Parser Node := do
  match ← mark? "..." with
  | some dots => do
    let e ← rule (.expression .inner)
    pure (Node.of .spreadElement [dots, e])
  | none => rule (.expression .inner)

def parenItems : Parser (List Node) := do
  let opening ← mark "("
  let items ← itemsUntil ")" spreadable
  pure (opening :: items)

def arguments : Parser Node := Node.of .arguments <$> parenItems

/-- Parenthesised items as parameters. What might turn out to be a pattern has been read as an
expression first. -/
def formalParametersOf (items : List Node) : Parser Node := do
  pure (Node.of .formalParameters (← ofOption (toPatterns .element items)))

def formalParameters : Parser Node := do formalParametersOf (← parenItems)

def isComma (n : Node) : Bool := n.isToken ","

/-- Whether expressions and commas alternate, starting and ending with an expression. -/
def alternates : List Node → Bool
  | [] => false
  | [e] => !isComma e && !e.isType .spreadElement
  | e :: comma :: rest =>
    !isComma e && !e.isType .spreadElement && isComma comma && alternates rest

def sequenceOf : List Node → Node
  | [e] => e
  | es => Node.of .sequenceExpression es

def parenthesizedOf (items : List Node) : Parser Node := do
  let inside := (items.drop 1).dropLast
  if alternates inside then
    match items.head?, items.getLast? with
    | some opening, some closing =>
      pure (Node.of .parenthesizedExpression [opening, sequenceOf inside, closing])
    | _, _ => fail
  else fail

def parenthesized : Parser Node := do parenthesizedOf (← parenItems)

def arrowBody (m : Mode) (head : List Node) : Parser Node := do
  let arrow ← mark "=>"
  let l ← peek
  let body ← if l.isMark "\x7b" then rule (.block true) else rule (.expression m)
  pure (Node.of .arrowFunction (head ++ [arrow, body.withRole .body]))

def atArrow (m : Mode) : Parser Bool := do
  match ← peek? (.after m) with
  | some l => pure (l.isMark "=>")
  | none => pure false

def parenthesizedOrArrow (m : Mode) : Parser Node := do
  let items ← parenItems
  if ← atArrow m then
    let params ← formalParametersOf items
    arrowBody m [params.withRole .parameters]
  else parenthesizedOf items

/-- A function behind its `function` keyword: star, name, parameters and body. `operator` says
whether the body may be followed by a logical operator. -/
def functionTail (operator : Bool) : Parser (List Node × Bool × Bool) := do
  let star ← mark? "*"
  let l ← peek
  let name ← if l.isMark "(" then pure none else some <$> identifier
  let params ← formalParameters
  let body ← rule (.block operator)
  pure (star.toList ++ (name.map (·.withRole .name)).toList ++
    [params.withRole .parameters, body.withRole .body], star.isSome, name.isSome)

def functionExpression (keywords : List Node) : Parser Node := do
  let (tail, isGenerator, _) ← functionTail true
  pure (Node.of (if isGenerator then .generatorFunction else .functionExpression)
    (keywords ++ tail))

def memberOf (object link : Node) : Parser Node := do
  let l ← peek
  let property ←
    if l.type = .word then takeAs .propertyIdentifier l
    else if l.type = .privateName then takeAs .privatePropertyIdentifier l
    else fail
  pure (Node.of .memberExpression
    [object.withRole .object, link, property.withRole .property])

def subscriptOf (object : Node) (link : List Node) : Parser Node := do
  let opening ← mark "["
  let index ← rule (.expressions .inner)
  let closing ← mark "]"
  pure (Node.of .subscriptExpression
    ([object.withRole .object] ++ link ++ [opening, index.withRole .index, closing]))

def callOf (callee : Node) (link : List Node) (args : Node) : Node :=
  Node.of .callExpression ([callee.withRole .function] ++ link ++ [args.withRole .arguments])

def optionalOf (object : Node) (l : Lexeme) : Parser Node := do
  let link := (← takeAs .optionalChain l).withRole .optionalChain
  let next ← peek
  if next.isMark "[" then subscriptOf object [link]
  else if next.isMark "(" then callOf object [link] <$> arguments
  else memberOf object link

/-- Accesses that bind tighter than `new`. -/
def memberSuffixes (m : Mode) : Nat → Node → Parser Node
  | 0, n => pure n
  | steps + 1, n => do
    match ← peek? (.after m) with
    | none => pure n
    | some l =>
      if l.isMark "." then do
        let n ← memberOf n (← take l)
        memberSuffixes m steps n
      else if l.isMark "?." then do
        let n ← optionalOf n l
        memberSuffixes m steps n
      else if l.isMark "[" then do
        let n ← subscriptOf n []
        memberSuffixes m steps n
      else if l.isMark "`" then do
        let t ← rule .template
        memberSuffixes m steps (callOf n [] t)
      else pure n

/-- What follows `new`: a target, or a constructor with optional arguments. -/
def newTail (m : Mode) (keyword : Node) : Parser Node := do
  let l ← peek
  if l.isMark "." then do
    let dot ← take l
    let target ← word "target"
    pure (Node.of .metaProperty [keyword, dot, target])
  else do
    let base ← rule (.primary m)
    let callee ← memberSuffixes m (← text).size base
    let head := [keyword, callee.withRole .constructor]
    match ← peek? (.after m) with
    | none => pure (Node.of .newExpression head)
    | some next =>
      if next.isMark "(" then do
        let args ← arguments
        pure (Node.of .newExpression (head ++ [args.withRole .arguments]))
      else pure (Node.of .newExpression head)

/-- Calls and accesses behind an operand. Arguments behind the bare name `async` may turn out to be
the parameters of an arrow function. -/
def callSuffixes (m : Mode) : Nat → Node → Parser Node
  | 0, n => pure n
  | steps + 1, n => do
    match ← peek? (.after m) with
    | none => pure n
    | some l =>
      if l.isMark "." then do
        let n ← memberOf n (← take l)
        callSuffixes m steps n
      else if l.isMark "?." then do
        let n ← optionalOf n l
        callSuffixes m steps n
      else if l.isMark "[" then do
        let n ← subscriptOf n []
        callSuffixes m steps n
      else if l.isMark "`" then do
        let t ← rule .template
        callSuffixes m steps (callOf n [] t)
      else if l.isMark "(" then do
        let items ← parenItems
        if (← isAsync n) && (← atArrow m) then do
          let params ← formalParametersOf items
          arrowBody m [.mk (.token "async") none n.start n.stop [], params.withRole .parameters]
        else callSuffixes m steps (callOf n [] (Node.of .arguments items))
      else pure n
where
  isAsync (n : Node) : Parser Bool := do
    pure (n.isType .identifier && slice (← text) n.start n.stop == "async")

def assigningMarks : List String := [
  "+=", "-=", "*=", "/=", "%=", "^=", "&=", "|=", ">>=", ">>>=", "<<=", "**=", "&&=", "||=", "??="]

/-- What may stand left of an assignment. -/
def assignable? (n : Node) : Option Node :=
  if n.isType .parenthesizedExpression then some n else toPattern .target n

def postfixed (m : Mode) : Parser Node := do
  let base ← rule (.primary m)
  let n ← callSuffixes m (← text).size base
  match ← peek? (.after m) with
  | none => pure n
  | some l =>
    if l.isMark "=" then
      match assignable? n with
      | none => fail
      | some left => do
        let sign ← take l
        let right ← rule (.expression m)
        pure (Node.of .assignmentExpression [left.withRole .left, sign, right.withRole .right])
    else if l.type = .mark && assigningMarks.contains l.text then do
      let sign ← take l
      let right ← rule (.expression m)
      pure (Node.of .augmentedAssignmentExpression
        [n.withRole .left, sign.withRole .operator, right.withRole .right])
    else if l.isMark "++" || l.isMark "--" then do
      let sign ← take l
      pure (Node.of .updateExpression [n.withRole .argument, sign.withRole .operator])
    else pure n

def isUnary (l : Lexeme) : Bool :=
  l.isMark "!" || l.isMark "~" || l.isMark "-" || l.isMark "+" || l.isWord "typeof" ||
    l.isWord "void" || l.isWord "delete"

def startsExpression (l : Lexeme) : Bool :=
  match l.type with
  | .finish => false
  | .number | .privateName => true
  | .word => l.text != "in" && l.text != "of" && l.text != "instanceof"
  | .mark => ["(", "[", "\x7b", "`", "\"", "'", "/", "/=", "!", "~", "-", "+", "++", "--", "<", "@",
      "..."].contains l.text

def yieldExpression (m : Mode) (l : Lexeme) : Parser Node := do
  let keyword ← take l
  match ← peek? (.after m) with
  | none => pure (Node.of .yieldExpression [keyword])
  | some next =>
    if next.isMark "*" then do
      let star ← take next
      let e ← rule (.expression m)
      pure (Node.of .yieldExpression [keyword, star, e])
    else if startsExpression next then do
      let e ← rule (.expression m)
      pure (Node.of .yieldExpression [keyword, e])
    else pure (Node.of .yieldExpression [keyword])

def unary (m : Mode) : Parser Node := do
  let l ← peek
  if isUnary l then do
    let sign ← take l
    let e ← rule (.unary m)
    pure (Node.of .unaryExpression [sign.withRole .operator, e.withRole .argument])
  else if l.isMark "++" || l.isMark "--" then do
    let sign ← take l
    let e ← rule (.unary m)
    pure (Node.of .updateExpression [sign.withRole .operator, e.withRole .argument])
  else if l.isWord "await" then do
    let keyword ← take l
    let e ← rule (.unary m)
    pure (Node.of .awaitExpression [keyword, e])
  else if l.isWord "yield" then yieldExpression m l
  else rule (.postfixed m)

/-- The level of a binary operator; a higher one binds tighter. -/
def level? (m : Mode) (l : Lexeme) : Option Nat :=
  if l.type = .word then
    if l.text == "instanceof" || (l.text == "in" && !m.noIn) then some 9 else none
  else if l.type = .mark then levels.lookup l.text
  else none
where
  levels : List (String × Nat) := [
    ("**", 14), ("*", 13), ("/", 13), ("%", 13), ("+", 12), ("-", 12), ("<<", 11), (">>", 11),
    (">>>", 11), ("<", 9), ("<=", 9), (">", 9), (">=", 9), ("==", 8), ("!=", 8), ("===", 8),
    ("!==", 8), ("&", 7), ("^", 6), ("|", 5), ("&&", 4), ("||", 3), ("??", 2)]

/-- Operators of a level and above behind a left operand. A conditional has the lowest level. -/
def binaryTail (m : Mode) (level : Nat) : Nat → Node → Parser Node
  | 0, n => pure n
  | steps + 1, n => do
    match ← peek? (.after m) with
    | none => pure n
    | some l =>
      if l.isMark "?" && level ≤ 2 then do
        let question ← take l
        let yes ← rule (.expression .inner)
        let colon ← mark ":"
        let no ← rule (.expression m)
        binaryTail m level steps (Node.of .ternaryExpression
          [n.withRole .condition, question, yes.withRole .consequence, colon,
            no.withRole .alternative])
      else
        match level? m l with
        | none => pure n
        | some k =>
          if k < level then pure n
          else do
            let sign ← take l
            let right ← rule (.binary m (if k = 14 then k else k + 1))
            binaryTail m level steps (Node.of .binaryExpression
              [n.withRole .left, sign.withRole .operator, right.withRole .right])

def binary (m : Mode) (level : Nat) : Parser Node := do
  let n ← rule (.unary m)
  binaryTail m level (← text).size n

def moreExpressions (m : Mode) : Parser (Option (List Node)) := do
  match ← peek? (.after m) with
  | none => pure none
  | some l =>
    if l.isMark "," then do
      let comma ← take l
      let e ← rule (.expression m)
      pure (some [comma, e])
    else pure none

def expressions (m : Mode) : Parser Node := do
  let e ← rule (.expression m)
  let more ← many (moreExpressions m)
  pure (sequenceOf (e :: more.flatten))

/-- What starts with `async`: a function, an arrow function of one parameter, or the name. -/
def asyncOr (m : Mode) (l : Lexeme) : Parser Node := do
  let next ← look do
    moveTo l.stop
    peek
  if next.isWord "function" then do
    let keyword ← take l
    let function ← word "function"
    functionExpression [keyword, function]
  else if next.type = .word && !isReserved next.text then
    orElse (do
      let keyword ← take l
      let param ← identifier
      arrowBody m [keyword, param.withRole .parameter]) fun _ => takeAs .identifier l
  else takeAs .identifier l

/-- What starts with `import` in an expression: the call of a module, or the module itself. -/
def importOr (l : Lexeme) : Parser Node := do
  let keyword ← takeAs .importKeyword l
  let next ← peek
  if next.isMark "." then do
    let dot ← take next
    let target ← peek
    if target.isWord "meta" then do
      let name ← take target
      pure (Node.of .metaProperty [.mk (.token "import") none l.start l.stop [], dot, name])
    else memberOf keyword dot
  else if next.isMark "(" then callOf keyword [] <$> arguments
  else fail

def wordExpression (m : Mode) (l : Lexeme) : Parser Node :=
  match l.text with
  | "this" => takeAs .thisExpression l
  | "super" => takeAs .superExpression l
  | "true" => takeAs .trueLiteral l
  | "false" => takeAs .falseLiteral l
  | "null" => takeAs .nullLiteral l
  | "undefined" => takeAs .undefinedLiteral l
  | "function" => do functionExpression [← take l]
  | "new" => do newTail m (← take l)
  | "import" => importOr l
  | "class" => rule .classExpression
  | "async" => do
    if ← look (moveTo l.stop *> atArrow m) then
      let param ← takeAs .identifier l
      arrowBody m [param.withRole .parameter]
    else asyncOr m l
  | word =>
    if isReserved word then fail
    else do
      let name ← takeAs .identifier l
      if ← look (atArrow m) then arrowBody m [name.withRole .parameter] else pure name

def primary (m : Mode) : Parser Node := do
  let l ← peek
  match l.type with
  | .finish => fail
  | .word => wordExpression m l
  | .number => takeAs .number l
  | .privateName => do
    let name ← takeAs .privatePropertyIdentifier l
    let next ← look peek
    if next.isWord "in" then pure name else fail
  | .mark =>
    match l.text with
    | "(" => parenthesizedOrArrow m
    | "[" => do
      let opening ← take l
      let items ← itemsUntil "]" spreadable
      pure (Node.of .array (opening :: items))
    | "\x7b" => do
      let opening ← take l
      let items ← itemsUntil "\x7d" (rule .property)
      pure (Node.of .object (opening :: items))
    | "\"" | "'" => stringAt l
    | "`" => rule .template
    | "/" | "/=" => regexAt l.start
    | "@" => rule .classExpression
    | "<" => rule .jsxElement
    | _ => fail

end DocFlow.Script.Parser
