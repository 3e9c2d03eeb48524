import DocFlow.Script.Parser.Statement

namespace DocFlow.Script.Parser

/-- A name in an import or export list, which may be a string or a reserved word. -/
def moduleName : Parser Node := do
  let l ← peek
  if isQuote l then stringAt l
  else if l.type = .word then takeAs .identifier l
  else fail

def renamed (t : NodeType) : Parser Node := do
  let name ← moduleName
  match ← word? "as" with
  | none => pure (Node.of t [name.withRole .name])
  | some as_ => do
    let new ← moduleName
    pure (Node.of t [name.withRole .name, as_, new.withRole .alias])

def nameList (list item : NodeType) : Parser Node := do
  let opening ← mark "\x7b"
  let items ← itemsUntil "\x7d" (renamed item)
  pure (Node.of list (opening :: items))

def fromClause : Parser (List Node) := do
  let from_ ← word "from"
  let source ← string
  pure [from_, source.withRole .source]

def namespaceNode (t : NodeType) : Parser Node := do
  let star ← mark "*"
  let as_ ← word "as"
  let name ← moduleName
  pure (Node.of t [star, as_, name])

def importClause : Parser Node := do
  let bindings : Parser Node := do
    let l ← peek
    if l.isMark "*" then namespaceNode .namespaceImport
    else nameList .namedImports .importSpecifier
  let l ← peek
  if l.type = .word then do
    let name ← identifier
    match ← mark? "," with
    | none => pure (Node.of .importClause [name])
    | some comma => do
      let more ← bindings
      pure (Node.of .importClause [name, comma, more])
  else do
    let b ← bindings
    pure (Node.of .importClause [b])

def importStatement (l : Lexeme) : Parser Node := do
  let keyword ← take l
  let next ← peek
  let parts ←
    if isQuote next then do
      let source ← stringAt next
      pure [source.withRole .source]
    else do
      let clause ← importClause
      let source ← fromClause
      pure (clause :: source)
  let attributes ← do
    match ← peek? (.finish false) with
    | none => pure []
    | some w =>
      if w.isWord "with" then do
        let with_ ← take w
        let object ← rule (.primary .inner)
        pure [Node.of .importAttribute [with_, object]]
      else pure []
  let (ending, stop) ← semicolon false
  pure (Node.upTo .importStatement (keyword :: parts ++ attributes ++ ending) stop)

/-- A declaration behind `export`. A function behind `export default` might be an expression, so an
operator might follow it. -/
def exportedDeclaration (operator : Bool) (l : Lexeme) : Parser Node := do
  if ← isDeclarationKeyword l then variableDeclaration l
  else if ← isNamedFunction l then functionDeclaration operator l
  else if l.isWord "class" || l.isMark "@" then classDeclaration operator
  else fail

def exportDefault (head : List Node) : Parser Node := do
  let l ← peek
  orElse (do
    let d ← exportedDeclaration true l
    pure (Node.of .exportStatement (head ++ [d.withRole .declaration]))) fun _ => do
      let e ← rule (.expression .outer)
      let (ending, stop) ← semicolon true
      pure (Node.upTo .exportStatement (head ++ [e.withRole .value] ++ ending) stop)

def exportNames (head : List Node) (l : Lexeme) : Parser Node := do
  let names ←
    if l.isMark "*" then do
      let second ← look do
        moveTo l.stop
        peek
      if second.isWord "as" then do
        let n ← namespaceNode .namespaceExport
        pure (n :: (← fromClause))
      else do
        let star ← take l
        pure (star :: (← fromClause))
    else do
      let clause ← nameList .exportClause .exportSpecifier
      match ← peek? (.finish false) with
      | none => pure [clause]
      | some w => if w.isWord "from" then pure (clause :: (← fromClause)) else pure [clause]
  let (ending, stop) ← semicolon false
  pure (Node.upTo .exportStatement (head ++ names ++ ending) stop)

def exportStatement : Parser Node := do
  let decorations ← decorators
  let keyword ← word "export"
  let head := decorations ++ [keyword]
  let l ← peek
  if l.isMark "*" || l.isMark "\x7b" then exportNames head l
  else if l.isWord "default" then do
    let default_ ← take l
    exportDefault (head ++ [default_])
  else do
    let d ← exportedDeclaration false l
    pure (Node.of .exportStatement (head ++ [d.withRole .declaration]))

end DocFlow.Script.Parser
