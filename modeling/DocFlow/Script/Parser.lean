import DocFlow.Script.Parser.Markup
import DocFlow.Script.Parser.Module

namespace DocFlow.Script

mutual

def placeComments (comments : List Node) : Node → Node
  | .mk k r s e cs => .mk k r s e (placeAmong comments cs)

/-- Puts comments among siblings: those before a sibling's start stand before it, those before its
end go into it. -/
def placeAmong (comments : List Node) : List Node → List Node
  | [] => comments
  | n :: rest =>
    let (before, others) := comments.span (fun c => c.start < n.start)
    let (inside, after) := others.span (fun c => c.stop ≤ n.stop)
    before ++ placeComments inside n :: placeAmong after rest

end

namespace Parser

def statement : Parser Node := do
  let l ← peek
  if l.isMark "\x7b" then braceStatement l
  else if l.isMark ";" then do
    let n ← takeAs .emptyStatement l
    pure (.mk n.kind none n.start n.stop [tokenNode l])
  else if l.isMark "@" then orElse exportStatement fun _ => classDeclaration true
  else if l.type ≠ .word then expressionStatement
  else
    match l.text with
    | "if" => ifStatement l
    | "for" => forStatement l
    | "while" => whileStatement l
    | "do" => doStatement l
    | "try" => tryStatement l
    | "with" => withStatement l
    | "switch" => switchStatement l
    | "break" => jumpStatement .breakStatement l
    | "continue" => jumpStatement .continueStatement l
    | "return" => returnStatement l
    | "throw" => throwStatement l
    | "debugger" => debuggerStatement l
    | "export" => exportStatement
    | "import" => orElse (importStatement l) fun _ => expressionStatement
    | "class" => orElse (classDeclaration true) fun _ => expressionStatement
    | _ => do
      if ← isDeclarationKeyword l then variableDeclaration l
      else if ← isNamedFunction l then functionDeclaration true l
      else if ← isLabel l then labeledStatement l
      else expressionStatement

def ofRule : Rule → Parser Node
  | .statement => statement
  | .block operator => block operator
  | .expressions m => expressions m
  | .expression m => rule (.binary m 0)
  | .binary m level => binary m level
  | .unary m => unary m
  | .postfixed m => postfixed m
  | .primary m => primary m
  | .property => property
  | .propertyName => propertyName
  | .classMember => classMember
  | .classExpression => classExpression
  | .jsxElement => element
  | .template => template

/-- The rules, nested up to a depth. -/
def nested (s : Array Char) : Nat → Rule → Progress → Option (Node × Progress)
  | 0, _, _ => none
  | depth + 1, r, p => ofRule r ⟨s, nested s depth⟩ p

def interpreterLine (s : Array Char) : List Node × Nat :=
  let i := skipWhile s isSpace 0
  if standsAt s i ['#', '!'] then
    let j := skipWhile s (fun c => c != '\n') i
    ([leaf .hashBangLine i j], j)
  else ([], 0)

def program : Parser (List Node) := do
  let s ← text
  let (line, i) := interpreterLine s
  moveTo i
  let body ← statements
  let l ← peek
  if l.type = .finish then pure (line ++ body) else fail

end Parser

/-- The tree of a script, or nothing if the text is no script. The nesting of rules is at most nine
for each character. -/
def parse? (s : Array Char) : Option Node := do
  let depth := 12 * (s.size + 2)
  let (body, p) ← Parser.program ⟨s, Parser.nested s depth⟩ ⟨0, []⟩
  let children := placeAmong p.comments.reverse body
  let start := (children.head?.map Node.start).getD s.size
  if areSettled children then some (.mk (.named .program) none start s.size children) else none

end DocFlow.Script
