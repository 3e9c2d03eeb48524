import DocFlow.Script.Lexeme
import DocFlow.Script.Node
import DocFlow.Script.Semicolon

namespace DocFlow.Script

/-- How an expression stands: whether a statement may end after it without a semicolon, and whether
an `in` after it belongs to a loop header. -/
structure Mode where
  ends : Bool
  noIn : Bool
  deriving DecidableEq, Repr

def Mode.inner : Mode := ⟨false, false⟩

def Mode.outer : Mode := ⟨true, false⟩

/-- The rules of the grammar that refer to each other. -/
inductive Rule where
  | statement
  | block (operator : Bool)
  | expressions (mode : Mode)
  | expression (mode : Mode)
  | binary (mode : Mode) (level : Nat)
  | unary (mode : Mode)
  | postfixed (mode : Mode)
  | primary (mode : Mode)
  | property
  | propertyName
  | classMember
  | classExpression
  | jsxElement
  | template
  deriving Repr

/-- The position behind the last token or comment, and the comments so far, latest first. -/
structure Progress where
  pos : Nat
  comments : List Node

/-- The text and the rules, which are looked up by name, so that they need not be defined all at
once. -/
structure Grammar where
  text : Array Char
  rule : Rule → Progress → Option (Node × Progress)

def Parser (α : Type) := Grammar → Progress → Option (α × Progress)

namespace Parser

instance : Monad Parser where
  pure a := fun _ p => some (a, p)
  bind x f := fun g p =>
    match x g p with
    | some (a, p) => f a g p
    | none => none

def fail {α : Type} : Parser α := fun _ _ => none

/-- Tries a second parser from the same position. -/
def orElse {α : Type} (x : Parser α) (y : Unit → Parser α) : Parser α := fun g p =>
  match x g p with
  | some r => some r
  | none => y () g p

instance {α : Type} : OrElse (Parser α) := ⟨orElse⟩

def look {α : Type} (x : Parser α) : Parser α := fun g p => (x g p).map fun r => (r.1, p)

def get : Parser Progress := fun _ p => some (p, p)

def text : Parser (Array Char) := fun g p => some (g.text, p)

def moveTo (i : Nat) : Parser Unit := fun _ p => some ((), { p with pos := i })

def ofOption {α : Type} (x : Option α) : Parser α := fun _ p => x.map (·, p)

def rule (r : Rule) : Parser Node := fun g p => g.rule r p

/-- Repeats a parser until it returns nothing. Each round reads a character at least. -/
def repeatFrom {α : Type} (x : Parser (Option α)) : Nat → Parser (List α)
  | 0 => fail
  | rounds + 1 => do
    match ← x with
    | none => pure []
    | some a => do
      let rest ← repeatFrom x rounds
      pure (a :: rest)

def many {α : Type} (x : Parser (Option α)) : Parser (List α) := do
  repeatFrom x ((← text).size + 2)

end Parser

/-- What may stand between the last token and the next: an end of the statement, with or without a
logical operator as the alternative, and an HTML comment. -/
structure Outlook where
  ends : Option Bool
  html : Bool

def Outlook.start : Outlook := ⟨none, true⟩

def Outlook.after (m : Mode) : Outlook := ⟨if m.ends then some true else none, false⟩

def Outlook.finish (operator : Bool) : Outlook := ⟨some operator, false⟩

def leaf (t : NodeType) (start stop : Nat) : Node := .mk (.named t) none start stop []

def tokenNode (l : Lexeme) : Node := .mk (.token l.text) none l.start l.stop []

def commentAt? (s : Array Char) (html : Bool) (i : Nat) : Option Node :=
  match commentEnd? s i with
  | some j => some (leaf .comment i j)
  | none => if html then (htmlCommentEnd? s i).map (leaf .htmlComment i) else none

/-- Moves over blanks and comments. Says whether a statement ends on the way; then the position is
where it ends. -/
def passTrivia (s : Array Char) (o : Outlook) : Nat → Progress → Bool × Progress
  | 0, p => (false, p)
  | steps + 1, p =>
    if o.ends.any fun operator => endsAt s operator p.pos then (true, p)
    else
      let i := skipWhile s isSpace p.pos
      match commentAt? s o.html i with
      | some c => passTrivia s o steps ⟨c.stop, c :: p.comments⟩
      | none => (false, { p with pos := i })

namespace Parser

/-- The next token, or nothing where the statement ends without one. -/
def peek? (o : Outlook) : Parser (Option Lexeme) := fun g p =>
  let (ends, p) := passTrivia g.text o (g.text.size + 1) p
  some (if ends then none else some (lexemeAt g.text p.pos), p)

def peek : Parser Lexeme := fun g p =>
  let (_, p) := passTrivia g.text .start (g.text.size + 1) p
  some (lexemeAt g.text p.pos, p)

def take (l : Lexeme) : Parser Node := do
  moveTo l.stop
  pure (tokenNode l)

def takeAs (t : NodeType) (l : Lexeme) : Parser Node := do
  moveTo l.stop
  pure (leaf t l.start l.stop)

def mark (m : String) : Parser Node := do
  let l ← peek
  if l.isMark m then take l else fail

def word (w : String) : Parser Node := do
  let l ← peek
  if l.isWord w then take l else fail

def mark? (m : String) : Parser (Option Node) := do
  let l ← peek
  if l.isMark m then some <$> take l else pure none

def word? (w : String) : Parser (Option Node) := do
  let l ← peek
  if l.isWord w then some <$> take l else pure none

def identifier : Parser Node := do
  let l ← peek
  if l.type = .word && !isReserved l.text then takeAs .identifier l else fail

/-- The end of a statement: a semicolon, or none where none is needed. Returns the semicolon and
where the statement stops. -/
def semicolon (operator : Bool) : Parser (List Node × Nat) := do
  match ← peek? (.finish operator) with
  | none => do
    let p ← get
    pure ([], p.pos)
  | some l =>
    if l.isMark ";" then do
      let n ← take l
      pure ([n], n.stop)
    else fail

/-- An end of a statement that may be missing. Returns where it is, if it is there. -/
def end? (operator : Bool) : Parser (Option Nat) := do
  match ← peek? (.finish operator) with
  | none => do
    let p ← get
    pure (some p.pos)
  | some _ => pure none

end Parser

def Node.of (t : NodeType) (children : List Node) : Node :=
  .mk (.named t) none ((children.head?.map Node.start).getD 0)
    ((children.getLast?.map Node.stop).getD 0) children

def Node.upTo (t : NodeType) (children : List Node) (stop : Nat) : Node :=
  .mk (.named t) none ((children.head?.map Node.start).getD 0) stop children

end DocFlow.Script
