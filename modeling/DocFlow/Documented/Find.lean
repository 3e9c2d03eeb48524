import DocFlow.Documented.Basic
import DocFlow.Literal.Value

namespace DocFlow

open Script

namespace Documented

def isFunction (n : Node) : Bool :=
  match n.kind with
  | .named .functionDeclaration | .named .generatorFunctionDeclaration
  | .named .functionExpression | .named .generatorFunction | .named .methodDefinition => true
  | _ => false

def assignedValue? (p : Place) : Option Place :=
  match p.namedChildren with
  | e :: _ => if e.node.isType .assignmentExpression then e.child? .right else none
  | [] => none

def declaredValue? (p : Place) : Option Place :=
  (p.children.find? (·.node.isType .variableDeclarator)).bind (·.child? .value)

def returnedValue? (p : Place) : Option Place := p.namedChildren.find? (!·.node.isComment)

def valuePlace? (p : Place) : Option Place :=
  match p.node.kind with
  | .named .expressionStatement => assignedValue? p
  | .named .variableDeclaration | .named .lexicalDeclaration => declaredValue? p
  | _ => none

/-- The place of the function that a comment before a node documents. -/
def functionPlace? (p : Place) : Option Place :=
  let candidate :=
    match p.node.kind with
    | .named .functionDeclaration | .named .generatorFunctionDeclaration
    | .named .methodDefinition => some p
    | .named .pair => p.child? .value
    | .named .returnStatement => returnedValue? p
    | _ => valuePlace? p
  candidate.filter (isFunction ·.node)

def carriesEnum (n : Node) : Bool :=
  match n.kind with
  | .named .expressionStatement | .named .variableDeclaration | .named .lexicalDeclaration => true
  | _ => false

def enumPlace? (p : Place) : Option Place := (valuePlace? p).filter (·.node.isType .object)

/-- The tags of a doc comment. A comment without tags documents nothing. -/
def readTags? (body : Text) : Except Error (Option (List Tag)) :=
  match Comment.parse body with
  | .ok tags => .ok (some tags)
  | .error .noTags => .ok none
  | .error (.longInteger digits) => .error (.longInteger digits)

def findFunction (source : Text) (p : Place) : Except Error (Option DocumentedFunction) :=
  match functionPlace? p with
  | none => .ok none
  | some place =>
    match (LeadingComment.ofPlace source p).find? LeadingComment.isBlock with
    | none => .ok none
    | some comment => do
      let some tags ← readTags? comment.body | return none
      return some ⟨place, tags⟩

def isEnumComment (c : LeadingComment) : Bool := c.isBlock && Text.hasPart "@enum".toList c.body

/-- The enum that is documented before a node. Properties that are no literals do not count. -/
def findEnum (source : Text) (p : Place) : Except Error (Option DocumentedEnum) :=
  if !carriesEnum p.node then .ok none
  else
    match (LeadingComment.ofPlace source p).find? isEnumComment with
    | none => .ok none
    | some comment => do
      let some tags ← readTags? comment.body | return none
      let some place := enumPlace? p | return none
      let values ← Literal.ofProperties source place.node.children
      return some ⟨place, values, place.node.text source, tags⟩

/-- The construct that is documented before a node. Its doc comment is a block comment right before
the node, and the function or object stands at a fixed place in it. -/
def find (source : Text) (p : Place) : Except Error (Option Documented) := do
  match ← findFunction source p with
  | some f => return some (.function f)
  | none => return (← findEnum source p).map .enumeration

end Documented

end DocFlow
