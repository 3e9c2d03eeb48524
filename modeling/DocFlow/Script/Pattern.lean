import DocFlow.Script.Node

namespace DocFlow.Script

namespace Node

def retype (t : NodeType) (n : Node) : Node :=
  match n with
  | mk _ r s e cs => mk (.named t) r s e cs

end Node

inductive PatternPlace where
  /-- The target of an assignment. -/
  | target
  /-- A parameter or an element, which may have a default and may collect the rest. -/
  | element
  /-- A member of an object pattern. -/
  | member
  deriving DecidableEq, Repr

mutual

/-- Turns an expression into a pattern. Until the sign after it is seen, a pattern reads like one.
-/
def toPattern (place : PatternPlace) : Node → Option Node
  | .mk (.token t) r s e cs => some (.mk (.token t) r s e cs)
  | .mk (.named t) r s e cs =>
    match t with
    | .comment | .htmlComment => some (.mk (.named t) r s e cs)
    | .identifier | .undefinedLiteral | .memberExpression | .subscriptExpression
    | .objectPattern | .arrayPattern =>
      if place = .member then none else some (.mk (.named t) r s e cs)
    | .object =>
      if place = .member then none
      else (toPatterns .member cs).map (.mk (.named .objectPattern) r s e)
    | .array =>
      if place = .member then none
      else (toPatterns .element cs).map (.mk (.named .arrayPattern) r s e)
    | .assignmentExpression =>
      if place = .element then (toSides cs).map (.mk (.named .assignmentPattern) r s e) else none
    | .assignmentPattern =>
      if place = .element then some (.mk (.named t) r s e cs) else none
    | .spreadElement =>
      if place = .target then none
      else (toPatterns .target cs).map (.mk (.named .restPattern) r s e)
    | .pair =>
      if place = .member then (toSides cs).map (.mk (.named .pairPattern) r s e) else none
    | .shorthandPropertyIdentifier =>
      if place = .member then some (.mk (.named .shorthandPropertyIdentifierPattern) r s e cs)
      else none
    | .objectAssignmentPattern =>
      if place = .member then some (.mk (.named t) r s e cs) else none
    | _ => none

def toPatterns (place : PatternPlace) : List Node → Option (List Node)
  | [] => some []
  | n :: rest => do
    let n ← toPattern place n
    let rest ← toPatterns place rest
    some (n :: rest)

/-- Turns the left side of an assignment, or the value of a pair, and leaves the other side. -/
def toSides : List Node → Option (List Node)
  | [] => some []
  | n :: rest => do
    let n ←
      if n.role = some .left then toPattern .target n
      else if n.role = some .value then toPattern .element n
      else some n
    let rest ← toSides rest
    some (n :: rest)

end

mutual

/-- Whether no object literal holds a shorthand with a default, which only patterns may. -/
def isSettled : Node → Bool
  | .mk k _ _ _ cs =>
    (k != .named .object || cs.all fun c => !c.isType .objectAssignmentPattern) && areSettled cs

def areSettled : List Node → Bool
  | [] => true
  | n :: rest => isSettled n && areSettled rest

end

end DocFlow.Script
