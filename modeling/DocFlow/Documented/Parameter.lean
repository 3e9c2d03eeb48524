import DocFlow.Documented.Basic

namespace DocFlow

/-- A parameter: the name that tags know it by, its text in a declaration, and the node that an
annotation follows. A pattern has no name. -/
structure Parameter where
  name : Option Text
  label : Text
  anchor : Script.Node

namespace Parameter

open Script

def ofIdentifier (source : Text) (n : Node) : Parameter := ⟨some (n.text source), n.text source, n⟩

def ofPattern (source : Text) (n : Node) : Parameter := ⟨none, n.text source, n⟩

/-- A default value is no part of a parameter with a plain name. A rest parameter has the name of
its first identifier. -/
def ofNode (source : Text) (n : Node) : Parameter :=
  match n.kind with
  | .named .identifier => ofIdentifier source n
  | .named .assignmentPattern =>
    match n.child? .left with
    | some left => if left.isType .identifier then ofIdentifier source left else ofPattern source n
    | none => ofPattern source n
  | .named .restPattern =>
    ⟨(n.children.find? (·.isType .identifier)).map (·.text source), n.text source, n⟩
  | _ => ofPattern source n

def ofFunction (source : Text) (n : Node) : List Parameter :=
  match n.child? .parameters with
  | some list => (list.namedChildren.filter (!·.isComment)).map (ofNode source)
  | none => []

end Parameter

namespace DocumentedFunction

def parameters (source : Text) (f : DocumentedFunction) : List Parameter :=
  Parameter.ofFunction source f.place.node

def paramType (f : DocumentedFunction) (name : Text) : Option Text := Tag.typeFor f.tags name

/-- The documented type of a parameter. One with no name, or an empty one, has no type. -/
def documentedType (f : DocumentedFunction) (p : Parameter) : Option Text :=
  (p.name.filter (· ≠ [])).bind f.paramType

end DocumentedFunction

end DocFlow
