import DocFlow.Source.Basic

namespace DocFlow

namespace Name

open Script

def prototype : Text := "prototype".toList

def ofSegments (segments : List (Option Text)) : Option Text :=
  match segments.filterMap (·.filter (· ≠ [])) with
  | [] => none
  | parts => some (Text.join ['.'] parts)

def isIdentifier (n : Node) : Bool :=
  match n.kind with
  | .named .identifier | .named .propertyIdentifier | .named .shorthandPropertyIdentifier
  | .named .privatePropertyIdentifier | .named .statementIdentifier => true
  | _ => false

/-- The fragments of a string, without its escapes. -/
def fragments (source : Text) (n : Node) : Text :=
  (n.children.filter (·.isType .stringFragment)).flatMap (·.text source)

/-- The name that a declaration gives. A computed name is none. -/
def declaredName (source : Text) (n : Node) : Option Text :=
  ((n.child? .name).filter isIdentifier).map (·.text source)

def keySegment (source : Text) (n : Node) : Option Text :=
  (n.child? .key).bind fun key =>
    if isIdentifier key ∨ key.isType .number then some (key.text source)
    else if key.isType .string then some (fragments source key)
    else none

def lastSegment (source : Text) (n : Node) : Option (Option Text) :=
  match n.kind with
  | .named .memberExpression => some ((n.child? .property).map (·.text source))
  | .named .subscriptExpression =>
    ((n.child? .index).filter (·.isType .string)).map fun index =>
      some (fragments source index)
  | _ => none

mutual

def targetName (source : Text) : Node → Option Text
  | .mk kind role start stop children =>
    let n : Node := .mk kind role start stop children
    if isIdentifier n then some (n.text source)
    else
      match lastSegment source n with
      | some segment => ofSegments [objectName source children, segment]
      | none => none

def objectName (source : Text) : List Node → Option Text
  | [] => none
  | n :: rest => if n.role = some .object then targetName source n else objectName source rest

end

def nameIn (source : Text) (r : Role) (n : Node) : Option Text :=
  (n.child? r).bind (targetName source)

def boundName (source : Text) (n : Node) : Option Text :=
  match n.kind with
  | .named .variableDeclarator => nameIn source .name n
  | .named .assignmentExpression => nameIn source .left n
  | _ => none

/-- The name of a method, given the names of the object or class around it. -/
def ofMethod (source : Text) (n : Node) (inObject : Bool) (object classPath : Unit → Option Text) :
    Option Text :=
  match declaredName source n with
  | none => none
  | some name =>
    if inObject then ofSegments [object (), some name]
    else
      match (classPath ()).filter (· ≠ []) with
      | none => none
      | some path =>
        if name = "constructor".toList then some path
        else if n.children.any (·.isToken "static") then ofSegments [some path, some name]
        else ofSegments [some path, some prototype, some name]

/-- The name of a node, given the nodes above it. Statements of expressions and whole scripts give
no segment. -/
def ofNode (source : Text) : Node → List Node → Option Text
  | n, above =>
    match n.kind with
    | .named .program | .named .expressionStatement => none
    | .named .memberExpression => targetName source n
    | .named .assignmentExpression | .named .variableDeclarator => boundName source n
    | .named .functionDeclaration | .named .generatorFunctionDeclaration
    | .named .classDeclaration =>
      match above with
      | [] => ofSegments [declaredName source n]
      | p :: rest => ofSegments [ofNode source p rest, declaredName source n]
    | .named .methodDefinition =>
      match above with
      | [] => none
      | [p] => ofMethod source n (p.isType .object) (fun _ => ofNode source p []) fun _ => none
      | p :: g :: rest =>
        ofMethod source n (p.isType .object) (fun _ => ofNode source p (g :: rest))
          fun _ => ofNode source g rest
    | .named .object =>
      match above with
      | [] => none
      | p :: rest =>
        if p.isType .variableDeclarator ∨ p.isType .assignmentExpression then boundName source p
        else ofNode source p rest
    | .named .pair =>
      match (keySegment source n).filter (· ≠ []), above with
      | none, _ => none
      | some key, [] => some key
      | some key, p :: rest => ofSegments [ofNode source p rest, some key]
    | _ =>
      if isIdentifier n then some (n.text source)
      else
        match above with
        | [] => none
        | p :: rest => ofNode source p rest

end Name

/-- The dotted name of a place. Nothing can be declared without one. -/
def Document.nameOf (d : Document) (p : Script.Place) : Except Error Text :=
  match Name.ofNode d.source.content p.node p.above with
  | some (c :: name) => .ok (c :: name)
  | _ =>
    .error (.unresolvableName p.node.kind.name (d.lineOf p.node.start) d.source.filePath)

end DocFlow
