import DocFlow.Literal.Basic

namespace DocFlow

/-- What a node of the tree is declared as. A scope is a module around other declarations. -/
inductive DeclarationForm where
  | scope
  | classLike
  | function
  | method
  | enumeration
  deriving DecidableEq, Repr

def DeclarationForm.isCallable : DeclarationForm → Bool
  | .function | .method => true
  | _ => false

structure Formal where
  label : Text
  type : Option Text
  deriving DecidableEq, Repr

/-- What a node declares. A class that no constructor is known of has no name. -/
structure Declaration where
  form : DeclarationForm
  name : Option Text := none
  params : List Formal := []
  resultType : Option Text := none
  values : List Literal := []
  sourceText : Option Text := none
  deriving DecidableEq, Repr

/-- A node of the tree: what it declares, and the nodes below it by segment, in order of their
first use. -/
inductive DeclarationTree where
  | node (declared : Option Declaration) (children : List (Text × DeclarationTree))
  deriving Repr

namespace DeclarationTree

def empty : DeclarationTree := node none []

instance : Inhabited DeclarationTree := ⟨empty⟩

def declared : DeclarationTree → Option Declaration
  | node d _ => d

def children : DeclarationTree → List (Text × DeclarationTree)
  | node _ cs => cs

/-- Whether a node is a class. -/
def isClass (t : DeclarationTree) : Bool := t.declared.any (·.form = .classLike)

def child? (t : DeclarationTree) (segment : Text) : Option DeclarationTree :=
  t.children.lookup segment

/-- Makes a node a class. What is neither a function nor a method stays what it is. -/
def makeClass : DeclarationTree → DeclarationTree
  | node none cs => node (some { form := .classLike }) cs
  | node (some d) cs =>
    node (some (if d.form.isCallable then { d with form := .classLike } else d)) cs

/-- Declares a node anew. A function that is assigned to a class is its constructor. -/
def declare (d : Declaration) (t : DeclarationTree) : DeclarationTree :=
  node (some (if t.isClass && d.form.isCallable then { d with form := .classLike } else d))
    t.children

def changeAt (segment : Text) (f : DeclarationTree → DeclarationTree) :
    List (Text × DeclarationTree) → List (Text × DeclarationTree)
  | [] => [(segment, f empty)]
  | (key, t) :: rest =>
    if key = segment then (key, f t) :: rest else (key, t) :: changeAt segment f rest

/-- Changes the node below a segment, and adds it first if it is new. -/
def changeChild (segment : Text) (f : DeclarationTree → DeclarationTree) :
    DeclarationTree → DeclarationTree
  | node d cs => node d (changeAt segment f cs)

def changeDescendant (f : DeclarationTree → DeclarationTree) :
    List Text → DeclarationTree → DeclarationTree
  | [] => f
  | segment :: path => changeChild segment (changeDescendant f path)

def descendant? : List Text → DeclarationTree → Option DeclarationTree
  | [], t => some t
  | segment :: path, t => (t.child? segment).bind (descendant? path)

end DeclarationTree

end DocFlow
