import DocFlow.Documented.Find
import DocFlow.Documented.Parameter
import DocFlow.Inline.Insertion

namespace DocFlow

/-- The insertions made so far, and the number of functions they annotate. -/
structure Annotations where
  insertions : List Insertion := []
  functions : Nat := 0
  deriving Repr

namespace Annotations

def typeComment (type : Text) : Text := "/* : ".toList ++ type ++ "*/".toList

/-- The annotations of the parameters that have a name and a type that is not empty. -/
def ofParams (source : Text) (f : DocumentedFunction) : List Insertion :=
  (f.parameters source).filterMap fun p =>
    ((p.name.bind f.paramType).filter (· ≠ [])).map fun type => .after p.anchor (typeComment type)

def ofResult (f : DocumentedFunction) : List Insertion :=
  match f.resultType, f.body? with
  | some type, some body => [.before body (typeComment type ++ [' '])]
  | _, _ => []

def withFunction (source : Text) (a : Annotations) (f : DocumentedFunction) : Annotations :=
  ⟨a.insertions ++ ofParams source f ++ ofResult f, a.functions + 1⟩

def step (source : Text) (a : Annotations) (p : Script.Place) : Except Error Annotations :=
  (Documented.findFunction source p).map fun
    | some f => withFunction source a f
    | none => a

def ofDocument (d : Document) : Except Error Annotations :=
  d.places.foldlM (step d.source.content) {}

end Annotations

def Document.annotate (d : Document) : Except Error Text := do
  let a ← Annotations.ofDocument d
  d.withInsertions a.insertions

end DocFlow
