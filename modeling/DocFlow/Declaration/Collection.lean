import DocFlow.Documented.Find
import DocFlow.Documented.Name
import DocFlow.Documented.Parameter
import DocFlow.Declaration.Basic

namespace DocFlow

namespace DeclarationTree

/-- Adds a function below a node along the rest of its name. A `prototype` is no node: it makes the
node before it a class, and what follows it a method. `atRoot` says that no segment has made a node
yet, `isMethod` that a `prototype` has followed one. -/
def insertBelow (leaf : DeclarationForm → Text → Declaration) (atRoot isMethod : Bool) :
    List Text → DeclarationTree → DeclarationTree
  | [], t => t
  | segment :: rest, t =>
    if segment = Name.prototype then
      if atRoot then insertBelow leaf true isMethod rest t
      else insertBelow leaf false true rest t.makeClass
    else
      match rest with
      | [] =>
        t.changeChild segment (declare (leaf (if isMethod then .method else .function) segment))
      | _ :: _ => t.changeChild segment (insertBelow leaf false isMethod rest)

def insertFunction (params : List Formal) (resultType : Option Text) (segments : List Text)
    (root : DeclarationTree) : DeclarationTree :=
  insertBelow (fun form name => { form, name := some name, params, resultType }) true false
    segments root

def insertEnum (values : List Literal) (sourceText : Text) (resultType : Option Text)
    (segments : List Text) (root : DeclarationTree) : DeclarationTree :=
  changeDescendant
    (declare { form := .enumeration, name := segments.getLast?, resultType, values,
               sourceText := some sourceText })
    segments root

end DeclarationTree

structure Declarations where
  root : DeclarationTree := .empty
  functions : Nat := 0
  enums : Nat := 0
  deriving Repr

namespace Declarations

/-- The segment that no name may use. -/
def reserved : Text := "meta".toList

def segmentsOf (d : Document) (p : Script.Place) : Except Error (List Text) := do
  let name ← d.nameOf p
  let segments := Text.splitAt '.' name
  if segments.contains reserved then .error (.reservedSegment name) else .ok segments

/-- The parameters that a function declares, with their documented types. -/
def formalsOf (source : Text) (f : DocumentedFunction) : List Formal :=
  (f.parameters source).map fun p => ⟨p.label, f.documentedType p⟩

def withFunction (d : Document) (ds : Declarations) (f : DocumentedFunction) :
    Except Error Declarations := do
  let segments ← segmentsOf d f.place
  let root := ds.root.insertFunction (formalsOf d.source.content f) f.resultType segments
  return { ds with root, functions := ds.functions + 1 }

def withEnum (d : Document) (ds : Declarations) (e : DocumentedEnum) :
    Except Error Declarations := do
  let segments ← segmentsOf d e.place
  let root := ds.root.insertEnum e.values e.sourceText e.resultType segments
  return { ds with root, enums := ds.enums + 1 }

def step (d : Document) (ds : Declarations) (p : Script.Place) : Except Error Declarations := do
  match ← Documented.find d.source.content p with
  | some (.function f) => withFunction d ds f
  | some (.enumeration e) => withEnum d ds e
  | none => return ds

def ofDocument (d : Document) : Except Error Declarations := d.places.foldlM (step d) {}

end Declarations

end DocFlow
