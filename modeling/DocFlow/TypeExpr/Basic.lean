import DocFlow.Number.Binary64
import DocFlow.Text.Basic

namespace DocFlow

inductive Side where
  | before
  | after
  deriving DecidableEq, Repr

/-- A type expression, the text between the braces of a tag. -/
inductive TypeExpr where
  | named (name : Text)
  | generic (base : TypeExpr) (arguments : List TypeExpr)
  | union (members : List TypeExpr)
  | nullable (inner : TypeExpr) (side : Side)
  | nonNullable (inner : TypeExpr)
  | optional (inner : TypeExpr)
  | any
  | unknown
  | null
  | undefined
  | void
  | string (value : Text)
  | integer (value : Int)
  | double (value : Binary64)
  | rest (inner : Option TypeExpr)
  | tuple (elements : List TypeExpr)
  | record (fields : List (Text × Option TypeExpr))
  | function (params : List TypeExpr) (result this new : Option TypeExpr)
  deriving Inhabited, Repr

namespace TypeExpr

/-- A generic type has a form if both of its parts are non-empty. -/
def genericText : Option Text → Option Text → Option Text
  | some base, some argument =>
    if base = [] ∨ argument = [] then none else some (base ++ '<' :: (argument ++ ['>']))
  | _, _ => none

mutual

/-- The Flow text of a type. Of the arguments of a generic type the first one counts. -/
def flow : TypeExpr → Option Text
  | .named name => some name
  | .generic base arguments => genericText (flow base) (flowFirst arguments)
  | .union ts => some (Text.join " | ".toList (flowEach ts))
  | .nullable inner _ => (flow inner).map ('?' :: ·)
  | .optional inner => (flow inner).map ('?' :: ·)
  | .any => some "any".toList
  | _ => none

def flowFirst : List TypeExpr → Option Text
  | [] => none
  | t :: _ => flow t

def flowEach : List TypeExpr → List Text
  | [] => []
  | t :: ts =>
    match flow t with
    | some s => s :: flowEach ts
    | none => flowEach ts

end

end TypeExpr

end DocFlow
