import DocFlow.Declaration.Basic
import DocFlow.Declaration.Reference
import DocFlow.Literal.Basic

namespace DocFlow

/-- A line without its indentation and its break. -/
structure Line where
  depth : Nat
  content : Text
  deriving DecidableEq, Repr

namespace Line

def write (indent : Text) (l : Line) : Text :=
  (List.replicate l.depth indent).flatten ++ l.content ++ ['\n']

def enclose (first last : Text) : List Text → List Text
  | [] => [first ++ last]
  | [t] => [first ++ t ++ last]
  | t :: u :: rest => (first ++ t) :: enclose [] last (u :: rest)

end Line

/-- What a node sees of the node above it: its form, and the outermost module, whose qualifier is
dropped in all types below. -/
structure Enclosing where
  form : Option DeclarationForm
  module? : Option Text
  deriving DecidableEq, Repr

namespace Declaration

def nameText (name : Option Text) : Text := name.getD "None".toList

def formalText (module? : Option Text) (p : Formal) : Text :=
  match p.type with
  | none | some [] => p.label
  | some type =>
    match Reference.unqualify module? type with
    | [] => p.label
    | t => p.label ++ ": ".toList ++ t

def signature (module? : Option Text) (d : Declaration) : Text :=
  let params := Text.join ", ".toList (d.params.map (formalText module?))
  let result :=
    match (d.resultType.map (Reference.unqualify module?)).filter (· ≠ []) with
    | some t => t
    | none => "void".toList
  '(' :: (params ++ "): ".toList ++ result ++ [';'])

/-- The literals of an enum as a type. An enum without any has the empty type. -/
def valueType (values : List Literal) : Except Error Text := do
  let texts ← values.mapM Literal.write
  return if texts.isEmpty then "empty".toList else Text.join ['|'] texts

def enumLines (depth : Nat) (d : Declaration) : Except Error (List Line) := do
  let name := nameText d.name
  let source := (d.sourceText.filter (· ≠ [])).getD "\x7b\x7d".toList
  let type ← valueType d.values
  let sourceLines := Line.enclose ("declare var ".toList ++ name ++ ": ".toList) [';']
    (Text.splitAt '\n' source)
  let typeLine := "declare type ".toList ++ name ++ Reference.valueSuffix ++ " = ".toList ++ type ++
    [';']
  return (sourceLines ++ [typeLine]).map (Line.mk depth)

def ownLines (depth : Nat) (above : Option DeclarationForm) (module? : Option Text)
    (d : Declaration) : Except Error (List Line) :=
  let header := nameText d.name ++ signature module? d
  match d.form with
  | .method => .ok [⟨depth, header⟩]
  | .function =>
    .ok [⟨depth, (if above = some .classLike then "static ".toList
      else "declare function ".toList) ++ header⟩]
  | .enumeration => enumLines depth d
  | .scope | .classLike => .ok []

/-- The line of a constructor. A class that is known by its methods alone has none. -/
def constructorLines (depth : Nat) (module? : Option Text) (d : Declaration) : List Line :=
  match d.name with
  | some _ => [⟨depth, "constructor".toList ++ signature module? d⟩]
  | none => []

end Declaration

namespace DeclarationTree

def openLine (depth : Nat) (keyword : String) (key : Option Text) : Line :=
  ⟨depth, keyword.toList ++ Declaration.nameText key ++ " \x7b".toList⟩

def closeLine (depth : Nat) : Line := ⟨depth, ['}']⟩

/-- The outermost module at a node: that of the scope above, or the node itself if it is one. -/
def moduleAt (above : Option Text) (own : Option Text) : Option Text :=
  match above with
  | none | some [] => own
  | some m => some m

mutual

/-- The lines of a node at `depth`, with those of the nodes below it at `inner`. -/
def linesOf (key : Option Text) (above : Enclosing) (depth inner : Nat) :
    DeclarationTree → Except Error (List Line)
  | node none children =>
    match key with
    | none => linesBelow ⟨none, above.module?⟩ inner children
    | some k => do
      let below ← linesBelow ⟨some .scope, moduleAt above.module? (some k)⟩ inner children
      return openLine depth "declare module " key :: (below ++ [closeLine depth])
  | node (some d) children => do
    let own ← Declaration.ownLines depth above.form above.module? d
    let below ← linesBelow ⟨some d.form, above.module?⟩ inner children
    if d.form = .classLike then
      return openLine depth "declare class " key ::
        (Declaration.constructorLines inner above.module? d ++ below ++ [closeLine depth])
    else return own ++ below

def linesBelow (above : Enclosing) (depth : Nat) :
    List (Text × DeclarationTree) → Except Error (List Line)
  | [] => .ok []
  | (key, t) :: rest => do
    let first ← linesOf (some key) above depth (depth + 1) t
    let others ← linesBelow above depth rest
    return first ++ others

end

def lines (root : DeclarationTree) : Except Error (List Line) := linesOf none ⟨none, none⟩ 0 0 root

mutual

def enumNames : DeclarationTree → List (Option Text)
  | node declared children =>
    (match declared with
      | some d => if d.form = .enumeration then [d.name] else []
      | none => []) ++ enumNamesBelow children

def enumNamesBelow : List (Text × DeclarationTree) → List (Option Text)
  | [] => []
  | (_, t) :: rest => t.enumNames ++ enumNamesBelow rest

end

/-- A reference can be retargeted to an enum that has a name. -/
def requireName : Option Text → Except Error Text
  | some name => .ok name
  | none => .error .unnamedEnum

def render (indent : Text) (root : DeclarationTree) : Except Error Text := do
  let ls ← root.lines
  let names ← root.enumNames.eraseDups.mapM requireName
  return Reference.retargetAll names (ls.flatMap (Line.write indent))

end DeclarationTree

end DocFlow
