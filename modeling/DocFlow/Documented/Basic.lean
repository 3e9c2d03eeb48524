import DocFlow.Comment.Tag
import DocFlow.Literal.Basic
import DocFlow.Script.Node
import DocFlow.TypeExpr.Basic

namespace DocFlow

inductive CommentForm where
  | block
  | line
  deriving DecidableEq, Repr

/-- A comment with the text between its delimiters, and the place where it starts. -/
structure LeadingComment where
  form : CommentForm
  body : Text
  start : Nat
  deriving DecidableEq, Repr

namespace LeadingComment

def isBlock (c : LeadingComment) : Bool := c.form = .block

def dropClose (t : Text) : Text :=
  match t.reverse with
  | '/' :: '*' :: rest => rest.reverse
  | _ => t

def ofNode (source : Text) (n : Script.Node) : LeadingComment :=
  match n.text source with
  -- In a broken text a comment may be `/*/`, where opening and end share their star.
  | '/' :: '*' :: rest => ⟨.block, (dropClose ('/' :: '*' :: rest)).drop 2, n.start⟩
  | raw => ⟨.line, raw.drop 2, n.start⟩

/-- The contiguous run of comments right before a place, in order. -/
def ofPlace (source : Text) (p : Script.Place) : List LeadingComment :=
  ((p.before.takeWhile Script.Node.isComment).map (ofNode source)).reverse

end LeadingComment

namespace Tag

def flow (t : Tag) : Option Text := t.type.bind TypeExpr.flow

def nonemptyFlow (t : Tag) : Option Text := t.flow.filter (· ≠ [])

def resultTitles : List Text := ["return".toList, "returns".toList, "enum".toList]

def isParameter (t : Tag) : Bool := t.title = "param".toList

def isResult (t : Tag) : Bool := resultTitles.contains t.title

/-- The documented result. The first of its tags counts, also if it has no Flow form. -/
def resultType (tags : List Tag) : Option Text := (tags.find? isResult).bind nonemptyFlow

/-- The type that is documented for a name: that of the first tag which has a Flow form. -/
def typeFor (tags : List Tag) (name : Text) : Option Text :=
  tags.findSome? fun t => if t.isParameter ∧ t.name = some name then t.nonemptyFlow else none

end Tag

structure DocumentedFunction where
  place : Script.Place
  tags : List Tag

namespace DocumentedFunction

def body? (f : DocumentedFunction) : Option Script.Node := f.place.node.child? .body

def resultType (f : DocumentedFunction) : Option Text := Tag.resultType f.tags

end DocumentedFunction

structure DocumentedEnum where
  place : Script.Place
  values : List Literal
  sourceText : Text
  tags : List Tag

def DocumentedEnum.resultType (e : DocumentedEnum) : Option Text := Tag.resultType e.tags

inductive Documented where
  | function (f : DocumentedFunction)
  | enumeration (e : DocumentedEnum)

end DocFlow
