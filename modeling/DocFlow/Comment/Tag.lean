import DocFlow.Text.Class
import DocFlow.TypeExpr.Parser

namespace DocFlow

namespace Comment

def dropOne (c : Char) : Text → Text
  | [] => []
  | d :: rest => if d = c then rest else d :: rest

/-- A line without its indentation, one star and one space. -/
def dropDecoration (line : Text) : Text := dropOne ' ' (dropOne '*' (Text.trimLeft line))

def undecorate (body : Text) : Text :=
  Text.trim (Text.join ['\n'] ((Text.lines (dropOne '*' body)).map dropDecoration))

/-- The depth of braces after a character. A closing brace without a partner is text. -/
def depthAfter (depth : Nat) (c : Char) : Nat :=
  if c = '{' then depth + 1 else if c = '}' then depth - 1 else depth

def startsTitle : Text → Bool
  | [] => false
  | c :: _ => c.isAlpha

/-- Whether a tag starts at `c`, given the depth of braces, whether a blank or nothing stands
before, and what follows. -/
def startsTag (depth : Nat) (afterBlank : Bool) (c : Char) (rest : Text) : Bool :=
  c == '@' && depth == 0 && afterBlank && startsTitle rest

/-- The text before the first tag, and each tag up to the next one. -/
def cutTags : Nat → Bool → Text → Text × List Text
  | _, _, [] => ([], [])
  | depth, afterBlank, c :: rest =>
    let r := cutTags (depthAfter depth c) (Text.isBlank c) rest
    if startsTag depth afterBlank c rest then ([], (c :: r.1) :: r.2) else (c :: r.1, r.2)

def tagTexts (t : Text) : List Text := (cutTags 0 true t).2

end Comment

/-- One tag. A type in braces that cannot be read leaves `type` empty and keeps its text. -/
structure Tag where
  title : Text
  name : Option Text
  type : Option TypeExpr
  description : Text
  rawType : Option Text
  deriving Inhabited, Repr

namespace Comment

def synonyms : List (Text × Text) := [
  ("arg".toList, "param".toList),
  ("argument".toList, "param".toList),
  ("prop".toList, "property".toList),
  ("exception".toList, "throws".toList),
  ("constant".toList, "const".toList)]

def titlesWithType : List Text := [
  "param".toList, "return".toList, "returns".toList, "enum".toList, "type".toList,
  "typedef".toList, "property".toList, "this".toList, "throws".toList, "define".toList,
  "const".toList]

def titlesWithName : List Text := ["param".toList, "property".toList, "typedef".toList]

def isTitlePart (c : Char) : Bool := Text.isWord c || c == '-'

def titleOf (t : Text) : Text × Text := (t.drop 1).span isTitlePart

/-- The text up to the brace that closes `depth + 1` open ones, and what follows it. -/
def closeBrace? : Nat → Text → Option (Text × Text)
  | _, [] => none
  | depth, c :: rest =>
    if c = '}' then
      match depth with
      | 0 => some ([], rest)
      | outer + 1 => (closeBrace? outer rest).map fun r => (c :: r.1, r.2)
    else
      (closeBrace? (if c = '{' then depth + 1 else depth) rest).map fun r => (c :: r.1, r.2)

def bracedFront? : Text → Option (Text × Text)
  | [] => none
  | c :: rest => if c = '{' then closeBrace? 0 rest else none

/-- A name at the start of a text, whether it is bracketed, and what follows. -/
structure Named where
  name : Option Text
  isOptional : Bool
  rest : Text
  deriving DecidableEq, Repr

def someText (t : Text) : Option Text := if t = [] then none else some t

/-- Reads `name`, `[name]` or `[name=default]`. -/
def nameFront (t : Text) : Named :=
  match t with
  | [] => ⟨none, false, []⟩
  | '[' :: inside =>
    match inside.span (· != ']') with
    | (_, []) => ⟨none, false, t⟩
    | (inner, _ :: rest) => ⟨someText (Text.trim (inner.takeWhile (· != '='))), true, rest⟩
  | _ =>
    match t.span (fun c => !Text.isBlank c) with
    | ([], _) => ⟨none, false, t⟩
    | (name, rest) => ⟨some name, false, rest⟩

/-- Why a comment has no tag list: no tag at all, or an integer of too many digits in a type. -/
inductive CommentError where
  | noTags
  | longInteger (digits : Nat)
  deriving DecidableEq, Repr

/-- A type that cannot be read is no type. -/
def readType (raw : Text) : Except CommentError (Option TypeExpr) :=
  match TypeExpr.parse raw with
  | .ok t => .ok (some t)
  | .error (.malformed ..) => .ok none
  | .error (.longInteger digits) => .error (.longInteger digits)

structure Typed where
  type : Option TypeExpr
  rawType : Option Text
  rest : Text

def takeType (title rest : Text) : Except CommentError Typed :=
  if titlesWithType.contains title then
    match bracedFront? rest with
    | some (raw, after) => (readType raw).map fun t => ⟨t, some raw, Text.trim after⟩
    | none => .ok ⟨none, none, rest⟩
  else .ok ⟨none, none, rest⟩

/-- A bracketed name makes the type optional. -/
def withName (title : Text) (t : Typed) : Tag :=
  if titlesWithName.contains title then
    let named := nameFront t.rest
    { title
      name := named.name
      type := if named.isOptional then t.type.map .optional else t.type
      description := Text.trim named.rest
      rawType := t.rawType }
  else { title, name := none, type := t.type, description := t.rest, rawType := t.rawType }

def readTag (t : Text) : Except CommentError Tag :=
  let (written, rest) := titleOf t
  let title := (synonyms.lookup written).getD written
  (takeType title (Text.trim rest)).map (withName title)

def parse (body : Text) : Except CommentError (List Tag) :=
  match tagTexts (undecorate body) with
  | [] => .error .noTags
  | ts => ts.mapM readTag

end Comment

end DocFlow
