import DocFlow.Text.Printable
import DocFlow.TypeExpr.Basic
import DocFlow.TypeExpr.Token

namespace DocFlow.TypeGrammar

inductive Problem where
  | strayCharacter (char : Char)
  | empty
  | unexpectedEnd
  | unexpected (found : Text)
  | expected (mark : Mark) (found : Text)
  | invalidKey (found : Text)
  deriving DecidableEq, Repr

def Problem.message : Problem → Text
  | .strayCharacter c => "Unexpected character ".toList ++ Text.quoted [c]
  | .empty => "Empty type expression".toList
  | .unexpectedEnd => "Unexpected end of type expression".toList
  | .unexpected found => "Unexpected token ".toList ++ Text.quoted found
  | .expected m found =>
    "Expected ".toList ++ Text.quoted m.text ++ ", got ".toList ++ Text.quoted found
  | .invalidKey found => "Invalid record key ".toList ++ Text.quoted found

/-- Why a token list is no type expression: a problem before the remaining tokens, or an integer
of too many digits. -/
inductive Fault where
  | problem (problem : Problem) (rest : List Token)
  | longInteger (digits : Nat)
  deriving DecidableEq, Repr

/-- The marks that leave a `?` before them alone. -/
def Mark.endsUnknown : Mark → Bool
  | .comma | .closeParen | .closeAngle | .bar | .equals | .closeBracket | .closeBrace | .colon =>
    true
  | _ => false

def Mark.endsRest : Mark → Bool
  | .comma | .closeParen | .closeBracket => true
  | _ => false

/-- Whether a token list is at its end or at a mark of a class. -/
def atEnd (p : Mark → Bool) : List Token → Bool
  | [] => true
  | ⟨.mark m, _⟩ :: _ => p m
  | _ => false

def expect (m : Mark) : List Token → Except Fault (List Token)
  | [] => .error (.problem .unexpectedEnd [])
  | t :: rest =>
    if t.lexeme = .mark m then .ok rest
    else .error (.problem (.expected m t.lexeme.text) (t :: rest))

def numeralType (t : Text) : Except Fault TypeExpr :=
  let (negative, digits) :=
    match t with
    | '-' :: rest => (true, rest)
    | _ => (false, t)
  let signed (n : Nat) : Int := if negative then -(n : Int) else n
  match digits with
  | '0' :: x :: hex =>
    if isHexMark x then .ok (.integer (signed (Numeral.ofDigits 16 (Numeral.digitsIn 16 hex))))
    else decimalValue negative signed digits
  | _ => decimalValue negative signed digits
where
  decimalValue (negative : Bool) (signed : Nat → Int) (digits : Text) : Except Fault TypeExpr :=
    if digits.contains '.' then
      let value := Numeral.readDouble digits
      .ok (.double (if negative then value.neg else value))
    else
      match Numeral.readDecimal digits with
      | .ok n => .ok (.integer (signed n))
      | .error count => .error (.longInteger count)

def ofName (name : Text) : TypeExpr :=
  if name = "null".toList then .null
  else if name = "undefined".toList then .undefined
  else if name = "void".toList then .void
  else .named name

def isReservedName (name : Text) : Bool :=
  name == "null".toList || name == "undefined".toList || name == "void".toList

def isQuote (c : Char) : Bool := c == '"' || c == '\''

/-- A record key: its text without the quotes at its ends. -/
def keyText (t : Text) : Text :=
  ((t.dropWhile isQuote).reverse.dropWhile isQuote).reverse

def array (inner : TypeExpr) : TypeExpr := .generic (.named "Array".toList) [inner]

/-- Several members form a union, and a single one stands for itself. -/
def ofMembers : List TypeExpr → TypeExpr
  | [t] => t
  | ts => .union ts

/-- Applies the marks after a basic type, innermost first. -/
def suffixes : TypeExpr → List Token → Except Fault (TypeExpr × List Token)
  | e, ⟨.mark .openBracket, _⟩ :: ⟨.mark .closeBracket, _⟩ :: rest => suffixes (array e) rest
  | _, ⟨.mark .openBracket, _⟩ :: [] => .error (.problem .unexpectedEnd [])
  | _, ⟨.mark .openBracket, _⟩ :: t :: rest =>
    .error (.problem (.expected .closeBracket t.lexeme.text) (t :: rest))
  | e, ⟨.mark .equals, _⟩ :: rest => suffixes (.optional e) rest
  | e, ⟨.mark .question, _⟩ :: rest => suffixes (.nullable e .after) rest
  | e, ⟨.mark .bang, _⟩ :: rest => suffixes (.nonNullable e) rest
  | e, ts => .ok (e, ts)

/-- Parameters read so far, with the types bound by `this:` and `new:`. -/
structure ParamList where
  params : List TypeExpr
  this : Option TypeExpr
  new : Option TypeExpr

def ParamList.empty : ParamList := ⟨[], none, none⟩

inductive Binder where
  | this
  | new
  deriving DecidableEq, Repr

def Binder.ofName? (name : Text) : Option Binder :=
  if name = "this".toList then some .this
  else if name = "new".toList then some .new
  else none

/-- A later binding of one name replaces the earlier. -/
def ParamList.bind (b : Binder) (t : TypeExpr) (ps : ParamList) : ParamList :=
  match b with
  | .this => { ps with this := some t }
  | .new => { ps with new := some t }

def ParamList.push (t : TypeExpr) (ps : ParamList) : ParamList := { ps with params := ps.params ++ [t] }

/-- A binder and its colon at the start of a token list. -/
def binder? : List Token → Option (Binder × List Token)
  | ⟨.name n, _⟩ :: ⟨.mark .colon, _⟩ :: rest => (Binder.ofName? n).map (·, rest)
  | _ => none

mutual

def members : Nat → List Token → Except Fault (List TypeExpr × List Token)
  | 0, ts => .error (.problem .unexpectedEnd ts)
  | n + 1, ts => do
    let (t, ts) ← single n ts
    match ts with
    | ⟨.mark .bar, _⟩ :: rest => do
      let (more, ts) ← members n rest
      .ok (t :: more, ts)
    | ts => .ok ([t], ts)

def union : Nat → List Token → Except Fault (TypeExpr × List Token)
  | 0, ts => .error (.problem .unexpectedEnd ts)
  | n + 1, ts => do
    let (types, ts) ← members n ts
    .ok (ofMembers types, ts)

def single : Nat → List Token → Except Fault (TypeExpr × List Token)
  | 0, ts => .error (.problem .unexpectedEnd ts)
  | n + 1, ⟨.mark .question, _⟩ :: rest =>
    if atEnd Mark.endsUnknown rest then suffixes .unknown rest
    else do
      let (t, ts) ← single n rest
      .ok (.nullable t .before, ts)
  | n + 1, ⟨.mark .bang, _⟩ :: rest => do
    let (t, ts) ← single n rest
    .ok (.nonNullable t, ts)
  | n + 1, ⟨.mark .ellipsis, _⟩ :: rest =>
    if atEnd Mark.endsRest rest then .ok (.rest none, rest)
    else do
      let (t, ts) ← single n rest
      .ok (.rest (some t), ts)
  | n + 1, ts => do
    let (t, ts) ← basic n ts
    suffixes t ts

def basic : Nat → List Token → Except Fault (TypeExpr × List Token)
  | 0, ts => .error (.problem .unexpectedEnd ts)
  | _ + 1, [] => .error (.problem .unexpectedEnd [])
  | _ + 1, ⟨.mark .star, _⟩ :: rest => .ok (.any, rest)
  | n + 1, ⟨.mark .openParen, _⟩ :: rest => do
    let (types, ts) ← members n rest
    let ts ← expect .closeParen ts
    .ok (.union types, ts)
  | n + 1, ⟨.mark .openBrace, _⟩ :: rest => do
    let (fs, ts) ← fields n rest
    let ts ← expect .closeBrace ts
    .ok (.record fs, ts)
  | n + 1, ⟨.mark .openBracket, _⟩ :: rest => do
    let (es, ts) ← elements n rest
    let ts ← expect .closeBracket ts
    .ok (.tuple es, ts)
  | _ + 1, ⟨.mark m, p⟩ :: rest =>
    .error (.problem (.unexpected m.text) (⟨.mark m, p⟩ :: rest))
  | _ + 1, ⟨.string s, _⟩ :: rest => .ok (.string (s.drop 1).dropLast, rest)
  | _ + 1, ⟨.number s, _⟩ :: rest => (numeralType s).map (·, rest)
  | n + 1, ⟨.name name, _⟩ :: rest =>
    match rest with
    | ⟨.mark .openParen, _⟩ :: inner =>
      if name = "function".toList then function n inner else .ok (ofName name, rest)
    | ⟨.mark .openAngle, _⟩ :: inner | ⟨.mark .dotAngle, _⟩ :: inner =>
      if isReservedName name then .ok (ofName name, rest)
      else do
        let (args, ts) ← arguments n inner
        let ts ← expect .closeAngle ts
        .ok (.generic (.named name) args, ts)
    | _ => .ok (ofName name, rest)

def arguments : Nat → List Token → Except Fault (List TypeExpr × List Token)
  | 0, ts => .error (.problem .unexpectedEnd ts)
  | n + 1, ts => do
    let (t, ts) ← union n ts
    match ts with
    | ⟨.mark .comma, _⟩ :: rest => do
      let (more, ts) ← arguments n rest
      .ok (t :: more, ts)
    | ts => .ok ([t], ts)

/-- The elements of a tuple up to its closing bracket. A last comma may follow them. -/
def elements : Nat → List Token → Except Fault (List TypeExpr × List Token)
  | 0, ts => .error (.problem .unexpectedEnd ts)
  | _ + 1, ⟨.mark .closeBracket, p⟩ :: rest => .ok ([], ⟨.mark .closeBracket, p⟩ :: rest)
  | n + 1, ts => do
    let (t, ts) ← union n ts
    match ts with
    | ⟨.mark .comma, _⟩ :: rest => do
      let (more, ts) ← elements n rest
      .ok (t :: more, ts)
    | ts => .ok ([t], ts)

/-- The fields of a record up to its closing brace. A last comma may follow them. -/
def fields : Nat → List Token → Except Fault (List (Text × Option TypeExpr) × List Token)
  | 0, ts => .error (.problem .unexpectedEnd ts)
  | _ + 1, [] => .error (.problem .unexpectedEnd [])
  | _ + 1, ⟨.mark .closeBrace, p⟩ :: rest => .ok ([], ⟨.mark .closeBrace, p⟩ :: rest)
  | _ + 1, ⟨.mark m, p⟩ :: rest =>
    .error (.problem (.invalidKey m.text) (⟨.mark m, p⟩ :: rest))
  | n + 1, key :: rest => do
    let (value, ts) ← fieldValue n rest
    match ts with
    | ⟨.mark .comma, _⟩ :: rest => do
      let (more, ts) ← fields n rest
      .ok ((keyText key.lexeme.text, value) :: more, ts)
    | ts => .ok ([(keyText key.lexeme.text, value)], ts)

def fieldValue : Nat → List Token → Except Fault (Option TypeExpr × List Token)
  | 0, ts => .error (.problem .unexpectedEnd ts)
  | n + 1, ⟨.mark .colon, _⟩ :: rest => do
    let (t, ts) ← union n rest
    .ok (some t, ts)
  | _ + 1, ts => .ok (none, ts)

def function : Nat → List Token → Except Fault (TypeExpr × List Token)
  | 0, ts => .error (.problem .unexpectedEnd ts)
  | n + 1, ts => do
    let (ps, ts) ← params n .empty ts
    let ts ← expect .closeParen ts
    match ts with
    | ⟨.mark .colon, _⟩ :: rest => do
      let (result, ts) ← single n rest
      .ok (.function ps.params (some result) ps.this ps.new, ts)
    | ts => .ok (.function ps.params none ps.this ps.new, ts)

/-- The parameters of a function type up to its closing parenthesis, added to those before. A last
comma may follow them. -/
def params : Nat → ParamList → List Token → Except Fault (ParamList × List Token)
  | 0, _, ts => .error (.problem .unexpectedEnd ts)
  | _ + 1, ps, ⟨.mark .closeParen, p⟩ :: rest => .ok (ps, ⟨.mark .closeParen, p⟩ :: rest)
  | n + 1, ps, ts => do
    let (ps, ts) ← param n ps ts
    match ts with
    | ⟨.mark .comma, _⟩ :: rest => params n ps rest
    | ts => .ok (ps, ts)

/-- One parameter, or a type bound by `this:` or `new:`. -/
def param : Nat → ParamList → List Token → Except Fault (ParamList × List Token)
  | 0, _, ts => .error (.problem .unexpectedEnd ts)
  | n + 1, ps, ts =>
    match binder? ts with
    | some (b, rest) => do
      let (t, ts) ← union n rest
      .ok (ps.bind b t, ts)
    | none => do
      let (t, ts) ← union n ts
      .ok (ps.push t, ts)

end

/-- More nested calls than a list of tokens can need. -/
def budget (ts : List Token) : Nat := 6 * ts.length + 6

def ofTokens (ts : List Token) : Except Fault TypeExpr :=
  if ts.isEmpty then .error (.problem .empty [])
  else do
    let (t, rest) ← union (budget ts) ts
    match rest with
    | [] => .ok t
    | next :: _ => .error (.problem (.unexpected next.lexeme.text) rest)

inductive ParseError where
  | malformed (problem : Problem) (text : Text) (place : Nat)
  | longInteger (digits : Nat)
  deriving DecidableEq, Repr

/-- A fault lies at the first remaining token, or at the end of the text. -/
def Fault.toParseError (text : Text) : Fault → ParseError
  | .problem p [] => .malformed p text text.length
  | .problem p (t :: _) => .malformed p text t.place
  | .longInteger digits => .longInteger digits

end DocFlow.TypeGrammar

namespace DocFlow

def TypeExpr.parse (text : Text) : Except TypeGrammar.ParseError TypeExpr :=
  let t := Text.trim text
  match TypeGrammar.tokens t with
  | .error stray => .error (.malformed (.strayCharacter stray.char) t stray.place)
  | .ok ts => (TypeGrammar.ofTokens ts).mapError (TypeGrammar.Fault.toParseError t)

end DocFlow
