import DocFlow.Literal.Basic
import DocFlow.Script.Node

namespace DocFlow.Literal

open Script

def letterEscapes : List (Char × Nat) :=
  [('n', 10), ('t', 9), ('r', 13), ('b', 8), ('f', 12), ('v', 11), ('0', 0)]

def escapeDigits? : Text → Option Text
  | 'u' :: '{' :: rest =>
    match rest.reverse with
    | '}' :: digits =>
      if digits ≠ [] ∧ digits.all Numeral.isHexDigit then some digits.reverse else none
    | _ => none
  | c :: digits =>
    if (c = 'u' ∨ c = 'x') ∧ digits ≠ [] ∧ digits.all Numeral.isHexDigit then some digits else none
  | [] => none

/-- The code point of a number. Numbers that no machine integer holds fail on their own account. -/
def codePoint (n : Nat) : Except Error CodePoint :=
  if h : n < 0x110000 then .ok ⟨n, h⟩
  else if n < 0x80000000 then .error .codePointRange
  else .error .codePointOverflow

/-- Line breaks that a backslash removes. -/
def continuations : List Text := [['\n'], ['\r', '\n'], ['\r'], ['\u2028'], ['\u2029']]

/-- What an escape stands for. One that has no other meaning stands for itself. -/
def escapeValue (body : Text) : Except Error (List CodePoint) :=
  match body with
  | [c] =>
    match letterEscapes.lookup c with
    | some n => (codePoint n).map ([·])
    | none =>
      if continuations.contains body then .ok [] else .ok [CodePoint.ofChar c]
  | _ =>
    match escapeDigits? body with
    | some digits =>
      (codePoint (Numeral.ofDigits 16 (Numeral.digitsIn 16 digits))).map ([·])
    | none =>
      if continuations.contains body then .ok [] else .ok (body.map CodePoint.ofChar)

def readInteger (digits : Text) : Except Error Literal :=
  match Numeral.readDecimal digits with
  | .ok n => .ok (.integer n)
  | .error count => .error (.longInteger count)

/-- A decimal numeral. An integer of too many digits is read as a double. -/
def readPlain (t : Text) : Literal :=
  if t.all Text.isDigit then
    match Numeral.readDecimal t with
    | .ok n => .integer n
    | .error _ => .double (Numeral.readDouble t)
  else .double (Numeral.readDouble t)

def baseOf? : Text → Option Nat
  | '0' :: c :: _ =>
    if c = 'x' ∨ c = 'X' then some 16
    else if c = 'o' ∨ c = 'O' then some 8
    else if c = 'b' ∨ c = 'B' then some 2
    else none
  | _ => none

/-- The number that a numeral stands for. Separators and the suffix of big integers do not count. -/
def readNumber (t : Text) : Except Error Literal :=
  let digits := t.filter (· != '_')
  match baseOf? digits with
  | some base => .ok (.integer (Numeral.ofDigits base (Numeral.digitsIn 16 (digits.drop 2))))
  | none =>
    match digits.getLast? with
    | some 'n' => readInteger digits.dropLast
    | _ => .ok (readPlain digits)

def readString (source : Text) : List Node → Except Error (List CodePoint)
  | [] => .ok []
  | n :: rest => do
    let here ←
      if n.isType .stringFragment then .ok ((n.text source).map CodePoint.ofChar)
      else if n.isType .escapeSequence then escapeValue ((n.text source).drop 1)
      else .ok []
    return here ++ (← readString source rest)

/-- A number with a sign. Other operators make no literal. -/
def applySign (operator : Option Node) (number : Literal) : Option Literal :=
  match operator with
  | some o =>
    if o.isToken "-" then some number.neg else if o.isToken "+" then some number else none
  | none => none

def readUnary (source : Text) (n : Node) : Except Error (Option Literal) :=
  match n.child? .argument with
  | some argument =>
    if argument.isType .number then
      (readNumber (argument.text source)).map (applySign (n.child? .operator))
    else .ok none
  | none => .ok none

mutual

/-- The value of a literal, in any number of parentheses. Other expressions have none. -/
def ofNode (source : Text) : Node → Except Error (Option Literal)
  | .mk kind role start stop children =>
    let n : Node := .mk kind role start stop children
    match kind with
    | .named .number => (readNumber (n.text source)).map some
    | .named .string => (readString source children).map (some ∘ .string)
    | .named .trueLiteral => .ok (some (.boolean true))
    | .named .falseLiteral => .ok (some (.boolean false))
    | .named .nullLiteral => .ok (some .null)
    | .named .unaryExpression => readUnary source n
    | .named .parenthesizedExpression => ofFirst source children
    | _ => .ok none

def ofFirst (source : Text) : List Node → Except Error (Option Literal)
  | [] => .ok none
  | n :: rest => if n.isNamed then ofNode source n else ofFirst source rest

end

def ofProperties (source : Text) : List Node → Except Error (List Literal)
  | [] => .ok []
  | n :: rest => do
    let value? ←
      if n.isType .pair then
        match n.child? .value with
        | some value => ofNode source value
        | none => .ok none
      else .ok none
    let values ← ofProperties source rest
    return (value?.toList ++ values)

end DocFlow.Literal
