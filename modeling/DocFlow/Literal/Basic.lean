import DocFlow.Error
import DocFlow.Number.Numeral
import DocFlow.Number.Shortest

namespace DocFlow

/-- A code point. The halves of surrogate pairs are among them, so a string may hold one alone. -/
abbrev CodePoint := Fin 0x110000

def CodePoint.ofChar (c : Char) : CodePoint :=
  ⟨c.toNat, by
    have h := c.valid
    simp only [UInt32.isValidChar, Nat.isValidChar] at h
    simp only [Char.toNat]
    omega⟩

inductive Literal where
  | null
  | boolean (value : Bool)
  | integer (value : Int)
  | double (value : Binary64)
  | string (value : List CodePoint)
  deriving DecidableEq, Repr

namespace Literal

def ofText (t : Text) : Literal := .string (t.map CodePoint.ofChar)

def neg : Literal → Literal
  | integer n => integer (-n)
  | double x => double x.neg
  | l => l

/-- The two halves of a code point beyond the basic plane, or the code point alone. -/
def codeUnits (p : CodePoint) : List Nat :=
  if p.val < 0x10000 then [p.val]
  else
    let n := p.val - 0x10000
    [0xD800 + n / 0x400, 0xDC00 + n % 0x400]

def shortEscapes : List (Nat × Char) :=
  [(0x22, '"'), (0x5C, '\\'), (10, 'n'), (13, 'r'), (9, 't'), (12, 'f'), (8, 'b')]

def writeUnit (n : Nat) : Text :=
  match shortEscapes.lookup n with
  | some c => ['\\', c]
  | none =>
    if 0x20 ≤ n ∧ n < 0x7F then [Char.ofNat n] else '\\' :: 'u' :: Text.hex 4 n

def writeString (s : List CodePoint) : Text :=
  '"' :: ((s.flatMap codeUnits).flatMap writeUnit ++ ['"'])

/-- Integers have at most 4300 digits. -/
def writeInteger (n : Int) : Except Error Text :=
  if n.natAbs < Nat.pow 10 Numeral.digitLimit then .ok (Text.ofInt n) else .error .longNumber

/-- A double that is an integer is written as one. -/
def write : Literal → Except Error Text
  | null => .ok "null".toList
  | boolean true => .ok "true".toList
  | boolean false => .ok "false".toList
  | integer n => writeInteger n
  | double x =>
    match x.toInt? with
    | some n => writeInteger n
    | none => .ok x.write
  | string s => .ok (writeString s)

end Literal

end DocFlow
