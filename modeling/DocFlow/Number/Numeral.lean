import DocFlow.Number.Binary64
import DocFlow.Text.Class

namespace DocFlow.Numeral

/-- The longest decimal integer that is read or written. -/
def digitLimit : Nat := 4300

def ofDigits (base : Nat) (ds : List Nat) : Nat := ds.foldl (fun n d => n * base + d) 0

def hexValue? (c : Char) : Option Nat :=
  if '0' ≤ c ∧ c ≤ '9' then some (c.toNat - '0'.toNat)
  else if 'a' ≤ c ∧ c ≤ 'f' then some (c.toNat - 'a'.toNat + 10)
  else if 'A' ≤ c ∧ c ≤ 'F' then some (c.toNat - 'A'.toNat + 10)
  else none

def isHexDigit (c : Char) : Bool := (hexValue? c).isSome

/-- The values of the digits of a text in a base up to sixteen. -/
def digitsIn (base : Nat) (t : Text) : List Nat :=
  if base = 10 then t.filterMap Text.digitValue? else t.filterMap hexValue?

/-- A decimal integer, or the number of its digits if they are too many. -/
def readDecimal (t : Text) : Except Nat Nat :=
  let ds := digitsIn 10 t
  if ds.length > digitLimit then .error ds.length else .ok (ofDigits 10 ds)

def cut (p : Char → Bool) (t : Text) : Text × Text := t.span (fun c => !p c)

def readExponent : Text → Int
  | '-' :: t => -(ofDigits 10 (digitsIn 10 t) : Int)
  | '+' :: t => (ofDigits 10 (digitsIn 10 t) : Int)
  | t => (ofDigits 10 (digitsIn 10 t) : Int)

def readDouble (t : Text) : Binary64 :=
  let (mantissa, exponent) := cut (fun c => c == 'e' || c == 'E') t
  let (whole, fraction) := cut (· == '.') mantissa
  let fractionDigits := digitsIn 10 fraction
  Binary64.ofDecimal false (ofDigits 10 (digitsIn 10 whole ++ fractionDigits))
    (readExponent (exponent.drop 1) - fractionDigits.length)

end DocFlow.Numeral
