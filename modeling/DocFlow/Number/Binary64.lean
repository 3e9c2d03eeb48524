namespace DocFlow

/-- A binary64 value. The finite one is `significand * 2 ^ exponent`, with a significand below
`2 ^ 53` that reaches `2 ^ 52` unless the exponent is `-1074`. -/
inductive Binary64 where
  | finite (negative : Bool) (significand : Nat) (exponent : Int)
  | infinite (negative : Bool)
  | notANumber
  deriving DecidableEq, Repr

namespace Binary64

def neg : Binary64 → Binary64
  | .finite s m q => .finite (!s) m q
  | .infinite s => .infinite (!s)
  | .notANumber => .notANumber

/-- The quotient rounded to the nearest integer, halves to the even one. -/
def roundDiv (num den : Nat) : Nat :=
  let q := num / den
  let twice := 2 * (num % den)
  if twice < den ∨ (twice = den ∧ q % 2 = 0) then q else q + 1

def powNum (base : Nat) (k : Int) : Nat := Nat.pow base k.toNat

def powDen (base : Nat) (k : Int) : Nat := Nat.pow base (-k).toNat

def leastFull : Nat := 0x10000000000000

def scale (num den : Nat) (q : Int) : Nat × Nat := (num * powDen 2 q, den * powNum 2 q)

/-- An exponent at which `num / den` has 53 binary digits before the point, or the least one. -/
def exponentFor (num den : Nat) : Int :=
  let guess : Int := (num.log2 : Int) - den.log2 - 52
  let (n, d) := scale num den guess
  let q := if n < leastFull * d then guess - 1 else guess
  max q (-1074)

/-- The nearest value to `num / den`, halves to the even significand. -/
def ofRatio (negative : Bool) (num den : Nat) : Binary64 :=
  if num = 0 then .finite negative 0 (-1074)
  else
    let q := exponentFor num den
    let (n, d) := scale num den q
    let m := roundDiv n d
    let (m, q) := if m = 2 * leastFull then (leastFull, q + 1) else (m, q)
    if q > 971 then .infinite negative else .finite negative m q

/-- The nearest value to `digits * 10 ^ exponent`. Beyond 400 places on either side the answer is
infinite or zero whatever the digits are. -/
def ofDecimal (negative : Bool) (digits : Nat) (exponent : Int) : Binary64 :=
  let size : Int := (Nat.toDigits 10 digits).length
  if digits = 0 ∨ size + exponent < -400 then .finite negative 0 (-1074)
  else if size + exponent > 400 then .infinite negative
  else ofRatio negative (digits * powNum 10 exponent) (powDen 10 exponent)

def toInt? : Binary64 → Option Int
  | .finite s m q =>
    let signed (n : Nat) : Int := if s then -(n : Int) else n
    if m % powDen 2 q = 0 then some (signed (m / powDen 2 q * powNum 2 q)) else none
  | _ => none

end Binary64

end DocFlow
