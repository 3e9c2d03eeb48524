import DocFlow.Number.Binary64
import DocFlow.Text.Basic

namespace DocFlow.Binary64

/-- The decimal numbers that round to a finite positive value, as an interval in units of
`2 ^ exponent`. -/
structure Rounding where
  value : Nat
  low : Nat
  high : Nat
  exponent : Int
  closed : Bool

/-- Half the way to each neighbour. Below a power of two the neighbour is half as far. -/
def rounding (m : Nat) (q : Int) : Rounding where
  value := 4 * m
  low := if m = leastFull ∧ q > -1074 then 4 * m - 1 else 4 * m - 2
  high := 4 * m + 2
  exponent := q - 2
  closed := m % 2 = 0

def compareScaled (a : Nat) (e : Int) (b : Nat) (k : Int) : Ordering :=
  compare (a * powNum 2 e * powDen 10 k) (b * powNum 10 k * powDen 2 e)

def Rounding.reads (r : Rounding) (d : Nat) (k : Int) : Bool :=
  let low := compareScaled r.low r.exponent d k
  let high := compareScaled r.high r.exponent d k
  if r.closed then low != .gt && high != .lt else low == .lt && high == .gt

def Rounding.floor (r : Rounding) (k : Int) : Nat :=
  r.value * powNum 2 r.exponent * powDen 10 k / (powNum 10 k * powDen 2 r.exponent)

def Rounding.upper (r : Rounding) (d : Nat) (k : Int) : Bool :=
  match compareScaled (2 * r.value) r.exponent (2 * d + 1) k with
  | .gt => true
  | .eq => d % 2 = 1
  | .lt => false

/-- The multiple of `10 ^ k` that reads back, the nearer one if both neighbours do. -/
def Rounding.atPlace? (r : Rounding) (k : Int) : Option Nat :=
  let d := r.floor k
  match r.reads d k, r.reads (d + 1) k with
  | true, true => some (if r.upper d k then d + 1 else d)
  | true, false => some d
  | false, true => some (d + 1)
  | false, false => none

def Rounding.search (r : Rounding) : Nat → Int → Nat × Int
  | 0, k => (r.floor k, k)
  | tries + 1, k =>
    match r.atPlace? k with
    | some d => (d, k)
    | none => r.search tries (k - 1)

/-- The number of decimal digits before the point, zero or less for a number below one tenth. -/
def Rounding.magnitude (r : Rounding) : Int :=
  let guess : Int := ((r.value.log2 : Int) + r.exponent) * 30103 / 100000
  if compareScaled r.value r.exponent 1 (guess + 1) != .lt then guess + 2
  else if compareScaled r.value r.exponent 1 guess != .lt then guess + 1
  else guess

def shortest (m : Nat) (q : Int) : Nat × Int :=
  let r := rounding m q
  r.search 18 (r.magnitude - 1)

/-- Drops the final zeros of a digit string. -/
def dropZeros (ds : Text) : Text := (ds.reverse.dropWhile (· == '0')).reverse

/-- Writes digits with the point after `point` of them: positional from `1e-4` up to below `1e16`,
else with an exponent of at least two digits. An integer keeps one decimal. -/
def writeDigits (ds : Text) (point : Int) : Text :=
  if -4 < point ∧ point ≤ 16 then
    if point ≤ 0 then "0.".toList ++ List.replicate point.natAbs '0' ++ ds
    else
      let n := point.toNat
      if ds.length ≤ n then ds ++ List.replicate (n - ds.length) '0' ++ ".0".toList
      else ds.take n ++ '.' :: ds.drop n
  else
    let e := point - 1
    let digits := Text.ofNat e.natAbs
    let padded := if digits.length < 2 then '0' :: digits else digits
    let sign := if e < 0 then '-' else '+'
    match ds with
    | [d] => d :: 'e' :: sign :: padded
    | d :: rest => d :: '.' :: (rest ++ 'e' :: sign :: padded)
    | [] => []

/-- The text of a value: the fewest digits that read back. -/
def write : Binary64 → Text
  | .notANumber => "nan".toList
  | .infinite s => if s then "-inf".toList else "inf".toList
  | .finite s m q =>
    let body :=
      if m = 0 then "0.0".toList
      else
        let (d, k) := shortest m q
        let ds := Text.ofNat d
        writeDigits (dropZeros ds) (ds.length + k)
    if s then '-' :: body else body

end DocFlow.Binary64
