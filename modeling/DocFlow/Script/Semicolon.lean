import DocFlow.Script.Char
import DocFlow.Text.Class

namespace DocFlow.Script

/-- What a look over blanks and comments met: nothing that forbids an end, a block comment on the
same line, or a slash that starts no comment. -/
inductive Gap where
  | open
  | sameLine
  | blocked
  deriving DecidableEq, Repr

def passBlock (s : Array Char) (i : Nat) (broken : Bool) : Nat × Bool × Bool :=
  if h : i < s.size then
    if s[i] == '*' && charAt s (i + 1) == '/' then (i + 2, true, broken)
    else passBlock s (i + 1) (broken || isNewline s[i])
  else (i, false, broken)
termination_by s.size - i

/-- Looks over blanks and comments from `i` on. Unless all comments are to be passed, the look ends
behind a block comment that no slash follows. -/
def passGap (s : Array Char) (all : Bool) : Nat → Nat → Bool → Gap × Nat
  | 0, i, _ => (.open, i)
  | steps + 1, i, broken =>
    let i := skipWhile s isPlainSpace i
    if charAt s i != '/' then (.open, i)
    else if charAt s (i + 1) == '/' then
      passGap s all steps (skipWhile s (fun c => !isNewline c) i) broken
    else if charAt s (i + 1) == '*' then
      let (i, closed, broken) := passBlock s (i + 2) broken
      if closed && charAt s i != '/' && !all then
        (if broken then .open else .sameLine, i)
      else passGap s all steps i broken
    else (.blocked, i)

def isLetter (c : Char) : Bool := c.isAlpha || (127 < c.toNat && Text.isWord c)

def wordEnds (s : Array Char) (i : Nat) (word : String) : Bool :=
  standsAt s i word.toList && !isLetter (charAt s (i + word.length))

/-- Whether what stands at `i`, on a later line, may start a statement and continues none. -/
def startsStatement (s : Array Char) (i : Nat) : Bool :=
  let next := charAt s (i + 1)
  match charAt s i with
  | '\x60' | ',' | ':' | ';' | '*' | '%' | '>' | '<' | '=' | '[' | '(' | '?' | '^' | '|' | '&'
  | '/' => false
  | '.' => isDigit next
  | '+' => next == '+'
  | '-' => next == '-'
  | '!' => next != '='
  | 'i' => !(wordEnds s i "in" || wordEnds s i "instanceof")
  | _ => true

/-- Whether a statement may end at `i`. `operator` says that a logical operator might follow; then a
comment does not stand for the line break after it. -/
def mayEnd (s : Array Char) (operator : Bool) : Nat → Nat → Bool
  | 0, _ => false
  | steps + 1, i =>
    if i ≥ s.size || charAt s i == '\x00' then true
    else
      let (gap, i) := if charAt s i == '/' then passGap s false (s.size + 1 - i) i false
        else (.sameLine, i)
      let c := charAt s i
      if gap = .blocked then false
      else if gap = .open && !operator && c != ',' && c != '=' then true
      else if c == '}' then true
      else if isNewline c then
        match passGap s true (s.size + 1 - i) (i + 1) false with
        | (.blocked, _) => false
        | (_, j) => startsStatement s j
      else if !isPlainSpace c then false
      else mayEnd s operator steps (i + 1)

def endsAt (s : Array Char) (operator : Bool) (i : Nat) : Bool :=
  mayEnd s operator (s.size + 1 - i) i

end DocFlow.Script
