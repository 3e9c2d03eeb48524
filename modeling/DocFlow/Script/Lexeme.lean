import DocFlow.Script.Char

namespace DocFlow.Script

inductive LexemeClass where
  | word
  | number
  | privateName
  | mark
  | finish
  deriving DecidableEq, Repr

structure Lexeme where
  type : LexemeClass
  text : String
  start : Nat
  stop : Nat
  deriving Repr

namespace Lexeme

def isMark (l : Lexeme) (text : String) : Bool := l.type = .mark && l.text == text

def isWord (l : Lexeme) (text : String) : Bool := l.type = .word && l.text == text

end Lexeme

/-- Words that are never names of variables. -/
def reservedWords : List String := [
  "break", "case", "catch", "class", "const", "continue", "debugger", "default", "delete", "do",
  "else", "export", "extends", "false", "finally", "for", "function", "if", "import", "in",
  "instanceof", "new", "null", "return", "super", "switch", "this", "throw", "true", "try",
  "typeof", "var", "void", "while", "with"]

def isReserved (word : String) : Bool := reservedWords.contains word

def nameEscapeEnd? (s : Array Char) (i : Nat) : Option Nat :=
  if charAt s i == '\\' && charAt s (i + 1) == 'u' then
    if charAt s (i + 2) == '{' then
      let j := skipWhile s isHexDigit (i + 3)
      if j > i + 3 && charAt s j == '}' then some (j + 1) else none
    else if (s.extract (i + 2) (i + 6)).all isHexDigit && i + 6 ≤ s.size then some (i + 6)
    else none
  else none

def nameEnd (s : Array Char) : Nat → Nat → Nat
  | 0, i => i
  | steps + 1, i =>
    if i < s.size && isNamePart (charAt s i) then nameEnd s steps (i + 1)
    else
      match nameEscapeEnd? s i with
      | some j => nameEnd s steps j
      | none => i

def startsName (s : Array Char) (i : Nat) : Bool :=
  (i < s.size && isNameStart (charAt s i)) || (nameEscapeEnd? s i).isSome

def digitsEnd (s : Array Char) (p : Char → Bool) : Nat → Nat → Nat
  | 0, i => i
  | steps + 1, i =>
    if p (charAt s i) then digitsEnd s p steps (i + 1)
    else if charAt s i == '_' && p (charAt s (i + 1)) then digitsEnd s p steps (i + 2)
    else i

/-- The end of an exponent that starts at `i`, or `i` if none does. -/
def exponentEnd (s : Array Char) (i : Nat) : Nat :=
  if charAt s i == 'e' || charAt s i == 'E' then
    let j := if charAt s (i + 1) == '+' || charAt s (i + 1) == '-' then i + 2 else i + 1
    if isDigit (charAt s j) then digitsEnd s isDigit s.size j else i
  else i

/-- Whether the digits from `i` up to `j` may stand before a point or an exponent: after a leading
zero comes a digit from one to nine or nothing. -/
def isDecimalWhole (s : Array Char) (i j : Nat) : Bool :=
  charAt s i != '0' || j = i + 1 || ('1' ≤ charAt s (i + 1) && charAt s (i + 1) ≤ '9')

def basedEnd? (s : Array Char) (p : Char → Bool) (i : Nat) : Option Nat :=
  if p (charAt s i) then
    let j := digitsEnd s p s.size i
    some (if charAt s j == 'n' then j + 1 else j)
  else none

def decimalEnd (s : Array Char) (i : Nat) : Nat :=
  if charAt s i == '.' then exponentEnd s (digitsEnd s isDigit s.size (i + 1))
  else
    let j := digitsEnd s isDigit s.size i
    if charAt s j == 'n' then j + 1
    else if isDecimalWhole s i j then
      if charAt s j == '.' then
        let k := if isDigit (charAt s (j + 1)) then digitsEnd s isDigit s.size (j + 1) else j + 1
        exponentEnd s k
      else exponentEnd s j
    else j

def numberEnd (s : Array Char) (i : Nat) : Nat :=
  let based :=
    if charAt s i == '0' then
      match (charAt s (i + 1)).toLower with
      | 'x' => basedEnd? s isHexDigit (i + 2)
      | 'o' => basedEnd? s (fun c => '0' ≤ c && c ≤ '7') (i + 2)
      | 'b' => basedEnd? s (fun c => c == '0' || c == '1') (i + 2)
      | _ => none
    else none
  based.getD (decimalEnd s i)

/-- Punctuation marks of more than one character, longer ones first. -/
def longMarks : List String := [
  ">>>=", "...", "===", "!==", "**=", "<<=", ">>=", ">>>", "&&=", "||=", "??=", "=>", "==", "!=",
  "<=", ">=", "&&", "||", "??", "?.", "++", "--", "+=", "-=", "*=", "/=", "%=", "&=", "|=", "^=",
  "**", "<<", ">>"]

/-- The mark at `i`. A question mark before a point and a digit stands alone. -/
def markAt (s : Array Char) (i : Nat) : String :=
  match longMarks.find? (fun m => standsAt s i m.toList) with
  | some m => if m == "?." && isDigit (charAt s (i + 2)) then "?" else m
  | none => slice s i (i + 1)

/-- The token at `i`, where no blank or comment stands. Tokens are read one at a time, since what a
slash starts depends on what stands before it. -/
def lexemeAt (s : Array Char) (i : Nat) : Lexeme :=
  let upTo (type : LexemeClass) (j : Nat) : Lexeme := ⟨type, slice s i j, i, j⟩
  let c := charAt s i
  if i ≥ s.size then ⟨.finish, "", i, i⟩
  else if startsName s i then upTo .word (nameEnd s s.size i)
  else if isDigit c || (c == '.' && isDigit (charAt s (i + 1))) then upTo .number (numberEnd s i)
  else if c == '#' && startsName s (i + 1) then upTo .privateName (nameEnd s s.size (i + 1))
  else
    let m := markAt s i
    ⟨.mark, m, i, i + m.length⟩

end DocFlow.Script
