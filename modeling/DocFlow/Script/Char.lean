namespace DocFlow.Script

/-- Blanks between tokens: the ASCII ones, the space separators, the two Unicode line breaks, the
byte order mark and the invisible joiners. -/
def isSpace (c : Char) : Bool :=
  let n := c.toNat
  decide ((9 ≤ n ∧ n ≤ 13) ∨ n = 32 ∨ n = 0xA0 ∨ n = 0x1680 ∨ (0x2000 ≤ n ∧ n ≤ 0x200B) ∨
    n = 0x2028 ∨ n = 0x2029 ∨ n = 0x202F ∨ n = 0x205F ∨ n = 0x2060 ∨ n = 0x3000 ∨ n = 0xFEFF)

/-- The blanks that the search for a missing semicolon passes over: no fixed-width or
non-breaking spaces among them. -/
def isPlainSpace (c : Char) : Bool :=
  let n := c.toNat
  decide ((9 ≤ n ∧ n ≤ 13) ∨ n = 32 ∨ n = 0x1680 ∨ (0x2000 ≤ n ∧ n ≤ 0x2006) ∨
    (0x2008 ≤ n ∧ n ≤ 0x200A) ∨ n = 0x2028 ∨ n = 0x2029 ∨ n = 0x205F ∨ n = 0x3000)

def isNewline (c : Char) : Bool := c == '\n' || c == '\u2028' || c == '\u2029'

def isDigit (c : Char) : Bool := '0' ≤ c && c ≤ '9'

def isHexDigit (c : Char) : Bool :=
  isDigit c || ('a' ≤ c && c ≤ 'f') || ('A' ≤ c && c ≤ 'F')

def namePunctuation : List Char :=
  [':', ';', '\x60', '"', '\'', '@', '#', '.', ',', '|', '^', '&', '<', '=', '>', '+', '-', '*',
    '/', '\\', '%', '?', '!', '~', '(', ')', '[', ']', '{', '}']

/-- Part of a name: anything but controls, blanks and ASCII punctuation. -/
def isNamePart (c : Char) : Bool :=
  0x1F < c.toNat && !isSpace c && !namePunctuation.contains c

def isNameStart (c : Char) : Bool := isNamePart c && !isDigit c

/-- The character at a position, NUL behind the end. -/
def charAt (s : Array Char) (i : Nat) : Char := s.getD i '\x00'

/-- Scans return the position where they stop. -/
def skipWhile (s : Array Char) (p : Char → Bool) (i : Nat) : Nat :=
  if h : i < s.size then
    if p s[i] then skipWhile s p (i + 1) else i
  else i
termination_by s.size - i

def standsAt (s : Array Char) (i : Nat) : List Char → Bool
  | [] => true
  | c :: rest => i < s.size && charAt s i == c && standsAt s (i + 1) rest

def slice (s : Array Char) (start stop : Nat) : String :=
  String.ofList (s.extract start stop).toList

def lineCommentEnd (s : Array Char) (i : Nat) : Nat :=
  skipWhile s (fun c => !isNewline c && c != '\r') i

def blockCommentEnd? (s : Array Char) (i : Nat) : Option Nat :=
  if h : i + 1 < s.size then
    if s[i] == '*' && s[i + 1] == '/' then some (i + 2) else blockCommentEnd? s (i + 1)
  else none
termination_by s.size - i

def commentEnd? (s : Array Char) (i : Nat) : Option Nat :=
  if standsAt s i ['/', '/'] then some (lineCommentEnd s i)
  else if standsAt s i ['/', '*'] then blockCommentEnd? s (i + 2)
  else none

def htmlCommentEnd? (s : Array Char) (i : Nat) : Option Nat :=
  if standsAt s i ['<', '!', '-', '-'] || standsAt s i ['-', '-', '>'] then
    some (skipWhile s (fun c => !isNewline c && c != '\x00') i)
  else none

end DocFlow.Script
