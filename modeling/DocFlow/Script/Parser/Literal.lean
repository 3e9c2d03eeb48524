import DocFlow.Script.Parser.Basic

namespace DocFlow.Script

def escapeEnd? (s : Array Char) (i : Nat) : Option Nat :=
  let c := charAt s (i + 1)
  if i + 1 ≥ s.size then none
  else if c == 'x' then
    if isHexDigit (charAt s (i + 2)) && isHexDigit (charAt s (i + 3)) then some (i + 4) else none
  else if c == 'u' then nameEscapeEnd? s i
  else if '0' ≤ c && c ≤ '7' then
    let octal (j : Nat) : Bool := '0' ≤ charAt s j && charAt s j ≤ '7'
    some (if octal (i + 2) then if octal (i + 3) then i + 4 else i + 3 else i + 2)
  else if (c == '\r' || c == '?') && isNewline (charAt s (i + 2)) then some (i + 3)
  else some (i + 2)

/-- The fragments and escapes of a string up to its closing quote, and the quote. -/
def stringParts (s : Array Char) (q : Char) : Nat → Nat → Option (List Node)
  | 0, _ => none
  | steps + 1, i =>
    let c := charAt s i
    if i ≥ s.size || c == '\n' || c == '\r' then none
    else if c == q then some [.mk (.token (String.singleton q)) none i (i + 1) []]
    else if c == '\\' then do
      let j ← escapeEnd? s i
      let rest ← stringParts s q steps j
      some (leaf .escapeSequence i j :: rest)
    else do
      let j := skipWhile s (fun c => c != q && c != '\\' && c != '\n' && c != '\r') i
      let rest ← stringParts s q steps j
      some (leaf .stringFragment i j :: rest)

namespace Parser

def stringAt (l : Lexeme) : Parser Node := do
  let s ← text
  let opening ← take l
  let parts ← ofOption (stringParts s (charAt s l.start) (s.size + 1) l.stop)
  let n := Node.of .string (opening :: parts)
  moveTo n.stop
  pure n

def isQuote (l : Lexeme) : Bool := l.isMark "\"" || l.isMark "'"

def string : Parser Node := do
  let l ← peek
  if isQuote l then stringAt l else fail

def templateTextEnd (s : Array Char) : Nat → Nat → Nat
  | 0, i => i
  | steps + 1, i =>
    let c := charAt s i
    if i ≥ s.size || c == '\x60' || c == '\\' || (c == '$' && charAt s (i + 1) == '{') then i
    else templateTextEnd s steps (i + 1)

/-- One piece of a template, or nothing at its closing mark. -/
def templatePart : Parser (Option Node) := do
  let s ← text
  let i := (← get).pos
  let c := charAt s i
  if i ≥ s.size then fail
  else if c == '\x60' then pure none
  else if c == '\\' then do
    let j ← ofOption (escapeEnd? s i)
    moveTo j
    pure (some (leaf .escapeSequence i j))
  else if c == '$' && charAt s (i + 1) == '{' then do
    let opening : Node := .mk (.token "$\x7b") none i (i + 2) []
    moveTo (i + 2)
    let e ← rule (.expressions .inner)
    let closing ← mark "\x7d"
    pure (some (Node.of .templateSubstitution [opening, e, closing]))
  else do
    let j := templateTextEnd s s.size i
    moveTo j
    pure (some (leaf .stringFragment i j))

def template : Parser Node := do
  let opening ← mark "`"
  let parts ← many templatePart
  let i := (← get).pos
  moveTo (i + 1)
  pure (Node.of .templateString (opening :: parts ++ [.mk (.token "`") none i (i + 1) []]))

def regexClassEnd? (s : Array Char) : Nat → Nat → Option Nat
  | 0, _ => none
  | steps + 1, i =>
    let c := charAt s i
    if i ≥ s.size || c == '\n' then none
    else if c == ']' then some (i + 1)
    else if c == '\\' then if charAt s (i + 1) == '\n' then none else regexClassEnd? s steps (i + 2)
    else regexClassEnd? s steps (i + 1)

/-- The end of the pattern of a regular expression, before its closing slash. -/
def regexPatternEnd? (s : Array Char) : Nat → Nat → Option Nat
  | 0, _ => none
  | steps + 1, i =>
    let c := charAt s i
    if i ≥ s.size || c == '\n' then none
    else if c == '/' then some i
    else if c == '[' then (regexClassEnd? s s.size (i + 1)).bind (regexPatternEnd? s steps)
    else if c == '\\' then if charAt s (i + 1) == '\n' then none else regexPatternEnd? s steps (i + 2)
    else regexPatternEnd? s steps (i + 1)

def regexAt (i : Nat) : Parser Node := do
  let s ← text
  let j ← ofOption (regexPatternEnd? s s.size (i + 1))
  let k := skipWhile s (fun c => 'a' ≤ c && c ≤ 'z') (j + 1)
  let slash (i : Nat) : Node := .mk (.token "/") none i (i + 1) []
  let flags := if k > j + 1 then [(leaf .regexFlags (j + 1) k).withRole .flags] else []
  moveTo k
  pure (Node.of .regex
    ([slash i, (leaf .regexPattern (i + 1) j).withRole .pattern, slash j] ++ flags))

end Parser

end DocFlow.Script
