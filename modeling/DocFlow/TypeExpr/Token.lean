import DocFlow.Number.Numeral
import DocFlow.Text.Class

namespace DocFlow.TypeGrammar

inductive Mark where
  | ellipsis
  | dotAngle
  | openParen
  | closeParen
  | openBrace
  | closeBrace
  | openBracket
  | closeBracket
  | openAngle
  | closeAngle
  | comma
  | bar
  | question
  | bang
  | equals
  | star
  | colon
  deriving DecidableEq, Repr

def Mark.text : Mark → Text
  | .ellipsis => ['.', '.', '.']
  | .dotAngle => ['.', '<']
  | .openParen => ['(']
  | .closeParen => [')']
  | .openBrace => ['{']
  | .closeBrace => ['}']
  | .openBracket => ['[']
  | .closeBracket => [']']
  | .openAngle => ['<']
  | .closeAngle => ['>']
  | .comma => [',']
  | .bar => ['|']
  | .question => ['?']
  | .bang => ['!']
  | .equals => ['=']
  | .star => ['*']
  | .colon => [':']

def Mark.ofChar? : Char → Option Mark
  | '(' => some .openParen
  | ')' => some .closeParen
  | '{' => some .openBrace
  | '}' => some .closeBrace
  | '[' => some .openBracket
  | ']' => some .closeBracket
  | '<' => some .openAngle
  | '>' => some .closeAngle
  | ',' => some .comma
  | '|' => some .bar
  | '?' => some .question
  | '!' => some .bang
  | '=' => some .equals
  | '*' => some .star
  | ':' => some .colon
  | _ => none

/-- What a token is. Strings keep their quotes. -/
inductive Lexeme where
  | mark (mark : Mark)
  | string (text : Text)
  | number (text : Text)
  | name (text : Text)
  deriving DecidableEq, Repr

def Lexeme.text : Lexeme → Text
  | .mark m => m.text
  | .string t => t
  | .number t => t
  | .name t => t

structure Token where
  lexeme : Lexeme
  place : Nat
  deriving DecidableEq, Repr

/-- The rest of a string after its opening quote `q`, up to and with the closing one, and what
follows. A backslash takes the next character with it, which is no line feed. -/
def stringTail? (q : Char) : Text → Option (Text × Text)
  | [] => none
  | '\\' :: c :: rest =>
    if c = '\n' then none else (stringTail? q rest).map fun r => ('\\' :: c :: r.1, r.2)
  | c :: rest =>
    if c = '\\' then none
    else if c = q then some ([c], rest)
    else (stringTail? q rest).map fun r => (c :: r.1, r.2)

def stringLexeme? : Text → Option (Text × Text)
  | '"' :: rest => (stringTail? '"' rest).map fun r => ('"' :: r.1, r.2)
  | '\'' :: rest => (stringTail? '\'' rest).map fun r => ('\'' :: r.1, r.2)
  | _ => none

def takeSome? (p : Char → Bool) (t : Text) : Option (Text × Text) :=
  match t.span p with
  | ([], _) => none
  | r => some r

def decimal? (t : Text) : Option (Text × Text) :=
  (takeSome? Text.isDigit t).map fun (whole, rest) =>
    match rest with
    | '.' :: after =>
      match takeSome? Text.isDigit after with
      | some (fraction, rest') => (whole ++ '.' :: fraction, rest')
      | none => (whole, rest)
    | _ => (whole, rest)

def isHexMark (c : Char) : Bool := c == 'x' || c == 'X'

def unsigned? (t : Text) : Option (Text × Text) :=
  match t with
  | '0' :: x :: after =>
    if isHexMark x then
      match takeSome? Numeral.isHexDigit after with
      | some (digits, rest) => some ('0' :: x :: digits, rest)
      | none => decimal? t
    else decimal? t
  | _ => decimal? t

def numberLexeme? : Text → Option (Text × Text)
  | '-' :: rest => (unsigned? rest).map fun r => ('-' :: r.1, r.2)
  | t => unsigned? t

def isNameStart (c : Char) : Bool := c.isAlpha || c == '_' || c == '$'

def isNamePart (c : Char) : Bool := Text.isWord c || c == '$'

def isPathMark (c : Char) : Bool := c == '.' || c == '#' || c == '~' || c == '/'

/-- The longest continuation of a name: name characters, and path marks before a name start. -/
def nameTail : Text → Text × Text
  | [] => ([], [])
  | c :: rest =>
    if isNamePart c then
      let r := nameTail rest
      (c :: r.1, r.2)
    else if isPathMark c then
      match rest with
      | d :: rest' =>
        if isNameStart d then
          let r := nameTail rest'
          (c :: d :: r.1, r.2)
        else ([], c :: rest)
      | [] => ([], [c])
    else ([], c :: rest)

def isModulePart (c : Char) : Bool := isNamePart c || isPathMark c || c == '-'

def namespaces : List Text := ["module:".toList, "external:".toList, "event:".toList]

/-- A name behind one of the namespaces, where any mix of its characters will do. -/
def spacedName? (t : Text) : Option (Text × Text) :=
  namespaces.findSome? fun space =>
    (Text.dropFront? space t).bind fun rest =>
      (takeSome? isModulePart rest).map fun r => (space ++ r.1, r.2)

def plainName? : Text → Option (Text × Text)
  | c :: rest =>
    if isNameStart c then
      let r := nameTail rest
      some (c :: r.1, r.2)
    else none
  | [] => none

def nameLexeme? (t : Text) : Option (Text × Text) := (spacedName? t).or (plainName? t)

def markLexeme? : Text → Option (Mark × Text)
  | c :: rest => (Mark.ofChar? c).map fun m => (m, rest)
  | [] => none

/-- The lexeme at the start of a text that starts with no blank, and what follows it. -/
def lexeme? (t : Text) : Option (Lexeme × Text) :=
  match t with
  | '.' :: '.' :: '.' :: rest => some (.mark .ellipsis, rest)
  | '.' :: '<' :: rest => some (.mark .dotAngle, rest)
  | _ =>
    match stringLexeme? t with
    | some (s, rest) => some (.string s, rest)
    | none =>
      match numberLexeme? t with
      | some (s, rest) => some (.number s, rest)
      | none =>
        match nameLexeme? t with
        | some (s, rest) => some (.name s, rest)
        | none => (markLexeme? t).map fun (m, rest) => (.mark m, rest)

structure Stray where
  char : Char
  place : Nat
  deriving DecidableEq, Repr

/-- Reads tokens from `place` on. A step consumes a character at least, so as many steps as there
are characters suffice. -/
def tokensFrom : Nat → Nat → Text → Except Stray (List Token)
  | 0, _, _ => .ok []
  | _ + 1, _, [] => .ok []
  | steps + 1, place, c :: rest =>
    if Text.isBlank c then tokensFrom steps (place + 1) rest
    else
      match lexeme? (c :: rest) with
      | none => .error ⟨c, place⟩
      | some (lexeme, after) =>
        (tokensFrom steps (place + lexeme.text.length) after).map (⟨lexeme, place⟩ :: ·)

/-- The tokens of a text, or the first character that starts none. -/
def tokens (t : Text) : Except Stray (List Token) := tokensFrom t.length 0 t

end DocFlow.TypeGrammar
