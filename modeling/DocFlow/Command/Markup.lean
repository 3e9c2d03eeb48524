import DocFlow.Text.Basic

namespace DocFlow.Markup

/-- A piece of a message: plain text, text that is shown as it stands, or a tag, which sets the
style of what follows and is not shown. -/
inductive Piece where
  | plain (text : Text)
  | verbatim (text : Text)
  | tag (text : Text)
  deriving DecidableEq, Repr

/-- Characters that a tag may start with. -/
def startsTag (c : Char) : Bool := ('a' ≤ c && c ≤ 'z') || c == '#' || c == '/' || c == '@'

def takeTag? : Text → Option (Text × Text)
  | '[' :: c :: rest =>
    if startsTag c then
      let (inside, after) := rest.span fun d => d != '[' && d != ']'
      match after with
      | ']' :: after => some (c :: inside, after)
      | _ => none
    else none
  | _ => none

/-- Drops the backslash before each opening bracket. -/
def unescape : Text → Text
  | [] => []
  | '\\' :: '[' :: rest => '[' :: unescape rest
  | c :: rest => c :: unescape rest

def consPlain (c : Char) : List Piece → List Piece
  | .plain t :: rest => .plain (c :: t) :: rest
  | rest => .plain [c] :: rest

/-- Splits a message into pieces. `skip` characters have been read already, and `slashes`
backslashes stand right before the text. Of the backslashes before a tag every second one is
shown, and an odd one makes the tag plain. -/
def pieces : Nat → Nat → Text → List Piece
  | _, slashes, [] => (List.replicate slashes '\\').foldr consPlain []
  | skip + 1, _, _ :: rest => pieces skip 0 rest
  | 0, slashes, c :: rest =>
    if c = '\\' then pieces 0 (slashes + 1) rest
    else
      match takeTag? (c :: rest) with
      | some (inside, _) =>
        let shown := .verbatim (List.replicate (slashes / 2) '\\')
        let tag := if slashes % 2 = 1 then .verbatim ('[' :: (inside ++ [']'])) else .tag inside
        shown :: tag :: pieces (inside.length + 1) 0 rest
      | none => (List.replicate slashes '\\' ++ [c]).foldr consPlain (pieces 0 0 rest)

def nameOf (tag : Text) : Text := tag.takeWhile (· != '=')

def synonyms : List (Text × Text) := [
  ("b".toList, "bold".toList), ("d".toList, "dim".toList), ("i".toList, "italic".toList),
  ("u".toList, "underline".toList), ("r".toList, "reverse".toList), ("s".toList, "strike".toList),
  ("uu".toList, "underline2".toList), ("c".toList, "conceal".toList), ("o".toList, "overline".toList)]

def styleName (name : Text) : Text :=
  let name := Text.lowerASCII (Text.trim name)
  (synonyms.lookup name).getD name

/-- Removes the first tag of a name from the open ones, last opened first. -/
def close? (name : Text) : List Text → Option (List Text)
  | [] => none
  | t :: rest => if t = name then some rest else (close? name rest).map (t :: ·)

/-- The text that is shown, given the open tags. Nothing is shown if a tag closes none. -/
def show? : List Text → List Piece → Option Text
  | _, [] => some []
  | opened, .plain t :: rest => (show? opened rest).map (unescape t ++ ·)
  | opened, .verbatim t :: rest => (show? opened rest).map (t ++ ·)
  | opened, .tag t :: rest =>
    match nameOf t with
    | '/' :: name =>
      match Text.trim name, opened with
      | [], [] => none
      | [], _ :: others => show? others rest
      | _, _ => (close? (styleName name) opened).bind fun others => show? others rest
    | name => show? (styleName name :: opened) rest

def isControl (c : Char) : Bool := [7, 8, 11, 12, 13].contains c.toNat

def plain? (message : Text) : Option Text :=
  (show? [] (pieces 0 0 message)).map (·.filter (!isControl ·))

end DocFlow.Markup
