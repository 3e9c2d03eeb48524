import DocFlow.Text.Class

namespace DocFlow.Reference

def isNamePart (c : Char) : Bool := Text.isWord c || c == '$'

/-- Whether a name may start behind a character. -/
def opensName : Option Char → Bool
  | none => true
  | some c => !(isNamePart c || c == '.')

/-- Drops `q` wherever it starts a name. The first `skip` characters are dropped in any case, and
`last` is the character before the text. -/
def dropQualifier (q : Text) : Nat → Option Char → Text → Text
  | _, _, [] => []
  | skip + 1, _, c :: rest => dropQualifier q skip (some c) rest
  | 0, last, c :: rest =>
    if opensName last && q.isPrefixOf (c :: rest) then
      dropQualifier q (q.length - 1) (some c) rest
    else c :: dropQualifier q 0 (some c) rest

def unqualify (scope : Option Text) (type : Text) : Text :=
  match scope with
  | none | some [] => type
  | some m => dropQualifier (m ++ ['.']) 0 none type

def valueSuffix : Text := "Value".toList

def startsWithName (name t : Text) : Bool :=
  name.isPrefixOf t && !((t.drop name.length).head?.any isNamePart)

def blanks (t : Text) : Nat := (t.takeWhile Text.isBlank).length

/-- The longest gap between a colon and a type: blanks around at most one question mark. -/
def gap (t : Text) : Nat :=
  let n := blanks t
  match t.drop n with
  | '?' :: rest => n + 1 + blanks rest
  | _ => n

def findName? (name t : Text) : Nat → Option Nat
  | 0 => if startsWithName name t then some 0 else none
  | n + 1 => if startsWithName name (t.drop (n + 1)) then some (n + 1) else findName? name t n

/-- How far a reference to a name behind a colon reaches. -/
def reach? (name afterColon : Text) : Option Nat :=
  (findName? name afterColon (gap afterColon)).map (· + name.length)

/-- Appends the suffix to each reference to a name behind a colon. With `pending` characters of a
reference still ahead, the suffix is due after them. -/
def retarget (name : Text) : Nat → Text → Text
  | _, [] => []
  | 1, c :: rest => c :: (valueSuffix ++ retarget name 0 rest)
  | pending + 2, c :: rest => c :: retarget name (pending + 1) rest
  | 0, c :: rest =>
    if c = ':' then
      match reach? name rest with
      | none => c :: retarget name 0 rest
      | some 0 => c :: (valueSuffix ++ retarget name 0 rest)
      | some (n + 1) => c :: retarget name (n + 1) rest
    else c :: retarget name 0 rest

def retargetAll (names : List Text) (output : Text) : Text :=
  names.foldl (fun t name => retarget name 0 t) output

end DocFlow.Reference
