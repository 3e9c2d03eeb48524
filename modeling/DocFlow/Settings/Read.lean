import DocFlow.Number.Numeral
import DocFlow.Settings.Basic

namespace DocFlow.Settings

def variableStart : Text := "jsdoc_flowgen_".toList

/-- The value of a variable. Letter case does not count in names, and of two values the last does. -/
def environmentValue? (env : List (Text × Text)) (name : Text) : Option Text :=
  let full := variableStart ++ name
  (env.reverse.find? fun v => Text.lowerASCII v.1 = full).map Prod.snd

def readText : SettingValue → Except SettingFault Text
  | .text t => .ok t
  | _ => .error .notText

def trueWords : List Text :=
  ["1".toList, "on".toList, "t".toList, "true".toList, "y".toList, "yes".toList]

def falseWords : List Text :=
  ["0".toList, "off".toList, "f".toList, "false".toList, "n".toList, "no".toList]

/-- One and zero are truth values too. -/
def truthOf (n : Int) : Except SettingFault Bool :=
  if n = 1 then .ok true else if n = 0 then .ok false else .error .notBooleanValue

def readBool : SettingValue → Except SettingFault Bool
  | .boolean b => .ok b
  | .integer n => truthOf n
  | .double x =>
    match x.toInt? with
    | some n => truthOf n
    | none => .error .notBoolean
  | .text t =>
    let word := Text.lowerASCII t
    if trueWords.contains word then .ok true
    else if falseWords.contains word then .ok false
    else .error .notBooleanValue
  | _ => .error .notBoolean

/-- Spaces around a number. The information separators are none. -/
def isSpace (c : Char) : Bool := Text.isBlank c && !decide (28 ≤ c.toNat ∧ c.toNat ≤ 31)

def trimSpace (t : Text) : Text :=
  ((t.dropWhile isSpace).reverse.dropWhile isSpace).reverse

/-- Drops a point and zeros from the end of a number. A point alone does not count. -/
def dropZeroFraction (t : Text) : Text :=
  match t.span (· != '.') with
  | (whole, '.' :: fraction) =>
    if fraction ≠ [] ∧ fraction.all (· = '0') then whole else t
  | _ => t

def isDigit (c : Char) : Bool := '0' ≤ c && c ≤ '9'

/-- The number written by digits, which single underscores may part. -/
def digits? (t : Text) : Option Nat :=
  let groups := Text.splitAt '_' t
  if groups.all fun g => g ≠ [] ∧ g.all isDigit then
    some (Numeral.ofDigits 10 (Numeral.digitsIn 16 groups.flatten))
  else none

/-- A number without sign. Zeros may precede it, but no underscore parts them from it. -/
def natural? (t : Text) : Option Nat :=
  match t with
  | '0' :: rest =>
    match rest.dropWhile (· = '0') with
    | [] => some 0
    | others => digits? others
  | _ => digits? t

/-- An integer with an optional sign. A negative one has no zeros before it. -/
def integer? (t : Text) : Option Int :=
  match dropZeroFraction (trimSpace t) with
  | '+' :: t => (natural? t).map Int.ofNat
  | ['-', '0'] => some 0
  | '-' :: '0' :: _ => none
  | '-' :: t => (digits? t).map fun n => -(n : Int)
  | t => (natural? t).map Int.ofNat

def readInt : SettingValue → Except SettingFault Int
  | .boolean b => .ok (if b then 1 else 0)
  | .integer n => .ok n
  | .double (.finite s m q) =>
    match Binary64.toInt? (.finite s m q) with
    | some n => .ok n
    | none => .error .fractional
  | .double _ => .error .notFinite
  | .text t =>
    match integer? t with
    | some n => .ok n
    | none => .error .notIntegerText
  | _ => .error .notInteger

def readNat (v : SettingValue) : Except SettingFault Nat := do
  let n ← readInt v
  if n < 0 then .error .negative else .ok n.toNat

def readField {α : Type} (env : List (Text × Text)) (given : List (Text × SettingValue))
    (name : Text) (default : α) (read : SettingValue → Except SettingFault α) :
    Except SettingFault α :=
  match given.lookup name with
  | some v => read v
  | none =>
    match environmentValue? env name with
    | some t => read (.text t)
    | none => .ok default

def faultOf {α : Type} (name : Text) : Except SettingFault α → SettingFaults
  | .ok _ => []
  | .error f => [(name, f)]

/-- All settings, or all faults. What is given by name comes first, then the environment, then the
default. -/
def read (env : List (Text × Text)) (given : List (Text × SettingValue)) :
    Except SettingFaults Settings :=
  let logLevel := readField env given "log_level".toList "INFO".toList readText
  let jsonLogs := readField env given "json_logs".toList false readBool
  let indentWidth := readField env given "indent_width".toList 4 readNat
  let language := readField env given "language".toList "javascript".toList readText
  let declaration := readField env given "declaration".toList true readBool
  match logLevel, jsonLogs, indentWidth, language, declaration with
  | .ok logLevel, .ok jsonLogs, .ok indentWidth, .ok language, .ok declaration =>
    .ok { logLevel, jsonLogs, indentWidth, language, declaration }
  | _, _, _, _, _ =>
    .error (faultOf "log_level".toList logLevel ++ faultOf "json_logs".toList jsonLogs ++
      faultOf "indent_width".toList indentWidth ++ faultOf "language".toList language ++
      faultOf "declaration".toList declaration)

end DocFlow.Settings
