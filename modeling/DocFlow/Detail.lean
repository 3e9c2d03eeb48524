import DocFlow.Number.Shortest
import DocFlow.Text.Printable

namespace DocFlow

inductive Detail where
  | absent
  | boolean (value : Bool)
  | integer (value : Int)
  | double (value : Binary64)
  | text (value : Text)
  | list (values : List Detail)
  | record (fields : List (Text × Detail))
  deriving Inhabited, Repr

namespace Detail

def writeField (key value : Text) : Text := Text.quoted key ++ ": ".toList ++ value

mutual

def write : Detail → Text
  | absent => "None".toList
  | boolean true => "True".toList
  | boolean false => "False".toList
  | integer n => Text.ofInt n
  | double x => x.write
  | text t => Text.quoted t
  | list values => '[' :: (Text.join ", ".toList (writeAll values) ++ [']'])
  | record fields => '{' :: (Text.join ", ".toList (writeFields fields) ++ ['}'])

def writeAll : List Detail → List Text
  | [] => []
  | d :: rest => d.write :: writeAll rest

def writeFields : List (Text × Detail) → List Text
  | [] => []
  | (key, d) :: rest => writeField key d.write :: writeFields rest

end

/-- A message with the facts behind it, if there are any. -/
def report (message : Text) (fields : List (Text × Detail)) : Text :=
  if fields.isEmpty then message
  else message ++ " (details: ".toList ++ (record fields).write ++ [')']

end Detail

end DocFlow
