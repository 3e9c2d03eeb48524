import DocFlow.Source.Basic

namespace DocFlow

structure Insertion where
  place : Nat
  text : Text
  deriving DecidableEq, Repr

namespace Insertion

/-- Puts an entry behind all that have no larger key. -/
def insertSorted {α : Type} (key : α → Nat) (e : α) : List α → List α
  | [] => [e]
  | f :: rest => if key e < key f then e :: f :: rest else f :: insertSorted key e rest

def sortedBy {α : Type} (key : α → Nat) (es : List α) : List α :=
  es.foldl (fun acc e => insertSorted key e acc) []

/-- Copies what starts at `place`, and puts in what belongs to each of some ordered places. -/
def splice {α : Type} (place : Nat) : List (Nat × List α) → List α → List α
  | [], rest => rest
  | (next, new) :: es, rest =>
    let n := next - place
    rest.take n ++ new ++ splice (place + n) es (rest.drop n)

def after (n : Script.Node) (text : Text) : Insertion := ⟨n.stop, text⟩

def before (n : Script.Node) (text : Text) : Insertion := ⟨n.start, text⟩

end Insertion

namespace Document

def encode (d : Document) (t : Text) : Except Error (List UInt8) :=
  match d.encoding.encode? t with
  | some bytes => .ok bytes
  | none => .error .unencodable

def decode (d : Document) (bytes : List UInt8) : Except Error Text :=
  (d.encoding.decode bytes).mapError .undecodable

def editOf (d : Document) (e : Insertion) : Except Error (Nat × List UInt8) :=
  (d.encode e.text).map fun bytes => (d.byteOffset e.place, bytes)

/-- Insertions are made in one pass over the bytes of the source, in the order of their offsets, and
those at one offset in the order in which they were asked for. -/
def withInsertions (d : Document) (es : List Insertion) : Except Error Text := do
  let source ← d.encode d.source.content
  let edits ← (Insertion.sortedBy (d.byteOffset ·.place) es).mapM d.editOf
  d.decode (Insertion.splice 0 edits source)

end Document

end DocFlow
