import DocFlow.Source.File

namespace DocFlow

/-- Files by the parts of their paths. A directory is there if a file is in it. -/
structure Directory where
  files : List (List Text × Bytes)
  deriving Repr

namespace Directory

inductive Entry where
  | file (bytes : Bytes)
  | directory
  | nothing
  deriving Repr

def entry (d : Directory) (parts : List Text) : Entry :=
  match d.files.lookup parts with
  | some bytes => .file bytes
  | none =>
    if parts = [] ∨ d.files.any (fun f => parts.isPrefixOf f.1) then .directory else .nothing

/-- Goes from a directory along the parts of a path. What lies outside of it is not there. -/
def descend (d : Directory) : List Text → List Text → Except FileFault (List Text)
  | here, [] => .ok here
  | here, part :: rest =>
    match d.entry here with
    | .file _ => .error .notDirectory
    | .nothing => .error .missing
    | .directory =>
      if part = ['.', '.'] then
        if here = [] then .error .missing else descend d here.dropLast rest
      else descend d (here ++ [part]) rest

def locate (d : Directory) (p : Path) : Except FileFault (List Text) :=
  if p.root = [] then d.descend [] p.parts
  else if p.parts = [] then .error .isDirectory
  else .error .missing

def read (d : Directory) (p : Path) : Except FileFault Bytes := do
  let place ← d.locate p
  match d.entry place with
  | .file bytes => .ok bytes
  | .directory => .error .isDirectory
  | .nothing => .error .missing

def put (place : List Text) (bytes : Bytes) (d : Directory) : Directory :=
  match d.files.lookup place with
  | some _ => ⟨d.files.map fun f => if f.1 = place then (place, bytes) else f⟩
  | none => ⟨d.files ++ [(place, bytes)]⟩

def write (d : Directory) (p : Path) (bytes : Bytes) : Except FileFault Directory := do
  let place ← d.locate p
  match d.entry place with
  | .directory => .error .isDirectory
  | _ => .ok (d.put place bytes)

end Directory

end DocFlow
