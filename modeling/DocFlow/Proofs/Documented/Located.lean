import DocFlow.Declaration.Collection
import DocFlow.Inline.Annotation
import DocFlow.Proofs.Outcome

namespace DocFlow

def Documented.function? : Documented → Option DocumentedFunction
  | .function f => some f
  | .enumeration _ => none

namespace Document

/-- The functions and enums that are documented in a document, in order. -/
def constructs (d : Document) : Except Error (List Documented) :=
  readAll (Documented.find d.source.content) d.places

def functions (d : Document) : Except Error (List DocumentedFunction) :=
  readAll (Documented.findFunction d.source.content) d.places

theorem exists_place_of_functions {d : Document} {fs : List DocumentedFunction}
    (h : d.functions = .ok fs) {f : DocumentedFunction} (hf : f ∈ fs) :
    ∃ p ∈ d.places, Documented.findFunction d.source.content p = .ok (some f) :=
  exists_mem_of_readAll h hf

theorem findFunction_of_find {source : Text} {p : Script.Place} {c : Option Documented}
    (h : Documented.find source p = .ok c) :
    Documented.findFunction source p = .ok (c.bind Documented.function?) := by
  unfold Documented.find at h
  obtain ⟨f, hf, h⟩ := bind_eq_ok.1 h
  cases f with
  | some f =>
    cases h
    exact hf
  | none =>
    obtain ⟨e, -, h⟩ := bind_eq_ok.1 h
    cases h
    cases e <;> exact hf

/-- Where all constructs can be read, the functions are those among them. -/
theorem functions_of_constructs {d : Document} {cs : List Documented} (h : d.constructs = .ok cs) :
    d.functions = .ok (cs.filterMap Documented.function?) := by
  unfold constructs functions at *
  generalize d.places = ps at *
  induction ps generalizing cs with
  | nil =>
    cases h
    rfl
  | cons p ps ih =>
    obtain ⟨c, cs, hc, hcs, rfl⟩ := readAll_cons.1 h
    refine readAll_cons.2 ⟨_, _, findFunction_of_find hc, ih hcs, ?_⟩
    cases c with
    | none => simp
    | some c => cases c <;> simp [List.filterMap_cons, Documented.function?]

end Document

namespace Declarations

def add (d : Document) (ds : Declarations) : Documented → Except Error Declarations
  | .function f => withFunction d ds f
  | .enumeration e => withEnum d ds e

theorem step_eq (d : Document) (ds : Declarations) (p : Script.Place) :
    step d ds p = Documented.find d.source.content p >>= fun c => c.elim (.ok ds) (add d ds) := by
  unfold step
  congr 1
  funext c
  rcases c with _ | _ | _ <;> rfl

/-- The declarations of a document are those of its constructs, added in order. -/
theorem ofDocument_eq_ok_iff {d : Document} {ds : Declarations} :
    ofDocument d = .ok ds ↔ ∃ cs, d.constructs = .ok cs ∧ cs.foldlM (add d) {} = .ok ds :=
  foldlM_eq_ok_iff_readAll (step_eq d)

/-- Each function that is added counts, and nothing else. -/
theorem functions_add {d : Document} {ds ds' : Declarations} {c : Documented}
    (h : add d ds c = .ok ds') : ds'.functions = ds.functions + c.function?.toList.length := by
  cases c with
  | function f =>
    obtain ⟨segments, -, h⟩ := bind_eq_ok.1 h
    cases h
    rfl
  | enumeration e =>
    obtain ⟨segments, -, h⟩ := bind_eq_ok.1 h
    cases h
    rfl

theorem functions_foldlM {d : Document} {cs : List Documented} {ds ds' : Declarations}
    (h : cs.foldlM (add d) ds = .ok ds') :
    ds'.functions = ds.functions + (cs.filterMap Documented.function?).length := by
  induction cs generalizing ds with
  | nil =>
    cases h
    rfl
  | cons c cs ih =>
    rw [List.foldlM_cons] at h
    obtain ⟨mid, hadd, hrest⟩ := bind_eq_ok.1 h
    rw [ih hrest, functions_add hadd, List.filterMap_cons]
    cases c.function? with
    | none => rfl
    | some f =>
      simp only [Option.toList_some, List.length_cons, List.length_nil]
      omega

end Declarations

namespace Annotations

theorem step_eq (source : Text) (a : Annotations) (p : Script.Place) :
    step source a p = Documented.findFunction source p >>=
      fun f => f.elim (.ok a) fun f => .ok (withFunction source a f) := by
  unfold step
  cases Documented.findFunction source p with
  | error e => rfl
  | ok f => cases f <;> rfl

def ofFunction (source : Text) (f : DocumentedFunction) : List Insertion :=
  ofParams source f ++ ofResult f

theorem foldlM_withFunction (source : Text) (fs : List DocumentedFunction) (a : Annotations) :
    fs.foldlM (fun a f => Except.ok (withFunction source a f)) a = (.ok
      ⟨a.insertions ++ fs.flatMap (ofFunction source), a.functions + fs.length⟩ :
        Except Error Annotations) := by
  induction fs generalizing a with
  | nil => simp [pure, Except.pure]
  | cons f fs ih =>
    rw [List.foldlM_cons]
    refine (ih _).trans ?_
    simp [withFunction, ofFunction, Nat.add_assoc, Nat.add_comm 1]

/-- The annotations of a document are those of its functions, in order. -/
theorem ofDocument_eq_ok_iff {d : Document} {a : Annotations} :
    ofDocument d = .ok a ↔ ∃ fs, d.functions = .ok fs ∧
      a = ⟨fs.flatMap (ofFunction d.source.content), fs.length⟩ := by
  refine (foldlM_eq_ok_iff_readAll (step_eq d.source.content)).trans ?_
  simp only [foldlM_withFunction, Except.ok.injEq, List.nil_append, Nat.zero_add, eq_comm,
    Document.functions]

end Annotations

end DocFlow
