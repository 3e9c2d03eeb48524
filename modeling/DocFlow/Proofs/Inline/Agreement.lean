import Mathlib
import DocFlow.Proofs.Documented.Annotation
import DocFlow.Proofs.Documented.Located

namespace DocFlow

namespace DocumentedFunction

/-- The types in the declaration of a function, each with the index of its parameter. -/
def declaredTypes (source : Text) (f : DocumentedFunction) : List (Nat × Text) :=
  (Declarations.formalsOf source f).zipIdx.filterMap fun (p, i) => p.type.map (i, ·)

def hasTypedBody (f : DocumentedFunction) : Bool := f.resultType.isSome && f.body?.isSome

def AnnotatesParam (source : Text) (f : DocumentedFunction) (typed : Nat × Text) (e : Insertion) :
    Prop :=
  ∃ p, (f.parameters source)[typed.1]? = some p ∧
    e = .after p.anchor (Annotations.typeComment typed.2)

variable {source : Text} {f : DocumentedFunction}

/-- Tags never have an empty name, so that the test for one changes nothing. -/
theorem documentedType_eq (named : ∀ t ∈ f.tags, t.name ≠ some []) (p : Parameter) :
    f.documentedType p = (p.name.bind f.paramType).filter (· ≠ []) := by
  have nonempty (name : Text) : (f.paramType name).filter (· ≠ []) = f.paramType name := by
    have hne : f.paramType name ≠ some [] := Tag.typeFor_ne_nil
    cases h : f.paramType name with
    | none => rfl
    | some type =>
      have htype : type ≠ [] := by
        intro hnil
        exact hne (h.trans (congrArg some hnil))
      simp [Option.filter_some, htype]
  unfold documentedType
  cases p.name with
  | none => rfl
  | some name =>
    rw [Option.bind_some, nonempty]
    by_cases hname : name = []
    · subst hname
      exact (Tag.typeFor_nil named).symm
    · simp [Option.filter_some, hname]

theorem declaredTypes_eq :
    declaredTypes source f = (f.parameters source).zipIdx.filterMap fun (p, i) =>
      (f.documentedType p).map (i, ·) := by
  unfold declaredTypes Declarations.formalsOf
  rw [List.zipIdx_map, List.filterMap_map]
  rfl

/-- The declared types are exactly those that are inserted, in the same order. -/
theorem declaredTypes_annotate (named : ∀ t ∈ f.tags, t.name ≠ some []) :
    List.Forall₂ (AnnotatesParam source f) (declaredTypes source f)
      (Annotations.ofParams source f) := by
  rw [declaredTypes_eq]
  unfold Annotations.ofParams
  simp only [← documentedType_eq named]
  -- Any run of the parameters, with the index of its first one.
  suffices h : ∀ ps : List Parameter, ∀ n,
      (∀ i p, ps[i]? = some p → (f.parameters source)[n + i]? = some p) →
      List.Forall₂ (AnnotatesParam source f)
        ((ps.zipIdx n).filterMap fun (p, i) => (f.documentedType p).map (i, ·))
        (ps.filterMap fun p =>
          (f.documentedType p).map fun type => .after p.anchor (Annotations.typeComment type)) from
    h _ 0 fun i p hp => by rwa [Nat.zero_add]
  intro ps
  induction ps with
  | nil => exact fun _ _ => .nil
  | cons p ps ih =>
    intro n hindex
    have hfirst : (f.parameters source)[n]? = some p := hindex 0 p rfl
    have hrest := ih (n + 1) fun i q hq => by
      have := hindex (i + 1) q hq
      rwa [show n + (i + 1) = n + 1 + i by omega] at this
    rw [List.zipIdx_cons, List.filterMap_cons, List.filterMap_cons]
    dsimp only
    cases f.documentedType p with
    | none => exact hrest
    | some type => exact .cons ⟨p, hfirst, rfl⟩ hrest

/-- A result is annotated iff it has a type and there is a body. -/
theorem ofResult_ne_nil_iff : Annotations.ofResult f ≠ [] ↔ f.hasTypedBody := by
  unfold Annotations.ofResult hasTypedBody
  cases f.resultType <;> cases f.body? <;> simp

theorem length_ofResult : (Annotations.ofResult f).length = f.hasTypedBody.toNat := by
  unfold Annotations.ofResult hasTypedBody
  cases f.resultType <;> cases f.body? <;> rfl

end DocumentedFunction

namespace Document

/-- Where the declarations of a document can be collected, they and the annotations come from the
same functions, and each function has the same types in both. -/
theorem declarations_agree_with_annotations {d : Document} {ds : Declarations}
    (h : Declarations.ofDocument d = .ok ds) :
    ∃ cs fs a, d.constructs = .ok cs ∧ cs.foldlM (Declarations.add d) {} = .ok ds ∧
      d.functions = .ok fs ∧ fs = cs.filterMap Documented.function? ∧
      Annotations.ofDocument d = .ok a ∧
      a.insertions = fs.flatMap (Annotations.ofFunction d.source.content) ∧
      ds.functions = fs.length ∧ a.functions = fs.length ∧
      (∀ f ∈ fs, List.Forall₂ (f.AnnotatesParam d.source.content) (f.declaredTypes d.source.content)
          (Annotations.ofParams d.source.content f) ∧
        (Annotations.ofResult f ≠ [] ↔ f.hasTypedBody)) ∧
      a.insertions.length =
        (fs.map fun f => (f.declaredTypes d.source.content).length + f.hasTypedBody.toNat).sum := by
  obtain ⟨cs, hcs, hfold⟩ := Declarations.ofDocument_eq_ok_iff.1 h
  have hfs := functions_of_constructs hcs
  have agree : ∀ f ∈ cs.filterMap Documented.function?,
      List.Forall₂ (f.AnnotatesParam d.source.content) (f.declaredTypes d.source.content)
        (Annotations.ofParams d.source.content f) := by
    intro f hf
    obtain ⟨p, -, hfind⟩ := exists_place_of_functions hfs hf
    exact DocumentedFunction.declaredTypes_annotate (Documented.name_ne_nil_of_findFunction hfind)
  have hcount : ds.functions = (cs.filterMap Documented.function?).length := by
    rw [Declarations.functions_foldlM hfold]
    exact Nat.zero_add _
  refine ⟨cs, _, _, hcs, hfold, hfs, rfl, Annotations.ofDocument_eq_ok_iff.2 ⟨_, hfs, rfl⟩, rfl,
    hcount, rfl, fun f hf => ⟨agree f hf, DocumentedFunction.ofResult_ne_nil_iff⟩, ?_⟩
  rw [List.length_flatMap]
  congr 1
  apply List.map_congr_left
  intro f hf
  rw [Annotations.ofFunction, List.length_append, DocumentedFunction.length_ofResult,
    (agree f hf).length_eq]

/-- One parameter and the result have a type: both are inserted. -/
theorem declarations_agree_with_two_types :
    ∃ d ds a, ofSource ⟨"/** @param {a} b @return {c} */function f(b, e){}".toList, [], "js".toList,
        "utf-8".toList⟩ = .ok d ∧
      Declarations.ofDocument d = .ok ds ∧ Annotations.ofDocument d = .ok a ∧
      ds.functions = 1 ∧ a.functions = 1 ∧
      a.insertions = [⟨43, "/* : a*/".toList⟩, ⟨47, "/* : c*/ ".toList⟩] := by
  generalize hs : (Source.mk "/** @param {a} b @return {c} */function f(b, e){}".toList [] "js".toList
    "utf-8".toList) = s
  have declared : ((ofSource s >>= Declarations.ofDocument).map (·.functions)).toOption = some 1 := by
    subst hs
    decide +kernel
  have inserted : ((ofSource s >>= Annotations.ofDocument).map (·.insertions)).toOption =
      some [⟨43, "/* : a*/".toList⟩, ⟨47, "/* : c*/ ".toList⟩] := by
    subst hs
    decide +kernel
  obtain ⟨ds, hds, hcount⟩ := map_eq_ok.1 (eq_ok_of_toOption declared)
  obtain ⟨d, hd, hds⟩ := bind_eq_ok.1 hds
  obtain ⟨cs, fs, a, -, -, -, -, ha, -, hfs, hfs', -, -⟩ := declarations_agree_with_annotations hds
  obtain ⟨a', ha', htext⟩ := map_eq_ok.1 (eq_ok_of_toOption inserted)
  rw [hd] at ha'
  have hsame : a' = a := Except.ok.inj (ha'.symm.trans ha)
  exact ⟨d, ds, a, hd, hds, ha, hcount, by omega, by rw [← hsame, htext]⟩

end Document

end DocFlow
