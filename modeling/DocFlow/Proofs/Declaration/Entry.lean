import DocFlow.Proofs.Declaration.Insertion

namespace DocFlow

/-- A function or enum as the tree takes it in: the segments of its name, and what it declares. -/
inductive Entry where
  | function (segments : List Text) (params : List Formal) (resultType : Option Text)
  | enumeration (segments : List Text) (values : List Literal) (sourceText : Text)
    (resultType : Option Text)
  deriving DecidableEq

namespace Entry

open DeclarationTree

def ofConstruct (d : Document) : Documented → Except Error Entry
  | .function f =>
    (Declarations.segmentsOf d f.place).map fun segments =>
      .function segments (Declarations.formalsOf d.source.content f) f.resultType
  | .enumeration e =>
    (Declarations.segmentsOf d e.place).map fun segments =>
      .enumeration segments e.values e.sourceText e.resultType

def isFunction : Entry → Bool
  | function .. => true
  | enumeration .. => false

def path : Entry → List Text
  | function segments .. => Name.nodePath segments
  | enumeration segments .. => segments

/-- What is assigned to the end of the path. A function whose name ends in `prototype` assigns
nothing. -/
def leaf? : Entry → Option Declaration
  | function segments params resultType =>
    lastLeaf (fun form name => { form, name := some name, params, resultType })
      (Name.isMethod segments) segments
  | enumeration segments values sourceText resultType =>
    some { form := .enumeration, name := segments.getLast?, resultType, values,
           sourceText := some sourceText }

def classPaths : Entry → List (List Text)
  | function segments .. => Name.classPaths segments
  | enumeration .. => []

def insert : Entry → DeclarationTree → DeclarationTree
  | function segments params resultType => insertFunction params resultType segments
  | enumeration segments values sourceText resultType =>
    insertEnum values sourceText resultType segments

def leafAt (p : List Text) (e : Entry) : Option Declaration := if p = e.path then e.leaf? else none

theorem insert_eq (e : Entry) (t : DeclarationTree) :
    e.insert t =
      changeDescendant (redeclare (assign e.leaf?)) e.path (makeClasses e.classPaths t) := by
  cases e with
  | function segments params resultType =>
    have hmethod : Name.isMethod segments = !(Name.classPathsBelow [] segments).isEmpty := by
      have hiff := Name.isMethod_iff segments
      rw [Name.classPaths] at hiff
      rw [Bool.eq_iff_iff, hiff]
      simp
    have hinsert := @insertBelow_eq (fun form name => { form, name := some name, params, resultType })
      [] false segments t
    rw [Bool.false_or, ← hmethod] at hinsert
    exact hinsert
  | enumeration segments values sourceText resultType =>
    rw [insert, insertEnum, declare_eq]
    rfl

theorem prefix_of_mem_classPaths {e : Entry} {p : List Text} (h : p ∈ e.classPaths) :
    p <+: e.path := by
  cases e with
  | function segments => exact Name.prefix_of_mem_classPathsBelow h
  | enumeration => cases h

end Entry

namespace DeclarationTree

variable {p : List Text} {ps : List (List Text)} {t : DeclarationTree}

theorem makeClasses_cons (q : List Text) :
    makeClasses (q :: ps) t = makeClasses ps (changeDescendant (redeclare asClass) q t) := by
  rw [makeClasses, List.foldl_cons, makeClass_eq, makeClasses, makeClass_eq]

theorem isSome_makeClasses :
    (descendant? p (makeClasses ps t)).isSome ↔
      (descendant? p t).isSome ∨ ∃ q ∈ ps, p <+: q := by
  induction ps generalizing t with
  | nil => simp [makeClasses]
  | cons q ps ih =>
    rw [makeClasses_cons, ih, isSome_changeDescendant, or_assoc]
    simp

theorem declaredAt_makeClasses :
    declaredAt p (makeClasses ps t) =
      if p ∈ ps then asClass (declaredAt p t) else declaredAt p t := by
  induction ps generalizing t with
  | nil => simp [makeClasses]
  | cons q ps ih =>
    rw [makeClasses_cons, ih, declaredAt_changeDescendant]
    by_cases hq : p = q
    · simp [hq, asClass_asClass]
    · simp [hq]

theorem mem_addSegment_self (s : Text) (ss : List Text) : s ∈ addSegment (some s) ss := by
  by_cases hs : s ∈ ss
  · simp [addSegment, hs]
  · simp [addSegment, hs]

/-- The segment on the way to a longer path is the one on the way to its beginning. -/
theorem addSegment_of_prefix {q path : List Text} (h : q <+: path) (ss : List Text) :
    addSegment (segmentAfter p path) (addSegment (segmentAfter p q) ss) =
      addSegment (segmentAfter p path) ss := by
  have hsame : segmentAfter p q = none ∨ segmentAfter p q = segmentAfter p path := by
    induction p generalizing q path with
    | nil =>
      rcases q with _ | ⟨s, q⟩
      · exact .inl rfl
      · obtain ⟨rest, rfl⟩ := h
        exact .inr rfl
    | cons s p ih =>
      rcases q with _ | ⟨s', q⟩
      · exact .inl rfl
      · obtain ⟨rest, rfl⟩ := h
        rw [List.cons_append, segmentAfter, segmentAfter]
        by_cases hs : s = s'
        · rw [if_pos hs, if_pos hs]
          exact ih (List.prefix_append q rest)
        · exact .inl (if_neg hs)
  -- What the longer path adds has been added already, or nothing has been.
  rcases hsame with hnone | hnext
  · rw [hnone]
    rfl
  · rw [hnext]
    cases segmentAfter p path with
    | none => rfl
    | some s => exact if_pos (mem_addSegment_self s ss)

theorem segmentsAt_makeClasses {path : List Text} (h : ∀ q ∈ ps, q <+: path) :
    addSegment (segmentAfter p path) (segmentsAt p (makeClasses ps t)) =
      addSegment (segmentAfter p path) (segmentsAt p t) := by
  induction ps generalizing t with
  | nil => rfl
  | cons q ps ih =>
    have hrest : ∀ q ∈ ps, q <+: path := fun q hq => h q (List.mem_cons_of_mem _ hq)
    rw [makeClasses_cons, ih hrest, segmentsAt_changeDescendant]
    exact addSegment_of_prefix (h q List.mem_cons_self) _

end DeclarationTree

namespace Entry

open DeclarationTree

variable {e : Entry} {p : List Text} {t : DeclarationTree}

/-- An entry adds the nodes of its path. -/
theorem isSome_insert :
    (descendant? p (e.insert t)).isSome ↔ (descendant? p t).isSome ∨ p <+: e.path := by
  rw [insert_eq, isSome_changeDescendant, isSome_makeClasses, or_assoc]
  refine or_congr_right ⟨?_, .inr⟩
  rintro (⟨q, hq, hp⟩ | hp)
  · exact hp.trans (prefix_of_mem_classPaths hq)
  · exact hp

/-- An entry assigns its leaf, and makes its classes. -/
theorem declaredAt_insert :
    declaredAt p (e.insert t) = assign (e.leafAt p)
      (if p ∈ e.classPaths then asClass (declaredAt p t) else declaredAt p t) := by
  rw [insert_eq, declaredAt_changeDescendant, declaredAt_makeClasses, leafAt]
  by_cases hp : p = e.path
  · rw [if_pos hp, if_pos hp]
  · rw [if_neg hp, if_neg hp]
    rfl

/-- An entry adds at most one segment below a node. -/
theorem segmentsAt_insert :
    segmentsAt p (e.insert t) = addSegment (segmentAfter p e.path) (segmentsAt p t) := by
  rw [insert_eq, segmentsAt_changeDescendant]
  exact segmentsAt_makeClasses fun _ => prefix_of_mem_classPaths

end Entry

end DocFlow
