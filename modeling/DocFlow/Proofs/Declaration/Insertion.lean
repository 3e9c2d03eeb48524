import DocFlow.Declaration.Collection
import DocFlow.Proofs.Declaration.Change

namespace DocFlow

namespace Name

def nodePath (segments : List Text) : List Text := segments.filter (· ≠ prototype)

/-- Whether a name has a `prototype` behind a segment that makes a node. -/
def isMethod (segments : List Text) : Bool :=
  (segments.dropWhile (· = prototype)).contains prototype

def classPathsBelow (above : List Text) : List Text → List (List Text)
  | [] => []
  | s :: rest =>
    if s = prototype then
      if above = [] then classPathsBelow above rest else above :: classPathsBelow above rest
    else classPathsBelow (above ++ [s]) rest

def classPaths (segments : List Text) : List (List Text) := classPathsBelow [] segments

theorem nodePath_prototype_cons (rest : List Text) : nodePath (prototype :: rest) = nodePath rest := by
  simp [nodePath]

theorem nodePath_cons {s : Text} (hs : s ≠ prototype) (rest : List Text) :
    nodePath (s :: rest) = s :: nodePath rest := by
  simp [nodePath, hs]

theorem classPathsBelow_cons {s : Text} (hs : s ≠ prototype) (above rest : List Text) :
    classPathsBelow above (s :: rest) = classPathsBelow (above ++ [s]) rest := by
  rw [classPathsBelow, if_neg hs]

/-- A `prototype` stands directly behind a path, in the part of a name below another path. -/
def LeadsToPrototype (above segments p : List Text) : Prop :=
  ∃ before after, segments = before ++ prototype :: after ∧ above ++ nodePath before = p

theorem leadsToPrototype_prototype_cons {above rest p : List Text} :
    LeadsToPrototype above (prototype :: rest) p ↔ above = p ∨ LeadsToPrototype above rest p := by
  constructor
  · rintro ⟨before, after, h, hp⟩
    rcases before with _ | ⟨s, before⟩
    · exact .inl (by simpa [nodePath] using hp)
    · obtain ⟨rfl, hrest⟩ := List.cons.inj h
      exact .inr ⟨before, after, hrest, by rwa [nodePath_prototype_cons] at hp⟩
  · rintro (rfl | ⟨before, after, rfl, hp⟩)
    · exact ⟨[], rest, rfl, by simp [nodePath]⟩
    · exact ⟨prototype :: before, after, rfl, by rwa [nodePath_prototype_cons]⟩

theorem leadsToPrototype_cons {s : Text} (hs : s ≠ prototype) {above rest p : List Text} :
    LeadsToPrototype above (s :: rest) p ↔ LeadsToPrototype (above ++ [s]) rest p := by
  constructor
  · rintro ⟨before, after, h, hp⟩
    rcases before with _ | ⟨s', before⟩
    · exact absurd (List.cons.inj h).1 hs
    · obtain ⟨rfl, hrest⟩ := List.cons.inj h
      exact ⟨before, after, hrest, by simpa [nodePath_cons hs] using hp⟩
  · rintro ⟨before, after, rfl, hp⟩
    exact ⟨s :: before, after, rfl, by simpa [nodePath_cons hs] using hp⟩

/-- A path is made a class iff it is not empty and a `prototype` stands directly behind it. -/
theorem mem_classPathsBelow {above segments p : List Text} :
    p ∈ classPathsBelow above segments ↔ p ≠ [] ∧ LeadsToPrototype above segments p := by
  induction segments generalizing above with
  | nil => simp [classPathsBelow, LeadsToPrototype]
  | cons s rest ih =>
    by_cases hs : s = prototype
    · subst hs
      rw [leadsToPrototype_prototype_cons, classPathsBelow, if_pos rfl]
      by_cases habove : above = []
      · subst habove
        rw [if_pos rfl, ih]
        constructor
        · rintro ⟨hp, h⟩
          exact ⟨hp, .inr h⟩
        · rintro ⟨hp, rfl | h⟩
          · exact absurd rfl hp
          · exact ⟨hp, h⟩
      · rw [if_neg habove, List.mem_cons, ih]
        constructor
        · rintro (rfl | ⟨hp, h⟩)
          · exact ⟨habove, .inl rfl⟩
          · exact ⟨hp, .inr h⟩
        · rintro ⟨hp, rfl | h⟩
          · exact .inl rfl
          · exact .inr ⟨hp, h⟩
    · rw [classPathsBelow_cons hs, leadsToPrototype_cons hs]
      exact ih

theorem prefix_of_mem_classPathsBelow {above segments p : List Text}
    (h : p ∈ classPathsBelow above segments) : p <+: above ++ nodePath segments := by
  obtain ⟨-, before, after, rfl, rfl⟩ := mem_classPathsBelow.1 h
  have hpath : nodePath (before ++ prototype :: after) = nodePath before ++ nodePath after := by
    simp [nodePath]
  rw [hpath, ← List.append_assoc]
  exact List.prefix_append ..

/-- Below a node every `prototype` makes a class. -/
theorem classPathsBelow_eq_nil_iff {above : List Text} (habove : above ≠ []) (segments : List Text) :
    classPathsBelow above segments = [] ↔ prototype ∉ segments := by
  induction segments generalizing above with
  | nil => simp [classPathsBelow]
  | cons s rest ih =>
    by_cases hs : s = prototype
    · subst hs
      simp [classPathsBelow, habove]
    · rw [classPathsBelow_cons hs, ih (by simp)]
      simp [Ne.symm hs]

theorem isMethod_iff (segments : List Text) :
    isMethod segments = true ↔ classPaths segments ≠ [] := by
  unfold classPaths
  induction segments with
  | nil => simp [isMethod, classPathsBelow]
  | cons s rest ih =>
    by_cases hs : s = prototype
    · subst hs
      have hskip : isMethod (prototype :: rest) = isMethod rest := by simp [isMethod]
      rw [hskip, ih, classPathsBelow, if_pos rfl, if_pos rfl]
    · have hkeep : isMethod (s :: rest) = (s :: rest).contains prototype := by simp [isMethod, hs]
      rw [hkeep, classPathsBelow_cons hs, ne_eq, classPathsBelow_eq_nil_iff (by simp)]
      simp [Ne.symm hs]

end Name

namespace Declaration

def toClass (d : Declaration) : Declaration :=
  if d.form.isCallable then { d with form := .classLike } else d

variable {d : Declaration}

theorem toClass_of_callable (h : d.form.isCallable = true) :
    d.toClass = { d with form := .classLike } := if_pos h

theorem toClass_of_not_callable (h : d.form.isCallable = false) : d.toClass = d := by
  rw [toClass, h, if_neg Bool.false_ne_true]

theorem toClass_toClass : d.toClass.toClass = d.toClass := by
  cases h : d.form.isCallable with
  | false => rw [toClass_of_not_callable h, toClass_of_not_callable h]
  | true =>
    rw [toClass_of_callable h]
    rfl

end Declaration

namespace DeclarationTree

def asClass : Option Declaration → Option Declaration
  | none => some { form := .classLike }
  | some d => some d.toClass

def assign : Option Declaration → Option Declaration → Option Declaration
  | none, old => old
  | some d, old => some (if old.any (·.form = .classLike) then d.toClass else d)

theorem makeClass_eq : makeClass = redeclare asClass := by
  funext t
  rcases t with ⟨_ | d, cs⟩ <;> rfl

theorem declare_eq (d : Declaration) : declare d = redeclare (assign (some d)) := by
  funext t
  obtain ⟨old, cs⟩ := t
  rw [declare, redeclare, assign, isClass, Declaration.toClass]
  cases h : old.any (·.form = .classLike) <;> simp [declared, children, h]

theorem redeclare_assign_none : redeclare (assign none) = id := by
  funext t
  cases t
  rfl

theorem asClass_asClass (old : Option Declaration) : asClass (asClass old) = asClass old := by
  cases old with
  | none => rfl
  | some d => exact congrArg some Declaration.toClass_toClass

def makeClasses (ps : List (List Text)) (t : DeclarationTree) : DeclarationTree :=
  ps.foldl (fun t p => changeDescendant makeClass p t) t

/-- What a function assigns to the last node of its name. A name that ends in `prototype` assigns
nothing. -/
def lastLeaf (leaf : DeclarationForm → Text → Declaration) (isMethod : Bool)
    (segments : List Text) : Option Declaration :=
  (segments.getLast?.filter (· ≠ Name.prototype)).map
    (leaf (if isMethod then .method else .function))

variable {leaf : DeclarationForm → Text → Declaration}

theorem lastLeaf_prototype_cons (isMethod : Bool) (rest : List Text) :
    lastLeaf leaf isMethod (Name.prototype :: rest) = lastLeaf leaf isMethod rest := by
  cases rest with
  | nil => simp [lastLeaf, Option.filter_some]
  | cons s rest => rw [lastLeaf, lastLeaf, List.getLast?_cons_cons]

theorem insertBelow_prototype_cons (atRoot isMethod : Bool) (rest : List Text) :
    insertBelow leaf atRoot isMethod (Name.prototype :: rest) =
      if atRoot then insertBelow leaf true isMethod rest
      else insertBelow leaf false true rest ∘ makeClass := by
  funext t
  rw [insertBelow.eq_def]
  cases atRoot <;> rfl

theorem insertBelow_singleton {s : Text} (hs : s ≠ Name.prototype) (atRoot isMethod : Bool) :
    insertBelow leaf atRoot isMethod [s] =
      changeDescendant (declare (leaf (if isMethod then .method else .function) s)) [s] := by
  funext t
  exact (insertBelow.eq_2 ..).trans (if_neg hs)

theorem insertBelow_cons_cons {s : Text} (hs : s ≠ Name.prototype) (atRoot isMethod : Bool) (r : Text)
    (rest : List Text) :
    insertBelow leaf atRoot isMethod (s :: r :: rest) =
      changeDescendant (insertBelow leaf false isMethod (r :: rest)) [s] := by
  funext t
  exact (insertBelow.eq_3 ..).trans (if_neg hs)

/-- A name is followed below a node: the nodes before a `prototype` become classes, and the last
node gets the leaf. -/
theorem insertBelow_eq (above : List Text) (isMethod : Bool) (segments : List Text)
    (t : DeclarationTree) :
    changeDescendant (insertBelow leaf above.isEmpty isMethod segments) above t =
      changeDescendant
        (redeclare (assign (lastLeaf leaf
          (isMethod || !(Name.classPathsBelow above segments).isEmpty) segments)))
        (above ++ Name.nodePath segments) (makeClasses (Name.classPathsBelow above segments) t) := by
  -- The path above grows with each node, and `isMethod` with the first class that is made.
  induction segments generalizing above isMethod t with
  | nil =>
    have hid : insertBelow leaf above.isEmpty isMethod [] = id := by
      funext t
      rfl
    rw [hid, lastLeaf, List.getLast?_nil, Option.filter_none, Option.map_none,
      redeclare_assign_none, Name.nodePath, List.filter_nil, List.append_nil]
    rfl
  | cons s rest ih =>
    by_cases hs : s = Name.prototype
    · subst hs
      rw [lastLeaf_prototype_cons, Name.nodePath_prototype_cons, Name.classPathsBelow, if_pos rfl]
      by_cases habove : above = []
      · subst habove
        rw [if_pos rfl, List.isEmpty_nil, insertBelow_prototype_cons]
        exact ih [] isMethod t
      · have hbelow : above.isEmpty = false := by simp [habove]
        have hrest := ih above true (changeDescendant makeClass above t)
        rw [hbelow] at hrest ⊢
        rw [if_neg habove, insertBelow_prototype_cons, if_neg Bool.false_ne_true,
          ← changeDescendant_changeDescendant, hrest]
        simp [makeClasses]
    · rw [Name.nodePath_cons hs, Name.classPathsBelow_cons hs]
      -- Only the last segment declares, so the end of the name is a case of its own.
      rcases rest with _ | ⟨r, rest⟩
      · rw [insertBelow_singleton hs, ← changeDescendant_append, declare_eq]
        simp [lastLeaf, Name.classPathsBelow, Name.nodePath, makeClasses, Option.filter_some, hs]
      · have hbelow : (above ++ [s]).isEmpty = false := by simp
        have hrest := ih (above ++ [s]) isMethod t
        rw [hbelow] at hrest
        have hleaf (m : Bool) : lastLeaf leaf m (s :: r :: rest) = lastLeaf leaf m (r :: rest) := by
          rw [lastLeaf, lastLeaf, List.getLast?_cons_cons]
        rw [insertBelow_cons_cons hs, ← changeDescendant_append, hrest, hleaf, List.append_assoc,
          List.singleton_append]

end DeclarationTree

end DocFlow
