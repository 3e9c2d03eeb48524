import Mathlib.Data.List.Induction
import DocFlow.Proofs.Documented.NameCongruence
import DocFlow.Proofs.Script.SameCode

namespace DocFlow

open Script

namespace Name

variable {source source' : Text}

theorem any_static_of_sameCode {n n' : Node} (same : sameCode source source' n n' = true) :
    n.children.any (·.isToken "static") = n'.children.any (·.isToken "static") := by
  have htokens : n.children.map (·.isToken "static") = n'.children.map (·.isToken "static") :=
    map_eq_map_of_forall₂ (fun _ _ h => isToken_eq_of_sameCode h.2 "static")
      (children_of_sameCode same)
  have h := congrArg (List.any · id) htokens
  rw [List.any_map, List.any_map] at h
  exact h

/-- The same code has the same names. -/
theorem isCongruence_sameCode :
    IsCongruence source source' fun n n' => sameCode source source' n n' = true where
  kind same := kind_eq_of_sameCode same
  word same _ := text_eq_of_sameCode same
  child same := child?_of_sameCode same
  property same _ := by
    rcases child?_of_sameCode same .property with ⟨h, h'⟩ | ⟨c, c', h, h', hproperty⟩
    · rw [h, h']
      rfl
    · rw [h, h', Option.map_some, Option.map_some, text_eq_of_sameCode hproperty]
  string same _ := fragments_of_forall₂ (children_of_sameCode same)
    (fun _ _ h => kind_eq_of_sameCode h.2) fun _ _ h _ => text_eq_of_sameCode h.2
  static same := any_static_of_sameCode same

/-- Nodes whose names do not depend on the nodes above them. -/
def standsAlone (n : Node) : Bool :=
  n.isType .expressionStatement || n.isType .variableDeclarator

theorem ofNode_standsAlone {n n' : Node} (same : sameCode source source' n n' = true)
    (halone : standsAlone n = true) (above above' : List Node) :
    ofNode source n above = ofNode source' n' above' := by
  have hkind := kind_eq_of_sameCode same
  simp only [standsAlone, Bool.or_eq_true, Node.isType, decide_eq_true_eq] at halone
  rw [ofNode.eq_def source, ofNode.eq_def source']
  dsimp only
  rw [← hkind]
  rcases halone with halone | halone
  · rw [halone]
  · rw [halone]
    exact isCongruence_sameCode.boundName same

/-- Nodes in the same place of the same code: below the roots `top` and `top'`, whatever is above
those. -/
inductive SamePlace (source source' : Text) (top top' : Node) (outer outer' : List Node) :
    Node → List Node → Node → List Node → Prop where
  | child {n n'} (same : sameCode source source' n n' = true)
    (noMethod : n.kind ≠ .named .methodDefinition) :
    SamePlace source source' top top' outer outer' n (top :: outer) n' (top' :: outer')
  | inside {n p above n' p' above'} (same : sameCode source source' n n' = true)
    (parent : SamePlace source source' top top' outer outer' p above p' above') :
    SamePlace source source' top top' outer outer' n (p :: above) n' (p' :: above')

section

variable {top top' : Node} {outer outer' : List Node}

theorem SamePlace.same {n n' : Node} {above above' : List Node}
    (h : SamePlace source source' top top' outer outer' n above n' above') :
    sameCode source source' n n' = true := by
  cases h with
  | child same => exact same
  | inside same => exact same

/-- Below a root that stands alone the names are the same, and so are those of the parents, which
is what methods ask for. -/
theorem SamePlace.names {n n' : Node} {above above' : List Node}
    (h : SamePlace source source' top top' outer outer' n above n' above')
    (same : sameCode source source' top top' = true) (halone : standsAlone top = true) :
    ofNode source n above = ofNode source' n' above' ∧
      ofAbove source above = ofAbove source' above' := by
  have htop := ofNode_standsAlone same halone outer outer'
  induction h with
  | child hn noMethod =>
    have hname := isCongruence_sameCode.ofNode_cons hn same htop fun h => absurd h noMethod
    exact ⟨hname, htop⟩
  | inside hn parent ih =>
    have hname := isCongruence_sameCode.ofNode_cons hn parent.same ih.1 fun _ => ih.2
    exact ⟨hname, ih.1⟩

end

/-- A path inside of a node leads to the same place of the same code. -/
theorem exists_samePlace {s : Place} (s' : Place)
    (same : sameCode source source' s.node s'.node = true)
    (noMethod : ∀ c ∈ s.node.children, c.kind ≠ .named .methodDefinition) {path : List Nat}
    (hinside : path ≠ []) {p : Place} (hp : s.descend? path = some p) :
    ∃ p', s'.descend? path = some p' ∧
      SamePlace source source' s.node s'.node s.above s'.above p.node p.above p'.node p'.above := by
  -- From the top down: one more child at the end of the path is one more step of the places.
  induction path using List.reverseRecOn generalizing p with
  | nil => exact absurd rfl hinside
  | append_singleton path i ih =>
    rw [Place.descend?_concat] at hp ⊢
    obtain ⟨q, hq, hchild⟩ := Option.bind_eq_some_iff.1 hp
    have habove := Place.above_of_mem_children (List.mem_of_getElem? hchild)
    by_cases hpath : path = []
    · subst hpath
      cases hq
      obtain ⟨p', hp', hsame⟩ := exists_child_of_sameCode same hchild
      have hmem : p.node ∈ s.node.children := by
        rw [← Place.map_node_children]
        exact List.mem_map_of_mem (List.mem_of_getElem? hchild)
      have habove' := Place.above_of_mem_children (List.mem_of_getElem? hp')
      refine ⟨p', hp', ?_⟩
      rw [habove, habove']
      exact .child hsame (noMethod p.node hmem)
    · obtain ⟨q', hq', hplace⟩ := ih hpath hq
      obtain ⟨p', hp', hsame⟩ := exists_child_of_sameCode hplace.same hchild
      have habove' := Place.above_of_mem_children (List.mem_of_getElem? hp')
      rw [hq', Option.bind_some]
      refine ⟨p', hp', ?_⟩
      rw [habove, habove']
      exact .inside hsame hplace

/-- Two outcomes of naming that differ in the place that an error reports at most. -/
inductive SameOutcome : Except Error Text → Except Error Text → Prop where
  | named (name : Text) : SameOutcome (.ok name) (.ok name)
  | unresolvable (kind : String) (line line' : Nat) (path path' : Text) :
    SameOutcome (.error (.unresolvableName kind line path))
      (.error (.unresolvableName kind line' path'))

theorem sameOutcome_of_ofNode {d d' : Document} {p p' : Place} (hkind : p.node.kind = p'.node.kind)
    (hname : ofNode d.source.content p.node p.above = ofNode d'.source.content p'.node p'.above) :
    SameOutcome (d.nameOf p) (d'.nameOf p') := by
  rw [Document.nameOf, Document.nameOf, ← hname, ← hkind]
  cases ofNode d.source.content p.node p.above with
  | none => exact .unresolvable ..
  | some name =>
    cases name with
    | nil => exact .unresolvable ..
    | cons c name => exact .named _

/-- The name of what is inside of a statement or of a declarator is that from the nodes up to it
alone, and it is the same wherever the same code stands. Where one cannot be named, neither can the
other. -/
theorem nameOf_inside (d d' : Document) {s s' : Place}
    (same : sameCode d.source.content d'.source.content s.node s'.node = true)
    (halone : standsAlone s.node = true)
    (noMethod : ∀ c ∈ s.node.children, c.kind ≠ .named .methodDefinition) {path : List Nat}
    (hinside : path ≠ []) {p : Place} (hp : s.descend? path = some p) :
    d.nameOf p = d.nameOf { p with above := p.above.take path.length } ∧
      ∃ p', s'.descend? path = some p' ∧ SameOutcome (d.nameOf p) (d'.nameOf p') := by
  constructor
  · have habove := Place.descend?_above path { s with above := [] } s.above
    rw [List.nil_append, hp] at habove
    obtain ⟨q, hq, rfl⟩ := Option.map_eq_some_iff.1 habove.symm
    have hlength := Place.length_above hq
    have htake : (q.above ++ s.above).take path.length = q.above := by
      rw [List.length_nil, Nat.zero_add] at hlength
      rw [← hlength, List.take_left]
    obtain ⟨q', hq', hplace⟩ := exists_samePlace { s with above := [] }
      (sameCode_refl d.source.content s.node) noMethod hinside hp
    obtain rfl := Option.some.inj (hq.symm.trans hq')
    have hname := (hplace.names (sameCode_refl _ _) halone).1
    rw [htake, Document.nameOf, Document.nameOf, hname]
  · obtain ⟨p', hp', hplace⟩ := exists_samePlace s' same noMethod hinside hp
    have hname := (hplace.names same halone).1
    exact ⟨p', hp', sameOutcome_of_ofNode (kind_eq_of_sameCode hplace.same) hname⟩

/-- A method of an object in a method of a class is named as if the object stood on its own. -/
theorem nameOf_inside_static_method :
    ∃ d d' s s' p p',
      Document.ofSource ⟨"a.b={c(){}};".toList, [], "js".toList, "utf-8".toList⟩ = .ok d ∧
      Document.ofSource ⟨"class K{static m(){a.b={c(){}};}}".toList, [], "js".toList,
        "utf-8".toList⟩ = .ok d' ∧
      (Place.root d.root).descend? [0] = some s ∧
      (Place.root d'.root).descend? [0, 2, 1, 3, 1] = some s' ∧
      s.descend? [0, 2, 1] = some p ∧ s'.descend? [0, 2, 1] = some p' ∧
      SameOutcome (d.nameOf p) (d'.nameOf p') ∧ d'.nameOf p' = .ok "a.b.c".toList := by
  generalize hs : (Source.mk "a.b={c(){}};".toList [] "js".toList "utf-8".toList) = source
  generalize hs' : (Source.mk "class K{static m(){a.b={c(){}};}}".toList [] "js".toList
    "utf-8".toList) = source'
  have read : ((Document.ofSource source).toOption.bind fun d =>
      (Document.ofSource source').toOption.bind fun d' =>
      ((Place.root d.root).descend? [0]).bind fun s =>
      ((Place.root d'.root).descend? [0, 2, 1, 3, 1]).bind fun s' =>
      (s.descend? [0, 2, 1]).bind fun p =>
      (s'.descend? [0, 2, 1]).map fun p' =>
        (sameCode d.source.content d'.source.content s.node s'.node, standsAlone s.node,
          s.node.children.all fun c => c.kind ≠ .named .methodDefinition,
          (d'.nameOf p').toOption)) = some (true, true, true, some "a.b.c".toList) := by
    subst hs hs'
    decide +kernel
  obtain ⟨d, hd, h⟩ := Option.bind_eq_some_iff.1 read
  obtain ⟨d', hd', h⟩ := Option.bind_eq_some_iff.1 h
  obtain ⟨s, hs, h⟩ := Option.bind_eq_some_iff.1 h
  obtain ⟨s', hs', h⟩ := Option.bind_eq_some_iff.1 h
  obtain ⟨p, hp, h⟩ := Option.bind_eq_some_iff.1 h
  obtain ⟨p', hp', h⟩ := Option.map_eq_some_iff.1 h
  obtain ⟨same, halone, hmethods, hname⟩ : _ ∧ _ ∧ _ ∧ _ := by
    simpa only [Prod.mk.injEq] using h
  have noMethod : ∀ c ∈ s.node.children, c.kind ≠ .named .methodDefinition := by
    intro c hc
    exact of_decide_eq_true (List.all_eq_true.1 hmethods c hc)
  have hinside : [0, 2, 1] ≠ [] := List.cons_ne_nil _ _
  obtain ⟨q', hq', houtcome⟩ := (nameOf_inside d d' same halone noMethod hinside hp).2
  obtain rfl := Option.some.inj (hp'.symm.trans hq')
  exact ⟨d, d', s, s', p, p', eq_ok_of_toOption hd, eq_ok_of_toOption hd', hs, hs', hp, hp',
    houtcome, eq_ok_of_toOption hname⟩

end Name

end DocFlow
