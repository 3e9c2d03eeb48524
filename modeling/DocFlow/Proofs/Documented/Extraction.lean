import DocFlow.Documented.Find
import DocFlow.Documented.Parameter
import DocFlow.Proofs.Documented.HiddenLiteral
import DocFlow.Proofs.Documented.NameScope

namespace DocFlow

open Script

namespace Script.Node

theorem isWord_of_isIdentifier {n : Node} (h : Name.isIdentifier n = true) : n.isWord = true := by
  rw [Name.isIdentifier] at h
  split at h
  case h_6 => cases h
  all_goals
    next hkind =>
      rw [isWord, hkind]
      rfl

namespace Commented

variable {source source' : Text}

theorem any_static {n n' : Node} (h : Commented source source' n n') :
    n.children.any (·.isToken "static") = n'.children.any (·.isToken "static") := by
  have hcode : ∀ n : Node, n.children.any (·.isToken "static") =
      (n.codeChildren.find? (·.isToken "static")).isSome := by
    intro n
    rw [Node.codeChildren, find?_filter_of_imp, List.isSome_find?]
    intro c _ htoken
    rw [Node.isComment, Node.isType, of_decide_eq_true htoken]
    rfl
  rw [hcode, hcode]
  rcases find?_of_forall₂ (fun c c' hc => hc.2.isToken "static") h.codeChildren with
    ⟨hnone, hnone'⟩ | ⟨c, c', hc, hc', -⟩
  · rw [hnone, hnone']
  · rw [hc, hc']
    rfl

/-- A tree with comments has the names that it had without them. -/
theorem isCongruence : Name.IsCongruence source source' (Commented source source') where
  kind h := h.kind
  word h hword := by
    rcases hword with hword | hnumber
    · exact h.text (isWord_of_isIdentifier hword)
    · exact h.text_of_isType hnumber rfl
  child h := h.child?
  property {n n'} h hmember := by
    rcases h.child? .property with ⟨hnone, hnone'⟩ | ⟨c, c', hc, hc', hproperty⟩
    · rw [hnone, hnone']
      rfl
    · have hword := isWord_of_property (fitsGrammar_of_followsGrammar h.grammar) hmember hc
      rw [hc, hc', Option.map_some, Option.map_some, hproperty.text hword]
  string h hstring := Name.fragments_of_forall₂ (h.stringChildren hstring) (fun _ _ hc => hc.kind)
    fun _ _ hc hfragment => hc.text_of_isType hfragment rfl
  static h := h.any_static

end Commented

end Script.Node

namespace Documented

variable {source source' : Text}

def candidate? (p : Place) : Option Place :=
  match p.node.kind with
  | .named .functionDeclaration | .named .generatorFunctionDeclaration
  | .named .methodDefinition => some p
  | .named .pair => p.child? .value
  | .named .returnStatement => returnedValue? p
  | _ => valuePlace? p

theorem functionPlace?_eq (p : Place) :
    functionPlace? p = (candidate? p).filter (isFunction ·.node) := rfl

theorem assignedValue?_eq {p : Place}
    (hnamed : ∀ c, p.children.head? = some c → c.node.isNamed = true) :
    assignedValue? p = p.children.head?.bind fun e =>
      if e.node.isType .assignmentExpression then e.child? .right else none := by
  rw [assignedValue?, Place.namedChildren]
  cases hcs : p.children with
  | nil => rfl
  | cons c cs =>
    rw [List.filter_cons, hnamed c (by rw [hcs]; rfl)]
    rfl

section

variable {p p' : Place} (h : Place.Commented source source' p p')
include h

/-- A statement starts with its expression, so no comment comes before that. -/
theorem assignedValue?_commented (hstatement : p.node.isType .expressionStatement = true) :
    Option.Rel (Place.SameCodePath p p') (assignedValue? p) (assignedValue? p') := by
  have hnamed : ∀ c, p.children.head? = some c → c.node.isNamed = true := by
    intro c hc
    rw [Place.head?_children_eq] at hc
    obtain ⟨n, hn, rfl⟩ := Option.map_eq_some_iff.1 hc
    exact Node.isNamed_of_head? (Node.fitsGrammar_of_followsGrammar h.node.grammar) hstatement hn
  have hfirst := h.head?_children
  have hnamed' : ∀ c, p'.children.head? = some c → c.node.isNamed = true := by
    intro c' hc'
    cases hc : p.children.head? with
    | none =>
      rw [hc, hc'] at hfirst
      cases hfirst
    | some c =>
      rw [hc, hc'] at hfirst
      have hnode := (Option.rel_some_some.1 hfirst).1.node
      exact hnode.isNamed.symm.trans (hnamed c hc)
  rw [assignedValue?_eq hnamed, assignedValue?_eq hnamed']
  refine rel_bind hfirst ?_
  rintro c c' ⟨hc, hpath⟩
  rw [hc.node.isType]
  split
  · next hassignment =>
    have hcode := Node.isComment_of_isType hassignment (by decide)
    exact h.child?_below (hpath (hc.node.isComment.trans hcode)) .right
  · exact .none

theorem declaredValue?_commented :
    Option.Rel (Place.SameCodePath p p') (declaredValue? p) (declaredValue? p') := by
  have hdiffers : NodeType.variableDeclarator ≠ .comment := by decide
  rw [declaredValue?, declaredValue?, ← p.find?_isType_codeChildren hdiffers,
    ← p'.find?_isType_codeChildren hdiffers]
  have hdeclarator := h.find?_codeChildren fun _ _ _ hc => hc.node.isType .variableDeclarator
  exact rel_bind hdeclarator fun _ _ hc => h.child?_below hc .value

theorem returnedValue?_commented :
    Option.Rel (Place.SameCodePath p p') (returnedValue? p) (returnedValue? p') := by
  have hcode : ∀ q : Place, returnedValue? q = q.codeChildren.find? (·.node.isNamed) := by
    intro q
    rw [returnedValue?, Place.namedChildren, Place.codeChildren, List.find?_filter,
      List.find?_filter]
    congr 1
    funext c
    rw [decide_eq_decide, and_comm]
  rw [hcode, hcode]
  exact h.find?_codeChildren fun _ _ _ hc => hc.node.isNamed

theorem valuePlace?_commented :
    Option.Rel (Place.SameCodePath p p') (valuePlace? p) (valuePlace? p') := by
  rw [valuePlace?, valuePlace?, ← h.node.kind]
  split
  · next hkind => exact assignedValue?_commented h (decide_eq_true hkind)
  · exact declaredValue?_commented h
  · exact declaredValue?_commented h
  · exact .none

theorem candidate?_commented :
    Option.Rel (Place.SameCodePath p p') (candidate? p) (candidate? p') := by
  have hself : Place.SameCodePath p p' p p' := ⟨[], rfl, rfl⟩
  rw [candidate?, candidate?, ← h.node.kind]
  split
  · exact .some hself
  · exact .some hself
  · exact .some hself
  · exact h.child? .value
  · exact returnedValue?_commented h
  · exact valuePlace?_commented h

theorem functionPlace?_commented :
    Option.Rel (Place.SameCodePath p p') (functionPlace? p) (functionPlace? p') := by
  rw [functionPlace?_eq, functionPlace?_eq]
  refine rel_filter (candidate?_commented h) fun q q' hq => ?_
  rw [isFunction, isFunction, (h.of_sameCodePath hq).node.kind]

theorem enumPlace?_commented :
    Option.Rel (Place.SameCodePath p p') (enumPlace? p) (enumPlace? p') :=
  rel_filter (valuePlace?_commented h) fun _ _ hq => (h.of_sameCodePath hq).node.isType .object

end

end Documented

namespace Parameter

variable {source source' : Text}

/-- Parameters of one name, with anchors at one path below their functions. -/
structure SameSlot (p p' : Place) (slot slot' : Parameter) : Prop where
  name : slot.name = slot'.name
  anchor : ∃ q q', Place.SameCodePath p p' q q' ∧ q.node = slot.anchor ∧ q'.node = slot'.anchor

theorem ofFunction_eq (source : Text) (p : Place) :
    ofFunction source p.node = (p.child? .parameters).elim [] fun list =>
      (list.codeChildren.filter (·.node.isNamed)).map fun q => ofNode source q.node := by
  rw [ofFunction, ← Place.node_child?]
  cases p.child? .parameters with
  | none => rfl
  | some list =>
    have hcode : list.node.namedChildren.filter (!·.isComment) =
        (list.codeChildren.filter (·.node.isNamed)).map Place.node := by
      rw [← Place.map_node_namedChildren, List.filter_map, Place.namedChildren, Place.codeChildren,
        List.filter_filter, List.filter_filter]
      congr 1
      apply List.filter_congr
      intro q _
      exact Bool.and_comm _ _
    rw [Option.map_some, Option.elim_some]
    dsimp only
    rw [hcode, List.map_map]
    rfl

theorem restName_commented {n n' : Node} (h : Node.Commented source source' n n') :
    (n.children.find? (·.isType .identifier)).map (·.text source) =
      (n'.children.find? (·.isType .identifier)).map (·.text source') := by
  have hdiffers : NodeType.identifier ≠ .comment := by decide
  rw [← n.find?_isType_codeChildren hdiffers, ← n'.find?_isType_codeChildren hdiffers]
  rcases find?_of_forall₂ (fun c c' hc => hc.2.isType .identifier) h.codeChildren with
    ⟨hnone, hnone'⟩ | ⟨c, c', hc, hc', -, hidentifier⟩
  · rw [hnone, hnone']
    rfl
  · have htype : c.isType .identifier = true :=
      List.find?_some (p := fun c : Node => c.isType .identifier) hc
    rw [hc, hc', Option.map_some, Option.map_some, hidentifier.text_of_isType htype rfl]

theorem ofPattern_commented {p p' q q' : Place} (hq : Place.SameCodePath p p' q q') :
    SameSlot p p' (ofPattern source q.node) (ofPattern source' q'.node) :=
  ⟨rfl, q, q', hq, rfl, rfl⟩

section

variable {p p' : Place} (h : Place.Commented source source' p p')
include h

theorem ofIdentifier_commented {q q' : Place} (hq : Place.SameCodePath p p' q q')
    (hidentifier : q.node.isType .identifier = true) :
    SameSlot p p' (ofIdentifier source q.node) (ofIdentifier source' q'.node) :=
  ⟨congrArg some ((h.of_sameCodePath hq).node.text_of_isType hidentifier rfl), q, q', hq, rfl, rfl⟩

theorem ofNode_commented {q q' : Place} (hq : Place.SameCodePath p p' q q') :
    SameSlot p p' (ofNode source q.node) (ofNode source' q'.node) := by
  have hnode := (h.of_sameCodePath hq).node
  rw [ofNode, ofNode, ← hnode.kind]
  split
  · next hidentifier => exact ofIdentifier_commented h hq (decide_eq_true hidentifier)
  · rw [← Place.node_child?, ← Place.node_child?]
    have hleft := h.child?_below hq .left
    generalize q.child? .left = l at hleft
    generalize q'.child? .left = l' at hleft
    cases hleft with
    | none => exact ofPattern_commented hq
    | @some l l' hl =>
      simp only [Option.map_some]
      rw [← (h.of_sameCodePath hl).node.isType]
      split
      · next hidentifier => exact ofIdentifier_commented h hl hidentifier
      · exact ofPattern_commented hq
  · exact ⟨restName_commented hnode, q, q', hq, rfl, rfl⟩
  · exact ofPattern_commented hq

theorem ofFunction_commented :
    List.Forall₂ (SameSlot p p') (ofFunction source p.node) (ofFunction source' p'.node) := by
  rw [ofFunction_eq, ofFunction_eq]
  have hlist := h.child? .parameters
  generalize p.child? .parameters = l at hlist
  generalize p'.child? .parameters = l' at hlist
  cases hlist with
  | none => exact .nil
  | @some l l' hl =>
    rw [Option.elim_some, Option.elim_some, List.forall₂_map_left_iff, List.forall₂_map_right_iff]
    have hcode := (h.of_sameCodePath hl).codeChildren.imp fun _ _ hq => hq.2.1
    have hnamed : ∀ {q q' : Place}, Place.SameCodePath l l' q q' →
        (q.node.isNamed = true ↔ q'.node.isNamed = true) := by
      intro q q' hq
      rw [(h.of_sameCodePath (hl.trans hq)).node.isNamed]
    exact (List.rel_filter (fun _ _ hq => hnamed hq) hcode).imp fun _ _ hq =>
      ofNode_commented h (hl.trans hq)

end

end Parameter

/-- What is taken from a place of a document, and from the same place of one with comments: the same
nodes, parameters and name, and the literals that are not hidden. -/
structure SameExtraction (d d' : Document) (p p' : Place) : Prop where
  candidate : Option.Rel (Place.SameCodePath p p') (Documented.candidate? p)
    (Documented.candidate? p')
  value : Option.Rel (Place.SameCodePath p p') (Documented.valuePlace? p)
    (Documented.valuePlace? p')
  function : Option.Rel (Place.SameCodePath p p') (Documented.functionPlace? p)
    (Documented.functionPlace? p')
  object : Option.Rel (Place.SameCodePath p p') (Documented.enumPlace? p) (Documented.enumPlace? p')
  parameters : List.Forall₂ (Parameter.SameSlot p p')
    (Parameter.ofFunction d.source.content p.node) (Parameter.ofFunction d'.source.content p'.node)
  literals : Literal.ofProperties d'.source.content p'.node.children =
    readAll (fun v => Literal.ofNode d.source.content v.1)
      ((Literal.valuePairs p.node p'.node).filter fun v => !Literal.isHidden v.2)
  allLiterals : ∀ values, Literal.ofProperties d.source.content p.node.children = .ok values →
    (Literal.ofProperties d'.source.content p'.node.children = .ok values ↔
      ∀ v ∈ Literal.valuePairs p.node p'.node, Literal.isHidden v.2 = true →
        Literal.ofNode d.source.content v.1 = .ok none)
  name : Name.SameOutcome (d.nameOf p) (d'.nameOf p')

theorem sameExtraction_of_commented {d d' : Document} {p p' : Place}
    (h : Place.Commented d.source.content d'.source.content p p') : SameExtraction d d' p p' where
  candidate := Documented.candidate?_commented h
  value := Documented.valuePlace?_commented h
  function := Documented.functionPlace?_commented h
  object := Documented.enumPlace?_commented h
  parameters := Parameter.ofFunction_commented h
  literals := Literal.ofProperties_commented h.node
  allLiterals _ := Literal.ofProperties_commented_eq_ok_iff h.node
  name := Name.sameOutcome_of_ofNode h.node.kind
    (Node.Commented.isCongruence.ofNode_of_forall₂ h.node h.above).1

/-- Comments inside of constructs change nothing that is taken from them, but for the literals that
they hide. The same paths lead to the same places, and the same is taken from these. -/
theorem Document.extraction_with_comments (d d' : Document)
    (grammar : d.root.followsGrammar = true)
    (comments : gainsComments d.source.content d'.source.content d.root d'.root = true)
    (path : List Nat) :
    Option.Rel (SameExtraction d d') ((Place.root d.root).descendCode? path)
      ((Place.root d'.root).descendCode? path) := by
  have hroot : Place.Commented d.source.content d'.source.content (Place.root d.root)
      (Place.root d'.root) := ⟨⟨grammar, comments⟩, .nil⟩
  exact rel_mono (fun _ _ => sameExtraction_of_commented) (hroot.descendCode? path)

/-- An object with comments behind its name, before a value and at the end of parentheses. -/
theorem Document.extraction_with_comments_in_object :
    ∃ d d' p p',
      Document.ofSource ⟨"e={a:1,b:(2)};".toList, [], "js".toList, "utf-8".toList⟩ = .ok d ∧
      Document.ofSource ⟨"e/*x*/={a:/*y*/1,b:(2/*z*/)};".toList, [], "js".toList,
        "utf-8".toList⟩ = .ok d' ∧
      (Place.root d.root).descendCode? [0, 0, 2] = some p ∧
      (Place.root d'.root).descendCode? [0, 0, 2] = some p' ∧ SameExtraction d d' p p' ∧
      d'.nameOf p' = .ok "e".toList ∧
      Literal.ofProperties d'.source.content p'.node.children = .ok [.integer 1, .integer 2] := by
  generalize hs : (Source.mk "e={a:1,b:(2)};".toList [] "js".toList "utf-8".toList) = source
  generalize hs' : (Source.mk "e/*x*/={a:/*y*/1,b:(2/*z*/)};".toList [] "js".toList
    "utf-8".toList) = source'
  have read : ((Document.ofSource source).toOption.bind fun d =>
      (Document.ofSource source').toOption.bind fun d' =>
      ((Place.root d.root).descendCode? [0, 0, 2]).bind fun p =>
      ((Place.root d'.root).descendCode? [0, 0, 2]).map fun p' =>
        (d.root.followsGrammar && (Literal.valuePairs p.node p'.node).all fun v =>
            !Literal.isHidden v.2,
          gainsComments d.source.content d'.source.content d.root d'.root, (d.nameOf p).toOption,
          (Literal.ofProperties d.source.content p.node.children).toOption)) =
      some (true, true, some "e".toList, some [.integer 1, .integer 2]) := by
    subst hs hs'
    decide +kernel
  obtain ⟨d, hd, h⟩ := Option.bind_eq_some_iff.1 read
  obtain ⟨d', hd', h⟩ := Option.bind_eq_some_iff.1 h
  obtain ⟨p, hp, h⟩ := Option.bind_eq_some_iff.1 h
  obtain ⟨p', hp', h⟩ := Option.map_eq_some_iff.1 h
  obtain ⟨⟨grammar, hshown⟩, comments, hname, hvalues⟩ : (_ ∧ _) ∧ _ ∧ _ ∧ _ := by
    simpa only [Prod.mk.injEq, Bool.and_eq_true] using h
  have hsame := Document.extraction_with_comments d d' grammar comments [0, 0, 2]
  rw [hp, hp', Option.rel_some_some] at hsame
  have hname' : d'.nameOf p' = .ok "e".toList := by
    have houtcome := hsame.name
    rw [eq_ok_of_toOption hname] at houtcome
    generalize d'.nameOf p' = outcome at houtcome
    cases houtcome
    rfl
  have hvalues' := (hsame.allLiterals _ (eq_ok_of_toOption hvalues)).2 fun v hv hhidden => by
    have hvisible := List.all_eq_true.1 hshown v hv
    rw [hhidden] at hvisible
    cases hvisible
  exact ⟨d, d', p, p', eq_ok_of_toOption hd, eq_ok_of_toOption hd', hp, hp', hsame, hname',
    hvalues'⟩

/-- A comment in front of a literal in parentheses takes it from the values. -/
theorem Document.literal_behind_comment :
    ∃ d d' p p',
      Document.ofSource ⟨"e={a:(1)};".toList, [], "js".toList, "utf-8".toList⟩ = .ok d ∧
      Document.ofSource ⟨"e={a:(/*x*/1)};".toList, [], "js".toList, "utf-8".toList⟩ = .ok d' ∧
      gainsComments d.source.content d'.source.content d.root d'.root = true ∧
      (Place.root d.root).descendCode? [0, 0, 2] = some p ∧
      (Place.root d'.root).descendCode? [0, 0, 2] = some p' ∧
      Literal.ofProperties d.source.content p.node.children = .ok [.integer 1] ∧
      Literal.ofProperties d'.source.content p'.node.children = .ok [] := by
  generalize hs : (Source.mk "e={a:(1)};".toList [] "js".toList "utf-8".toList) = source
  generalize hs' : (Source.mk "e={a:(/*x*/1)};".toList [] "js".toList "utf-8".toList) = source'
  have read : ((Document.ofSource source).toOption.bind fun d =>
      (Document.ofSource source').toOption.bind fun d' =>
      ((Place.root d.root).descendCode? [0, 0, 2]).bind fun p =>
      ((Place.root d'.root).descendCode? [0, 0, 2]).map fun p' =>
        (gainsComments d.source.content d'.source.content d.root d'.root,
          (Literal.ofProperties d.source.content p.node.children).toOption,
          (Literal.ofProperties d'.source.content p'.node.children).toOption)) =
      some (true, some [.integer 1], some []) := by
    subst hs hs'
    decide +kernel
  obtain ⟨d, hd, h⟩ := Option.bind_eq_some_iff.1 read
  obtain ⟨d', hd', h⟩ := Option.bind_eq_some_iff.1 h
  obtain ⟨p, hp, h⟩ := Option.bind_eq_some_iff.1 h
  obtain ⟨p', hp', h⟩ := Option.map_eq_some_iff.1 h
  obtain ⟨comments, hvalues, hvalues'⟩ : _ ∧ _ ∧ _ := by
    simpa only [Prod.mk.injEq] using h
  exact ⟨d, d', p, p', eq_ok_of_toOption hd, eq_ok_of_toOption hd', comments, hp, hp',
    eq_ok_of_toOption hvalues, eq_ok_of_toOption hvalues'⟩

end DocFlow
