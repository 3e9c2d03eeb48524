import DocFlow.Documented.Find
import DocFlow.Proofs.Outcome
import DocFlow.Proofs.Documented.CommentRun
import DocFlow.Source.Basic

namespace DocFlow

open Script

namespace Script.Node

def isDeclaration (n : Node) : Bool :=
  match n.kind with
  | .named .functionDeclaration | .named .generatorFunctionDeclaration
  | .named .methodDefinition => true
  | _ => false

/-- The child that stands as a value: the right side of an assignment, the value of a declarator or
of a property, or what is returned. -/
def value? (n : Node) : Option Node :=
  match n.kind with
  | .named .assignmentExpression => n.child? .right
  | .named .variableDeclarator | .named .pair => n.child? .value
  | .named .returnStatement => n.namedChildren.find? (!·.isComment)
  | _ => none

mutual

def valuesAreExpressions : Node → Bool
  | .mk k r s e cs =>
    (value? (.mk k r s e cs)).all (!·.isDeclaration) && allValuesAreExpressions cs

def allValuesAreExpressions : List Node → Bool
  | [] => true
  | n :: rest => n.valuesAreExpressions && allValuesAreExpressions rest

end

theorem isDeclaration_of_value? {n v : Node} (h : n.valuesAreExpressions = true)
    (hv : n.value? = some v) : v.isDeclaration = false := by
  obtain ⟨k, r, s, e, cs⟩ := n
  rw [valuesAreExpressions, hv] at h
  have hfirst := (Bool.and_eq_true_iff.1 h).1
  simpa using hfirst

theorem valuesAreExpressions_of_mem {cs : List Node} (h : allValuesAreExpressions cs = true)
    {c : Node} (hc : c ∈ cs) : c.valuesAreExpressions = true := by
  induction cs with
  | nil => cases hc
  | cons n cs ih =>
    rw [allValuesAreExpressions, Bool.and_eq_true] at h
    rcases List.mem_cons.1 hc with rfl | hc
    · exact h.1
    · exact ih h.2 hc

theorem valuesAreExpressions_of_child {n : Node} (h : n.valuesAreExpressions = true) {c : Node}
    (hc : c ∈ n.children) : c.valuesAreExpressions = true := by
  obtain ⟨k, r, s, e, cs⟩ := n
  rw [valuesAreExpressions, Bool.and_eq_true] at h
  exact valuesAreExpressions_of_mem h.2 hc

end Script.Node

namespace Documented

inductive Carries (p : Place) : Place → Prop where
  | itself (declared : p.node.isDeclaration = true) : Carries p p
  | child {q : Place} (kind : p.node.isType .pair = true ∨ p.node.isType .returnStatement = true)
    (below : q ∈ p.children) (value : p.node.value? = some q.node) : Carries p q
  | grandchild {e q : Place} (visible : p.node.isComment = false)
    (kind : e.node.isType .assignmentExpression = true ∨ e.node.isType .variableDeclarator = true)
    (above : e ∈ p.children) (below : q ∈ e.children) (value : e.node.value? = some q.node) :
    Carries p q

theorem value?_of_child? {p q : Place} {r : Role} (h : p.child? r = some q)
    (hvalue : p.node.value? = p.node.child? r) : p.node.value? = some q.node := by
  rw [hvalue, ← Place.node_child?, h]
  rfl

theorem carries_assigned {p q : Place} (visible : p.node.isComment = false)
    (h : assignedValue? p = some q) : Carries p q := by
  unfold assignedValue? at h
  split at h
  · next e rest hnamed =>
    split at h
    · next hkind =>
      have hmem : e ∈ p.namedChildren := by
        rw [hnamed]
        exact List.mem_cons_self
      have hvalue : e.node.value? = e.node.child? .right := by
        rw [Node.isType, decide_eq_true_eq] at hkind
        rw [Node.value?, hkind]
      exact .grandchild visible (.inl hkind) (List.mem_of_mem_filter hmem)
        (Place.mem_children_of_child? h) (value?_of_child? h hvalue)
    · cases h
  · cases h

theorem carries_declared {p q : Place} (visible : p.node.isComment = false)
    (h : declaredValue? p = some q) : Carries p q := by
  obtain ⟨e, he, hq⟩ := Option.bind_eq_some_iff.1 h
  have hkind : e.node.isType .variableDeclarator = true :=
    List.find?_some (p := fun c : Place => c.node.isType .variableDeclarator) he
  have hvalue : e.node.value? = e.node.child? .value := by
    rw [Node.isType, decide_eq_true_eq] at hkind
    rw [Node.value?, hkind]
  exact .grandchild visible (.inr hkind) (List.mem_of_find?_eq_some he)
    (Place.mem_children_of_child? hq) (value?_of_child? hq hvalue)

theorem carries_returned {p q : Place} (hkind : p.node.kind = .named .returnStatement)
    (h : returnedValue? p = some q) : Carries p q := by
  have hvalue : p.node.value? = some q.node := by
    rw [Node.value?, hkind]
    dsimp only
    rw [← Place.map_node_namedChildren, List.find?_map]
    exact congrArg (Option.map Place.node) h
  have hstatement : p.node.isType .returnStatement = true := by
    rw [Node.isType, hkind]
    rfl
  exact .child (.inr hstatement) (List.mem_of_mem_filter (List.mem_of_find?_eq_some h)) hvalue

theorem carries_value {p q : Place} (h : valuePlace? p = some q) : Carries p q := by
  unfold valuePlace? at h
  split at h
  · next hkind => exact carries_assigned (by rw [Node.isComment, Node.isType, hkind]; rfl) h
  · next hkind => exact carries_declared (by rw [Node.isComment, Node.isType, hkind]; rfl) h
  · next hkind => exact carries_declared (by rw [Node.isComment, Node.isType, hkind]; rfl) h
  · cases h

theorem carries_property {p q : Place} (hkind : p.node.kind = .named .pair)
    (h : p.child? .value = some q) : Carries p q := by
  have hpair : p.node.isType .pair = true := by
    rw [Node.isType, hkind]
    rfl
  have hvalue : p.node.value? = p.node.child? .value := by
    rw [Node.value?, hkind]
  exact .child (.inl hpair) (Place.mem_children_of_child? h) (value?_of_child? h hvalue)

theorem carries_function {p q : Place} (h : functionPlace? p = some q) : Carries p q := by
  obtain ⟨h, -⟩ := Option.filter_eq_some_iff.1 h
  split at h
  · next hkind =>
    cases h
    exact .itself (by rw [Node.isDeclaration, hkind])
  · next hkind =>
    cases h
    exact .itself (by rw [Node.isDeclaration, hkind])
  · next hkind =>
    cases h
    exact .itself (by rw [Node.isDeclaration, hkind])
  · next hkind => exact carries_property hkind h
  · next hkind => exact carries_returned hkind h
  · exact carries_value h

theorem carries_object {p q : Place} (h : enumPlace? p = some q) : Carries p q :=
  carries_value (Option.filter_eq_some_iff.1 h).1

/-- What a node carries is at the end of a path below it. -/
theorem Carries.exists_path {p q : Place} (h : Carries p q) : ∃ below, p.descend? below = some q := by
  cases h with
  | itself => exact ⟨[], rfl⟩
  | child _ hq =>
    obtain ⟨i, hi⟩ := Place.exists_of_mem_children hq
    refine ⟨[i], ?_⟩
    rw [Place.descend?, hi]
    rfl
  | grandchild _ _ he hq =>
    obtain ⟨i, hi⟩ := Place.exists_of_mem_children he
    obtain ⟨j, hj⟩ := Place.exists_of_mem_children hq
    refine ⟨[i, j], ?_⟩
    rw [Place.descend?, hi, Option.bind_some, Place.descend?, hj]
    rfl

/-- How many levels above a function or object its comment stands. -/
def levelsToComment (q : Place) : Nat :=
  if q.node.isDeclaration then 0
  else if q.parent?.any fun p => p.isType .pair || p.isType .returnStatement then 1
  else 2

theorem levelsToComment_of_value {p q : Place} (below : q ∈ p.children)
    (expression : q.node.isDeclaration = false) :
    levelsToComment q =
      if p.node.isType .pair || p.node.isType .returnStatement then 1 else 2 := by
  have hparent : q.parent? = some p.node := by
    rw [Place.parent?, Place.above_of_mem_children below]
    rfl
  rw [levelsToComment, expression, if_neg Bool.false_ne_true, hparent, Option.any_some]

/-- The function or object itself tells how far above it the node is that carries it. -/
theorem Carries.length_above {p q : Place} (h : Carries p q)
    (grammar : p.node.valuesAreExpressions = true) :
    q.above.length = p.above.length + levelsToComment q := by
  cases h with
  | itself declared => rw [levelsToComment, if_pos declared, Nat.add_zero]
  | child kind below value =>
    have hexpression := Node.isDeclaration_of_value? grammar value
    have hlevels := levelsToComment_of_value below hexpression
    rw [if_pos (Bool.or_eq_true_iff.2 kind)] at hlevels
    rw [hlevels, Place.above_of_mem_children below]
    rfl
  | @grandchild e q _ kind above below value =>
    have hbelow : e.node ∈ p.node.children := by
      rw [← Place.map_node_children]
      exact List.mem_map_of_mem above
    have hexpression := Node.isDeclaration_of_value?
      (Node.valuesAreExpressions_of_child grammar hbelow) value
    have hlevels := levelsToComment_of_value below hexpression
    have hother : (e.node.isType .pair || e.node.isType .returnStatement) = false := by
      simp only [Node.isType, decide_eq_true_eq] at kind ⊢
      rcases kind with hkind | hkind <;> rw [hkind] <;> rfl
    rw [hother, if_neg Bool.false_ne_true] at hlevels
    rw [hlevels, Place.above_of_mem_children below, Place.above_of_mem_children above]
    rfl

def place : Documented → Place
  | .function f => f.place
  | .enumeration e => e.place

def tags : Documented → List Tag
  | .function f => f.tags
  | .enumeration e => e.tags

/-- The comment that documents a construct: the first block comment before its node, which has to
mark an enum if the construct is one. -/
def docComment? (source : Text) (p : Place) : Documented → Option LeadingComment
  | .function _ => (LeadingComment.ofPlace source p).find? LeadingComment.isBlock
  | .enumeration _ => (LeadingComment.ofPlace source p).find? isEnumComment

theorem parse_of_readTags? {body : Text} {tags : List Tag} (h : readTags? body = .ok (some tags)) :
    Comment.parse body = .ok tags := by
  unfold readTags? at h
  split at h
  · next hparse =>
    cases h
    exact hparse
  · cases h
  · cases h

theorem carries_of_findFunction {source : Text} {p : Place} {f : DocumentedFunction}
    (h : findFunction source p = .ok (some f)) :
    Carries p f.place ∧ ∃ c, docComment? source p (.function f) = some c ∧
      Comment.parse c.body = .ok f.tags := by
  unfold findFunction at h
  split at h
  · cases h
  · next place hplace =>
    split at h
    · cases h
    · next c hc =>
      obtain ⟨tags?, htags, h⟩ := bind_eq_ok.1 h
      cases tags? with
      | none => cases h
      | some tags =>
        cases h
        exact ⟨carries_function hplace, c, hc, parse_of_readTags? htags⟩

theorem carries_of_findEnum {source : Text} {p : Place} {e : DocumentedEnum}
    (h : findEnum source p = .ok (some e)) :
    Carries p e.place ∧ ∃ c, docComment? source p (.enumeration e) = some c ∧
      Comment.parse c.body = .ok e.tags := by
  unfold findEnum at h
  split at h
  · cases h
  · split at h
    · cases h
    · next c hc =>
      obtain ⟨tags?, htags, h⟩ := bind_eq_ok.1 h
      cases tags? with
      | none => cases h
      | some tags =>
        cases hplace : enumPlace? p with
        | none =>
          rw [hplace] at h
          cases h
        | some place =>
          rw [hplace] at h
          obtain ⟨values, -, h⟩ := bind_eq_ok.1 h
          cases h
          exact ⟨carries_object hplace, c, hc, parse_of_readTags? htags⟩

/-- The node before which a construct is found carries it, and the tags are those of a comment before
that node. -/
theorem carries_of_find {source : Text} {p : Place} {c : Documented}
    (h : find source p = .ok (some c)) :
    Carries p c.place ∧ ∃ comment, docComment? source p c = some comment ∧
      Comment.parse comment.body = .ok c.tags := by
  obtain ⟨f?, hf, h⟩ := bind_eq_ok.1 h
  cases f? with
  | some f =>
    cases h
    exact carries_of_findFunction hf
  | none =>
    obtain ⟨e?, he, h⟩ := bind_eq_ok.1 h
    cases e? with
    | none => cases h
    | some e =>
      cases h
      exact carries_of_findEnum he

theorem mem_of_docComment? {source : Text} {p : Place} {c : Documented} {comment : LeadingComment}
    (h : docComment? source p c = some comment) : comment ∈ LeadingComment.ofPlace source p := by
  cases c <;> exact List.mem_of_find?_eq_some h

def ReadFrom (source : Text) (root : Place) (path : List Nat) (c : Documented)
    (comment : List Nat) : Prop :=
  LeadingComment.Leads root path comment ∧
    ∃ p r, root.descend? path = some p ∧ root.descend? comment = some r ∧
      r.node.isComment = true ∧ docComment? source p c = some (LeadingComment.ofNode source r.node) ∧
      Comment.parse (LeadingComment.ofNode source r.node).body = .ok c.tags

theorem exists_readFrom {source : Text} {n : Node} {path : List Nat} {p : Place} {c : Documented}
    (hp : (Place.root n).descend? path = some p) (h : find source p = .ok (some c)) :
    ∃ comment, ReadFrom source (Place.root n) path c comment := by
  obtain ⟨-, _, hdoc, hparse⟩ := carries_of_find h
  obtain ⟨comment, r, hleads, hr, hcomment, rfl⟩ :=
    LeadingComment.exists_leads hp (mem_of_docComment? hdoc)
  exact ⟨comment, hleads, p, r, hp, hr, hcomment, hdoc, hparse⟩

/-- Only nodes that are no comments carry anything. -/
theorem Carries.isComment_eq_false {p q : Place} (h : Carries p q) : p.node.isComment = false := by
  cases h with
  | itself declared =>
    unfold Node.isDeclaration at declared
    split at declared
    · next hkind => rw [Node.isComment, Node.isType, hkind]; rfl
    · next hkind => rw [Node.isComment, Node.isType, hkind]; rfl
    · next hkind => rw [Node.isComment, Node.isType, hkind]; rfl
    · cases declared
  | child kind =>
    simp only [Node.isType, decide_eq_true_eq] at kind
    rcases kind with hkind | hkind <;> rw [Node.isComment, Node.isType, hkind] <;> rfl
  | grandchild visible => exact visible

/-- Nodes of a tree in different positions carry different functions and objects: what they carry
is at different paths. -/
theorem Carries.path_ne {n : Node} (grammar : n.valuesAreExpressions = true)
    {path path' below below' : List Nat} {p p' q q' : Place} (distinct : path ≠ path')
    (hp : (Place.root n).descend? path = some p) (hp' : (Place.root n).descend? path' = some p')
    (h : Carries p q) (h' : Carries p' q') (hq : p.descend? below = some q)
    (hq' : p'.descend? below' = some q') : path ++ below ≠ path' ++ below' := by
  intro heq
  have hends : (Place.root n).descend? (path ++ below) = some q := by
    rw [Place.descend?_append, hp, Option.bind_some, hq]
  have hends' : (Place.root n).descend? (path' ++ below') = some q' := by
    rw [Place.descend?_append, hp', Option.bind_some, hq']
  rw [heq, hends'] at hends
  obtain rfl := Option.some.inj hends
  -- Both nodes are equally far above it, so their paths are of one length.
  have hlevels := h.length_above (Place.of_descend?
    (fun _ hn _ => Node.valuesAreExpressions_of_child hn) hp grammar)
  have hlevels' := h'.length_above (Place.of_descend?
    (fun _ hn _ => Node.valuesAreExpressions_of_child hn) hp' grammar)
  have hlength := Place.length_above hp
  have hlength' := Place.length_above hp'
  exact distinct (List.append_inj heq (by omega)).1

/-- Two constructs, found before the nodes at two paths, have neither a node nor a comment in
common, and each has both: the node that it is about, and the comment that its tags are from. -/
structure Apart (source : Text) (root : Place) (path path' : List Nat) (p p' : Place)
    (c c' : Documented) : Prop where
  carried : ∃ below below', p.descend? below = some c.place ∧ p'.descend? below' = some c'.place
  nodes {below below'} : p.descend? below = some c.place → p'.descend? below' = some c'.place →
    path ++ below ≠ path' ++ below'
  read : ∃ comment comment', ReadFrom source root path c comment ∧
    ReadFrom source root path' c' comment'
  comments {comment comment'} : ReadFrom source root path c comment →
    ReadFrom source root path' c' comment' → comment ≠ comment'

theorem apart_of_find {source : Text} {n : Node} (grammar : n.valuesAreExpressions = true)
    {path path' : List Nat} {p p' : Place} {c c' : Documented} (distinct : path ≠ path')
    (hp : (Place.root n).descend? path = some p) (hp' : (Place.root n).descend? path' = some p')
    (hc : find source p = .ok (some c)) (hc' : find source p' = .ok (some c')) :
    Apart source (Place.root n) path path' p p' c c' := by
  have hcarries := (carries_of_find hc).1
  have hcarries' := (carries_of_find hc').1
  obtain ⟨below, hbelow⟩ := hcarries.exists_path
  obtain ⟨below', hbelow'⟩ := hcarries'.exists_path
  obtain ⟨comment, hread⟩ := exists_readFrom hp hc
  obtain ⟨comment', hread'⟩ := exists_readFrom hp' hc'
  refine ⟨⟨below, below', hbelow, hbelow'⟩, ?_, ⟨comment, comment', hread, hread'⟩, ?_⟩
  · intro _ _ hq hq'
    exact Carries.path_ne grammar distinct hp hp' hcarries hcarries' hq hq'
  · rintro comment _ ⟨hleads, -⟩ ⟨hleads', -⟩ rfl
    exact LeadingComment.not_leads_both distinct hp hp' hcarries.isComment_eq_false
      hcarries'.isComment_eq_false ⟨hleads, hleads'⟩

/-- In a tree where no declaration stands as a value, the comments before a node are the longest run
of comment siblings that ends at it, in order. The runs before two nodes have no comment in common
unless one of the two is a comment itself, and what two nodes document is apart. -/
theorem constructs_are_apart (source : Text) (n : Node) (grammar : n.valuesAreExpressions = true) :
    (∀ path k q p, (Place.root n).descend? path = some q → q.children[k]? = some p →
      LeadingComment.IsRun q.node.children k (LeadingComment.runStart p) ∧
        LeadingComment.ofPlace source p =
          ((q.node.children.take k).drop (LeadingComment.runStart p)).map
            (LeadingComment.ofNode source)) ∧
    ∀ path path' p p', path ≠ path' → (Place.root n).descend? path = some p →
      (Place.root n).descend? path' = some p' →
      (p.node.isComment = false → p'.node.isComment = false → ∀ comment,
        ¬ (LeadingComment.Leads (Place.root n) path comment ∧
          LeadingComment.Leads (Place.root n) path' comment)) ∧
      ∀ c c', find source p = .ok (some c) → find source p' = .ok (some c') →
        Apart source (Place.root n) path path' p p' c c' := by
  constructor
  · intro _ _ _ _ _ hp
    exact ⟨LeadingComment.isRun_runStart hp, LeadingComment.ofPlace_eq hp source⟩
  · intro _ _ _ _ distinct hp hp'
    constructor
    · intro visible visible' _
      exact LeadingComment.not_leads_both distinct hp hp' visible visible'
    · intro _ _ hc hc'
      exact apart_of_find grammar distinct hp hp' hc hc'

/-- An assigned function and a function inside of it are apart, each with its own comment. -/
theorem constructs_are_apart_in_assignment :
    ∃ d p p' c c', Document.ofSource
        ⟨"/** @return {a} */f=function(){/** @return {b} */return function(){};};".toList, [],
          "js".toList, "utf-8".toList⟩ = .ok d ∧
      (Place.root d.root).descend? [1] = some p ∧
      (Place.root d.root).descend? [1, 0, 2, 2, 2] = some p' ∧
      Apart d.source.content (Place.root d.root) [1] [1, 0, 2, 2, 2] p p' c c' := by
  generalize hs : (Source.mk
    "/** @return {a} */f=function(){/** @return {b} */return function(){};};".toList [] "js".toList
    "utf-8".toList) = s
  have read : ((Document.ofSource s).toOption.bind fun d =>
      ((Place.root d.root).descend? [1]).bind fun p =>
      ((Place.root d.root).descend? [1, 0, 2, 2, 2]).bind fun p' =>
      (find d.source.content p).toOption.join.bind fun _ =>
      (find d.source.content p').toOption.join.map fun _ =>
        d.root.valuesAreExpressions) = some true := by
    subst hs
    decide +kernel
  obtain ⟨d, hd, h⟩ := Option.bind_eq_some_iff.1 read
  obtain ⟨p, hp, h⟩ := Option.bind_eq_some_iff.1 h
  obtain ⟨p', hp', h⟩ := Option.bind_eq_some_iff.1 h
  obtain ⟨c, hc, h⟩ := Option.bind_eq_some_iff.1 h
  obtain ⟨c', hc', grammar⟩ := Option.map_eq_some_iff.1 h
  have hfind := eq_ok_of_toOption (Option.join_eq_some_iff.1 hc)
  have hfind' := eq_ok_of_toOption (Option.join_eq_some_iff.1 hc')
  have distinct : [1] ≠ [1, 0, 2, 2, 2] := by decide
  have hapart := ((constructs_are_apart d.source.content d.root grammar).2 _ _ _ _ distinct hp hp').2
    c c' hfind hfind'
  exact ⟨d, p, p', c, c', eq_ok_of_toOption hd, hp, hp', hapart⟩

end Documented

end DocFlow
