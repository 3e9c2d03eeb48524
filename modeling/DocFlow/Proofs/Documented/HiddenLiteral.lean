import DocFlow.Literal.Value
import DocFlow.Proofs.Outcome
import DocFlow.Proofs.Script.CommentInsertion

namespace DocFlow.Literal

open Script

mutual

/-- Whether a comment stands first in parentheses, or in the ones that stand first in them. -/
def isHidden : Node → Bool
  | .mk kind _ _ _ children => kind = .named .parenthesizedExpression && hidesFirst children

def hidesFirst : List Node → Bool
  | [] => false
  | n :: rest => if n.isNamed then n.isComment || isHidden n else hidesFirst rest

end

theorem ofFirst_eq (source : Text) (cs : List Node) :
    ofFirst source cs = (cs.find? (·.isNamed)).elim (.ok none) (ofNode source) := by
  induction cs with
  | nil => rfl
  | cons c cs ih =>
    rw [ofFirst, List.find?_cons]
    cases c.isNamed with
    | false => exact ih
    | true => rfl

theorem hidesFirst_eq (cs : List Node) :
    hidesFirst cs = (cs.find? (·.isNamed)).any fun c => c.isComment || isHidden c := by
  induction cs with
  | nil => rfl
  | cons c cs ih =>
    rw [hidesFirst, List.find?_cons]
    cases c.isNamed with
    | false => exact ih
    | true => rfl

theorem ofNode_comment {source : Text} {n : Node} (h : n.isComment = true) :
    ofNode source n = .ok none := by
  obtain ⟨k, r, s, e, cs⟩ := n
  obtain rfl : k = .named .comment := of_decide_eq_true h
  rfl

variable {source source' : Text}

/-- What stands first is a comment, or it is what stood first before. -/
theorem find?_isNamed_of_interspersed {closed : Bool} {cs cs' : List Node}
    (h : Interspersed source source' closed cs cs') :
    (∃ c', cs'.find? (·.isNamed) = some c' ∧ c'.isComment = true) ∨
      Option.Rel (ChildGains source source') (cs.find? (·.isNamed)) (cs'.find? (·.isNamed)) := by
  induction h with
  | nil => exact .inr .none
  | @child c c' cs cs' gains _ ih =>
    have hnamed : c.isNamed = c'.isNamed := by
      rw [Node.isNamed, Node.isNamed, kind_eq_of_gainsComments gains.2]
    rw [List.find?_cons, List.find?_cons, hnamed]
    cases c'.isNamed with
    | true => exact .inr (.some gains)
    | false => exact ih
  | @comment c' cs cs' _ isComment =>
    have hnamed : c'.isNamed = true := by
      rw [Node.isNamed, of_decide_eq_true isComment]
    rw [List.find?_cons, hnamed]
    exact .inl ⟨c', rfl, isComment⟩

/-- Nothing stands between the fragments of a string. -/
theorem readString_of_forall₂ {cs cs' : List Node}
    (h : List.Forall₂ (Node.Commented source source') cs cs') :
    readString source cs = readString source' cs' := by
  induction h with
  | nil => rfl
  | @cons c c' cs cs' hc _ ih =>
    rw [readString, readString, ih, ← hc.isType, ← hc.isType]
    by_cases hfragment : c.isType .stringFragment = true
    · rw [if_pos hfragment, if_pos hfragment, hc.text_of_isType hfragment rfl]
    rw [if_neg hfragment, if_neg hfragment]
    by_cases hescape : c.isType .escapeSequence = true
    · rw [if_pos hescape, if_pos hescape, hc.text_of_isType hescape rfl]
    rw [if_neg hescape, if_neg hescape]

section

variable {n n' : Node} (h : Node.Commented source source' n n')
include h

theorem applySign_congr (number : Literal) :
    applySign (n.child? .operator) number = applySign (n'.child? .operator) number := by
  rcases h.child? .operator with ⟨hnone, hnone'⟩ | ⟨o, o', ho, ho', hoperator⟩
  · rw [hnone, hnone']
  · rw [ho, ho', applySign, applySign, hoperator.isToken, hoperator.isToken]

theorem readUnary_congr : readUnary source n = readUnary source' n' := by
  rw [readUnary, readUnary]
  rcases h.child? .argument with ⟨hnone, hnone'⟩ | ⟨a, a', ha, ha', hargument⟩
  · rw [hnone, hnone']
  · rw [ha, ha']
    dsimp only
    rw [← hargument.isType]
    split
    · next hnumber =>
      have hsign : applySign (n.child? .operator) = applySign (n'.child? .operator) :=
        funext (applySign_congr h)
      rw [hargument.text_of_isType hnumber rfl, hsign]
    · rfl

/-- Behind no parentheses a literal is what it was. -/
theorem ofNode_congr (hparentheses : n.isType .parenthesizedExpression = false) :
    ofNode source n = ofNode source' n' := by
  have hkind := h.kind
  have hword := h.text
  have hstring := h.stringChildren
  have hunary := readUnary_congr h
  obtain ⟨k, r, s, e, cs⟩ := n
  obtain ⟨k', r', s', e', cs'⟩ := n'
  obtain rfl : k = k' := hkind
  rw [ofNode.eq_def source, ofNode.eq_def source']
  dsimp only
  split
  · rw [hword rfl]
  · have hread := readString_of_forall₂ (hstring rfl)
    rw [Node.children, Node.children] at hread
    rw [hread]
  · rfl
  · rfl
  · rfl
  · exact hunary
  · exact absurd hparentheses (by simp [Node.isType, Node.kind])
  · rfl

end

/-- A literal behind a comment is none, and any other is what it was. -/
theorem ofNode_commented : ∀ {n n' : Node}, Node.Commented source source' n n' →
    ofNode source' n' = if isHidden n' then .ok none else ofNode source n
  | .mk k r s e cs, .mk k' r' s' e' cs', h => by
    by_cases hparentheses : k = .named .parenthesizedExpression
    · obtain rfl : k = k' := h.kind
      subst hparentheses
      rw [ofNode, ofNode, isHidden, decide_eq_true rfl, Bool.true_and, ofFirst_eq, ofFirst_eq,
        hidesFirst_eq]
      rcases find?_isNamed_of_interspersed (interspersed_of_gainsComments h.gains) with
        ⟨c', hc', hcomment⟩ | hfirst
      · rw [Node.children] at hc'
        rw [hc', Option.any_some, hcomment]
        exact ofNode_comment hcomment
      · rw [Node.children, Node.children] at hfirst
        generalize hc : cs.find? (·.isNamed) = c at hfirst
        generalize cs'.find? (·.isNamed) = c' at hfirst
        cases hfirst with
        | none => rfl
        | @some c c' gains =>
          have hmem := List.mem_of_find?_eq_some hc
          have hsize := List.sizeOf_lt_of_mem hmem
          have hfirst : Node.Commented source source' c c' := h.of_mem hmem gains
          have hrec := ofNode_commented hfirst
          rw [Option.any_some, Option.elim_some, Option.elim_some]
          cases hcomment : c'.isComment with
          | true => exact ofNode_comment hcomment
          | false => exact hrec
    · have hcongr := ofNode_congr h (decide_eq_false hparentheses)
      obtain rfl : k = k' := h.kind
      rw [isHidden, decide_eq_false hparentheses, Bool.false_and, if_neg Bool.false_ne_true]
      exact hcongr.symm
termination_by n => sizeOf n
decreasing_by
  simp only [Node.mk.sizeOf_spec]
  omega

def propertyValues (cs : List Node) : List Node :=
  cs.filterMap fun c => if c.isType .pair then c.child? .value else none

theorem ofProperties_eq_readAll (source : Text) (cs : List Node) :
    ofProperties source cs = readAll (ofNode source) (propertyValues cs) := by
  induction cs with
  | nil => rfl
  | cons c cs ih =>
    rw [ofProperties, propertyValues, List.filterMap_cons, ← propertyValues, ih]
    have hnone : (Except.ok none >>= fun v? =>
        readAll (ofNode source) (propertyValues cs) >>= fun vs => .ok (v?.toList ++ vs)) =
        readAll (ofNode source) (propertyValues cs) := by
      cases readAll (ofNode source) (propertyValues cs) <;> rfl
    cases c.isType .pair with
    | false => exact hnone
    | true =>
      cases c.child? .value with
      | none => exact hnone
      | some v => exact (readAll_cons_eq (ofNode source) v (propertyValues cs)).symm

theorem propertyValues_codeChildren (n : Node) :
    propertyValues n.codeChildren = propertyValues n.children := by
  rw [propertyValues, propertyValues, Node.codeChildren, List.filterMap_filter]
  congr 1
  funext c
  cases hcomment : c.isComment with
  | false => rfl
  | true => simp [Node.isType, of_decide_eq_true hcomment]

/-- A comment is no property, so an object with comments has the same ones. -/
theorem propertyValues_commented {n n' : Node} (h : Node.Commented source source' n n') :
    List.Forall₂ (Node.Commented source source') (propertyValues n.children)
      (propertyValues n'.children) := by
  rw [← propertyValues_codeChildren, ← propertyValues_codeChildren]
  refine List.rel_filterMap ?_ h.codeChildren
  rintro c c' ⟨-, hc⟩
  dsimp only
  rw [hc.isType]
  split
  · rcases hc.child? .value with ⟨hnone, hnone'⟩ | ⟨v, v', hv, hv', hvalue⟩
    · rw [hnone, hnone']
      exact .none
    · rw [hv, hv']
      exact .some hvalue
  · exact .none

def valuePairs (n n' : Node) : List (Node × Node) :=
  (propertyValues n.children).zip (propertyValues n'.children)

theorem readAll_commented {vs vs' : List Node}
    (h : List.Forall₂ (Node.Commented source source') vs vs') :
    readAll (ofNode source') vs' =
      readAll (fun v => ofNode source v.1) ((vs.zip vs').filter fun v => !isHidden v.2) := by
  induction h with
  | nil => rfl
  | @cons v v' vs vs' hv _ ih =>
    rw [readAll_cons_eq, ofNode_commented hv, ih, List.zip_cons_cons, List.filter_cons]
    cases isHidden v' with
    | true =>
      rw [if_pos rfl, Bool.not_true, if_neg Bool.false_ne_true]
      generalize readAll (fun v : Node × Node => ofNode source v.1) _ = outcome
      cases outcome <;> rfl
    | false =>
      rw [if_neg Bool.false_ne_true, Bool.not_false, if_pos rfl, readAll_cons_eq]

theorem readAll_zip {vs vs' : List Node} (h : List.Forall₂ (Node.Commented source source') vs vs') :
    readAll (ofNode source) vs = readAll (fun v => ofNode source v.1) (vs.zip vs') := by
  induction h with
  | nil => rfl
  | cons _ _ ih =>
    rw [readAll_cons_eq, ih, List.zip_cons_cons, readAll_cons_eq]

section

variable {n n' : Node} (h : Node.Commented source source' n n')
include h

/-- An object with comments gives the literals that it gave, but for the hidden ones. -/
theorem ofProperties_commented : ofProperties source' n'.children =
    readAll (fun v => ofNode source v.1) ((valuePairs n n').filter fun v => !isHidden v.2) := by
  rw [ofProperties_eq_readAll]
  exact readAll_commented (propertyValues_commented h)

/-- The literals stay the same iff none is hidden. -/
theorem ofProperties_commented_eq_ok_iff {values : List Literal}
    (hvalues : ofProperties source n.children = .ok values) :
    ofProperties source' n'.children = .ok values ↔
      ∀ v ∈ valuePairs n n', isHidden v.2 = true → ofNode source v.1 = .ok none := by
  rw [ofProperties_eq_readAll, readAll_zip (propertyValues_commented h)] at hvalues
  rw [ofProperties_commented h, valuePairs, readAll_filter_eq_ok_iff hvalues]
  simp only [Bool.not_eq_false']

end

end DocFlow.Literal
