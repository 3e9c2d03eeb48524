import Mathlib.Data.List.Forall2
import DocFlow.Documented.Name
import DocFlow.Proofs.Outcome

namespace DocFlow

open Script

namespace Name

theorem objectName_eq (source : Text) (cs : List Node) :
    objectName source cs = (cs.find? (·.role = some .object)).bind (targetName source) := by
  induction cs with
  | nil => rfl
  | cons c cs ih =>
    rw [objectName, List.find?_cons]
    by_cases hrole : c.role = some .object
    · rw [if_pos hrole, decide_eq_true hrole]
      rfl
    · rw [if_neg hrole, decide_eq_false hrole, ih]

/-- The fragments of a string are those of its children, one by one. -/
theorem fragments_of_forall₂ {source source' : Text} {R : Node → Node → Prop} {n n' : Node}
    (h : List.Forall₂ R n.children n'.children)
    (hkind : ∀ c c', R c c' → c.kind = c'.kind)
    (htext : ∀ c c', R c c' → c.isType .stringFragment = true → c.text source = c'.text source') :
    fragments source n = fragments source' n' := by
  rw [fragments, fragments]
  generalize n.children = cs at h ⊢
  generalize n'.children = cs' at h ⊢
  induction h with
  | nil => rfl
  | @cons c c' cs cs' hc _ ih =>
    have htype : c.isType .stringFragment = c'.isType .stringFragment := by
      rw [Node.isType, Node.isType, hkind c c' hc]
    rw [List.filter_cons, List.filter_cons, ← htype]
    split
    · next hfragment =>
      rw [List.flatMap_cons, List.flatMap_cons, htext c c' hc hfragment, ih]
    · exact ih

def ofAbove (source : Text) : List Node → Option Text
  | [] => none
  | p :: rest => ofNode source p rest

theorem ofNode_method {source : Text} {n : Node} (hkind : n.kind = .named .methodDefinition)
    (p : Node) (rest : List Node) :
    ofNode source n (p :: rest) =
      ofMethod source n (p.isType .object) (fun _ => ofNode source p rest)
        fun _ => ofAbove source rest := by
  rw [ofNode.eq_def]
  dsimp only
  rw [hkind]
  cases rest <;> rfl

/-- Names are the same across a relation of nodes that keeps all that they are read from. -/
structure IsCongruence (source source' : Text) (R : Node → Node → Prop) : Prop where
  kind {n n'} : R n n' → n.kind = n'.kind
  word {n n'} : R n n' → isIdentifier n = true ∨ n.isType .number = true →
    n.text source = n'.text source'
  child {n n'} : R n n' → ∀ r,
    (n.child? r = none ∧ n'.child? r = none) ∨
      ∃ c c', n.child? r = some c ∧ n'.child? r = some c' ∧ R c c'
  property {n n'} : R n n' → n.isType .memberExpression = true →
    (n.child? .property).map (·.text source) = (n'.child? .property).map (·.text source')
  string {n n'} : R n n' → n.isType .string = true → fragments source n = fragments source' n'
  static {n n'} : R n n' →
    n.children.any (·.isToken "static") = n'.children.any (·.isToken "static")

namespace IsCongruence

variable {source source' : Text} {R : Node → Node → Prop}
  (congruence : IsCongruence source source' R)
include congruence

section

variable {n n' : Node} (related : R n n')
include related

theorem isType (t : NodeType) : n.isType t = n'.isType t := by
  rw [Node.isType, Node.isType, congruence.kind related]

theorem isIdentifier : isIdentifier n = isIdentifier n' := by
  rw [Name.isIdentifier, Name.isIdentifier, congruence.kind related]

theorem declaredName : declaredName source n = declaredName source' n' := by
  rw [Name.declaredName, Name.declaredName]
  rcases congruence.child related .name with ⟨h, h'⟩ | ⟨c, c', h, h', hname⟩
  · rw [h, h']
    rfl
  · rw [h, h', Option.filter_some, Option.filter_some, ← congruence.isIdentifier hname]
    split
    · next hword => exact congrArg some (congruence.word hname (.inl hword))
    · rfl

theorem keySegment : keySegment source n = keySegment source' n' := by
  rw [Name.keySegment, Name.keySegment]
  rcases congruence.child related .key with ⟨h, h'⟩ | ⟨c, c', h, h', hkey⟩
  · rw [h, h']
    rfl
  · rw [h, h', Option.bind_some, Option.bind_some, ← congruence.isIdentifier hkey,
      ← congruence.isType hkey .number, ← congruence.isType hkey .string]
    split
    · next hword => exact congrArg some (congruence.word hkey hword)
    · split
      · next hstring => exact congrArg some (congruence.string hkey hstring)
      · rfl

theorem lastSegment : lastSegment source n = lastSegment source' n' := by
  have hkind := congruence.kind related
  rw [Name.lastSegment, Name.lastSegment, ← hkind]
  split
  · next hmember =>
    exact congrArg some (congruence.property related (decide_eq_true hmember))
  · rcases congruence.child related .index with ⟨h, h'⟩ | ⟨c, c', h, h', hindex⟩
    · rw [h, h']
      rfl
    · rw [h, h', Option.filter_some, Option.filter_some, ← congruence.isType hindex]
      split
      · next hstring => exact congrArg (fun t => some (some t)) (congruence.string hindex hstring)
      · rfl
  · rfl

theorem ofMethod (inObject : Bool) (object classPath : Unit → Option Text) :
    ofMethod source n inObject object classPath =
      ofMethod source' n' inObject object classPath := by
  rw [Name.ofMethod, Name.ofMethod, congruence.declaredName related, congruence.static related]

end

/-- The recursion goes to the child that is the object. -/
theorem targetName : ∀ {n n' : Node}, R n n' → targetName source n = targetName source' n'
  | .mk k r s e cs, .mk k' r' s' e' cs', related => by
    have hobject : objectName source cs = objectName source' cs' := by
      rw [objectName_eq, objectName_eq]
      rcases congruence.child related .object with ⟨h, h'⟩ | ⟨c, c', h, h', hobject⟩
      · rw [Node.child?, Node.children] at h h'
        rw [h, h']
        rfl
      · rw [Node.child?, Node.children] at h h'
        have hsize := List.sizeOf_lt_of_mem (List.mem_of_find?_eq_some h)
        rw [h, h']
        exact targetName hobject
    simp only [Name.targetName]
    rw [← congruence.isIdentifier related, congruence.lastSegment related, hobject]
    split
    · next hword => exact congrArg some (congruence.word related (.inl hword))
    · rfl
termination_by n => sizeOf n
decreasing_by
  simp only [Node.mk.sizeOf_spec]
  omega

section

variable {n n' : Node} (related : R n n')
include related

theorem nameIn (r : Role) : nameIn source r n = nameIn source' r n' := by
  rw [Name.nameIn, Name.nameIn]
  rcases congruence.child related r with ⟨h, h'⟩ | ⟨c, c', h, h', hname⟩
  · rw [h, h']
    rfl
  · rw [h, h']
    exact congruence.targetName hname

theorem boundName : boundName source n = boundName source' n' := by
  rw [Name.boundName, Name.boundName, congruence.kind related, congruence.nameIn related,
    congruence.nameIn related]

/-- A node with nothing above it. -/
theorem ofNode_nil : ofNode source n [] = ofNode source' n' [] := by
  rw [ofNode.eq_def source, ofNode.eq_def source']
  dsimp only
  rw [← congruence.kind related]
  split
  · rfl
  · rfl
  · exact congruence.targetName related
  · exact congruence.boundName related
  · exact congruence.boundName related
  · rw [congruence.declaredName related]
  · rw [congruence.declaredName related]
  · rw [congruence.declaredName related]
  · rfl
  · rfl
  · rw [congruence.keySegment related]
    cases (Name.keySegment source' n').filter (· ≠ []) <;> rfl
  · rw [← congruence.isIdentifier related]
    split
    · next hword => exact congrArg some (congruence.word related (.inl hword))
    · rfl

/-- What a node takes from above is the name of its parent, and a method the one above that. -/
theorem ofNode_cons {p p' : Node} {rest rest' : List Node} (parent : R p p')
    (hname : ofNode source p rest = ofNode source' p' rest')
    (hmethod : n.kind = .named .methodDefinition → ofAbove source rest = ofAbove source' rest') :
    ofNode source n (p :: rest) = ofNode source' n' (p' :: rest') := by
  have hsame := congruence.kind related
  by_cases hkind : n.kind = .named .methodDefinition
  · rw [ofNode_method hkind, ofNode_method (hsame.symm.trans hkind), hname, hmethod hkind,
      congruence.isType parent, congruence.ofMethod related]
  rw [ofNode.eq_def source, ofNode.eq_def source']
  dsimp only
  rw [← hsame]
  split
  · rfl
  · rfl
  · exact congruence.targetName related
  · exact congruence.boundName related
  · exact congruence.boundName related
  · rw [hname, congruence.declaredName related]
  · rw [hname, congruence.declaredName related]
  · rw [hname, congruence.declaredName related]
  · next h => exact absurd h hkind
  · rw [congruence.isType parent, congruence.isType parent, congruence.boundName parent, hname]
  · rw [congruence.keySegment related]
    cases (Name.keySegment source' n').filter (· ≠ []) with
    | none => rfl
    | some key => exact congrArg (fun owner => ofSegments [owner, some key]) hname
  · rw [← congruence.isIdentifier related]
    split
    · next hword => exact congrArg some (congruence.word related (.inl hword))
    · exact hname

end

/-- Where all that is above is related, names are the same. With each name that of the parent is
carried along, which is what methods below ask for. -/
theorem ofNode_of_forall₂ {n n' : Node} {above above' : List Node} (related : R n n')
    (habove : List.Forall₂ R above above') :
    ofNode source n above = ofNode source' n' above' ∧
      ofAbove source above = ofAbove source' above' := by
  induction habove generalizing n n' with
  | nil => exact ⟨congruence.ofNode_nil related, rfl⟩
  | cons parent _ ih =>
    obtain ⟨hparent, hgrandparent⟩ := ih parent
    exact ⟨congruence.ofNode_cons related parent hparent fun _ => hgrandparent, hparent⟩

end IsCongruence

end Name

end DocFlow
