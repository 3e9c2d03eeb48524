import Mathlib.Data.List.Find
import DocFlow.Proofs.Script.SameCode

namespace DocFlow.Script

/-- What is found among all is found among those that are kept, if it is one of them. -/
theorem find?_filter_of_imp {α : Type} {p q : α → Bool} {as : List α}
    (h : ∀ a ∈ as, p a = true → q a = true) : (as.filter q).find? p = as.find? p := by
  rw [List.find?_filter]
  apply List.find?_congr
  intro a ha
  cases hp : p a with
  | false => simp
  | true => simp [h a ha hp]

/-- What is related in two lists stands at the same positions. -/
theorem forall₂_with_position {α β : Type} {R : α → β → Prop} {as : List α} {bs : List β}
    (h : List.Forall₂ R as bs) :
    List.Forall₂ (fun a b => R a b ∧ ∃ i : Nat, as[i]? = some a ∧ bs[i]? = some b) as bs := by
  induction h with
  | nil => exact .nil
  | cons hab _ ih =>
    refine .cons ⟨hab, 0, rfl, rfl⟩ (ih.imp ?_)
    rintro a b ⟨hab, i, ha, hb⟩
    exact ⟨hab, i + 1, ha, hb⟩

theorem rel_getElem?_of_forall₂ {α β : Type} {R : α → β → Prop} {as : List α} {bs : List β}
    (h : List.Forall₂ R as bs) (i : Nat) : Option.Rel R as[i]? bs[i]? := by
  induction h generalizing i with
  | nil => exact .none
  | cons hab _ ih =>
    cases i with
    | zero => exact .some hab
    | succ i => exact ih i

theorem rel_mono {α β : Type} {R S : α → β → Prop} {a : Option α} {b : Option β}
    (hRS : ∀ a b, R a b → S a b) (h : Option.Rel R a b) : Option.Rel S a b := by
  cases h with
  | none => exact .none
  | some hab => exact .some (hRS _ _ hab)

theorem rel_bind {α β γ δ : Type} {R : α → β → Prop} {S : γ → δ → Prop} {a : Option α}
    {b : Option β} {f : α → Option γ} {g : β → Option δ} (h : Option.Rel R a b)
    (hfg : ∀ a b, R a b → Option.Rel S (f a) (g b)) : Option.Rel S (a.bind f) (b.bind g) := by
  cases h with
  | none => exact .none
  | some hab => exact hfg _ _ hab

theorem rel_filter {α β : Type} {R : α → β → Prop} {a : Option α} {b : Option β} {p : α → Bool}
    {q : β → Bool} (h : Option.Rel R a b) (hpq : ∀ a b, R a b → p a = q b) :
    Option.Rel R (a.filter p) (b.filter q) := by
  cases h with
  | none => exact .none
  | @some a b hab =>
    rw [Option.filter_some, Option.filter_some, hpq a b hab]
    split
    · exact .some hab
    · exact .none

mutual

/-- Whether a node becomes another one by insertion of comments below it, behind any child but in a
string. Nodes without children have the same texts. The roles that the two have in their parents may
differ. -/
def gainsComments (source source' : Text) : Node → Node → Bool
  | .mk k r s e cs, .mk k' r' s' e' cs' =>
    k = k' && (!cs.isEmpty ||
        Node.text source (.mk k r s e cs) = Node.text source' (.mk k' r' s' e' cs')) &&
      childrenGainComments source source' (k = .named .string) cs cs'

def childrenGainComments (source source' : Text) (closed : Bool) : List Node → List Node → Bool
  | [], [] => true
  | c :: cs, c' :: cs' =>
    c.role = c'.role && gainsComments source source' c c' &&
      restGainsComments source source' closed cs cs'
  | _, _ => false

/-- Whether children match but for inserted comments. In a closed node nothing is inserted. -/
def restGainsComments (source source' : Text) (closed : Bool) : List Node → List Node → Bool
  | cs, [] => cs.isEmpty
  | cs, c' :: cs' =>
    (match cs with
      | [] => false
      | c :: rest =>
        c.role = c'.role && gainsComments source source' c c' &&
          restGainsComments source source' closed rest cs') ||
      (!closed && c'.isComment && c'.role = none && restGainsComments source source' closed cs cs')

end

def NodeType.isWord : NodeType → Bool
  | .identifier | .propertyIdentifier | .shorthandPropertyIdentifier | .privatePropertyIdentifier
  | .statementIdentifier | .number | .stringFragment | .escapeSequence => true
  | _ => false

namespace Node

def isWord (n : Node) : Bool :=
  match n.kind with
  | .named t => t.isWord
  | .token _ => false

/-- What the grammar says about the children of a node: a word has none, a comment among them has no
role, the property of a member is a word, and a statement of an expression starts with no token. -/
def fitsGrammar (n : Node) : Bool :=
  (!n.isWord || n.children.isEmpty) && n.children.all (fun c => !c.isComment || c.role = none) &&
    (!n.isType .memberExpression || (n.child? .property).all isWord) &&
    (!n.isType .expressionStatement || n.children.head?.all isNamed)

mutual

def followsGrammar : Node → Bool
  | .mk k r s e cs => fitsGrammar (.mk k r s e cs) && allFollowGrammar cs

def allFollowGrammar : List Node → Bool
  | [] => true
  | n :: rest => n.followsGrammar && allFollowGrammar rest

end

def codeChildren (n : Node) : List Node := n.children.filter (!·.isComment)

theorem isWord_of_isType {n : Node} {t : NodeType} (h : n.isType t = true) :
    n.isWord = t.isWord := by
  rw [isWord, of_decide_eq_true h]

theorem isComment_of_isType {n : Node} {t : NodeType} (h : n.isType t = true)
    (ht : t ≠ .comment) : n.isComment = false := by
  rw [isComment, isType, of_decide_eq_true h, decide_eq_false]
  exact fun hkind => ht (Kind.named.inj hkind)

/-- A node of another type than a comment is found among the children that are no comments. -/
theorem find?_isType_codeChildren (n : Node) {t : NodeType} (ht : t ≠ .comment) :
    n.codeChildren.find? (·.isType t) = n.children.find? (·.isType t) :=
  find?_filter_of_imp fun c _ hc => by rw [isComment_of_isType hc ht, Bool.not_false]

theorem fitsGrammar_of_followsGrammar {n : Node} (h : n.followsGrammar = true) :
    n.fitsGrammar = true := by
  obtain ⟨k, r, s, e, cs⟩ := n
  rw [followsGrammar, Bool.and_eq_true] at h
  exact h.1

theorem followsGrammar_of_mem {cs : List Node} (h : allFollowGrammar cs = true) {c : Node}
    (hc : c ∈ cs) : c.followsGrammar = true := by
  induction cs with
  | nil => cases hc
  | cons n cs ih =>
    rw [allFollowGrammar, Bool.and_eq_true] at h
    rcases List.mem_cons.1 hc with rfl | hc
    · exact h.1
    · exact ih h.2 hc

theorem followsGrammar_of_child {n : Node} (h : n.followsGrammar = true) {c : Node}
    (hc : c ∈ n.children) : c.followsGrammar = true := by
  obtain ⟨k, r, s, e, cs⟩ := n
  rw [followsGrammar, Bool.and_eq_true] at h
  exact followsGrammar_of_mem h.2 hc

section

variable {n : Node} (h : n.fitsGrammar = true)
include h

theorem children_of_isWord (hword : n.isWord = true) : n.children = [] := by
  simp only [fitsGrammar, Bool.and_eq_true] at h
  simpa [hword] using h.1.1.1

theorem role_of_isComment {c : Node} (hc : c ∈ n.children) (hcomment : c.isComment = true) :
    c.role = none := by
  simp only [fitsGrammar, Bool.and_eq_true] at h
  simpa [hcomment] using List.all_eq_true.1 h.1.1.2 c hc

theorem isWord_of_property (hmember : n.isType .memberExpression = true) {c : Node}
    (hc : n.child? .property = some c) : c.isWord = true := by
  simp only [fitsGrammar, Bool.and_eq_true] at h
  simpa [hmember, hc] using h.1.2

theorem isNamed_of_head? (hstatement : n.isType .expressionStatement = true) {c : Node}
    (hc : n.children.head? = some c) : c.isNamed = true := by
  simp only [fitsGrammar, Bool.and_eq_true] at h
  simpa [hstatement, hc] using h.2

end

/-- Where comments have no role, the child in a role is found among the others. -/
theorem child?_eq_find?_codeChildren {n : Node}
    (hrole : ∀ c ∈ n.children, c.isComment = true → c.role = none) (r : Role) :
    n.child? r = n.codeChildren.find? (·.role = some r) := by
  refine (find?_filter_of_imp fun c hc hr => ?_).symm
  cases hcomment : c.isComment with
  | false => rfl
  | true => simp [hrole c hc hcomment] at hr

end Node

variable {source source' : Text}

def ChildGains (source source' : Text) (c c' : Node) : Prop :=
  c.role = c'.role ∧ gainsComments source source' c c' = true

inductive Interspersed (source source' : Text) (closed : Bool) : List Node → List Node → Prop where
  | nil : Interspersed source source' closed [] []
  | child {c c' cs cs'} (gains : ChildGains source source' c c')
    (rest : Interspersed source source' closed cs cs') :
    Interspersed source source' closed (c :: cs) (c' :: cs')
  | comment {c' cs cs'} (isOpen : closed = false) (isComment : c'.isComment = true)
    (role : c'.role = none) (rest : Interspersed source source' closed cs cs') :
    Interspersed source source' closed cs (c' :: cs')

theorem interspersed_of_rest {closed : Bool} {cs cs' : List Node}
    (h : restGainsComments source source' closed cs cs' = true) :
    Interspersed source source' closed cs cs' := by
  induction cs' generalizing cs with
  | nil =>
    rw [restGainsComments, List.isEmpty_iff] at h
    subst h
    exact .nil
  | cons c' cs' ih =>
    have hcomment {cs : List Node} (h : (!closed && c'.isComment && c'.role = none &&
        restGainsComments source source' closed cs cs') = true) :
        Interspersed source source' closed cs (c' :: cs') := by
      simp only [Bool.and_eq_true, decide_eq_true_eq, Bool.not_eq_true'] at h
      obtain ⟨⟨⟨isOpen, isComment⟩, role⟩, rest⟩ := h
      exact .comment isOpen isComment role (ih rest)
    cases cs with
    | nil => exact hcomment h
    | cons c cs =>
      rw [restGainsComments, Bool.or_eq_true] at h
      rcases h with h | h
      · simp only [Bool.and_eq_true, decide_eq_true_eq] at h
        exact .child h.1 (ih h.2)
      · exact hcomment h

section

variable {n n' : Node} (gains : gainsComments source source' n n' = true)
include gains

theorem kind_eq_of_gainsComments : n.kind = n'.kind := by
  obtain ⟨k, r, s, e, cs⟩ := n
  obtain ⟨k', r', s', e', cs'⟩ := n'
  simp only [gainsComments, Bool.and_eq_true, decide_eq_true_eq] at gains
  exact gains.1.1

theorem text_eq_of_gainsComments (hleaf : n.children = []) : n.text source = n'.text source' := by
  obtain ⟨k, r, s, e, cs⟩ := n
  obtain ⟨k', r', s', e', cs'⟩ := n'
  obtain rfl : cs = [] := hleaf
  simp only [gainsComments, Bool.and_eq_true] at gains
  simpa using gains.1.2

theorem isComment_eq_of_gainsComments : n.isComment = n'.isComment := by
  rw [Node.isComment, Node.isComment, Node.isType, Node.isType, kind_eq_of_gainsComments gains]

/-- No comment stands before the first child. -/
theorem head?_of_gainsComments :
    Option.Rel (ChildGains source source') n.children.head? n'.children.head? := by
  obtain ⟨k, r, s, e, cs⟩ := n
  obtain ⟨k', r', s', e', cs'⟩ := n'
  simp only [gainsComments, Bool.and_eq_true] at gains
  cases cs <;> cases cs' <;> simp only [childrenGainComments, Bool.and_eq_true,
    decide_eq_true_eq, Bool.false_eq_true, and_false] at gains
  · exact .none
  · exact .some gains.2.1

theorem interspersed_of_gainsComments :
    Interspersed source source' (n.isType .string) n.children n'.children := by
  obtain ⟨k, r, s, e, cs⟩ := n
  obtain ⟨k', r', s', e', cs'⟩ := n'
  simp only [gainsComments, Bool.and_eq_true] at gains
  cases cs <;> cases cs' <;> simp only [childrenGainComments, Bool.and_eq_true,
    decide_eq_true_eq, Bool.false_eq_true, and_false] at gains
  · exact .nil
  · exact .child gains.2.1 (interspersed_of_rest gains.2.2)

end

section

variable {closed : Bool} {cs cs' : List Node} (h : Interspersed source source' closed cs cs')
include h

/-- Without the comments, the children are the same ones. -/
theorem Interspersed.code : List.Forall₂ (ChildGains source source')
    (cs.filter (!·.isComment)) (cs'.filter (!·.isComment)) := by
  induction h with
  | nil => exact .nil
  | child gains _ ih =>
    rw [List.filter_cons, List.filter_cons, isComment_eq_of_gainsComments gains.2]
    split
    · exact .cons gains ih
    · exact ih
  | comment _ isComment _ _ ih =>
    rw [List.filter_cons, isComment]
    exact ih

theorem Interspersed.forall₂_of_closed (hclosed : closed = true) :
    List.Forall₂ (ChildGains source source') cs cs' := by
  induction h with
  | nil => exact .nil
  | child gains _ ih => exact .cons gains ih
  | comment isOpen => exact absurd (isOpen.symm.trans hclosed) Bool.false_ne_true

/-- Comments have no role, if they had none before. -/
theorem Interspersed.role_of_isComment (hrole : ∀ c ∈ cs, c.isComment = true → c.role = none) :
    ∀ c' ∈ cs', c'.isComment = true → c'.role = none := by
  induction h with
  | nil => exact hrole
  | child gains _ ih =>
    rw [List.forall_mem_cons] at hrole ⊢
    refine ⟨fun hcomment => ?_, ih hrole.2⟩
    rw [← isComment_eq_of_gainsComments gains.2] at hcomment
    exact gains.1.symm.trans (hrole.1 hcomment)
  | comment _ _ role _ ih =>
    rw [List.forall_mem_cons]
    exact ⟨fun _ => role, ih hrole⟩

end

structure Node.Commented (source source' : Text) (n n' : Node) : Prop where
  grammar : n.followsGrammar = true
  gains : gainsComments source source' n n' = true

namespace Node.Commented

variable {n n' : Node} (h : Node.Commented source source' n n')
include h

theorem kind : n.kind = n'.kind := kind_eq_of_gainsComments h.gains

theorem isType (t : NodeType) : n.isType t = n'.isType t := by
  rw [Node.isType, Node.isType, h.kind]

theorem isToken (token : String) : n.isToken token = n'.isToken token := by
  rw [Node.isToken, Node.isToken, h.kind]

theorem isNamed : n.isNamed = n'.isNamed := by
  rw [Node.isNamed, Node.isNamed, h.kind]

theorem isComment : n.isComment = n'.isComment := h.isType .comment

theorem text (hword : n.isWord = true) : n.text source = n'.text source' :=
  text_eq_of_gainsComments h.gains
    (Node.children_of_isWord (Node.fitsGrammar_of_followsGrammar h.grammar) hword)

theorem text_of_isType {t : NodeType} (htype : n.isType t = true) (hword : t.isWord = true) :
    n.text source = n'.text source' :=
  h.text ((isWord_of_isType htype).trans hword)

theorem of_mem {c c' : Node} (hc : c ∈ n.children) (gains : ChildGains source source' c c') :
    Node.Commented source source' c c' :=
  ⟨Node.followsGrammar_of_child h.grammar hc, gains.2⟩

theorem head?_children :
    Option.Rel (Node.Commented source source') n.children.head? n'.children.head? := by
  have hhead := head?_of_gainsComments h.gains
  cases hc : n.children.head? <;> cases hc' : n'.children.head? <;> rw [hc, hc'] at hhead <;>
    cases hhead
  · exact .none
  · next gains => exact .some (h.of_mem (List.mem_of_head? hc) gains)

theorem codeChildren :
    List.Forall₂ (fun c c' => c.role = c'.role ∧ Node.Commented source source' c c')
      n.codeChildren n'.codeChildren := by
  have hmem : ∀ c ∈ n.codeChildren, c ∈ n.children := fun _ hc => List.mem_of_mem_filter hc
  have hcode := (interspersed_of_gainsComments h.gains).code
  exact ((List.forall₂_and_left _ _).2 ⟨hmem, hcode⟩).imp fun _ _ hc => ⟨hc.2.1, h.of_mem hc.1 hc.2⟩

/-- In a string nothing is inserted. -/
theorem stringChildren (hstring : n.isType .string = true) :
    List.Forall₂ (Node.Commented source source') n.children n'.children := by
  have hclosed := (interspersed_of_gainsComments h.gains).forall₂_of_closed hstring
  have hmem : ∀ c ∈ n.children, c ∈ n.children := fun _ hc => hc
  exact ((List.forall₂_and_left _ _).2 ⟨hmem, hclosed⟩).imp fun _ _ hc => h.of_mem hc.1 hc.2

theorem role_of_isComment : ∀ c ∈ n.children, c.isComment = true → c.role = none :=
  fun _ hc => Node.role_of_isComment (Node.fitsGrammar_of_followsGrammar h.grammar) hc

theorem role_of_isComment' : ∀ c ∈ n'.children, c.isComment = true → c.role = none :=
  (interspersed_of_gainsComments h.gains).role_of_isComment h.role_of_isComment

theorem child? (r : Role) :
    (n.child? r = none ∧ n'.child? r = none) ∨
      ∃ c c', n.child? r = some c ∧ n'.child? r = some c' ∧ Node.Commented source source' c c' := by
  rw [Node.child?_eq_find?_codeChildren h.role_of_isComment,
    Node.child?_eq_find?_codeChildren h.role_of_isComment']
  have hrole : ∀ c c', c.role = c'.role ∧ Node.Commented source source' c c' →
      decide (c.role = some r) = decide (c'.role = some r) := by
    intro c c' hc
    rw [hc.1]
  rcases find?_of_forall₂ hrole h.codeChildren with hnone | ⟨c, c', hc, hc', hgains⟩
  · exact .inl hnone
  · exact .inr ⟨c, c', hc, hc', hgains.2⟩

end Node.Commented

namespace Place

def codeChildren (p : Place) : List Place := p.children.filter (!·.node.isComment)

/-- The place at the end of a path that counts no comments. -/
def descendCode? : List Nat → Place → Option Place
  | [], p => some p
  | i :: path, p => p.codeChildren[i]?.bind (descendCode? path)

theorem descendCode?_append (path more : List Nat) (p : Place) :
    p.descendCode? (path ++ more) = (p.descendCode? path).bind (descendCode? more) := by
  induction path generalizing p with
  | nil => rfl
  | cons i path ih =>
    rw [List.cons_append, descendCode?, descendCode?, Option.bind_assoc]
    congr 1
    funext c
    exact ih c

theorem map_node_codeChildren (p : Place) : p.codeChildren.map node = p.node.codeChildren := by
  rw [Node.codeChildren, ← map_node_children, List.filter_map]
  rfl

theorem head?_children_eq (p : Place) :
    p.children.head? = p.node.children.head?.map fun n => ⟨n, [], p.node :: p.above⟩ := by
  rw [List.head?_eq_getElem?, List.head?_eq_getElem?, getElem?_children]
  rfl

theorem descendCode?_of_head? {p c : Place} (hc : p.children.head? = some c)
    (hcode : c.node.isComment = false) : p.descendCode? [0] = some c := by
  obtain ⟨rest, hrest⟩ := List.head?_eq_some_iff.1 hc
  rw [descendCode?, codeChildren, hrest, List.filter_cons, hcode]
  rfl

theorem find?_isType_codeChildren (p : Place) {t : NodeType} (ht : t ≠ .comment) :
    p.codeChildren.find? (·.node.isType t) = p.children.find? (·.node.isType t) :=
  find?_filter_of_imp fun c _ hc => by rw [Node.isComment_of_isType hc ht, Bool.not_false]

/-- Places at the end of one path that counts no comments. -/
def SameCodePath (p p' q q' : Place) : Prop :=
  ∃ path, p.descendCode? path = some q ∧ p'.descendCode? path = some q'

theorem SameCodePath.trans {p p' q q' r r' : Place} (h : SameCodePath p p' q q')
    (h' : SameCodePath q q' r r') : SameCodePath p p' r r' := by
  obtain ⟨path, hq, hq'⟩ := h
  obtain ⟨more, hr, hr'⟩ := h'
  refine ⟨path ++ more, ?_, ?_⟩
  · rw [descendCode?_append, hq]
    exact hr
  · rw [descendCode?_append, hq']
    exact hr'

structure Commented (source source' : Text) (p p' : Place) : Prop where
  node : Node.Commented source source' p.node p'.node
  above : List.Forall₂ (Node.Commented source source') p.above p'.above

namespace Commented

variable {p p' : Place} (h : Commented source source' p p')
include h

theorem codeChildren :
    List.Forall₂ (fun c c' => c.node.role = c'.node.role ∧ SameCodePath p p' c c' ∧
      Commented source source' c c') p.codeChildren p'.codeChildren := by
  have hnodes := h.node.codeChildren
  rw [← map_node_codeChildren, ← map_node_codeChildren, List.forall₂_map_left_iff,
    List.forall₂_map_right_iff] at hnodes
  refine (forall₂_with_position hnodes).imp ?_
  rintro c c' ⟨⟨hrole, hnode⟩, i, hc, hc'⟩
  have habove := above_of_mem_children (List.mem_of_mem_filter (List.mem_of_getElem? hc))
  have habove' := above_of_mem_children (List.mem_of_mem_filter (List.mem_of_getElem? hc'))
  refine ⟨hrole, ⟨[i], ?_, ?_⟩, hnode, ?_⟩
  · rw [descendCode?, hc]
    rfl
  · rw [descendCode?, hc']
    rfl
  · rw [habove, habove']
    exact .cons h.node h.above

/-- A path that counts no comments leads to the same place. -/
theorem descendCode? (path : List Nat) :
    Option.Rel (Commented source source') (p.descendCode? path) (p'.descendCode? path) := by
  induction path generalizing p p' with
  | nil => exact .some h
  | cons i path ih =>
    exact rel_bind (rel_getElem?_of_forall₂ h.codeChildren i) fun _ _ hc => ih hc.2.2

theorem of_sameCodePath {q q' : Place} (hq : SameCodePath p p' q q') :
    Commented source source' q q' := by
  obtain ⟨path, hpath, hpath'⟩ := hq
  have hrel := h.descendCode? path
  rw [hpath, hpath'] at hrel
  exact Option.rel_some_some.1 hrel

/-- A search among the children that are no comments ends at the same one. -/
theorem find?_codeChildren {P P' : Place → Bool}
    (hP : ∀ c c', c.node.role = c'.node.role → Commented source source' c c' → P c = P' c') :
    Option.Rel (SameCodePath p p') (p.codeChildren.find? P) (p'.codeChildren.find? P') := by
  rcases find?_of_forall₂ (fun c c' hc => hP c c' hc.1 hc.2.2) h.codeChildren with
    ⟨hnone, hnone'⟩ | ⟨c, c', hc, hc', -, hpath, -⟩
  · rw [hnone, hnone']
    exact .none
  · rw [hc, hc']
    exact .some hpath

theorem child? (r : Role) : Option.Rel (SameCodePath p p') (p.child? r) (p'.child? r) := by
  have hcode : ∀ {q : Place}, (∀ n ∈ q.node.children, n.isComment = true → n.role = none) →
      q.child? r = q.codeChildren.find? (·.node.role = some r) := by
    intro q hrole
    refine (find?_filter_of_imp fun c hc hr => ?_).symm
    have hmem : c.node ∈ q.node.children := by
      rw [← map_node_children]
      exact List.mem_map_of_mem hc
    cases hcomment : c.node.isComment with
    | false => rfl
    | true => simp [hrole c.node hmem hcomment] at hr
  rw [hcode h.node.role_of_isComment, hcode h.node.role_of_isComment']
  exact h.find?_codeChildren fun c c' hrole _ => by rw [hrole]

/-- The children in a role below a place on the way are at the same path. -/
theorem child?_below {q q' : Place} (hq : SameCodePath p p' q q') (r : Role) :
    Option.Rel (SameCodePath p p') (q.child? r) (q'.child? r) :=
  rel_mono (fun _ _ => hq.trans) ((h.of_sameCodePath hq).child? r)

/-- The first children correspond. -/
theorem head?_children :
    Option.Rel (fun c c' => Commented source source' c c' ∧
      (c.node.isComment = false → SameCodePath p p' c c')) p.children.head? p'.children.head? := by
  have hnodes := h.node.head?_children
  rw [head?_children_eq, head?_children_eq]
  cases hc : p.node.children.head? <;> cases hc' : p'.node.children.head? <;>
    rw [hc, hc'] at hnodes <;> cases hnodes
  · exact .none
  · next hnode =>
    refine .some ⟨⟨hnode, .cons h.node h.above⟩, fun hcode => ⟨[0], ?_, ?_⟩⟩
    · exact descendCode?_of_head? (by rw [head?_children_eq, hc]; rfl) hcode
    · exact descendCode?_of_head? (by rw [head?_children_eq, hc']; rfl)
        (hnode.isComment.symm.trans hcode)

end Commented

end Place

end DocFlow.Script
