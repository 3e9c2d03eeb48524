import Mathlib.Data.List.Forall2
import DocFlow.Proofs.Script.Path

namespace DocFlow.Script

mutual

/-- Whether two nodes are the same code. The roles that they have in their parents may differ. -/
def sameCode (source source' : Text) : Node → Node → Bool
  | .mk k r s e cs, .mk k' r' s' e' cs' =>
    k = k' && Node.text source (.mk k r s e cs) = Node.text source' (.mk k' r' s' e' cs') &&
      sameCodes source source' cs cs'

def sameCodes (source source' : Text) : List Node → List Node → Bool
  | [], [] => true
  | n :: rest, n' :: rest' =>
    n.role = n'.role && sameCode source source' n n' && sameCodes source source' rest rest'
  | _, _ => false

end

variable {source source' : Text}

def SameChild (source source' : Text) (c c' : Node) : Prop :=
  c.role = c'.role ∧ sameCode source source' c c' = true

theorem sameCodes_iff {cs cs' : List Node} :
    sameCodes source source' cs cs' = true ↔ List.Forall₂ (SameChild source source') cs cs' := by
  induction cs generalizing cs' with
  | nil =>
    rw [List.forall₂_nil_left_iff]
    cases cs' <;> simp [sameCodes]
  | cons c cs ih =>
    cases cs' with
    | nil => simp [sameCodes]
    | cons c' cs' =>
      rw [sameCodes, List.forall₂_cons, ← ih, Bool.and_eq_true, Bool.and_eq_true, decide_eq_true_eq]
      rfl

theorem sameCode_iff {n n' : Node} :
    sameCode source source' n n' = true ↔
      n.kind = n'.kind ∧ n.text source = n'.text source' ∧
        List.Forall₂ (SameChild source source') n.children n'.children := by
  obtain ⟨k, r, s, e, cs⟩ := n
  obtain ⟨k', r', s', e', cs'⟩ := n'
  rw [sameCode, Bool.and_eq_true, Bool.and_eq_true, decide_eq_true_eq, decide_eq_true_eq,
    sameCodes_iff, and_assoc]
  rfl

section

variable {n n' : Node} (same : sameCode source source' n n' = true)
include same

theorem kind_eq_of_sameCode : n.kind = n'.kind :=
  (sameCode_iff.1 same).1

theorem text_eq_of_sameCode : n.text source = n'.text source' :=
  (sameCode_iff.1 same).2.1

theorem children_of_sameCode : List.Forall₂ (SameChild source source') n.children n'.children :=
  (sameCode_iff.1 same).2.2

theorem isToken_eq_of_sameCode (token : String) : n.isToken token = n'.isToken token := by
  rw [Node.isToken, Node.isToken, kind_eq_of_sameCode same]

end

theorem find?_of_forall₂ {α β : Type} {R : α → β → Prop} {p : α → Bool} {p' : β → Bool}
    (hp : ∀ a b, R a b → p a = p' b) {as : List α} {bs : List β} (h : List.Forall₂ R as bs) :
    (as.find? p = none ∧ bs.find? p' = none) ∨
      ∃ a b, as.find? p = some a ∧ bs.find? p' = some b ∧ R a b := by
  induction h with
  | nil => exact .inl ⟨rfl, rfl⟩
  | @cons a b as bs hab _ ih =>
    rw [List.find?_cons, List.find?_cons, ← hp a b hab]
    cases p a with
    | true => exact .inr ⟨a, b, rfl, rfl, hab⟩
    | false => exact ih

theorem getElem?_of_forall₂ {α β : Type} {R : α → β → Prop} {as : List α} {bs : List β}
    (h : List.Forall₂ R as bs) {i : Nat} {a : α} (ha : as[i]? = some a) :
    ∃ b, bs[i]? = some b ∧ R a b := by
  induction h generalizing i with
  | nil => cases ha
  | cons hab _ ih =>
    cases i with
    | zero =>
      cases ha
      exact ⟨_, rfl, hab⟩
    | succ i => exact ih ha

theorem map_eq_map_of_forall₂ {α β γ : Type} {R : α → β → Prop} {f : α → γ} {g : β → γ}
    (hfg : ∀ a b, R a b → f a = g b) {as : List α} {bs : List β} (h : List.Forall₂ R as bs) :
    as.map f = bs.map g := by
  induction h with
  | nil => rfl
  | cons hab _ ih => rw [List.map_cons, List.map_cons, hfg _ _ hab, ih]

/-- The same code has the same children in every role. -/
theorem child?_of_sameCode {n n' : Node} (same : sameCode source source' n n' = true) (r : Role) :
    (n.child? r = none ∧ n'.child? r = none) ∨
      ∃ c c', n.child? r = some c ∧ n'.child? r = some c' ∧ sameCode source source' c c' = true := by
  have hrole : ∀ c c', SameChild source source' c c' →
      decide (c.role = some r) = decide (c'.role = some r) := by
    intro c c' h
    rw [h.1]
  rcases find?_of_forall₂ hrole (children_of_sameCode same) with hnone | ⟨c, c', hc, hc', h⟩
  · exact .inl hnone
  · exact .inr ⟨c, c', hc, hc', h.2⟩

/-- The same code has the same children in every position. -/
theorem exists_child_of_sameCode {q q' p : Place}
    (same : sameCode source source' q.node q'.node = true) {i : Nat} (hp : q.children[i]? = some p) :
    ∃ p', q'.children[i]? = some p' ∧ sameCode source source' p.node p'.node = true := by
  rw [Place.getElem?_children] at hp ⊢
  obtain ⟨c, hc, rfl⟩ := Option.map_eq_some_iff.1 hp
  obtain ⟨c', hc', h⟩ := getElem?_of_forall₂ (children_of_sameCode same) hc
  rw [hc']
  exact ⟨_, rfl, h.2⟩

mutual

theorem sameCode_refl (source : Text) : ∀ n : Node, sameCode source source n n = true
  | .mk _ _ _ _ cs => by
    rw [sameCode, sameCodes_refl source cs, decide_eq_true rfl, decide_eq_true rfl]
    rfl

theorem sameCodes_refl (source : Text) : ∀ cs : List Node, sameCodes source source cs cs = true
  | [] => rfl
  | n :: rest => by
    rw [sameCodes, sameCode_refl source n, sameCodes_refl source rest, decide_eq_true rfl]
    rfl

end

end DocFlow.Script
