import Mathlib.Data.List.Basic
import DocFlow.Script.Node

namespace DocFlow.Script.Place

theorem getElem?_siblings (above before ns : List Node) (i : Nat) :
    (siblings above before ns)[i]? =
      ns[i]?.map fun n => ⟨n, (ns.take i).reverse ++ before, above⟩ := by
  induction ns generalizing before i with
  | nil => rfl
  | cons n ns ih =>
    cases i with
    | zero => rfl
    | succ i =>
      rw [siblings, List.getElem?_cons_succ, List.getElem?_cons_succ, ih, List.take_succ_cons,
        List.reverse_cons, List.append_assoc]
      rfl

/-- A child has the children in front of it as its siblings, and its parent above it. -/
theorem getElem?_children (p : Place) (i : Nat) :
    p.children[i]? = p.node.children[i]?.map fun n =>
      ⟨n, (p.node.children.take i).reverse, p.node :: p.above⟩ := by
  rw [children, getElem?_siblings]
  congr 1
  funext n
  rw [List.append_nil]

theorem map_node_children (p : Place) : p.children.map node = p.node.children := by
  apply List.ext_getElem?
  intro i
  rw [List.getElem?_map, getElem?_children, Option.map_map]
  exact Option.map_id'

theorem map_node_namedChildren (p : Place) : p.namedChildren.map node = p.node.namedChildren := by
  rw [Node.namedChildren, ← map_node_children, List.filter_map]
  rfl

theorem exists_of_mem_children {p q : Place} (h : q ∈ p.children) :
    ∃ i : Nat, p.children[i]? = some q :=
  List.getElem?_of_mem h

theorem above_of_mem_children {p q : Place} (h : q ∈ p.children) : q.above = p.node :: p.above := by
  obtain ⟨i, hi⟩ := exists_of_mem_children h
  rw [getElem?_children] at hi
  obtain ⟨n, -, rfl⟩ := Option.map_eq_some_iff.1 hi
  rfl

/-- The child that is found in a role is the place of the one found there in the node. -/
theorem node_child? (p : Place) (r : Role) : (p.child? r).map node = p.node.child? r := by
  rw [Node.child?, ← map_node_children, List.find?_map]
  rfl

theorem mem_children_of_child? {p q : Place} {r : Role} (h : p.child? r = some q) :
    q ∈ p.children :=
  List.mem_of_find?_eq_some h

/-- The place at the end of a path. -/
def descend? : List Nat → Place → Option Place
  | [], p => some p
  | i :: path, p => p.children[i]?.bind (descend? path)

theorem descend?_append (path more : List Nat) (p : Place) :
    p.descend? (path ++ more) = (p.descend? path).bind (descend? more) := by
  induction path generalizing p with
  | nil => rfl
  | cons i path ih =>
    rw [List.cons_append, descend?, descend?, Option.bind_assoc]
    congr 1
    funext c
    exact ih c

theorem descend?_concat (path : List Nat) (i : Nat) (p : Place) :
    p.descend? (path ++ [i]) = (p.descend? path).bind fun q => q.children[i]? := by
  rw [descend?_append]
  congr 1
  funext q
  exact Option.bind_fun_some _

/-- A step of a path puts one more node above. -/
theorem length_above {path : List Nat} {p q : Place} (h : p.descend? path = some q) :
    q.above.length = p.above.length + path.length := by
  induction path generalizing p with
  | nil =>
    cases h
    rfl
  | cons i path ih =>
    obtain ⟨c, hc, hq⟩ := Option.bind_eq_some_iff.1 h
    have habove := above_of_mem_children (List.mem_of_getElem? hc)
    rw [ih hq, habove, List.length_cons, List.length_cons]
    omega

/-- What is above the first place of a path is above the last one, and nothing else changes. -/
theorem descend?_above (path : List Nat) (p : Place) (outer : List Node) :
    descend? path { p with above := p.above ++ outer } =
      (p.descend? path).map fun q => { q with above := q.above ++ outer } := by
  induction path generalizing p with
  | nil => rfl
  | cons i path ih =>
    rw [descend?, descend?, getElem?_children, getElem?_children]
    cases p.node.children[i]? with
    | none => rfl
    | some n => exact ih ⟨n, (p.node.children.take i).reverse, p.node :: p.above⟩

/-- What a node hands down to its children holds at the end of every path. -/
theorem of_descend? {P : Node → Prop} (down : ∀ n, P n → ∀ c ∈ n.children, P c)
    {path : List Nat} {p q : Place} (h : p.descend? path = some q) (hp : P p.node) : P q.node := by
  induction path generalizing p with
  | nil =>
    cases h
    exact hp
  | cons i path ih =>
    obtain ⟨c, hc, hq⟩ := Option.bind_eq_some_iff.1 h
    have hmem : c.node ∈ p.node.children := by
      rw [← map_node_children]
      exact List.mem_map_of_mem (List.mem_of_getElem? hc)
    exact ih hq (down p.node hp c.node hmem)

end DocFlow.Script.Place
