import Mathlib.Data.List.Forall2
import DocFlow.Declaration.Collection
import DocFlow.Inline.Annotation
import DocFlow.Proofs.Script.Path

namespace DocFlow

namespace Script

mutual

def Node.paths : Node → List (List Nat)
  | .mk _ _ _ _ cs => [] :: pathsFrom 0 cs

def pathsFrom : Nat → List Node → List (List Nat)
  | _, [] => []
  | i, n :: rest => n.paths.map (i :: ·) ++ pathsFrom (i + 1) rest

end

theorem mem_pathsFrom {i : Nat} {ns : List Node} {path : List Nat} :
    path ∈ pathsFrom i ns ↔
      ∃ j n more, path = (i + j) :: more ∧ ns[j]? = some n ∧ more ∈ n.paths := by
  induction ns generalizing i with
  | nil => simp [pathsFrom]
  | cons n ns ih =>
    rw [pathsFrom, List.mem_append, List.mem_map, ih]
    constructor
    · rintro (⟨more, hmore, rfl⟩ | ⟨j, m, more, rfl, hm, hmore⟩)
      · exact ⟨0, n, more, rfl, rfl, hmore⟩
      · refine ⟨j + 1, m, more, ?_, hm, hmore⟩
        rw [Nat.add_assoc, Nat.add_comm 1]
    · rintro ⟨_ | j, m, more, rfl, hm, hmore⟩
      · cases hm
        exact .inl ⟨more, hmore, rfl⟩
      · refine .inr ⟨j, m, more, ?_, hm, hmore⟩
        rw [Nat.add_assoc, Nat.add_comm 1]

mutual

/-- The paths come in lexicographic order, so none comes twice. -/
theorem Node.pairwise_paths : ∀ n : Node, n.paths.Pairwise (· < ·)
  | .mk _ _ _ _ cs => by
    rw [Node.paths]
    refine List.Pairwise.cons ?_ (pairwise_pathsFrom 0 cs)
    intro path hpath
    obtain ⟨j, n, more, rfl, -, -⟩ := mem_pathsFrom.1 hpath
    exact List.Lex.nil

theorem pairwise_pathsFrom : ∀ (i : Nat) (ns : List Node), (pathsFrom i ns).Pairwise (· < ·)
  | _, [] => List.Pairwise.nil
  | i, n :: ns => by
    rw [pathsFrom, List.pairwise_append, List.pairwise_map]
    refine ⟨n.pairwise_paths.imp List.Lex.cons, pairwise_pathsFrom (i + 1) ns, ?_⟩
    intro path hpath path' hpath'
    obtain ⟨more, -, rfl⟩ := List.mem_map.1 hpath
    obtain ⟨j, m, more', rfl, -, -⟩ := mem_pathsFrom.1 hpath'
    exact List.Lex.rel (by omega)

end

namespace Place

def subtree (p : Place) : List Place := placesOf p.before p.above p.node

theorem placesOfAll_eq (before above ns : List Node) :
    placesOfAll before above ns = (siblings above before ns).flatMap subtree := by
  induction ns generalizing before with
  | nil => rfl
  | cons n ns ih =>
    rw [placesOfAll, siblings, List.flatMap_cons, ih]
    rfl

/-- A place comes before the subtrees of its children. -/
theorem subtree_eq (p : Place) : p.subtree = p :: p.children.flatMap subtree := by
  obtain ⟨⟨k, r, s, e, cs⟩, before, above⟩ := p
  rw [subtree, placesOf, placesOfAll_eq]
  rfl

/-- What the loop gives in a number of steps is the front of what the recursion gives. -/
theorem preorderFrom_eq (steps : Nat) (pending : List Place) :
    preorderFrom steps pending = (pending.flatMap subtree).take steps := by
  induction steps generalizing pending with
  | zero => rw [preorderFrom, List.take_zero]
  | succ steps ih =>
    cases pending with
    | nil => rfl
    | cons p pending =>
      rw [preorderFrom, ih, List.flatMap_append, List.flatMap_cons, subtree_eq, List.cons_append,
        List.take_succ_cons]

mutual

theorem length_placesOf : ∀ (before above : List Node) (n : Node),
    (placesOf before above n).length = n.size
  | _, above, .mk k r s e cs => by
    rw [placesOf, Node.size, List.length_cons, length_placesOfAll [] (.mk k r s e cs :: above) cs]

theorem length_placesOfAll : ∀ (before above ns : List Node),
    (placesOfAll before above ns).length = sizeAll ns
  | _, _, [] => rfl
  | before, above, n :: ns => by
    rw [placesOfAll, sizeAll, List.length_append, length_placesOf before above n,
      length_placesOfAll (n :: before) above ns]

end

theorem length_subtree (p : Place) : p.subtree.length = p.node.size :=
  length_placesOf p.before p.above p.node

/-- A loop over a stack ends, and has given some places. It takes the last place off the stack,
gives it, and puts its children on the stack, the first one on top. -/
inductive Walks : List Place → List Place → Prop
  | done : Walks [] []
  | next {stack out : List Place} {p : Place} (rest : Walks (stack ++ p.children.reverse) out) :
    Walks (stack ++ [p]) (p :: out)

theorem flatMap_reverse_concat (stack : List Place) (p : Place) :
    (stack ++ [p]).reverse.flatMap subtree =
      p :: (stack ++ p.children.reverse).reverse.flatMap subtree := by
  rw [List.reverse_concat, List.flatMap_cons, subtree_eq, List.reverse_append, List.reverse_reverse,
    List.flatMap_append, List.cons_append]

/-- The loop ends from every stack. It gives the subtrees of the places on it, from the top down. -/
theorem walks_iff {stack out : List Place} :
    Walks stack out ↔ out = stack.reverse.flatMap subtree := by
  constructor
  · intro h
    induction h with
    | done => rfl
    | next rest ih => rw [flatMap_reverse_concat, ih]
  · intro h
    -- The induction is on what is still to be given, which gets shorter with every step.
    induction out generalizing stack with
    | nil =>
      rcases List.eq_nil_or_concat' stack with rfl | ⟨stack, p, rfl⟩
      · exact .done
      · rw [flatMap_reverse_concat] at h
        cases h
    | cons q out ih =>
      rcases List.eq_nil_or_concat' stack with rfl | ⟨stack, p, rfl⟩
      · cases h
      · rw [flatMap_reverse_concat] at h
        obtain ⟨rfl, hout⟩ := List.cons.inj h
        exact .next (ih hout)

/-- The paths of a tree are those that lead somewhere. -/
theorem mem_paths {p : Place} {path : List Nat} :
    path ∈ p.node.paths ↔ (p.descend? path).isSome = true := by
  induction path generalizing p with
  | nil =>
    obtain ⟨⟨k, r, s, e, cs⟩, before, above⟩ := p
    exact iff_of_true List.mem_cons_self rfl
  | cons i path ih =>
    have hbelow : i :: path ∈ p.node.paths ↔
        ∃ n, p.node.children[i]? = some n ∧ path ∈ n.paths := by
      obtain ⟨⟨k, r, s, e, cs⟩, before, above⟩ := p
      simp [Node.paths, mem_pathsFrom, Node.children]
    rw [hbelow, descend?, getElem?_children]
    cases p.node.children[i]? with
    | none => simp
    | some n =>
      rw [Option.map_some, Option.bind_some, ← ih]
      simp

mutual

/-- The places of a tree stand at its paths, in this order. -/
theorem forall₂_placesOf : ∀ (n : Node) (before above : List Node),
    List.Forall₂ (fun path q => descend? path ⟨n, before, above⟩ = some q) n.paths
      (placesOf before above n)
  | .mk k r s e cs, before, above => by
    rw [Node.paths, placesOf]
    refine .cons rfl ?_
    exact forall₂_placesOfAll cs [] ⟨.mk k r s e cs, before, above⟩ rfl

theorem forall₂_placesOfAll : ∀ (ns done : List Node) (p : Place),
    p.node.children = done ++ ns →
    List.Forall₂ (fun path q => descend? path p = some q) (pathsFrom done.length ns)
      (placesOfAll done.reverse (p.node :: p.above) ns)
  | [], _, _, _ => .nil
  | n :: ns, done, p, h => by
    have hrest : p.node.children = (done ++ [n]) ++ ns := by
      rw [h, List.append_assoc]
      rfl
    have hmore := forall₂_placesOfAll ns (done ++ [n]) p hrest
    rw [List.length_append, List.length_singleton, List.reverse_concat] at hmore
    rw [pathsFrom, placesOfAll]
    refine List.rel_append ?_ hmore
    rw [List.forall₂_map_left_iff]
    refine (forall₂_placesOf n done.reverse (p.node :: p.above)).imp ?_
    intro path q hq
    rw [descend?, getElem?_children, h, List.getElem?_append_right (Nat.le_refl _), Nat.sub_self,
      List.take_left]
    exact hq

end

/-- Places are those of a subtree in document order: one stands at each path that leads somewhere in
it, and they come in the lexicographic order of these paths. -/
structure InDocumentOrder (p : Place) (paths : List (List Nat)) (ps : List Place) : Prop where
  order : paths.Pairwise (· < ·)
  every : ∀ path, path ∈ paths ↔ (p.descend? path).isSome = true
  places : List.Forall₂ (fun path q => p.descend? path = some q) paths ps

theorem inDocumentOrder_subtree (p : Place) : InDocumentOrder p p.node.paths p.subtree :=
  ⟨p.node.pairwise_paths, fun _ => mem_paths, forall₂_placesOf p.node p.before p.above⟩

variable {σ : Type}

def takeAt (step : σ → Place → Except Error σ) (p : Place) (s : σ) (path : List Nat) :
    Except Error σ :=
  (p.descend? path).elim (.ok s) (step s)

/-- To take in places in document order is to take in what is at the paths. -/
theorem InDocumentOrder.foldlM_takeAt {p : Place} {paths : List (List Nat)} {ps : List Place}
    (h : InDocumentOrder p paths ps) (step : σ → Place → Except Error σ) (s : σ) :
    paths.foldlM (takeAt step p) s = ps.foldlM step s := by
  have hplaces := h.places
  clear h
  induction hplaces generalizing s with
  | nil => rfl
  | cons hq hrest ih =>
    rw [List.foldlM_cons, List.foldlM_cons, takeAt, hq, Option.elim_some]
    congr 1
    funext s'
    exact ih s'

end Place

end Script

namespace Document

open Script Place

/-- As many steps as there are nodes are enough for the loop. -/
theorem places_eq (d : Document) : d.places = d.root.places := by
  have hsize : (Place.root d.root).subtree.length ≤ d.root.size :=
    Nat.le_of_eq (length_subtree (Place.root d.root))
  rw [places, preorder, preorderFrom_eq, List.flatMap_singleton, List.take_of_length_le hsize]
  rfl

theorem inDocumentOrder_places (d : Document) :
    InDocumentOrder (Place.root d.root) d.root.paths d.places := by
  rw [places_eq]
  exact inDocumentOrder_subtree (Place.root d.root)

/-- From every place of every tree the loop ends, and gives what the recursion gives: the place, and
then what is given for its children. So it gives each node of the subtree once, in document order,
and declarations and annotations come from one step at each node of a document, in this order. -/
theorem traversal_in_document_order :
    (∀ p : Place, (∀ out, Walks [p] out ↔ out = p.subtree) ∧
      p.subtree = p :: p.children.flatMap subtree ∧
      (∀ steps, preorderFrom steps [p] = p.subtree.take steps) ∧ p.subtree.length = p.node.size ∧
      InDocumentOrder p p.node.paths p.subtree) ∧
    ∀ d : Document, d.places = d.root.places ∧
      Declarations.ofDocument d =
        d.root.paths.foldlM (takeAt (Declarations.step d) (Place.root d.root)) {} ∧
      Annotations.ofDocument d =
        d.root.paths.foldlM (takeAt (Annotations.step d.source.content) (Place.root d.root)) {} := by
  constructor
  · intro p
    refine ⟨fun out => ?_, subtree_eq p, fun steps => ?_, length_subtree p,
      inDocumentOrder_subtree p⟩
    · rw [walks_iff, List.reverse_singleton, List.flatMap_singleton]
    · rw [preorderFrom_eq, List.flatMap_singleton]
  · intro d
    have horder := inDocumentOrder_places d
    exact ⟨places_eq d, (horder.foldlM_takeAt _ _).symm, (horder.foldlM_takeAt _ _).symm⟩

end Document

end DocFlow
