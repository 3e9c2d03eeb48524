import Mathlib.Data.List.TakeWhile
import DocFlow.Documented.Basic
import DocFlow.Proofs.Script.Path

namespace DocFlow.LeadingComment

open Script

/-- The position among its siblings at which the run of comments before a node starts. -/
def runStart (p : Place) : Nat := (p.before.dropWhile Node.isComment).length

/-- The node in position `k` has the comments from `start` on before it: all nodes from there up to
`k` are comments, and the one in front of them is none. -/
structure IsRun (siblings : List Node) (k start : Nat) : Prop where
  start_le : start ≤ k
  comments {i : Nat} {n : Node} : start ≤ i → i < k → siblings[i]? = some n → n.isComment = true
  longest {i : Nat} {n : Node} : i + 1 = start → siblings[i]? = some n → n.isComment = false

/-- The siblings before a node are those before its run and then the run. -/
theorem reverse_before (p : Place) :
    p.before.reverse = (p.before.dropWhile Node.isComment).reverse ++
      (p.before.takeWhile Node.isComment).reverse := by
  rw [← List.reverse_append, List.takeWhile_append_dropWhile]

theorem before_of_child {q p : Place} {k : Nat} (h : q.children[k]? = some p) :
    p.before.reverse = q.node.children.take k ∧ k < q.node.children.length := by
  rw [Place.getElem?_children] at h
  obtain ⟨n, hn, rfl⟩ := Option.map_eq_some_iff.1 h
  exact ⟨List.reverse_reverse _, (List.getElem?_eq_some_iff.1 hn).1⟩

theorem node_of_child {q p : Place} {k : Nat} (h : q.children[k]? = some p) :
    q.node.children[k]? = some p.node := by
  rw [← Place.map_node_children, List.getElem?_map, h]
  rfl

theorem drop_runStart {q p : Place} {k : Nat} (h : q.children[k]? = some p) :
    (q.node.children.take k).drop (runStart p) = (p.before.takeWhile Node.isComment).reverse := by
  rw [← (before_of_child h).1, reverse_before, runStart]
  exact List.drop_left' (List.length_reverse ..)

theorem take_runStart {q p : Place} {k : Nat} (h : q.children[k]? = some p) :
    (q.node.children.take k).take (runStart p) = (p.before.dropWhile Node.isComment).reverse := by
  rw [← (before_of_child h).1, reverse_before, runStart]
  exact List.take_left' (List.length_reverse ..)

theorem runStart_le {q p : Place} {k : Nat} (h : q.children[k]? = some p) : runStart p ≤ k := by
  obtain ⟨hbefore, hk⟩ := before_of_child h
  have hall : p.before.length = k := by
    rw [← List.length_reverse, hbefore, List.length_take]
    omega
  have hrest := (List.dropWhile_sublist Node.isComment (l := p.before)).length_le
  rw [runStart]
  omega

theorem isRun_runStart {q p : Place} {k : Nat} (h : q.children[k]? = some p) :
    IsRun q.node.children k (runStart p) where
  start_le := runStart_le h
  comments := by
    intro i n hstart hk hn
    have hmem : n ∈ (q.node.children.take k).drop (runStart p) := by
      apply List.mem_of_getElem? (i := i - runStart p)
      rw [List.getElem?_drop, Nat.add_sub_cancel' hstart, List.getElem?_take_of_lt hk, hn]
    rw [drop_runStart h, List.mem_reverse] at hmem
    exact List.mem_takeWhile_imp hmem
  longest := by
    intro i n hi hn
    have hk := runStart_le h
    have hat : ((q.node.children.take k).take (runStart p))[i]? = some n := by
      rw [List.getElem?_take_of_lt (by omega), List.getElem?_take_of_lt (by omega), hn]
    -- The node in front of the run is the nearest one that is no comment.
    have hfirst : (p.before.dropWhile Node.isComment).head? = some n := by
      rw [take_runStart h, List.getElem?_reverse (by rw [runStart] at hi; omega)] at hat
      have hzero : (p.before.dropWhile Node.isComment).length - 1 - i = 0 := by
        rw [runStart] at hi
        omega
      rw [List.head?_eq_getElem?, ← hzero, hat]
    have hhead := List.head?_dropWhile_not Node.isComment p.before
    rw [hfirst] at hhead
    exact hhead

/-- The comments before a node are those of its run, in order. -/
theorem ofPlace_eq {q p : Place} {k : Nat} (h : q.children[k]? = some p) (source : Text) :
    ofPlace source p = ((q.node.children.take k).drop (runStart p)).map (ofNode source) := by
  rw [drop_runStart h, List.map_reverse, ofPlace]

def Leads (root : Place) (path comment : List Nat) : Prop :=
  ∃ above k i p, path = above ++ [k] ∧ comment = above ++ [i] ∧ root.descend? path = some p ∧
    runStart p ≤ i ∧ i < k

/-- The runs before two nodes that are no comments have no comment in common. -/
theorem not_leads_both {root p p' : Place} {path path' comment : List Nat} (distinct : path ≠ path')
    (hp : root.descend? path = some p) (hp' : root.descend? path' = some p')
    (visible : p.node.isComment = false) (visible' : p'.node.isComment = false) :
    ¬ (Leads root path comment ∧ Leads root path' comment) := by
  rintro ⟨⟨above, k, i, r, rfl, rfl, hr, hstart, hi⟩, above', k', i', r', rfl, heq, hr', hstart', hi'⟩
  obtain rfl := Option.some.inj (hr.symm.trans hp)
  obtain rfl := Option.some.inj (hr'.symm.trans hp')
  obtain ⟨rfl, hlast⟩ := List.append_inj' heq rfl
  obtain rfl := (List.cons.inj hlast).1
  rw [Place.descend?_concat] at hp hp'
  obtain ⟨q, hq, hchild⟩ := Option.bind_eq_some_iff.1 hp
  obtain ⟨q', hq', hchild'⟩ := Option.bind_eq_some_iff.1 hp'
  obtain rfl := Option.some.inj (hq.symm.trans hq')
  have hnode := node_of_child hchild
  have hnode' := node_of_child hchild'
  -- The earlier node lies in the run before the later one, so it is a comment.
  rcases Nat.lt_trichotomy k k' with hlt | rfl | hlt
  · have hcomment := (isRun_runStart hchild').comments (by omega) hlt hnode
    rw [visible] at hcomment
    cases hcomment
  · exact distinct rfl
  · have hcomment := (isRun_runStart hchild).comments (by omega) hlt hnode'
    rw [visible'] at hcomment
    cases hcomment

/-- Each of the comments before a node is read off a node that leads it. -/
theorem exists_leads {n : Node} {p : Place} {path : List Nat} {source : Text} {c : LeadingComment}
    (hp : (Place.root n).descend? path = some p) (hc : c ∈ ofPlace source p) :
    ∃ comment r, Leads (Place.root n) path comment ∧
      (Place.root n).descend? comment = some r ∧ r.node.isComment = true ∧
      ofNode source r.node = c := by
  rcases List.eq_nil_or_concat' path with rfl | ⟨above, k, rfl⟩
  · -- The root has no siblings.
    cases hp
    cases hc
  · have hdescend := hp
    rw [Place.descend?_concat] at hdescend
    obtain ⟨q, hq, hchild⟩ := Option.bind_eq_some_iff.1 hdescend
    rw [ofPlace_eq hchild] at hc
    obtain ⟨m, hm, rfl⟩ := List.mem_map.1 hc
    obtain ⟨i, hi⟩ := List.getElem?_of_mem hm
    rw [List.getElem?_drop] at hi
    have hk : runStart p + i < k := by
      have hlength := (List.getElem?_eq_some_iff.1 hi).1
      rw [List.length_take] at hlength
      omega
    rw [List.getElem?_take_of_lt hk] at hi
    have hcomment := (isRun_runStart hchild).comments (Nat.le_add_right _ i) hk hi
    obtain ⟨r, hr, rfl⟩ : ∃ r, q.children[runStart p + i]? = some r ∧ r.node = m := by
      rw [Place.getElem?_children, hi]
      exact ⟨_, rfl, rfl⟩
    refine ⟨above ++ [runStart p + i], r, ?_, ?_, hcomment, rfl⟩
    · exact ⟨above, k, _, p, rfl, rfl, hp, Nat.le_add_right _ i, hk⟩
    · rw [Place.descend?_concat, hq]
      exact hr

end DocFlow.LeadingComment
