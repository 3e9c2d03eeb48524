import Mathlib
import DocFlow.Proofs.Declaration.History

namespace DocFlow

open DeclarationTree

namespace Declarations

/-- Adds a construct, or changes nothing where that fails. -/
def attempt (d : Document) (ds : Declarations) (c : Documented) : Declarations :=
  (add d ds c).toOption.getD ds

def entries (d : Document) (cs : List Documented) : List Entry :=
  cs.filterMap fun c => (Entry.ofConstruct d c).toOption

theorem reserved_notMem_of_segmentsOf {d : Document} {p : Script.Place} {segments : List Text}
    (h : segmentsOf d p = .ok segments) : reserved ∉ segments := by
  obtain ⟨name, -, h⟩ := bind_eq_ok.1 h
  dsimp only at h
  split at h
  · cases h
  · next free =>
    cases h
    simpa using free

theorem reserved_notMem_path {d : Document} {c : Documented} {e : Entry}
    (h : Entry.ofConstruct d c = .ok e) : reserved ∉ e.path := by
  cases c with
  | function f =>
    obtain ⟨segments, hsegments, rfl⟩ := map_eq_ok.1 h
    have free := reserved_notMem_of_segmentsOf hsegments
    intro hmem
    exact free (List.mem_of_mem_filter hmem)
  | enumeration e =>
    obtain ⟨segments, hsegments, rfl⟩ := map_eq_ok.1 h
    exact reserved_notMem_of_segmentsOf hsegments

theorem root_attempt (d : Document) (ds : Declarations) (c : Documented) :
    (attempt d ds c).root =
      (Entry.ofConstruct d c).toOption.elim ds.root fun e => e.insert ds.root := by
  cases c with
  | function f =>
    dsimp only [attempt, add, withFunction, Entry.ofConstruct]
    cases segmentsOf d f.place <;> rfl
  | enumeration e =>
    dsimp only [attempt, add, withEnum, Entry.ofConstruct]
    cases segmentsOf d e.place <;> rfl

/-- The constructs that cannot be added leave no trace. -/
theorem root_attempts (d : Document) (cs : List Documented) :
    (cs.foldl (attempt d) {}).root = History.tree (entries d cs) := by
  induction cs using List.reverseRecOn with
  | nil => rfl
  | append_singleton cs c ih =>
    have hentries : entries d (cs ++ [c]) =
        entries d cs ++ (Entry.ofConstruct d c).toOption.toList := by
      rw [entries, List.filterMap_append, entries]
      cases h : (Entry.ofConstruct d c).toOption <;> simp [h]
    rw [List.foldl_append, List.foldl_cons, List.foldl_nil, root_attempt, ih, hentries]
    cases (Entry.ofConstruct d c).toOption with
    | none => simp
    | some e => exact (History.tree_concat _ _).symm

/-- The node path of a function passes over every `prototype`. -/
theorem isFunction_eq_false_of_prefix {e : Entry} {p : List Text}
    (h : p ++ [Name.prototype] <+: e.path) : e.isFunction = false := by
  cases e with
  | function segments =>
    have hmem : Name.prototype ∈ Name.nodePath segments := h.mem (by simp)
    simp [Name.nodePath] at hmem
  | enumeration => rfl

/-- Whatever is attempted, no node is keyed `meta`, and a node is keyed `prototype` iff it is on the
path of an enum. -/
theorem reserved_nodes_of_attempts (d : Document) (cs : List Documented) (p : List Text) :
    (cs.foldl (attempt d) {}).root.descendant? (p ++ [reserved]) = none ∧
      (((cs.foldl (attempt d) {}).root.descendant? (p ++ [Name.prototype])).isSome ↔
        ∃ e ∈ entries d cs, e.isFunction = false ∧ p ++ [Name.prototype] <+: e.path) := by
  rw [root_attempts]
  constructor
  · rw [← Option.not_isSome_iff_eq_none, History.isSome_tree]
    rintro (hroot | ⟨e, he, hleads⟩)
    · exact List.append_ne_nil_of_right_ne_nil _ (by simp) hroot
    · obtain ⟨c, -, hc⟩ := List.mem_filterMap.1 he
      exact reserved_notMem_path (eq_ok_of_toOption hc) (hleads.mem (by simp))
  · rw [History.isSome_tree]
    constructor
    · rintro (hroot | ⟨e, he, hleads⟩)
      · exact absurd hroot (by simp)
      · exact ⟨e, he, isFunction_eq_false_of_prefix hleads, hleads⟩
    · rintro ⟨e, he, -, hleads⟩
      exact .inr ⟨e, he, hleads⟩

/-- An enum that is assigned to the `prototype` of a class is a node below it. -/
theorem node_of_enum_prototype :
    ∃ d cs, Document.ofSource ⟨"/** @enum {number} */A.prototype={X:1}".toList, [], "js".toList,
        "utf-8".toList⟩ = .ok d ∧ d.constructs = .ok cs ∧
      ((cs.foldl (attempt d) {}).root.descendant? ["A".toList, Name.prototype]).isSome := by
  generalize hs : (Source.mk "/** @enum {number} */A.prototype={X:1}".toList [] "js".toList
    "utf-8".toList) = s
  have read : (Document.ofSource s >>= fun d => d.constructs.map fun cs =>
      ((cs.foldl (attempt d) {}).root.descendant? ["A".toList, Name.prototype]).isSome).toOption =
        some true := by
    subst hs
    decide +kernel
  obtain ⟨d, hd, h⟩ := bind_eq_ok.1 (eq_ok_of_toOption read)
  obtain ⟨cs, hcs, hnode⟩ := map_eq_ok.1 h
  exact ⟨d, cs, hd, hcs, hnode⟩

end Declarations

end DocFlow
