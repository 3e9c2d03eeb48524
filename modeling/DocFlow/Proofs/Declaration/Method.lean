import Mathlib
import DocFlow.Proofs.Declaration.Block

namespace DocFlow

open DeclarationTree

namespace DeclarationTree

/-- What the nodes below a node see of it. A node that declares nothing is a scope. -/
def formBelow (t : DeclarationTree) : DeclarationForm := t.form?.getD .scope

theorem isClass_iff {t : DeclarationTree} : t.isClass ↔ t.form? = some .classLike := by
  rw [isClass, form?]
  cases t.declared <;> simp

theorem formBelow_eq_classLike_iff {t : DeclarationTree} : t.formBelow = .classLike ↔ t.isClass := by
  rw [isClass_iff, formBelow]
  cases t.form? <;> simp

theorem descendant?_append (p q : List Text) (t : DeclarationTree) :
    t.descendant? (p ++ q) = (t.descendant? p).bind (descendant? q) := by
  induction p generalizing t with
  | nil => rfl
  | cons s p ih =>
    rw [List.cons_append, descendant?, descendant?, Option.bind_assoc]
    congr 1
    funext c
    exact ih c

/-- A leaf is declared below a node, and sees `form` in it or the form of another node below. -/
def DeclaresBelow (t : DeclarationTree) (path : List Text) (form : Option DeclarationForm)
    (p : List Text) (above : Option DeclarationForm) (d : Declaration) : Prop :=
  ∃ q s x, p = path ++ (q ++ [s]) ∧ t.descendant? q = some x ∧ x.declaredAt [s] = some d ∧
    above = if q = [] then form else some x.formBelow

section

variable {p : List Text} {leafDepth : Nat} {seen : Option DeclarationForm} {leafModule? : Option Text}
  {d : Declaration}

mutual

/-- The parts of a node declare a leaf for itself, or below it. -/
theorem leaf_of_mem_partsOf (path : List Text) (key : Text) (above : Enclosing) (depth : Nat) :
    ∀ t : DeclarationTree, t.SegmentsDistinct →
      .leaf p leafDepth seen leafModule? d ∈ partsOf path key above depth t →
        (p = path ∧ t.declared = some d ∧ seen = above.form) ∨
          t.DeclaresBelow path (some t.formBelow) p seen d
  | node none cs, distinct, h => by
    have hbelow := leaf_of_mem_partsBelow path ⟨some .scope, moduleAt above.module? (some key)⟩
      (depth + 1) (node none cs) cs (fun s c hc => distinct.child?_of_mem hc) distinct
    rw [partsOf] at h
    exact .inr (hbelow (by simpa using h))
  | node (some d') cs, distinct, h => by
    have hbelow := leaf_of_mem_partsBelow path ⟨some d'.form, above.module?⟩ (depth + 1)
      (node (some d') cs) cs (fun s c hc => distinct.child?_of_mem hc) distinct
    rw [partsOf] at h
    by_cases hclass : d'.form = .classLike
    · simp only [if_pos hclass, constructorParts] at h
      split at h
      · simp only [List.mem_cons, List.mem_append, reduceCtorEq, false_or, or_false,
          List.not_mem_nil, Part.leaf.injEq] at h
        rcases h with ⟨rfl, -, rfl, -, rfl⟩ | h
        · exact .inl ⟨rfl, rfl, rfl⟩
        · exact .inr (hbelow h)
      · exact .inr (hbelow (by simpa using h))
    · simp only [if_neg hclass, List.mem_cons, Part.leaf.injEq] at h
      rcases h with ⟨rfl, -, rfl, -, rfl⟩ | h
      · exact .inl ⟨rfl, rfl, rfl⟩
      · exact .inr (hbelow h)

theorem leaf_of_mem_partsBelow (path : List Text) (above : Enclosing) (depth : Nat)
    (t : DeclarationTree) :
    ∀ cs : List (Text × DeclarationTree), (∀ s c, (s, c) ∈ cs → t.child? s = some c) →
      t.SegmentsDistinct → .leaf p leafDepth seen leafModule? d ∈ partsBelow path above depth cs →
        t.DeclaresBelow path above.form p seen d
  | [], _, _, h => by cases h
  | (key, c) :: rest, hchild, distinct, h => by
    have hc := hchild key c List.mem_cons_self
    rw [partsBelow, List.mem_append] at h
    rcases h with h | h
    · rcases leaf_of_mem_partsOf (path ++ [key]) key above depth c (distinct.of_child? hc) h with
        ⟨rfl, hd, hseen⟩ | ⟨q, s, x, rfl, hx, hd, hseen⟩
      · refine ⟨[], key, t, rfl, rfl, ?_, hseen⟩
        rw [declaredAt, descendant?, hc]
        exact hd
      · refine ⟨key :: q, s, x, by simp, ?_, hd, ?_⟩
        · rw [descendant?, hc]
          exact hx
        · rw [hseen, if_neg (List.cons_ne_nil _ _)]
          split
          · next hq =>
            subst hq
            cases hx
            rfl
          · rfl
    · exact leaf_of_mem_partsBelow path above depth t rest
        (fun s c hmem => hchild s c (List.mem_cons_of_mem _ hmem)) distinct h

end

/-- A leaf in the layout of a tree sees the form of the node above it, if that is not the root. -/
theorem leaf_of_mem_parts {t : DeclarationTree} (distinct : t.SegmentsDistinct)
    (h : .leaf p leafDepth seen leafModule? d ∈ t.parts) :
    ∃ q s x, p = q ++ [s] ∧ t.descendant? q = some x ∧ t.declaredAt p = some d ∧
      seen = if q = [] then none else some x.formBelow := by
  obtain ⟨q, s, x, rfl, hx, hd, hseen⟩ := leaf_of_mem_partsBelow [] ⟨none, none⟩ 0 t t.children
    (fun s c hc => distinct.child?_of_mem hc) distinct h
  refine ⟨q, s, x, rfl, hx, ?_, hseen⟩
  rw [declaredAt, List.nil_append, descendant?_append, hx]
  exact hd

end

end DeclarationTree

namespace History

variable {es : List Entry} {p : List Text} {t : DeclarationTree}

/-- Functions leave a class exactly where a `prototype` follows the path of a node. -/
theorem isClass_iff_makesClass (functions : ∀ e ∈ es, e.isFunction = true) (hp : p ≠ [])
    (ht : (tree es).descendant? p = some t) : t.isClass ↔ ∃ e ∈ es, e.MakesClass p :=
  isClass_iff.trans
    ((reflects_tree (unmixed_of_functions functions) hp ht).classLike fun e he _ => functions e he)

/-- The name of the function that made a method has a class in it, above the method. -/
theorem exists_class_above (functions : ∀ e ∈ es, e.isFunction = true) (hp : p ≠ [])
    (ht : (tree es).descendant? p = some t) (hmethod : t.form? = some .method) :
    ∃ q c, q ≠ [] ∧ q <+: p ∧ q ≠ p ∧ (tree es).descendant? q = some c ∧ c.isClass := by
  have reflects := reflects_tree (unmixed_of_functions functions) hp ht
  have unmade : ∀ e ∈ es, ¬ e.MakesClass p := by
    intro e he hmade
    have hclass := (reflects.classLike fun e he _ => functions e he).2 ⟨e, he, hmade⟩
    rw [hmethod] at hclass
    cases hclass
  cases hlast : lastAt p es with
  | none =>
    have hnone := lastAt_eq_none_iff.1 hlast
    have hbare := reflects.undeclared fun e he => ⟨hnone e he, unmade e he⟩
    rw [form?, hbare] at hmethod
    cases hmethod
  | some e =>
    obtain ⟨he, hassigns⟩ := mem_of_lastAt hlast
    cases e with
    | enumeration => cases functions _ he
    | function segments params resultType =>
      have hform := reflects.callable unmade segments params resultType hlast
      rw [hmethod] at hform
      have hname : Name.isMethod segments = true := by
        by_contra hname
        rw [if_neg hname] at hform
        cases hform
      obtain ⟨q, hq⟩ := List.exists_mem_of_ne_nil _ ((Name.isMethod_iff segments).1 hname)
      have hne : q ≠ [] := (Name.mem_classPathsBelow.1 hq).1
      have hmade : (Entry.function segments params resultType).MakesClass q :=
        (Entry.mem_classPaths_iff hne).1 hq
      have hprefix : q <+: p := hassigns.2 ▸ Name.prefix_of_mem_classPathsBelow hq
      have hnode : ((tree es).descendant? q).isSome :=
        isSome_tree.2 (.inr ⟨_, he, Name.prefix_of_mem_classPathsBelow hq⟩)
      obtain ⟨c, hc⟩ := Option.isSome_iff_exists.1 hnode
      refine ⟨q, c, hne, hprefix, ?_, hc, ?_⟩
      · rintro rfl
        exact unmade _ he hmade
      · exact (isClass_iff_makesClass functions hne hc).2 ⟨_, he, hmade⟩

end History

namespace Declarations

theorem isFunction_of_mem_entries {d : Document} {fs : List DocumentedFunction} {e : Entry}
    (he : e ∈ entries d (fs.map Documented.function)) : e.isFunction = true := by
  obtain ⟨c, hc, h⟩ := List.mem_filterMap.1 he
  obtain ⟨f, -, rfl⟩ := List.mem_map.1 hc
  obtain ⟨segments, -, rfl⟩ := map_eq_ok.1 (eq_ok_of_toOption h)
  rfl

/-- Whatever functions are attempted, a method is below a class. Its parent is a class, in the tree
and where the layout declares the method by its bare name, iff a `prototype` follows the path of the
parent in the name of one of the functions. -/
theorem methods_below_classes (d : Document) (fs : List DocumentedFunction) :
    let cs := fs.map Documented.function
    let root := (cs.foldl (attempt d) {}).root
    (∀ q s t, root.descendant? (q ++ [s]) = some t → t.form? = some .method →
      (∃ r c, r ≠ [] ∧ r <+: q ∧ root.descendant? r = some c ∧ c.isClass) ∧
        ((∃ c, root.descendant? q = some c ∧ c.isClass) ↔ ∃ e ∈ entries d cs, e.MakesClass q)) ∧
      root.lines = Part.linesAll root.parts ∧
      ∀ p depth above module? declared, .leaf p depth above module? declared ∈ root.parts →
        declared.form = .method → ∃ q s t, p = q ++ [s] ∧ root.descendant? p = some t ∧
          t.declared = some declared ∧
          (Part.leaf p depth above module? declared).lines = .ok
            [⟨depth, Declaration.nameText declared.name ++ declared.signature module?⟩] ∧
          (above = some .classLike ↔ ∃ e ∈ entries d cs, e.MakesClass q) := by
  intro cs root
  have hroot : root = History.tree (entries d cs) := root_attempts d cs
  have functions : ∀ e ∈ entries d cs, e.isFunction = true := fun _ => isFunction_of_mem_entries
  have hdistinct : root.SegmentsDistinct := by
    rw [hroot]
    exact History.segmentsDistinct_tree _
  have habove : ∀ q s t, root.descendant? (q ++ [s]) = some t → t.form? = some .method →
      ∃ r c, r ≠ [] ∧ r <+: q ∧ root.descendant? r = some c ∧ c.isClass := by
    intro q s t ht hmethod
    rw [hroot] at ht ⊢
    obtain ⟨r, c, hne, hprefix, hr, hc, hclass⟩ :=
      History.exists_class_above functions (by simp) ht hmethod
    exact ⟨r, c, hne, (List.prefix_concat_iff.1 hprefix).resolve_left hr, hc, hclass⟩
  have hparent : ∀ q c, q ≠ [] → root.descendant? q = some c →
      (c.isClass ↔ ∃ e ∈ entries d cs, e.MakesClass q) := by
    intro q c hne hc
    rw [hroot] at hc
    exact History.isClass_iff_makesClass functions hne hc
  refine ⟨fun q s t ht hmethod => ⟨habove q s t ht hmethod, ?_⟩,
    lines_eq (declared_root_attempts d cs), ?_⟩
  · obtain ⟨r, -, hne, hprefix, -, -⟩ := habove q s t ht hmethod
    have hq : q ≠ [] := hprefix.ne_nil hne
    rw [descendant?_append] at ht
    obtain ⟨c, hc, -⟩ := Option.bind_eq_some_iff.1 ht
    rw [hc]
    simpa using hparent q c hq hc
  · intro p depth above module? declared hleaf hmethod
    obtain ⟨q, s, x, rfl, hx, hdeclared, hseen⟩ := leaf_of_mem_parts hdistinct hleaf
    obtain ⟨t, ht, hd⟩ := Option.bind_eq_some_iff.1 hdeclared
    have hform : t.form? = some .method := by
      rw [form?, hd, Option.map_some, hmethod]
    obtain ⟨r, -, hne, hprefix, -, -⟩ := habove q s t ht hform
    have hq : q ≠ [] := hprefix.ne_nil hne
    refine ⟨q, s, t, rfl, ht, hd, ?_, ?_⟩
    · have hclass : DeclarationForm.method ≠ .classLike := by decide
      rw [Part.lines, hmethod, if_neg hclass, Declaration.ownLines, hmethod]
    · rw [hseen, if_neg hq, Option.some.injEq, formBelow_eq_classLike_iff]
      exact hparent q x hq hx

/-- A function behind a method is a method too, but what it stands in is a module. -/
theorem method_in_module :
    ∃ d fs, Document.ofSource ⟨"/** @return {a} */A.prototype.f.g=function(){}".toList, [],
        "js".toList, "utf-8".toList⟩ = .ok d ∧ d.functions = .ok fs ∧
      let root := ((fs.map Documented.function).foldl (attempt d) {}).root
      (root.descendant? ["A".toList, "f".toList]).map form? = some none ∧
      (root.descendant? ["A".toList, "f".toList, "g".toList]).map form? = some (some .method) ∧
      (root.render "  ".toList).toOption = some
        "declare class A \x7b\n  declare module f \x7b\n    g(): a;\n  \x7d\n\x7d\n".toList := by
  generalize hs : (Source.mk "/** @return {a} */A.prototype.f.g=function(){}".toList [] "js".toList
    "utf-8".toList) = s
  have read : (Document.ofSource s >>= fun d => d.functions.map fun fs =>
      let root := ((fs.map Documented.function).foldl (attempt d) {}).root
      ((root.descendant? ["A".toList, "f".toList]).map form?,
        (root.descendant? ["A".toList, "f".toList, "g".toList]).map form?,
        (root.render "  ".toList).toOption)).toOption = some (some none, some (some .method), some
          "declare class A \x7b\n  declare module f \x7b\n    g(): a;\n  \x7d\n\x7d\n".toList) := by
    subst hs
    decide +kernel
  obtain ⟨d, hd, h⟩ := bind_eq_ok.1 (eq_ok_of_toOption read)
  obtain ⟨fs, hfs, h⟩ := map_eq_ok.1 h
  obtain ⟨hmodule, h⟩ := Prod.mk.inj h
  obtain ⟨hmethod, htext⟩ := Prod.mk.inj h
  exact ⟨d, fs, hd, hfs, hmodule, hmethod, htext⟩

end Declarations

end DocFlow
