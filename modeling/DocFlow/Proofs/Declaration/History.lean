import Mathlib
import DocFlow.Proofs.Declaration.Entry
import DocFlow.Proofs.Documented.Located

namespace DocFlow

open DeclarationTree

namespace Entry

/-- A construct assigns a leaf to a path. -/
def Assigns (e : Entry) (p : List Text) : Prop := e.leaf?.isSome ∧ p = e.path

instance (e : Entry) (p : List Text) : Decidable (e.Assigns p) :=
  inferInstanceAs (Decidable (_ ∧ _))

/-- A `prototype` stands directly behind a path in the name of a function. -/
def MakesClass (e : Entry) (p : List Text) : Prop :=
  match e with
  | function segments .. =>
    ∃ before after, segments = before ++ Name.prototype :: after ∧ Name.nodePath before = p
  | enumeration .. => False

variable {e : Entry} {p : List Text} {d : Declaration}

theorem mem_classPaths_iff (hp : p ≠ []) : p ∈ e.classPaths ↔ e.MakesClass p := by
  cases e with
  | function segments =>
    rw [classPaths, Name.classPaths, Name.mem_classPathsBelow]
    simp [MakesClass, Name.LeadsToPrototype, hp]
  | enumeration => simp [classPaths, MakesClass]

/-- A function declares a function or a method, an enum an enum. -/
theorem form_of_leaf (h : e.leaf? = some d) :
    d.form.isCallable = e.isFunction ∧ (e.isFunction = false → d.form = .enumeration) := by
  cases e with
  | function segments params resultType =>
    obtain ⟨s, -, rfl⟩ := Option.map_eq_some_iff.1 h
    refine ⟨?_, nofun⟩
    cases Name.isMethod segments <;> rfl
  | enumeration =>
    cases h
    exact ⟨rfl, fun _ => rfl⟩

theorem ne_classLike_of_leaf (h : e.leaf? = some d) : d.form ≠ .classLike := by
  intro hclass
  obtain ⟨hcallable, henum⟩ := form_of_leaf h
  rw [hclass] at hcallable henum
  exact absurd (henum hcallable.symm) (by decide)

theorem leafAt_of_assigns (h : e.Assigns p) : e.leafAt p = e.leaf? := if_pos h.2

theorem leafAt_of_not_assigns (h : ¬ e.Assigns p) : e.leafAt p = none := by
  rw [leafAt]
  by_cases hp : p = e.path
  · rw [if_pos hp]
    by_contra hleaf
    exact h ⟨Option.isSome_iff_ne_none.2 hleaf, hp⟩
  · rw [if_neg hp]

end Entry

/-- No path is assigned by both a function and an enum. -/
def Unmixed (es : List Entry) : Prop :=
  ∀ p, ∀ e ∈ es, ∀ e' ∈ es, e.Assigns p → e'.Assigns p → e.isFunction = e'.isFunction

theorem Unmixed.of_append {es es' : List Entry} (h : Unmixed (es ++ es')) : Unmixed es := by
  intro p e he e' he'
  exact h p e (List.mem_append_left _ he) e' (List.mem_append_left _ he')

namespace History

def tree (es : List Entry) : DeclarationTree := es.foldl (fun t e => e.insert t) .empty

def lastAt (p : List Text) (es : List Entry) : Option Entry :=
  (es.filter (·.Assigns p)).getLast?

/-- The segments that follow a path, in order of their first use. -/
def segmentsAfter (p : List Text) (es : List Entry) : List Text :=
  (es.filterMap fun e => segmentAfter p e.path).eraseDups

variable {es : List Entry} {p : List Text}

theorem tree_concat (es : List Entry) (e : Entry) : tree (es ++ [e]) = e.insert (tree es) := by
  simp [tree]

theorem isSome_tree : (descendant? p (tree es)).isSome ↔ p = [] ∨ ∃ e ∈ es, p <+: e.path := by
  induction es using List.reverseRecOn with
  | nil =>
    rw [tree, List.foldl_nil, descendant?_empty]
    by_cases hp : p = []
    · simp [hp]
    · simp [hp]
  | append_singleton es e ih =>
    rw [tree_concat, Entry.isSome_insert, ih]
    simp [or_and_right, exists_or, or_assoc]

theorem addSegment_eraseDups (s : Option Text) (ss : List Text) :
    addSegment s ss.eraseDups = (ss ++ s.toList).eraseDups := by
  cases s with
  | none => simp [addSegment]
  | some s =>
    rw [Option.toList_some, List.eraseDups_append, addSegment]
    by_cases hs : s ∈ ss
    · simp [hs, List.removeAll]
    · simp [hs, List.removeAll, List.eraseDups_cons]

theorem segmentsAt_tree : segmentsAt p (tree es) = segmentsAfter p es := by
  induction es using List.reverseRecOn with
  | nil =>
    rw [tree, List.foldl_nil, segmentsAt, descendant?_empty]
    split <;> rfl
  | append_singleton es e ih =>
    rw [tree_concat, Entry.segmentsAt_insert, ih, segmentsAfter, addSegment_eraseDups, segmentsAfter,
      List.filterMap_append]
    cases h : segmentAfter p e.path <;> simp [h]

/-- What a node declares if a leaf is the last that is assigned to it, as a class if it is one. -/
def declaredBy (last : Option Declaration) (isClass : Bool) : Option Declaration :=
  if isClass then asClass last else last

theorem asClass_declaredBy (last : Option Declaration) (isClass : Bool) :
    asClass (declaredBy last isClass) = declaredBy last true := by
  cases isClass with
  | false => rfl
  | true => exact asClass_asClass last

/-- Assigning a leaf commutes with making a class, as long as functions replace functions and enums
replace enums. -/
theorem assign_declaredBy {d : Declaration} {last : Option Declaration} (isClass : Bool)
    (same : ∀ d', last = some d' →
      d'.form ≠ .classLike ∧ d'.form.isCallable = d.form.isCallable) :
    assign (some d) (declaredBy last isClass) = declaredBy (some d) isClass := by
  cases isClass with
  | false =>
    have hplain : last.any (·.form = .classLike) = false := by
      cases last with
      | none => rfl
      | some d' => simp [(same d' rfl).1]
    simp [declaredBy, assign, hplain]
  | true =>
    by_cases hd : d.form.isCallable = true
    · have hclass : (asClass last).any (·.form = .classLike) = true := by
        cases last with
        | none => rfl
        | some d' =>
          have hd' := (same d' rfl).2.trans hd
          simp [asClass, Declaration.toClass_of_callable hd']
      rw [declaredBy, if_pos rfl, assign, hclass, if_pos rfl]
      rfl
    · have hkeep : d.toClass = d := Declaration.toClass_of_not_callable (by simpa using hd)
      simp [declaredBy, assign, asClass, hkeep]

theorem lastAt_concat (es : List Entry) (e : Entry) :
    lastAt p (es ++ [e]) = if e.Assigns p then some e else lastAt p es := by
  rw [lastAt, List.filter_append]
  by_cases he : e.Assigns p
  · simp [he]
  · simp [he, lastAt]

theorem mem_of_lastAt {e : Entry} (h : lastAt p es = some e) : e ∈ es ∧ e.Assigns p := by
  simpa using List.mem_filter.1 (List.mem_of_getLast? h)

theorem lastAt_eq_none_iff : lastAt p es = none ↔ ∀ e ∈ es, ¬ e.Assigns p := by
  simp [lastAt]

/-- A node declares the last leaf that is assigned to it, as a class iff it is ever made one. -/
theorem declaredAt_tree (unmixed : Unmixed es) :
    declaredAt p (tree es) =
      declaredBy ((lastAt p es).bind Entry.leaf?) (es.any fun e => p ∈ e.classPaths) := by
  induction es using List.reverseRecOn with
  | nil =>
    rw [tree, List.foldl_nil, declaredAt, descendant?_empty]
    split <;> rfl
  | append_singleton es e ih =>
    -- The classes of the last entry are made before its leaf is assigned.
    have hmade : (if p ∈ e.classPaths then asClass (declaredAt p (tree es))
        else declaredAt p (tree es)) =
          declaredBy ((lastAt p es).bind Entry.leaf?)
            ((es ++ [e]).any fun e => p ∈ e.classPaths) := by
      rw [ih unmixed.of_append, asClass_declaredBy]
      by_cases hp : p ∈ e.classPaths
      · simp [hp]
      · simp [hp]
    rw [tree_concat, Entry.declaredAt_insert, hmade, lastAt_concat]
    by_cases hassigns : e.Assigns p
    · obtain ⟨d, hd⟩ := Option.isSome_iff_exists.1 hassigns.1
      rw [Entry.leafAt_of_assigns hassigns, if_pos hassigns, Option.bind_some, hd]
      apply assign_declaredBy
      intro d' hlast
      obtain ⟨e', he', hd'⟩ := Option.bind_eq_some_iff.1 hlast
      obtain ⟨hmem, hassigns'⟩ := mem_of_lastAt he'
      have hsame : e'.isFunction = e.isFunction :=
        unmixed p e' (List.mem_append_left _ hmem) e (by simp) hassigns' hassigns
      refine ⟨Entry.ne_classLike_of_leaf hd', ?_⟩
      rw [(Entry.form_of_leaf hd').1, (Entry.form_of_leaf hd).1, hsame]
    · rw [Entry.leafAt_of_not_assigns hassigns, if_neg hassigns]
      rfl

end History

namespace DeclarationTree

def form? (t : DeclarationTree) : Option DeclarationForm := t.declared.map (·.form)

/-- A node with a name. A class without one is only known by what follows its `prototype`. -/
def hasLeaf (t : DeclarationTree) : Bool := t.declared.any (·.name.isSome)

end DeclarationTree

structure Reflects (es : List Entry) (p : List Text) (t : DeclarationTree) : Prop where
  hasLeaf : t.hasLeaf ↔ ∃ e ∈ es, e.Assigns p
  /-- The leaf is that of the last entry, but for its form. -/
  leaf : ∀ e, History.lastAt p es = some e →
    ∃ d form, e.leaf? = some d ∧ t.declared = some { d with form }
  enumeration : (∃ e ∈ es, e.Assigns p ∧ e.isFunction = false) → t.form? = some .enumeration
  classLike : (∀ e ∈ es, e.Assigns p → e.isFunction = true) →
    (t.form? = some .classLike ↔ ∃ e ∈ es, e.MakesClass p)
  callable : (∀ e ∈ es, ¬ e.MakesClass p) → ∀ segments params resultType,
    History.lastAt p es = some (.function segments params resultType) →
      t.form? = some (if Name.isMethod segments then .method else .function)
  undeclared : (∀ e ∈ es, ¬ e.Assigns p ∧ ¬ e.MakesClass p) → t.declared = none

namespace History

variable {es : List Entry} {p : List Text}

theorem name_of_leaf {e : Entry} {d : Declaration} (hp : p ≠ []) (he : e.Assigns p)
    (hd : e.leaf? = some d) : d.name.isSome := by
  cases e with
  | function segments params resultType =>
    obtain ⟨s, -, rfl⟩ := Option.map_eq_some_iff.1 hd
    rfl
  | enumeration segments =>
    cases hd
    have hsegments : segments ≠ [] := by
      rw [he.2] at hp
      exact hp
    simpa using hsegments

theorem declaredBy_some (d : Declaration) (isClass : Bool) :
    ∃ form, declaredBy (some d) isClass = some { d with form } := by
  cases isClass with
  | false => exact ⟨d.form, rfl⟩
  | true =>
    cases h : d.form.isCallable with
    | false => exact ⟨d.form, congrArg some (Declaration.toClass_of_not_callable h)⟩
    | true => exact ⟨.classLike, congrArg some (Declaration.toClass_of_callable h)⟩

section

variable {t : DeclarationTree} {isClass : Bool}
  (made : isClass = true ↔ ∃ e ∈ es, e.MakesClass p)
include made

theorem isClass_of_not_made (h : ∀ e ∈ es, ¬ e.MakesClass p) : isClass = false := by
  rw [← Bool.not_eq_true, made]
  rintro ⟨e, he, hm⟩
  exact h e he hm

/-- Where nothing is assigned, a node is a bare class or declares nothing. -/
theorem reflects_of_unassigned (hlast : lastAt p es = none)
    (declared : t.declared = declaredBy none isClass) : Reflects es p t := by
  have hnone := lastAt_eq_none_iff.1 hlast
  constructor
  case hasLeaf =>
    have hempty : ¬ ∃ e ∈ es, e.Assigns p := by
      rintro ⟨e, he, h⟩
      exact hnone e he h
    rw [DeclarationTree.hasLeaf, declared]
    cases isClass <;> simp [declaredBy, asClass, hempty]
  case leaf => simp [hlast]
  case enumeration =>
    rintro ⟨e, he, h, -⟩
    exact absurd h (hnone e he)
  case classLike =>
    intro _
    rw [← made, form?, declared]
    cases isClass <;> simp [declaredBy, asClass]
  case callable => simp [hlast]
  case undeclared =>
    intro h
    rw [declared, isClass_of_not_made made fun e he => (h e he).2]
    rfl

/-- The last leaf decides, as functions and enums are never mixed. -/
theorem reflects_of_last (unmixed : Unmixed es) (hp : p ≠ []) {e : Entry} {d : Declaration}
    (hlast : lastAt p es = some e) (hd : e.leaf? = some d)
    (declared : t.declared = declaredBy (some d) isClass) : Reflects es p t := by
  obtain ⟨he, hassigns⟩ := mem_of_lastAt hlast
  obtain ⟨hcallable, henum⟩ := Entry.form_of_leaf hd
  obtain ⟨form, hform⟩ := declaredBy_some d isClass
  constructor
  case hasLeaf =>
    have hname := name_of_leaf hp hassigns hd
    rw [DeclarationTree.hasLeaf, declared, hform]
    simpa [hname] using ⟨e, he, hassigns⟩
  case leaf =>
    intro e' he'
    obtain rfl := Option.some.inj (hlast.symm.trans he')
    exact ⟨d, form, hd, declared.trans hform⟩
  case enumeration =>
    rintro ⟨e', he', hassigns', henum'⟩
    have hsame := (unmixed p e he e' he' hassigns hassigns').trans henum'
    rw [hsame] at hcallable
    rw [form?, declared]
    cases isClass <;> simp [declaredBy, asClass, Declaration.toClass_of_not_callable hcallable,
      henum hsame]
  case classLike =>
    intro hfunctions
    rw [hfunctions e he hassigns] at hcallable
    rw [← made, form?, declared]
    cases isClass <;> simp [declaredBy, asClass, Declaration.toClass_of_callable hcallable,
      Entry.ne_classLike_of_leaf hd]
  case callable =>
    intro hunmade segments params resultType hlast'
    obtain rfl := Option.some.inj (hlast.symm.trans hlast')
    obtain ⟨s, -, rfl⟩ := Option.map_eq_some_iff.1 hd
    rw [form?, declared, isClass_of_not_made made hunmade]
    rfl
  case undeclared => exact fun h => absurd hassigns (h e he).1

end

/-- Below the root every node reflects the history. -/
theorem reflects_tree (unmixed : Unmixed es) (hp : p ≠ []) {t : DeclarationTree}
    (ht : descendant? p (tree es) = some t) : Reflects es p t := by
  have declared : t.declared =
      declaredBy ((lastAt p es).bind Entry.leaf?) (es.any fun e => p ∈ e.classPaths) := by
    rw [← declaredAt_tree unmixed, declaredAt, ht]
    rfl
  have made : (es.any fun e => p ∈ e.classPaths) = true ↔ ∃ e ∈ es, e.MakesClass p := by
    simp [Entry.mem_classPaths_iff hp]
  cases hlast : lastAt p es with
  | none =>
    rw [hlast, Option.bind_none] at declared
    exact reflects_of_unassigned made hlast declared
  | some e =>
    obtain ⟨d, hd⟩ := Option.isSome_iff_exists.1 (mem_of_lastAt hlast).2.1
    rw [hlast, Option.bind_some, hd] at declared
    exact reflects_of_last made unmixed hp hlast hd declared

end History

namespace Declarations

theorem root_add {d : Document} {ds ds' : Declarations} {c : Documented}
    (h : add d ds c = .ok ds') :
    ∃ e, Entry.ofConstruct d c = .ok e ∧ ds'.root = e.insert ds.root := by
  cases c with
  | function f =>
    obtain ⟨segments, hsegments, h⟩ := bind_eq_ok.1 h
    cases h
    exact ⟨_, map_eq_ok.2 ⟨segments, hsegments, rfl⟩, rfl⟩
  | enumeration e =>
    obtain ⟨segments, hsegments, h⟩ := bind_eq_ok.1 h
    cases h
    exact ⟨_, map_eq_ok.2 ⟨segments, hsegments, rfl⟩, rfl⟩

theorem root_foldlM {d : Document} {cs : List Documented} {ds ds' : Declarations}
    (h : cs.foldlM (add d) ds = .ok ds') :
    ∃ es, cs.mapM (Entry.ofConstruct d) = .ok es ∧
      ds'.root = es.foldl (fun t e => e.insert t) ds.root := by
  induction cs generalizing ds with
  | nil =>
    cases h
    exact ⟨[], rfl, rfl⟩
  | cons c cs ih =>
    rw [List.foldlM_cons] at h
    obtain ⟨mid, hadd, hrest⟩ := bind_eq_ok.1 h
    obtain ⟨e, he, hmid⟩ := root_add hadd
    obtain ⟨es, hes, hroot⟩ := ih hrest
    refine ⟨e :: es, ?_, by rw [hroot, hmid, List.foldl_cons]⟩
    rw [List.mapM_cons]
    exact bind_eq_ok.2 ⟨e, he, bind_eq_ok.2 ⟨es, hes, rfl⟩⟩

/-- The tree is determined by the history of its constructs. Its nodes are those on their paths, in
order of first use, and each declares what was assigned to it last. -/
theorem root_determined_by_history {d : Document} {cs : List Documented} {ds : Declarations}
    (h : cs.foldlM (add d) {} = .ok ds) :
    ∃ es, cs.mapM (Entry.ofConstruct d) = .ok es ∧ (Unmixed es →
      (∀ p, p ≠ [] → ((ds.root.descendant? p).isSome ↔ ∃ e ∈ es, p <+: e.path)) ∧
      ∀ p t, ds.root.descendant? p = some t →
        t.segments = History.segmentsAfter p es ∧ (p ≠ [] → Reflects es p t)) := by
  obtain ⟨es, hes, hroot⟩ := root_foldlM h
  have htree : ds.root = History.tree es := hroot
  refine ⟨es, hes, fun unmixed => ⟨?_, ?_⟩⟩
  · intro p hp
    rw [htree, History.isSome_tree]
    simp [hp]
  · intro p t ht
    rw [htree] at ht
    refine ⟨?_, fun hp => History.reflects_tree unmixed hp ht⟩
    rw [← History.segmentsAt_tree, segmentsAt, ht]
    rfl

/-- A constructor behind its method is taken as the class above the method. -/
theorem root_of_constructor_after_method :
    ∃ d ds t, Document.ofSource
        ⟨"/** @return {a} */A.prototype.f=function(){};/** @return {b} */A=function(){}".toList, [],
          "js".toList, "utf-8".toList⟩ = .ok d ∧
      ofDocument d = .ok ds ∧ ds.root.descendant? ["A".toList] = some t ∧
      t.segments = ["f".toList] ∧ t.form? = some .classLike := by
  generalize hs : (Source.mk
    "/** @return {a} */A.prototype.f=function(){};/** @return {b} */A=function(){}".toList []
    "js".toList "utf-8".toList) = s
  have entered : (Document.ofSource s >>= fun d => d.constructs >>= fun cs =>
      cs.mapM (Entry.ofConstruct d)).toOption =
        some [.function ["A".toList, Name.prototype, "f".toList] [] (some "a".toList),
          .function ["A".toList] [] (some "b".toList)] := by
    subst hs
    decide +kernel
  have declared : (Document.ofSource s >>= ofDocument).toOption.isSome := by
    subst hs
    decide +kernel
  obtain ⟨ds, hds⟩ := Option.isSome_iff_exists.1 declared
  obtain ⟨d, hd, hds⟩ := bind_eq_ok.1 (eq_ok_of_toOption hds)
  obtain ⟨cs, hcs, hfold⟩ := ofDocument_eq_ok_iff.1 hds
  obtain ⟨es, hes, determined⟩ := root_determined_by_history hfold
  obtain ⟨d', hd', hentered⟩ := bind_eq_ok.1 (eq_ok_of_toOption entered)
  obtain ⟨cs', hcs', hentered⟩ := bind_eq_ok.1 hentered
  obtain rfl := Except.ok.inj (hd'.symm.trans hd)
  obtain rfl := Except.ok.inj (hcs'.symm.trans hcs)
  obtain rfl := Except.ok.inj (hes.symm.trans hentered)
  have functions : ∀ e ∈ [Entry.function ["A".toList, Name.prototype, "f".toList] [] (some "a".toList),
      .function ["A".toList] [] (some "b".toList)], e.isFunction = true := by decide
  obtain ⟨nodes, declares⟩ := determined fun p e he e' he' _ _ =>
    (functions e he).trans (functions e' he').symm
  have present := (nodes ["A".toList] (by decide)).2 ⟨_, List.mem_cons_self, by decide⟩
  obtain ⟨t, ht⟩ := Option.isSome_iff_exists.1 present
  obtain ⟨segments, reflects⟩ := declares _ t ht
  refine ⟨_, ds, t, hd, hds, ht, segments.trans (by decide), ?_⟩
  exact ((reflects (by decide)).classLike fun e he _ => functions e he).2
    ⟨_, List.mem_cons_self, ["A".toList], ["f".toList], rfl, rfl⟩

end Declarations

end DocFlow
