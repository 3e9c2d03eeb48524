import Mathlib
import DocFlow.Proofs.Declaration.History

namespace DocFlow

theorem splitAt_ne_nil (sep : Char) (t : Text) : Text.splitAt sep t ≠ [] := by
  cases t with
  | nil => exact List.cons_ne_nil _ _
  | cons c t =>
    rw [Text.splitAt]
    split
    · exact List.cons_ne_nil _ _
    · split <;> exact List.cons_ne_nil _ _

def Name.endsInNode (segments : List Text) : Bool := segments.getLast? ≠ some Name.prototype

namespace DeclarationTree

mutual

def leafPaths : DeclarationTree → List (List Text)
  | node d cs => (if d.any (·.name.isSome) then [[]] else []) ++ leafPathsBelow cs

def leafPathsBelow : List (Text × DeclarationTree) → List (List Text)
  | [] => []
  | (s, t) :: rest => t.leafPaths.map (s :: ·) ++ leafPathsBelow rest

end

/-- Below each node of a tree the segments are distinct. -/
def SegmentsDistinct (t : DeclarationTree) : Prop :=
  ∀ p t', t.descendant? p = some t' → t'.segments.Nodup

theorem lookup_of_mem {s : Text} {c : DeclarationTree} {cs : List (Text × DeclarationTree)}
    (distinct : (cs.map Prod.fst).Nodup) (h : (s, c) ∈ cs) : cs.lookup s = some c := by
  induction cs with
  | nil => cases h
  | cons first cs ih =>
    obtain ⟨key, t⟩ := first
    rw [lookup_cons_eq]
    rw [List.map_cons, List.nodup_cons] at distinct
    rcases List.mem_cons.1 h with heq | hmem
    · cases heq
      exact if_pos rfl
    · have hne : s ≠ key := by
        rintro rfl
        exact distinct.1 (List.mem_map.2 ⟨_, hmem, rfl⟩)
      rw [if_neg hne]
      exact ih distinct.2 hmem

theorem mem_of_lookup {s : Text} {c : DeclarationTree} {cs : List (Text × DeclarationTree)}
    (h : cs.lookup s = some c) : (s, c) ∈ cs := by
  obtain ⟨before, after, rfl, -⟩ := List.lookup_eq_some_iff.1 h
  simp

namespace SegmentsDistinct

variable {t : DeclarationTree}

theorem nodup (h : t.SegmentsDistinct) : t.segments.Nodup := h [] t rfl

theorem child?_of_mem (h : t.SegmentsDistinct) {s : Text} {c : DeclarationTree}
    (hc : (s, c) ∈ t.children) : t.child? s = some c := lookup_of_mem h.nodup hc

theorem of_child? (h : t.SegmentsDistinct) {s : Text} {c : DeclarationTree}
    (hc : t.child? s = some c) : c.SegmentsDistinct := by
  intro p t' ht'
  apply h (s :: p) t'
  rw [descendant?, hc]
  exact ht'

end SegmentsDistinct

theorem mem_leafPathsBelow {p : List Text} {cs : List (Text × DeclarationTree)} :
    p ∈ leafPathsBelow cs ↔ ∃ s q c, p = s :: q ∧ (s, c) ∈ cs ∧ q ∈ c.leafPaths := by
  induction cs with
  | nil => simp [leafPathsBelow]
  | cons first cs ih =>
    obtain ⟨key, t⟩ := first
    rw [leafPathsBelow, List.mem_append, ih]
    constructor
    · rintro (h | ⟨s, q, c, rfl, hc, hq⟩)
      · obtain ⟨q, hq, rfl⟩ := List.mem_map.1 h
        exact ⟨key, q, t, rfl, List.mem_cons_self, hq⟩
      · exact ⟨s, q, c, rfl, List.mem_cons_of_mem _ hc, hq⟩
    · rintro ⟨s, q, c, rfl, hc, hq⟩
      rcases List.mem_cons.1 hc with heq | hc
      · cases heq
        exact .inl (List.mem_map_of_mem hq)
      · exact .inr ⟨s, q, c, rfl, hc, hq⟩

/-- The leaf paths are those at which a node with a leaf stands. -/
theorem mem_leafPaths {p : List Text} {t : DeclarationTree} (h : t.SegmentsDistinct) :
    p ∈ t.leafPaths ↔ ∃ t', t.descendant? p = some t' ∧ t'.hasLeaf := by
  induction p generalizing t with
  | nil =>
    obtain ⟨d, cs⟩ := t
    have hbelow : [] ∉ leafPathsBelow cs := by
      intro hmem
      obtain ⟨s, q, c, hnil, -, -⟩ := mem_leafPathsBelow.1 hmem
      cases hnil
    rw [leafPaths, List.mem_append]
    simp [hbelow, descendant?, hasLeaf, declared]
  | cons s p ih =>
    have hown : s :: p ∈ t.leafPaths ↔ ∃ c, (s, c) ∈ t.children ∧ p ∈ c.leafPaths := by
      obtain ⟨d, cs⟩ := t
      have htop : s :: p ∉ (if d.any (·.name.isSome) then [[]] else []) := by split <;> simp
      rw [leafPaths, List.mem_append, or_iff_right htop, mem_leafPathsBelow]
      constructor
      · rintro ⟨s', q, c, heq, hc, hq⟩
        cases heq
        exact ⟨c, hc, hq⟩
      · rintro ⟨c, hc, hq⟩
        exact ⟨s, p, c, rfl, hc, hq⟩
    rw [hown, descendant?]
    constructor
    · rintro ⟨c, hc, hp⟩
      have hchild := h.child?_of_mem hc
      rw [hchild]
      exact (ih (h.of_child? hchild)).1 hp
    · rintro ⟨t', ht', hleaf⟩
      obtain ⟨c, hc, ht'⟩ := Option.bind_eq_some_iff.1 ht'
      exact ⟨c, mem_of_lookup hc, (ih (h.of_child? hc)).2 ⟨t', ht', hleaf⟩⟩

mutual

theorem nodup_leafPaths : ∀ {t : DeclarationTree}, t.SegmentsDistinct → t.leafPaths.Nodup
  | node d cs, h => by
    have hbelow : (leafPathsBelow cs).Nodup :=
      nodup_leafPathsBelow h.nodup fun s c hc => h.of_child? (h.child?_of_mem hc)
    rw [leafPaths]
    split
    · refine List.nodup_cons.2 ⟨?_, hbelow⟩
      intro hmem
      obtain ⟨s, q, c, hnil, -, -⟩ := mem_leafPathsBelow.1 hmem
      cases hnil
    · exact hbelow

theorem nodup_leafPathsBelow : ∀ {cs : List (Text × DeclarationTree)}, (cs.map Prod.fst).Nodup →
    (∀ s c, (s, c) ∈ cs → c.SegmentsDistinct) → (leafPathsBelow cs).Nodup
  | [], _, _ => List.nodup_nil
  | (s, t) :: rest, distinct, h => by
    rw [List.map_cons, List.nodup_cons] at distinct
    have hfirst := nodup_leafPaths (h s t List.mem_cons_self)
    have hrest := nodup_leafPathsBelow distinct.2 fun s c hc => h s c (List.mem_cons_of_mem _ hc)
    rw [leafPathsBelow]
    refine List.nodup_append'.2 ⟨hfirst.map (List.cons_injective), hrest, ?_⟩
    -- Only the paths of the first node start with its segment.
    intro p hp hp'
    obtain ⟨q, -, rfl⟩ := List.mem_map.1 hp
    obtain ⟨s', q', c, heq, hc, -⟩ := mem_leafPathsBelow.1 hp'
    cases heq
    exact distinct.1 (List.mem_map.2 ⟨_, hc, rfl⟩)

end

theorem nodup_addSegment (s : Option Text) {ss : List Text} (h : ss.Nodup) :
    (addSegment s ss).Nodup := by
  cases s with
  | none => exact h
  | some s =>
    rw [addSegment]
    split
    · exact h
    · next hs =>
      rw [← List.concat_eq_append]
      exact h.concat hs

end DeclarationTree

open DeclarationTree

namespace History

variable {es : List Entry} {p : List Text}

/-- Whatever a history enters, no segment stands twice below a node. -/
theorem segmentsDistinct_tree (es : List Entry) : (tree es).SegmentsDistinct := by
  have hnodup (p : List Text) : (DeclarationTree.segmentsAt p (tree es)).Nodup := by
    induction es using List.reverseRecOn with
    | nil =>
      rw [tree, List.foldl_nil, segmentsAt, descendant?_empty]
      split <;> exact List.nodup_nil
    | append_singleton es e ih =>
      rw [tree_concat, Entry.segmentsAt_insert]
      exact nodup_addSegment _ ih
  intro p t ht
  have hp := hnodup p
  rw [segmentsAt, ht] at hp
  exact hp

theorem unmixed_of_functions (h : ∀ e ∈ es, e.isFunction = true) : Unmixed es := by
  intro p e he e' he' _ _
  rw [h e he, h e' he']

/-- The leaves that functions leave are at the ends of their paths. -/
theorem mem_leafPaths_tree (h : ∀ e ∈ es, e.isFunction = true) :
    p ∈ (tree es).leafPaths ↔ ∃ e ∈ es, e.Assigns p := by
  have hdeclared := declaredAt_tree (p := p) (unmixed_of_functions h)
  have hleaf : (∃ t, (tree es).descendant? p = some t ∧ t.hasLeaf) ↔
      ((declaredAt p (tree es)).any (·.name.isSome)) = true := by
    rw [declaredAt]
    cases (tree es).descendant? p <;> simp [hasLeaf]
  rw [mem_leafPaths (segmentsDistinct_tree es), hleaf, hdeclared]
  cases hlast : lastAt p es with
  | none =>
    have hnone := lastAt_eq_none_iff.1 hlast
    have hempty : ¬ ∃ e ∈ es, e.Assigns p := by
      rintro ⟨e, he, hp⟩
      exact hnone e he hp
    rw [Option.bind_none, iff_false_right hempty]
    cases (es.any fun e => p ∈ e.classPaths) <;> simp [declaredBy, asClass]
  | some e =>
    obtain ⟨he, hp⟩ := mem_of_lastAt hlast
    obtain ⟨d, hd⟩ := Option.isSome_iff_exists.1 hp.1
    have hname : d.name.isSome := by
      cases e with
      | function segments params resultType =>
        obtain ⟨s, -, rfl⟩ := Option.map_eq_some_iff.1 hd
        rfl
      | enumeration => cases h _ he
    obtain ⟨form, hform⟩ := declaredBy_some d (es.any fun e => p ∈ e.classPaths)
    rw [Option.bind_some, hd, hform]
    simpa [hname] using ⟨e, he, hp⟩

def assigning (es : List Entry) : List Entry := es.filter (·.leaf?.isSome)

/-- Functions that assign their leaves to distinct paths leave just these. -/
theorem leafPaths_tree_perm (h : ∀ e ∈ es, e.isFunction = true)
    (distinct : ((assigning es).map Entry.path).Nodup) :
    (tree es).leafPaths.Perm ((assigning es).map Entry.path) := by
  rw [List.perm_ext_iff_of_nodup (nodup_leafPaths (segmentsDistinct_tree es)) distinct]
  intro p
  rw [mem_leafPaths_tree h, List.mem_map]
  constructor
  · rintro ⟨e, he, hleaf, hp⟩
    exact ⟨e, List.mem_filter.2 ⟨he, hleaf⟩, hp.symm⟩
  · rintro ⟨e, he, rfl⟩
    obtain ⟨he, hleaf⟩ := List.mem_filter.1 he
    exact ⟨e, he, hleaf, rfl⟩

/-- Where paths are assigned once, each declares what is assigned to it. -/
theorem declaredAt_of_distinct (unmixed : Unmixed es)
    (distinct : ((assigning es).map Entry.path).Nodup) {e : Entry} (he : e ∈ es) {d : Declaration}
    (hd : e.leaf? = some d) : ∃ form, declaredAt e.path (tree es) = some { d with form } := by
  have hleaf : e.leaf?.isSome := by rw [hd]; rfl
  have hlast : lastAt e.path es = some e := by
    cases hlast : lastAt e.path es with
    | none => exact absurd ⟨hleaf, rfl⟩ (lastAt_eq_none_iff.1 hlast e he)
    | some e' =>
      obtain ⟨he', hleaf', hpath⟩ := mem_of_lastAt hlast
      rw [List.inj_on_of_nodup_map distinct (List.mem_filter.2 ⟨he', hleaf'⟩)
        (List.mem_filter.2 ⟨he, hleaf⟩) hpath.symm]
  rw [declaredAt_tree unmixed, hlast, Option.bind_some, hd]
  exact declaredBy_some d _

end History

namespace Declarations

def functionEntry (d : Document) (f : DocumentedFunction) (segments : List Text) : Entry :=
  .function segments (formalsOf d.source.content f) f.resultType

def functionEntries (d : Document) (fs : List DocumentedFunction) (names : List (List Text)) :
    List Entry :=
  (fs.zip names).map fun named => functionEntry d named.1 named.2

theorem ne_nil_of_segmentsOf {d : Document} {p : Script.Place} {segments : List Text}
    (h : segmentsOf d p = .ok segments) : segments ≠ [] := by
  obtain ⟨name, -, h⟩ := bind_eq_ok.1 h
  dsimp only at h
  split at h
  · cases h
  · cases h
    exact splitAt_ne_nil _ _

theorem leaf?_functionEntry {d : Document} {f : DocumentedFunction} {segments : List Text}
    (hne : segments ≠ []) :
    (functionEntry d f segments).leaf? =
      if Name.endsInNode segments then some
        { form := if Name.isMethod segments then .method else .function
          name := segments.getLast?
          params := formalsOf d.source.content f
          resultType := f.resultType }
      else none := by
  rw [functionEntry, Entry.leaf?, lastLeaf, Name.endsInNode, List.getLast?_eq_some_getLast hne]
  by_cases hs : segments.getLast hne = Name.prototype <;> simp [Option.filter_some, hs]

/-- Functions that enter something have names, under which they enter it. -/
theorem exists_names {d : Document} {fs : List DocumentedFunction} {es : List Entry}
    (h : List.Forall₂ (fun f e => Entry.ofConstruct d (.function f) = .ok e) fs es) :
    ∃ names, List.Forall₂ (fun f segments => segmentsOf d f.place = .ok segments) fs names ∧
      es = functionEntries d fs names := by
  induction h with
  | nil => exact ⟨[], .nil, rfl⟩
  | cons he _ ih =>
    obtain ⟨segments, hsegments, rfl⟩ := map_eq_ok.1 he
    obtain ⟨names, hnames, rfl⟩ := ih
    exact ⟨segments :: names, .cons hsegments hnames, rfl⟩

/-- What functions leave in the tree is a history of their entries. -/
theorem root_of_functions {d : Document} {fs : List DocumentedFunction} {ds : Declarations}
    (h : fs.foldlM (withFunction d) {} = .ok ds) :
    ∃ names, List.Forall₂ (fun f segments => segmentsOf d f.place = .ok segments) fs names ∧
      ds.root = History.tree (functionEntries d fs names) ∧ ds.functions = fs.length := by
  have hadd : (fs.map Documented.function).foldlM (add d) {} = .ok ds := by
    rw [List.foldlM_map]
    exact h
  have hcount := functions_foldlM hadd
  obtain ⟨es, hes, hroot⟩ := root_foldlM hadd
  have hentries := mapM_eq_ok_iff_forall₂.1 hes
  rw [List.forall₂_map_left_iff] at hentries
  obtain ⟨names, hnames, rfl⟩ := exists_names hentries
  refine ⟨names, hnames, hroot, ?_⟩
  simpa [List.filterMap_map, Function.comp_def, Documented.function?] using hcount

theorem isFunction_of_mem {d : Document} {fs : List DocumentedFunction} {names : List (List Text)}
    {e : Entry} (he : e ∈ functionEntries d fs names) : e.isFunction = true := by
  obtain ⟨named, -, rfl⟩ := List.mem_map.1 he
  rfl

/-- The entries that assign a leaf are those of the names that end in a node. -/
theorem map_path_assigning {d : Document} {fs : List DocumentedFunction}
    {names : List (List Text)} (hlength : fs.length = names.length)
    (hne : ∀ segments ∈ names, segments ≠ []) :
    (History.assigning (functionEntries d fs names)).map Entry.path =
      (names.filter Name.endsInNode).map Name.nodePath := by
  have hsnd : (fs.zip names).map Prod.snd = names := List.map_snd_zip (by omega)
  have hassigns : ∀ named ∈ fs.zip names,
      (functionEntry d named.1 named.2).leaf?.isSome = Name.endsInNode named.2 := by
    rintro ⟨f, segments⟩ hf
    rw [leaf?_functionEntry (hne segments (List.of_mem_zip hf).2)]
    cases Name.endsInNode segments <;> rfl
  calc (History.assigning (functionEntries d fs names)).map Entry.path
      = ((fs.zip names).filter fun named => (functionEntry d named.1 named.2).leaf?.isSome).map
          (Name.nodePath ∘ Prod.snd) := by
        rw [History.assigning, functionEntries, List.filter_map, List.map_map]
        rfl
    _ = ((fs.zip names).filter (Name.endsInNode ∘ Prod.snd)).map (Name.nodePath ∘ Prod.snd) := by
        rw [List.filter_congr hassigns]
        rfl
    _ = (((fs.zip names).map Prod.snd).filter Name.endsInNode).map Name.nodePath := by
        rw [List.filter_map, List.map_map]
    _ = (names.filter Name.endsInNode).map Name.nodePath := by rw [hsnd]

/-- Functions whose names end in different nodes all keep their leaves. A function whose name ends
in `prototype` has none, and there are no other leaves. -/
theorem leaf_of_each_function {d : Document} {fs : List DocumentedFunction} {ds : Declarations}
    (h : fs.foldlM (withFunction d) {} = .ok ds) :
    ∃ names, List.Forall₂ (fun f segments => segmentsOf d f.place = .ok segments) fs names ∧
      (((names.filter Name.endsInNode).map Name.nodePath).Nodup →
        ds.root.leafPaths.Perm ((names.filter Name.endsInNode).map Name.nodePath) ∧
        ds.root.leafPaths.length + names.countP (!Name.endsInNode ·) = ds.functions ∧
        List.Forall₂ (fun f segments => Name.endsInNode segments → ∃ form,
          ds.root.declaredAt (Name.nodePath segments) = some
            { form, name := segments.getLast?, params := formalsOf d.source.content f,
              resultType := f.resultType }) fs names) := by
  obtain ⟨names, hnames, hroot, hcount⟩ := root_of_functions h
  refine ⟨names, hnames, fun distinct => ?_⟩
  obtain ⟨hlength, hnamed⟩ := List.forall₂_iff_zip.1 hnames
  have hsnd : (fs.zip names).map Prod.snd = names := List.map_snd_zip (by omega)
  have hne : ∀ segments ∈ names, segments ≠ [] := by
    intro segments hmem
    rw [← hsnd] at hmem
    obtain ⟨⟨f, segments⟩, hf, rfl⟩ := List.mem_map.1 hmem
    exact ne_nil_of_segmentsOf (hnamed hf)
  have hfunctions : ∀ e ∈ functionEntries d fs names, e.isFunction = true :=
    fun _ => isFunction_of_mem
  have hpaths := map_path_assigning (d := d) hlength hne
  rw [← hpaths] at distinct ⊢
  have hperm := History.leafPaths_tree_perm hfunctions distinct
  rw [← hroot] at hperm
  refine ⟨hperm, ?_, List.forall₂_iff_zip.2 ⟨hlength, fun {f segments} hf ends => ?_⟩⟩
  · have htotal := List.length_eq_countP_add_countP (l := names) Name.endsInNode
    rw [hperm.length_eq, hpaths, List.length_map, ← List.countP_eq_length_filter, hcount, hlength]
    simpa using htotal.symm
  · have hmem : functionEntry d f segments ∈ functionEntries d fs names :=
      List.mem_map.2 ⟨_, hf, rfl⟩
    have hleaf := leaf?_functionEntry (d := d) (f := f) (hne segments (List.of_mem_zip hf).2)
    rw [if_pos ends] at hleaf
    rw [hroot]
    exact History.declaredAt_of_distinct (History.unmixed_of_functions hfunctions) distinct hmem hleaf

/-- A function and a method of one class keep their leaves: their names end in different nodes. -/
theorem leaf_of_static_and_method :
    ∃ d fs ds, Document.ofSource
        ⟨"class A{/** @return {a} */static f(){}/** @return {b} */g(){}}".toList, [], "js".toList,
          "utf-8".toList⟩ = .ok d ∧
      d.functions = .ok fs ∧ fs.foldlM (withFunction d) {} = .ok ds ∧ ds.functions = 2 ∧
      ds.root.leafPaths.Perm [["A".toList, "f".toList], ["A".toList, "g".toList]] := by
  generalize hs : (Source.mk "class A{/** @return {a} */static f(){}/** @return {b} */g(){}}".toList
    [] "js".toList "utf-8".toList) = s
  have read : (Document.ofSource s >>= fun d => d.functions >>= fun fs =>
      (fs.mapM fun f => segmentsOf d f.place) >>= fun names =>
      (fs.foldlM (withFunction d) {}).map fun ds => (names, ds.functions)).toOption = some
        ([["A".toList, "f".toList], ["A".toList, Name.prototype, "g".toList]], 2) := by
    subst hs
    decide +kernel
  obtain ⟨d, hd, hread⟩ := bind_eq_ok.1 (eq_ok_of_toOption read)
  obtain ⟨fs, hfs, hread⟩ := bind_eq_ok.1 hread
  obtain ⟨names, hnames, hread⟩ := bind_eq_ok.1 hread
  obtain ⟨ds, hds, hread⟩ := map_eq_ok.1 hread
  obtain ⟨rfl, hcount⟩ := Prod.mk.inj hread
  obtain ⟨names', hnames', leaves⟩ := leaf_of_each_function hds
  rw [mapM_eq_ok_iff_forall₂.2 hnames'] at hnames
  obtain rfl := Except.ok.inj hnames
  obtain ⟨paths, -, -⟩ := leaves (by decide)
  exact ⟨d, fs, ds, hd, hfs, hds, hcount, paths⟩

/-- A static function and a method with one name are documented apart, but only one leaf is left. -/
theorem leaf_lost_of_same_node :
    ∃ d fs ds names, Document.ofSource
        ⟨"class A{/** @return {a} */static f(){}/** @return {b} */f(){}}".toList, [], "js".toList,
          "utf-8".toList⟩ = .ok d ∧
      d.functions = .ok fs ∧ fs.mapM (fun f => segmentsOf d f.place) = .ok names ∧ names.Nodup ∧
      fs.foldlM (withFunction d) {} = .ok ds ∧ ds.functions = 2 ∧
      ds.root.leafPaths = [["A".toList, "f".toList]] := by
  generalize hs : (Source.mk "class A{/** @return {a} */static f(){}/** @return {b} */f(){}}".toList
    [] "js".toList "utf-8".toList) = s
  have read : (Document.ofSource s >>= fun d => d.functions >>= fun fs =>
      (fs.mapM fun f => segmentsOf d f.place) >>= fun names =>
      (fs.foldlM (withFunction d) {}).map fun ds =>
        (names, ds.functions, ds.root.leafPaths)).toOption = some
        ([["A".toList, "f".toList], ["A".toList, Name.prototype, "f".toList]], 2,
          [["A".toList, "f".toList]]) := by
    subst hs
    decide +kernel
  obtain ⟨d, hd, hread⟩ := bind_eq_ok.1 (eq_ok_of_toOption read)
  obtain ⟨fs, hfs, hread⟩ := bind_eq_ok.1 hread
  obtain ⟨names, hnames, hread⟩ := bind_eq_ok.1 hread
  obtain ⟨ds, hds, hread⟩ := map_eq_ok.1 hread
  obtain ⟨rfl, htree⟩ := Prod.mk.inj hread
  obtain ⟨hcount, hpaths⟩ := Prod.mk.inj htree
  exact ⟨d, fs, ds, _, hd, hfs, hnames, by decide, hds, hcount, hpaths⟩

/-- A function that is assigned to the `prototype` of a class is counted, but has no leaf. -/
example : (Document.ofSource ⟨"/** @return {a} */A.prototype=function(){}".toList, [], "js".toList,
      "utf-8".toList⟩ >>= fun d => d.functions >>= fun fs =>
    (fs.foldlM (withFunction d) {}).map fun ds => (ds.functions, ds.root.leafPaths)).toOption =
      some (1, []) := by
  decide +kernel

end Declarations

end DocFlow
