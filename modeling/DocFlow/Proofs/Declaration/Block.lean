import Mathlib
import DocFlow.Declaration.Layout
import DocFlow.Proofs.Declaration.Leaf
import DocFlow.Proofs.Declaration.Reserved

namespace DocFlow

inductive Part where
  | opening (depth : Nat) (keyword : String) (key : Text)
  | closing (depth : Nat)
  | leaf (path : List Text) (depth : Nat) (above : Option DeclarationForm) (module? : Option Text)
    (declared : Declaration)

namespace Part

open DeclarationTree

def lines : Part → Except Error (List Line)
  | opening depth keyword key => .ok [openLine depth keyword (some key)]
  | closing depth => .ok [closeLine depth]
  | leaf _ depth above module? d =>
    if d.form = .classLike then .ok (Declaration.constructorLines depth module? d)
    else Declaration.ownLines depth above module? d

def linesAll : List Part → Except Error (List Line)
  | [] => .ok []
  | p :: ps => do
    let first ← p.lines
    let others ← linesAll ps
    return first ++ others

/-- The keys of the blocks that are open behind a part, from the outside in. -/
def openBehind (blocks : List Text) : Part → List Text
  | opening _ _ key => blocks ++ [key]
  | closing _ => blocks.dropLast
  | leaf .. => blocks

/-- The leaves that some parts declare: the path of each, the blocks that are open there, and what is
declared. -/
def leavesIn (blocks : List Text) : List Part → List (List Text × List Text × Option Declaration)
  | [] => []
  | opening depth keyword key :: ps => leavesIn ((opening depth keyword key).openBehind blocks) ps
  | closing depth :: ps => leavesIn ((closing depth).openBehind blocks) ps
  | leaf path _ _ _ d :: ps => (path, blocks, some d) :: leavesIn blocks ps

theorem linesAll_append (ps qs : List Part) :
    linesAll (ps ++ qs) = do
      let first ← linesAll ps
      let others ← linesAll qs
      return first ++ others := by
  induction ps with
  | nil =>
    rw [List.nil_append, linesAll]
    cases linesAll qs <;> rfl
  | cons p ps ih =>
    rw [List.cons_append, linesAll, ih, linesAll]
    cases p.lines with
    | error e => rfl
    | ok first =>
      cases linesAll ps with
      | error e => rfl
      | ok others =>
        cases linesAll qs with
        | error e => rfl
        | ok last => exact congrArg Except.ok (List.append_assoc first others last).symm

theorem leavesIn_append (blocks : List Text) (ps qs : List Part) :
    leavesIn blocks (ps ++ qs) = leavesIn blocks ps ++ leavesIn (ps.foldl openBehind blocks) qs := by
  induction ps generalizing blocks with
  | nil => rfl
  | cons p ps ih =>
    cases p with
    | opening | closing => exact ih _
    | leaf path => exact congrArg _ (ih blocks)

end Part

namespace DeclarationTree

/-- The constructor of a class, unless the class is known by its methods alone. -/
def constructorParts (path : List Text) (depth : Nat) (above : Enclosing) (d : Declaration) :
    List Part :=
  if d.name.isSome then [.leaf path depth above.form above.module? d] else []

mutual

def partsOf (path : List Text) (key : Text) (above : Enclosing) (depth : Nat) :
    DeclarationTree → List Part
  | node none cs =>
    .opening depth "declare module " key ::
      (partsBelow path ⟨some .scope, moduleAt above.module? (some key)⟩ (depth + 1) cs ++
        [.closing depth])
  | node (some d) cs =>
    let below := partsBelow path ⟨some d.form, above.module?⟩ (depth + 1) cs
    if d.form = .classLike then
      .opening depth "declare class " key ::
        (constructorParts path (depth + 1) above d ++ below ++ [.closing depth])
    else .leaf path depth above.form above.module? d :: below

def partsBelow (path : List Text) (above : Enclosing) (depth : Nat) :
    List (Text × DeclarationTree) → List Part
  | [] => []
  | (key, t) :: rest => partsOf (path ++ [key]) key above depth t ++ partsBelow path above depth rest

end

def parts (root : DeclarationTree) : List Part := partsBelow [] ⟨none, none⟩ 0 root.children

def opensBlock (t : DeclarationTree) : Bool := t.declared.all (·.form = .classLike)

/-- The segments on a path whose nodes open a block. -/
def blocksOn : List Text → DeclarationTree → List Text
  | [], _ => []
  | s :: p, t =>
    match t.child? s with
    | none => []
    | some c => if c.opensBlock then s :: blocksOn p c else blocksOn p c

theorem linesAll_constructorParts {path : List Text} {depth : Nat} {above : Enclosing}
    {d : Declaration} (hclass : d.form = .classLike) :
    Part.linesAll (constructorParts path depth above d) =
      .ok (Declaration.constructorLines depth above.module? d) := by
  rw [constructorParts, Declaration.constructorLines]
  cases hname : d.name with
  | none => rfl
  | some name =>
    rw [Option.isSome_some, if_pos rfl, Part.linesAll, Part.lines, if_pos hclass,
      Declaration.constructorLines, hname]
    rfl

mutual

theorem linesOf_eq (path : List Text) (key : Text) (above : Enclosing) (depth : Nat) :
    ∀ t : DeclarationTree, linesOf (some key) above depth (depth + 1) t =
      Part.linesAll (partsOf path key above depth t)
  | node none cs => by
    have hbelow := linesBelow_eq path ⟨some .scope, moduleAt above.module? (some key)⟩ (depth + 1) cs
    rw [linesOf, partsOf, Part.linesAll, Part.linesAll_append, hbelow]
    cases Part.linesAll (partsBelow path ⟨some .scope, moduleAt above.module? (some key)⟩
      (depth + 1) cs) <;> rfl
  | node (some d) cs => by
    have hbelow := linesBelow_eq path ⟨some d.form, above.module?⟩ (depth + 1) cs
    rw [linesOf, partsOf, hbelow]
    by_cases hclass : d.form = .classLike
    · have hown : Declaration.ownLines depth above.form above.module? d = .ok [] := by
        rw [Declaration.ownLines, hclass]
      simp only [if_pos hclass]
      rw [hown, Part.linesAll, Part.linesAll_append, Part.linesAll_append,
        linesAll_constructorParts hclass]
      cases Part.linesAll (partsBelow path ⟨some d.form, above.module?⟩ (depth + 1) cs) <;> rfl
    · simp only [if_neg hclass]
      rw [Part.linesAll, Part.lines, if_neg hclass]

theorem linesBelow_eq (path : List Text) (above : Enclosing) (depth : Nat) :
    ∀ cs : List (Text × DeclarationTree), linesBelow above depth cs =
      Part.linesAll (partsBelow path above depth cs)
  | [] => by rw [linesBelow, partsBelow, Part.linesAll]
  | (key, t) :: rest => by
    rw [linesBelow, partsBelow, Part.linesAll_append, linesOf_eq (path ++ [key]) key above depth t,
      linesBelow_eq path above depth rest]

end

/-- The text of a tree with a bare root is that of its parts. -/
theorem lines_eq {t : DeclarationTree} (h : t.declared = none) :
    t.lines = Part.linesAll t.parts := by
  obtain ⟨d, cs⟩ := t
  cases h
  rw [lines, linesOf, parts, linesBelow_eq []]
  rfl

theorem foldl_constructorParts (blocks path : List Text) (depth : Nat) (above : Enclosing)
    (d : Declaration) :
    (constructorParts path depth above d).foldl Part.openBehind blocks = blocks := by
  rw [constructorParts]
  split <;> rfl

mutual

/-- The parts of a node close the blocks that they open. -/
theorem foldl_partsOf (blocks path : List Text) (key : Text) (above : Enclosing) (depth : Nat) :
    ∀ t : DeclarationTree, (partsOf path key above depth t).foldl Part.openBehind blocks = blocks
  | node none cs => by
    rw [partsOf, List.foldl_cons, List.foldl_append, foldl_partsBelow]
    exact List.dropLast_concat
  | node (some d) cs => by
    rw [partsOf]
    by_cases hclass : d.form = .classLike
    · simp only [if_pos hclass]
      rw [List.foldl_cons, List.foldl_append, List.foldl_append, foldl_constructorParts,
        foldl_partsBelow]
      exact List.dropLast_concat
    · simp only [if_neg hclass]
      rw [List.foldl_cons]
      exact foldl_partsBelow ..

theorem foldl_partsBelow (blocks path : List Text) (above : Enclosing) (depth : Nat) :
    ∀ cs : List (Text × DeclarationTree),
      (partsBelow path above depth cs).foldl Part.openBehind blocks = blocks
  | [] => by rw [partsBelow, List.foldl_nil]
  | (key, t) :: rest => by
    rw [partsBelow, List.foldl_append, foldl_partsOf, foldl_partsBelow]

end

def Named (t : DeclarationTree) : Prop :=
  ∀ p d, t.declaredAt p = some d → d.form = .classLike ∨ d.name.isSome

theorem Named.of_child? {t c : DeclarationTree} {s : Text} (h : t.Named)
    (hc : t.child? s = some c) : c.Named := by
  intro p d hd
  apply h (s :: p) d
  rw [declaredAt, descendant?, hc]
  exact hd

def ownBlock (key : Text) (t : DeclarationTree) : List Text := if t.opensBlock then [key] else []

theorem blocksOn_cons {s : Text} {p : List Text} {t c : DeclarationTree} (hc : t.child? s = some c) :
    blocksOn (s :: p) t = ownBlock s c ++ blocksOn p c := by
  rw [blocksOn, hc, ownBlock]
  dsimp only
  split <;> rfl

mutual

/-- Each leaf of a node stands in the blocks on its path. -/
theorem leavesIn_partsOf (blocks path : List Text) (key : Text) (above : Enclosing) (depth : Nat) :
    ∀ t : DeclarationTree, t.SegmentsDistinct → t.Named →
      Part.leavesIn blocks (partsOf path key above depth t) =
        t.leafPaths.map fun p =>
          (path ++ p, blocks ++ ownBlock key t ++ blocksOn p t, t.declaredAt p)
  | node none cs, distinct, named => by
    have hbelow := leavesIn_partsBelow (blocks ++ [key]) path
      ⟨some .scope, moduleAt above.module? (some key)⟩ (depth + 1) (node none cs) cs
      (fun s c hc => distinct.child?_of_mem hc) distinct named
    rw [partsOf, Part.leavesIn, Part.leavesIn_append, Part.openBehind, hbelow]
    exact List.append_nil _
  | node (some d) cs, distinct, named => by
    have hbelow (blocks : List Text) := leavesIn_partsBelow blocks path ⟨some d.form, above.module?⟩
      (depth + 1) (node (some d) cs) cs (fun s c hc => distinct.child?_of_mem hc) distinct named
    rw [partsOf, leafPaths, List.map_append]
    -- The constructor of a class stands inside of its block, any other leaf before what is below it.
    by_cases hclass : d.form = .classLike
    · have hown : ownBlock key (node (some d) cs) = [key] := by
        simp [ownBlock, opensBlock, declared, hclass]
      simp only [if_pos hclass]
      rw [Part.leavesIn, Part.leavesIn_append, Part.leavesIn_append, foldl_constructorParts, hbelow,
        hown, constructorParts, Part.openBehind]
      cases hname : d.name <;>
        simp [hname, Part.leavesIn, blocksOn, declaredAt, descendant?, declared]
    · have hown : ownBlock key (node (some d) cs) = [] := by
        simp [ownBlock, opensBlock, declared, hclass]
      have hname : d.name.isSome := (named [] d rfl).resolve_left hclass
      simp only [if_neg hclass]
      rw [Part.leavesIn, hbelow, hown]
      simp [hname, blocksOn, declaredAt, descendant?, declared]

theorem leavesIn_partsBelow (blocks path : List Text) (above : Enclosing) (depth : Nat)
    (t : DeclarationTree) :
    ∀ cs : List (Text × DeclarationTree), (∀ s c, (s, c) ∈ cs → t.child? s = some c) →
      t.SegmentsDistinct → t.Named →
      Part.leavesIn blocks (partsBelow path above depth cs) =
        (leafPathsBelow cs).map fun p => (path ++ p, blocks ++ blocksOn p t, t.declaredAt p)
  | [], _, _, _ => rfl
  | (key, c) :: rest, hchild, distinct, named => by
    have hc := hchild key c List.mem_cons_self
    have hfirst := leavesIn_partsOf blocks (path ++ [key]) key above depth c (distinct.of_child? hc)
      (named.of_child? hc)
    have hrest := leavesIn_partsBelow blocks path above depth t rest
      (fun s c hmem => hchild s c (List.mem_cons_of_mem _ hmem)) distinct named
    rw [partsBelow, Part.leavesIn_append, foldl_partsOf, hfirst, hrest, leafPathsBelow,
      List.map_append, List.map_map]
    congr 1
    apply List.map_congr_left
    intro p _
    simp [blocksOn_cons hc, declaredAt, descendant?, hc]

end

/-- The leaves of a tree with a bare root stand in the blocks on their paths, each in one place. -/
theorem leavesIn_parts {t : DeclarationTree} (h : t.declared = none) (distinct : t.SegmentsDistinct)
    (named : t.Named) :
    Part.leavesIn [] t.parts = t.leafPaths.map fun p => (p, t.blocksOn p, t.declaredAt p) := by
  have hbelow := leavesIn_partsBelow [] [] ⟨none, none⟩ 0 t t.children
    (fun s c hc => distinct.child?_of_mem hc) distinct named
  obtain ⟨d, cs⟩ := t
  cases h
  exact hbelow

theorem length_blocksOn_le (p : List Text) (t : DeclarationTree) :
    (t.blocksOn p).length ≤ p.length := by
  induction p generalizing t with
  | nil => exact Nat.le_refl 0
  | cons s p ih =>
    rw [blocksOn]
    split
    · exact Nat.zero_le _
    · next c _ =>
      have hc := ih c
      split <;> simp only [List.length_cons] <;> omega

/-- The blocks on a path spell it iff every node on it opens one. -/
theorem blocksOn_eq_self_iff {p : List Text} {t : DeclarationTree} (h : (t.descendant? p).isSome) :
    t.blocksOn p = p ↔
      ∀ q c, q ≠ [] → q <+: p → t.descendant? q = some c → c.opensBlock := by
  induction p generalizing t with
  | nil =>
    refine iff_of_true rfl fun q c hq hp => ?_
    exact absurd (List.prefix_nil.1 hp) hq
  | cons s p ih =>
    rw [descendant?] at h
    obtain ⟨c, hc⟩ : ∃ c, t.child? s = some c := by
      cases hc : t.child? s with
      | none => simp [hc] at h
      | some c => exact ⟨c, rfl⟩
    rw [hc, Option.bind_some] at h
    have hdescend (q : List Text) : t.descendant? (s :: q) = c.descendant? q := by
      rw [descendant?, hc, Option.bind_some]
    have hopens : t.blocksOn (s :: p) = s :: p ↔ c.opensBlock ∧ c.blocksOn p = p := by
      rw [blocksOn_cons hc, ownBlock]
      by_cases hblock : c.opensBlock = true
      · simp [hblock]
      · -- Without a block for the first segment there are too few to spell the path.
        have hshort := length_blocksOn_le p c
        refine iff_of_false ?_ (by simp [hblock])
        intro heq
        rw [if_neg hblock, List.nil_append] at heq
        rw [heq, List.length_cons] at hshort
        omega
    rw [hopens, ih h]
    constructor
    · rintro ⟨hblock, hrest⟩ q c' hq hp hc'
      rcases q with _ | ⟨s', q⟩
      · exact absurd rfl hq
      · obtain ⟨rfl, hbelow⟩ := List.cons_prefix_cons.1 hp
        rw [hdescend] at hc'
        by_cases hnil : q = []
        · subst hnil
          cases hc'
          exact hblock
        · exact hrest q c' hnil hbelow hc'
    · intro hall
      refine ⟨hall [s] c (List.cons_ne_nil _ _) ⟨p, rfl⟩ (hdescend []), fun q c' hq hp hc' => ?_⟩
      exact hall (s :: q) c' (List.cons_ne_nil _ _) (List.cons_prefix_cons.2 ⟨rfl, hp⟩)
        ((hdescend q).trans hc')

theorem blocksOn_concat {p : List Text} {s : Text} {t c : DeclarationTree}
    (hc : t.descendant? (p ++ [s]) = some c) :
    t.blocksOn (p ++ [s]) = t.blocksOn p ++ ownBlock s c ∧ (t.descendant? p).isSome := by
  induction p generalizing t with
  | nil =>
    obtain ⟨c', hc', heq⟩ := Option.bind_eq_some_iff.1 hc
    cases heq
    exact ⟨by rw [List.nil_append, blocksOn_cons hc']; simp [blocksOn], rfl⟩
  | cons s' p ih =>
    obtain ⟨c', hc', hbelow⟩ := Option.bind_eq_some_iff.1 hc
    obtain ⟨hblocks, hsome⟩ := ih hbelow
    rw [List.cons_append, blocksOn_cons hc', hblocks, blocksOn_cons hc', descendant?, hc']
    exact ⟨(List.append_assoc ..).symm, hsome⟩

/-- The blocks around a leaf spell the path above it, or all of its path for a constructor, iff the
nodes above it all open one. -/
theorem blocksOn_leaf_iff {p : List Text} (hp : p ≠ []) {root t : DeclarationTree}
    (ht : root.descendant? p = some t) (hleaf : t.hasLeaf) :
    root.blocksOn p = (if t.isClass then p else p.dropLast) ↔
      ∀ q c, q ≠ [] → q <+: p → q ≠ p → root.descendant? q = some c → c.opensBlock := by
  obtain ⟨init, s, rfl⟩ := (List.eq_nil_or_concat' p).resolve_left hp
  obtain ⟨hblocks, hinit⟩ := blocksOn_concat ht
  have hopens : t.opensBlock = t.isClass := by
    rw [hasLeaf] at hleaf
    rw [opensBlock, isClass]
    cases hd : t.declared with
    | none => simp [hd] at hleaf
    | some d => rfl
  have habove : root.blocksOn (init ++ [s]) =
      (if t.isClass then init ++ [s] else (init ++ [s]).dropLast) ↔ root.blocksOn init = init := by
    rw [hblocks, ownBlock, hopens, List.dropLast_concat]
    split <;> simp
  rw [habove, blocksOn_eq_self_iff hinit]
  constructor
  · intro hall q c hq hq' hne hc
    exact hall q c hq ((List.prefix_concat_iff.1 hq').resolve_left hne) hc
  · intro hall q c hq hq' hc
    refine hall q c hq (hq'.trans (List.prefix_append ..)) ?_ hc
    rintro rfl
    have hlength := List.IsPrefix.length_le hq'
    simp at hlength

end DeclarationTree

theorem Declaration.name_toClass (d : Declaration) : d.toClass.name = d.name := by
  rw [toClass]
  split <;> rfl

open DeclarationTree

namespace History

variable {es : List Entry}

/-- What is assigned below the root leaves the root bare. -/
theorem declaredAt_nil_tree (below : ∀ e ∈ es, e.leaf?.isSome → e.path ≠ []) :
    declaredAt [] (tree es) = none := by
  induction es using List.reverseRecOn with
  | nil => rfl
  | append_singleton es e ih =>
    have hclass : [] ∉ e.classPaths := by
      cases e with
      | function segments => exact fun h => (Name.mem_classPathsBelow.1 h).1 rfl
      | enumeration => exact List.not_mem_nil
    have hleaf : e.leafAt [] = none := by
      apply Entry.leafAt_of_not_assigns
      rintro ⟨hleaf, hp⟩
      exact below e (by simp) hleaf hp.symm
    rw [tree_concat, Entry.declaredAt_insert, hleaf, if_neg hclass]
    exact ih fun e he => below e (List.mem_append_left _ he)

theorem named_asClass {old : Option Declaration}
    (h : ∀ d, old = some d → d.form = .classLike ∨ d.name.isSome) :
    ∀ d, asClass old = some d → d.form = .classLike ∨ d.name.isSome := by
  intro d hd
  cases old with
  | none =>
    cases hd
    exact .inl rfl
  | some d' =>
    cases hd
    cases hcallable : d'.form.isCallable with
    | false =>
      rw [Declaration.toClass_of_not_callable hcallable]
      exact h d' rfl
    | true =>
      rw [Declaration.toClass_of_callable hcallable]
      exact .inl rfl

/-- What is assigned below the root has a name, and only classes are made without one. -/
theorem named_tree (below : ∀ e ∈ es, e.leaf?.isSome → e.path ≠ []) : (tree es).Named := by
  intro p
  induction es using List.reverseRecOn with
  | nil =>
    intro d hd
    rw [tree, List.foldl_nil, declaredAt, descendant?_empty] at hd
    split at hd <;> cases hd
  | append_singleton es e ih =>
    have hold := ih fun e he => below e (List.mem_append_left _ he)
    have hmade : ∀ d, (if p ∈ e.classPaths then asClass (declaredAt p (tree es))
        else declaredAt p (tree es)) = some d → d.form = .classLike ∨ d.name.isSome := by
      split
      · exact named_asClass hold
      · exact hold
    rw [tree_concat, Entry.declaredAt_insert]
    by_cases hassigns : e.Assigns p
    · -- A node keeps the name of its leaf when it is a class.
      obtain ⟨leaf, hleaf⟩ := Option.isSome_iff_exists.1 hassigns.1
      have hname := name_of_leaf (below e (by simp) hassigns.1) ⟨hassigns.1, rfl⟩ hleaf
      rw [Entry.leafAt_of_assigns hassigns, hleaf, assign]
      intro d hd
      cases hd
      refine .inr ?_
      rw [apply_ite Declaration.name, Declaration.name_toClass, ite_self]
      exact hname
    · rw [Entry.leafAt_of_not_assigns hassigns]
      exact hmade

end History

namespace Declarations

/-- Whatever can be added is assigned below the root. -/
theorem path_ne_nil_of_leaf {d : Document} {c : Documented} {e : Entry}
    (h : Entry.ofConstruct d c = .ok e) (hleaf : e.leaf?.isSome) : e.path ≠ [] := by
  cases c with
  | function f =>
    obtain ⟨segments, hsegments, rfl⟩ := map_eq_ok.1 h
    have hne := ne_nil_of_segmentsOf hsegments
    have hleaf' : (functionEntry d f segments).leaf?.isSome := hleaf
    have ends : Name.endsInNode segments = true := by
      rw [leaf?_functionEntry hne] at hleaf'
      by_contra hends
      simp [hends] at hleaf'
    have hlast : segments.getLast hne ∈ Name.nodePath segments := by
      refine List.mem_filter.2 ⟨List.getLast_mem hne, ?_⟩
      rw [Name.endsInNode, List.getLast?_eq_some_getLast hne] at ends
      simpa using ends
    exact List.ne_nil_of_mem hlast
  | enumeration e =>
    obtain ⟨segments, hsegments, rfl⟩ := map_eq_ok.1 h
    exact ne_nil_of_segmentsOf hsegments

theorem path_ne_nil_of_mem_entries {d : Document} {cs : List Documented} {e : Entry}
    (he : e ∈ entries d cs) (hleaf : e.leaf?.isSome) : e.path ≠ [] := by
  obtain ⟨c, -, hc⟩ := List.mem_filterMap.1 he
  exact path_ne_nil_of_leaf (eq_ok_of_toOption hc) hleaf

/-- Whatever is attempted, the root declares nothing. -/
theorem declared_root_attempts (d : Document) (cs : List Documented) :
    (cs.foldl (attempt d) {}).root.declared = none := by
  have htop := History.declaredAt_nil_tree fun e (he : e ∈ entries d cs) =>
    path_ne_nil_of_mem_entries he
  rw [← root_attempts] at htop
  simpa [declaredAt, descendant?] using htop

/-- Whatever is attempted, the layout has one part for each leaf, which stands in the blocks of the
nodes on its path that open one. These spell the path of the leaf as far as no function, method or
enum is above it. -/
theorem blocks_of_leaves (d : Document) (cs : List Documented) :
    let root := (cs.foldl (attempt d) {}).root
    root.lines = Part.linesAll root.parts ∧
      Part.leavesIn [] root.parts =
        root.leafPaths.map (fun p => (p, root.blocksOn p, root.declaredAt p)) ∧
      ∀ p t, root.descendant? p = some t → t.hasLeaf → p ∈ root.leafPaths ∧
        (root.blocksOn p = (if t.isClass then p else p.dropLast) ↔
          ∀ q c, q ≠ [] → q <+: p → q ≠ p → root.descendant? q = some c → c.opensBlock) := by
  intro root
  have hroot : root = History.tree (entries d cs) := root_attempts d cs
  have hbare : root.declared = none := declared_root_attempts d cs
  have hdistinct : root.SegmentsDistinct := by
    rw [hroot]
    exact History.segmentsDistinct_tree _
  have hnamed : root.Named := by
    rw [hroot]
    exact History.named_tree fun _ => path_ne_nil_of_mem_entries
  refine ⟨lines_eq hbare, leavesIn_parts hbare hdistinct hnamed, fun p t ht hleaf => ?_⟩
  have hp : p ≠ [] := by
    rintro rfl
    cases ht
    simp [hasLeaf, hbare] at hleaf
  exact ⟨(mem_leafPaths hdistinct).2 ⟨t, ht, hleaf⟩, blocksOn_leaf_iff hp ht hleaf⟩

/-- A method of a class in a namespace stands in the block of the class in that of the namespace. -/
theorem blocks_of_method :
    ∃ d cs, Document.ofSource ⟨"/** @return {a} */n.A.prototype.f=function(){}".toList, [],
        "js".toList, "utf-8".toList⟩ = .ok d ∧ d.constructs = .ok cs ∧
      ∃ declared, Part.leavesIn [] (cs.foldl (attempt d) {}).root.parts =
        [(["n".toList, "A".toList, "f".toList], ["n".toList, "A".toList], declared)] := by
  generalize hs : (Source.mk "/** @return {a} */n.A.prototype.f=function(){}".toList [] "js".toList
    "utf-8".toList) = s
  have read : (Document.ofSource s >>= fun d => d.constructs.map fun cs =>
      let root := (cs.foldl (attempt d) {}).root
      (root.leafPaths, root.blocksOn ["n".toList, "A".toList, "f".toList])).toOption =
        some ([["n".toList, "A".toList, "f".toList]], ["n".toList, "A".toList]) := by
    subst hs
    decide +kernel
  obtain ⟨d, hd, h⟩ := bind_eq_ok.1 (eq_ok_of_toOption read)
  obtain ⟨cs, hcs, htree⟩ := map_eq_ok.1 h
  obtain ⟨hpaths, hblocks⟩ := Prod.mk.inj htree
  obtain ⟨-, hleaves, -⟩ := blocks_of_leaves d cs
  rw [hpaths, List.map_cons, List.map_nil, hblocks] at hleaves
  exact ⟨d, cs, hd, hcs, _, hleaves⟩

/-- A function opens no block: a function inside it stands beside it. -/
theorem no_block_of_nested_function :
    ∃ d cs, Document.ofSource ⟨"/** @return {a} */function f(){/** @return {b} */function g(){}}".toList,
        [], "js".toList, "utf-8".toList⟩ = .ok d ∧ d.constructs = .ok cs ∧
      (Part.leavesIn [] (cs.foldl (attempt d) {}).root.parts).map (fun leaf => (leaf.1, leaf.2.1)) =
        [(["f".toList], []), (["f".toList, "g".toList], [])] := by
  generalize hs : (Source.mk
    "/** @return {a} */function f(){/** @return {b} */function g(){}}".toList [] "js".toList
    "utf-8".toList) = s
  have read : (Document.ofSource s >>= fun d => d.constructs.map fun cs =>
      (Part.leavesIn [] (cs.foldl (attempt d) {}).root.parts).map
        fun leaf => (leaf.1, leaf.2.1)).toOption =
        some [(["f".toList], []), (["f".toList, "g".toList], [])] := by
    subst hs
    decide +kernel
  obtain ⟨d, hd, h⟩ := bind_eq_ok.1 (eq_ok_of_toOption read)
  obtain ⟨cs, hcs, hleaves⟩ := map_eq_ok.1 h
  exact ⟨d, cs, hd, hcs, hleaves⟩

end Declarations

end DocFlow
