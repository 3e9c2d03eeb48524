import DocFlow.Proofs.Declaration.Block
import DocFlow.Proofs.Declaration.Reference

namespace DocFlow

open DeclarationTree Reference

/-- A stretch of a layout: some frame, or a type with the colon before it. -/
inductive Stretch where
  | frame (text : Text)
  | type (text : Text)
  deriving DecidableEq, Repr

namespace Stretch

def write : Stretch → Text
  | frame t => t
  | type t => ": ".toList ++ t

def merged : List Stretch → List Stretch
  | [] => []
  | type t :: ss => type t :: merged ss
  | frame t :: ss =>
    match merged ss with
    | frame u :: rest => frame (t ++ u) :: rest
    | rest => frame t :: rest

def closers : List Char := [',', ')', ';']

/-- Stretches with a frame behind every type, which starts where the type has to end. -/
inductive Closed : List Stretch → Prop where
  | nil : Closed []
  | frame (t : Text) {ss : List Stretch} (rest : Closed ss) : Closed (frame t :: ss)
  | type (t : Text) {c : Char} (u : Text) {ss : List Stretch} (closes : c ∈ closers)
    (rest : Closed ss) : Closed (type t :: frame (c :: u) :: ss)

theorem Closed.append {ss rest : List Stretch} (h : Closed ss) (hrest : Closed rest) :
    Closed (ss ++ rest) := by
  induction h with
  | nil => exact hrest
  | frame t _ ih => exact .frame t ih
  | type t u closes _ ih => exact .type t u closes ih

theorem write_merged (ss : List Stretch) : (merged ss).flatMap write = ss.flatMap write := by
  induction ss with
  | nil => rfl
  | cons s ss ih =>
    cases s with
    | type t => rw [merged, List.flatMap_cons, List.flatMap_cons, ih]
    | frame t =>
      rw [List.flatMap_cons, ← ih, merged]
      split
      · next u rest hmerged => rw [hmerged, List.flatMap_cons, List.flatMap_cons, write, write, write,
          List.append_assoc]
      · rw [List.flatMap_cons]

theorem exists_merged_frame (t : Text) (ss : List Stretch) :
    ∃ u rest, merged (frame t :: ss) = frame (t ++ u) :: rest := by
  rw [merged]
  split
  · exact ⟨_, _, rfl⟩
  · exact ⟨[], _, by rw [List.append_nil]⟩

def Starts (s : Stretch) : Prop := ∃ c ∈ ':' :: closers, ∃ t, s.write = c :: t

theorem starts_type (t : Text) : (type t).Starts :=
  ⟨':', List.mem_cons_self, ' ' :: t, rfl⟩

theorem starts_merged_frame (t : Text) {ss : List Stretch} (h : ∀ s ∈ (merged ss).tail, s.Starts) :
    ∀ s ∈ (merged (frame t :: ss)).tail, s.Starts := by
  intro s hs
  rw [merged] at hs
  split at hs
  · next u rest hmerged =>
    rw [hmerged] at h
    exact h s hs
  · next hframe =>
    cases hmerged : merged ss with
    | nil =>
      rw [hmerged] at hs
      cases hs
    | cons first rest =>
      rw [hmerged] at h hs
      cases first with
      | frame u => exact absurd hmerged (hframe u rest)
      | type u =>
        rcases List.mem_cons.1 hs with rfl | hs
        · exact starts_type u
        · exact h s hs

/-- The first stretch apart, merged stretches start where no reference can reach across. -/
theorem Closed.starts_merged {ss : List Stretch} (h : Closed ss) :
    ∀ s ∈ (merged ss).tail, s.Starts := by
  induction h with
  | nil => exact fun s hs => absurd hs List.not_mem_nil
  | frame t _ ih => exact starts_merged_frame t ih
  | @type t c u ss closes _ ih =>
    intro s hs
    have hbehind := starts_merged_frame (c :: u) ih
    obtain ⟨v, rest, hmerged⟩ := exists_merged_frame (c :: u) ss
    rw [merged, List.tail_cons, hmerged] at hs
    rw [hmerged] at hbehind
    rcases List.mem_cons.1 hs with rfl | hs
    · exact ⟨c, List.mem_cons_of_mem _ closes, u ++ v, rfl⟩
    · exact hbehind s hs

/-- The names of enums that no reference to them crosses the end of a type. Names from identifiers
are such; a name from a string may hold any character. -/
def Plain (name : Text) : Prop := ∀ c ∈ ':' :: closers, c ∉ name

theorem Plain.separates {name : Text} (h : Plain name) {c : Char} (hc : c ∈ ':' :: closers) :
    Separates name c := by
  have hclass : isNamePart c = false ∧ Text.isBlank c = false ∧ c ≠ '?' := by
    simp only [closers, List.mem_cons, List.not_mem_nil, or_false] at hc
    rcases hc with rfl | rfl | rfl | rfl <;> exact ⟨rfl, rfl, by decide⟩
  obtain ⟨hends, hvisible, hquestion⟩ := hclass
  exact ⟨h c hc, hends, hvisible, hquestion⟩

/-- What closed stretches write is retargeted stretch by stretch. -/
theorem Closed.retargetAll_write {ss : List Stretch} (h : Closed ss) {names : List Text}
    (plain : ∀ name ∈ names, Plain name) :
    retargetAll names (ss.flatMap write) =
      (merged ss).flatMap fun s => retargetAll names s.write := by
  have hstarts := h.starts_merged
  rw [← write_merged]
  cases hmerged : merged ss with
  | nil => exact (retargetAll_eq_self_iff (t := [])).2 fun name _ => not_refers_nil name
  | cons first rest =>
    rw [hmerged] at hstarts
    have hseparate : ∀ t ∈ rest.map write,
        ∃ d t', t = d :: t' ∧ ∀ name ∈ names, Separates name d := by
      intro t ht
      obtain ⟨s, hs, rfl⟩ := List.mem_map.1 ht
      obtain ⟨c, hc, t', hwrite⟩ := hstarts s hs
      exact ⟨c, t', hwrite, fun name hname => (plain name hname).separates hc⟩
    have hpieces := retargetAll_flatten first.write hseparate
    rw [List.map_map] at hpieces
    rw [List.flatMap_cons, List.flatMap_cons, List.flatMap_def, List.flatMap_def, hpieces]
    rfl

end Stretch

namespace Declaration

open Stretch

def formalStretches (module? : Option Text) (close : Text) (p : Formal) : List Stretch :=
  match p.type with
  | none | some [] => [.frame (p.label ++ close)]
  | some t =>
    match unqualify module? t with
    | [] => [.frame (p.label ++ close)]
    | t => [.frame p.label, .type t, .frame close]

def paramStretches (module? : Option Text) : List Formal → List Stretch
  | [] => [.frame ")".toList]
  | [p] => formalStretches module? ")".toList p
  | p :: q :: rest => formalStretches module? ", ".toList p ++ paramStretches module? (q :: rest)

def resultText (module? : Option Text) (d : Declaration) : Text :=
  match (d.resultType.map (unqualify module?)).filter (· ≠ []) with
  | some t => t
  | none => "void".toList

def signatureStretches (module? : Option Text) (d : Declaration) : List Stretch :=
  .frame "(".toList :: (paramStretches module? d.params ++
    [.type (resultText module? d), .frame ";".toList])

theorem write_formalStretches (module? : Option Text) (close : Text) (p : Formal) :
    (formalStretches module? close p).flatMap write = formalText module? p ++ close := by
  obtain ⟨label, type⟩ := p
  cases type with
  | none => exact List.append_nil _
  | some t =>
    cases t with
    | nil => exact List.append_nil _
    | cons c t =>
      rw [formalStretches, formalText]
      dsimp only
      cases unqualify module? (c :: t) <;> simp [write]

theorem write_paramStretches (module? : Option Text) (ps : List Formal) :
    (paramStretches module? ps).flatMap write =
      Text.join ", ".toList (ps.map (formalText module?)) ++ ")".toList := by
  induction ps with
  | nil => rfl
  | cons p ps ih =>
    cases ps with
    | nil => exact write_formalStretches module? ")".toList p
    | cons q ps =>
      rw [paramStretches, List.flatMap_append, write_formalStretches, ih]
      simp only [List.map_cons, Text.join, List.append_assoc]

theorem signature_eq (module? : Option Text) (d : Declaration) :
    signature module? d = '(' :: (Text.join ", ".toList (d.params.map (formalText module?)) ++
      "): ".toList ++ resultText module? d ++ [';']) :=
  rfl

theorem write_signatureStretches (module? : Option Text) (d : Declaration) :
    (signatureStretches module? d).flatMap write = signature module? d := by
  rw [signatureStretches, List.flatMap_cons, List.flatMap_append, write_paramStretches, signature_eq]
  simp [write]

theorem closed_formalStretches (module? : Option Text) {c : Char} (hc : c ∈ closers) (close : Text)
    (p : Formal) : Closed (formalStretches module? (c :: close) p) := by
  rw [formalStretches]
  split
  · exact .frame _ .nil
  · exact .frame _ .nil
  · split
    · exact .frame _ .nil
    · exact .frame _ (.type _ _ hc .nil)

theorem closed_paramStretches (module? : Option Text) (ps : List Formal) :
    Closed (paramStretches module? ps) := by
  induction ps with
  | nil => exact .frame _ .nil
  | cons p ps ih =>
    cases ps with
    | nil => exact closed_formalStretches module? (by decide) _ p
    | cons q ps => exact (closed_formalStretches module? (by decide) _ p).append ih

theorem closed_signatureStretches (module? : Option Text) (d : Declaration) :
    Closed (signatureStretches module? d) := by
  have hresult : Closed [.type (resultText module? d), .frame ";".toList] :=
    .type _ _ (by decide) .nil
  exact .frame _ ((closed_paramStretches module? d.params).append hresult)

end Declaration

namespace Part

open Stretch

/-- The depth and the head of a line that has a signature, with what the signature is of. -/
def signed? : Part → Option (Nat × Text × Option Text × Declaration)
  | opening .. | closing _ => none
  | leaf _ depth above module? d =>
    match d.form with
    | .classLike => d.name.map fun _ => (depth, "constructor".toList, module?, d)
    | .method => some (depth, Declaration.nameText d.name, module?, d)
    | .function =>
      some (depth, (if above = some .classLike then "static ".toList
        else "declare function ".toList) ++ Declaration.nameText d.name, module?, d)
    | .enumeration | .scope => none

/-- The stretches of a part. Only signatures have types. -/
def stretches (indent : Text) (p : Part) : Except Error (List Stretch) :=
  match p.signed? with
  | some (depth, head, module?, d) =>
    .ok (.frame ((List.replicate depth indent).flatten ++ head) ::
      (Declaration.signatureStretches module? d ++ [.frame ['\n']]))
  | none => p.lines.map (·.map fun l => .frame (l.write indent))

def stretchesAll (indent : Text) : List Part → Except Error (List Stretch)
  | [] => .ok []
  | p :: ps => do
    let first ← p.stretches indent
    let others ← stretchesAll indent ps
    return first ++ others

theorem lines_of_signed {p : Part} {depth : Nat} {head : Text} {module? : Option Text}
    {d : Declaration} (h : p.signed? = some (depth, head, module?, d)) :
    p.lines = .ok [⟨depth, head ++ Declaration.signature module? d⟩] := by
  cases p with
  | opening | closing => cases h
  | leaf path depth' above module' d' =>
    rw [signed?] at h
    rw [lines]
    split at h
    · next hform =>
      obtain ⟨name, hname, heq⟩ := Option.map_eq_some_iff.1 h
      cases heq
      rw [if_pos hform, Declaration.constructorLines, hname]
    · next hform =>
      cases h
      rw [if_neg (by rw [hform]; decide), Declaration.ownLines, hform]
    · next hform =>
      cases h
      rw [if_neg (by rw [hform]; decide), Declaration.ownLines, hform]
      simp only [List.append_assoc]
    · cases h
    · cases h

/-- The stretches of a part write its lines. -/
theorem write_stretches (indent : Text) (p : Part) :
    (p.stretches indent).map (·.flatMap write) = p.lines.map (·.flatMap (Line.write indent)) := by
  rw [stretches]
  split
  · next depth head module? d hsigned =>
    rw [lines_of_signed hsigned]
    simp [Except.map, Line.write, write, Declaration.write_signatureStretches]
  · cases p.lines with
    | error e => rfl
    | ok ls => simp [Except.map, List.flatMap_map, write]

theorem closed_frames (f : Line → Text) (ls : List Line) : Closed (ls.map fun l => .frame (f l)) := by
  induction ls with
  | nil => exact .nil
  | cons l ls ih => exact .frame (f l) ih

theorem closed_stretches {indent : Text} {p : Part} {ss : List Stretch}
    (h : p.stretches indent = .ok ss) : Closed ss := by
  rw [stretches] at h
  split at h
  · cases h
    exact .frame _ ((Declaration.closed_signatureStretches _ _).append (.frame _ .nil))
  · obtain ⟨ls, -, rfl⟩ := map_eq_ok.1 h
    exact closed_frames _ ls

theorem map_flatMap_append {ε α β : Type} (f : α → List β) (x y : Except ε (List α)) :
    Except.map (·.flatMap f) (do
      let first ← x
      let others ← y
      return first ++ others) = (do
      let first ← x.map (·.flatMap f)
      let others ← y.map (·.flatMap f)
      return first ++ others) := by
  cases x with
  | error e => rfl
  | ok first =>
    cases y with
    | error e => rfl
    | ok others => exact congrArg Except.ok List.flatMap_append

theorem write_stretchesAll (indent : Text) (ps : List Part) :
    (stretchesAll indent ps).map (·.flatMap write) =
      (linesAll ps).map (·.flatMap (Line.write indent)) := by
  induction ps with
  | nil => rfl
  | cons p ps ih =>
    rw [stretchesAll, linesAll, map_flatMap_append, map_flatMap_append, write_stretches, ih]

theorem closed_stretchesAll {indent : Text} {ps : List Part} {ss : List Stretch}
    (h : stretchesAll indent ps = .ok ss) : Closed ss := by
  induction ps generalizing ss with
  | nil =>
    cases h
    exact .nil
  | cons p ps ih =>
    obtain ⟨first, hfirst, h⟩ := bind_eq_ok.1 h
    obtain ⟨others, hothers, h⟩ := bind_eq_ok.1 h
    cases h
    exact (closed_stretches hfirst).append (ih hothers)

end Part

namespace DeclarationTree

open Stretch

def allParts : DeclarationTree → List Part
  | node none cs => partsBelow [] ⟨none, none⟩ 0 cs
  | node (some d) cs =>
    let below := partsBelow [] ⟨some d.form, none⟩ 0 cs
    if d.form = .classLike then
      .opening 0 "declare class " "None".toList ::
        (constructorParts [] 0 ⟨none, none⟩ d ++ below ++ [.closing 0])
    else .leaf [] 0 none none d :: below

theorem lines_eq_linesAll (t : DeclarationTree) : t.lines = Part.linesAll t.allParts := by
  obtain ⟨d, cs⟩ := t
  cases d with
  | none =>
    rw [lines, linesOf, allParts, linesBelow_eq []]
  | some d =>
    rw [lines, linesOf, allParts, linesBelow_eq []]
    by_cases hclass : d.form = .classLike
    · have hown : Declaration.ownLines 0 none none d = .ok [] := by
        rw [Declaration.ownLines, hclass]
      simp only [if_pos hclass]
      rw [hown, Part.linesAll, Part.linesAll_append, Part.linesAll_append,
        linesAll_constructorParts hclass]
      cases Part.linesAll (partsBelow [] ⟨some d.form, none⟩ 0 cs) <;> rfl
    · simp only [if_neg hclass]
      rw [Part.linesAll, Part.lines, if_neg hclass]

/-- The stretches of a whole layout. -/
def stretches (indent : Text) (root : DeclarationTree) : Except Error (List Stretch) :=
  Part.stretchesAll indent root.allParts

theorem write_stretches (indent : Text) (root : DeclarationTree) :
    (root.stretches indent).map (·.flatMap write) =
      root.lines.map (·.flatMap (Line.write indent)) := by
  rw [stretches, lines_eq_linesAll, Part.write_stretchesAll]

theorem render_eq {indent : Text} {root : DeclarationTree} {names : List Text}
    (hnames : root.enumNames.eraseDups.mapM requireName = .ok names) :
    root.render indent =
      (root.lines.map (·.flatMap (Line.write indent))).map (retargetAll names) := by
  rw [render]
  cases root.lines with
  | error e => rfl
  | ok ls =>
    simp only [hnames]
    rfl

/-- The layout of a tree before references are retargeted, and its text behind that. The text is
retargeted as a whole, and stays as it was iff it refers to no enum. If no enum has a name that
crosses the end of a type, frames and types are retargeted one by one, and a frame stands as it was
written iff it does not refer to an enum itself. -/
theorem render_of_stretches (indent : Text) (root : DeclarationTree) {names : List Text}
    (hnames : root.enumNames.eraseDups.mapM requireName = .ok names) :
    (root.lines.map fun ls => ls.flatMap (Line.write indent)) =
        ((root.stretches indent).map fun ss => (merged ss).flatMap write) ∧
      root.render indent =
        ((root.stretches indent).map fun ss => retargetAll names ((merged ss).flatMap write)) ∧
      (∀ ss, root.stretches indent = .ok ss →
        (root.render indent = .ok ((merged ss).flatMap write) ↔
          ∀ name ∈ names, ¬ Refers name ((merged ss).flatMap write))) ∧
      ((∀ name ∈ names, Plain name) → root.render indent =
        ((root.stretches indent).map fun ss =>
          (merged ss).flatMap fun s => retargetAll names s.write)) ∧
      ∀ ss t, root.stretches indent = .ok ss → .frame t ∈ merged ss →
        (retargetAll names t = t ↔ ∀ name ∈ names, ¬ Refers name t) := by
  have hlines : (root.lines.map fun ls => ls.flatMap (Line.write indent)) =
      ((root.stretches indent).map fun ss => (merged ss).flatMap write) := by
    rw [← write_stretches indent root]
    congr 1
    funext ss
    exact (write_merged ss).symm
  have hrender : root.render indent =
      ((root.stretches indent).map fun ss => retargetAll names ((merged ss).flatMap write)) := by
    rw [render_eq hnames, hlines]
    cases root.stretches indent <;> rfl
  refine ⟨hlines, hrender, fun ss hss => ?_, fun plain => ?_, fun ss t _ _ => retargetAll_eq_self_iff⟩
  · rw [hrender, hss, ← retargetAll_eq_self_iff]
    exact ⟨fun h => Except.ok.inj h, fun h => congrArg Except.ok h⟩
  · rw [hrender]
    cases hss : root.stretches indent with
    | error e => rfl
    | ok ss =>
      have hpieces := (Part.closed_stretchesAll hss).retargetAll_write plain
      rw [← write_merged] at hpieces
      exact congrArg Except.ok hpieces

/-- The types of a parameter and of a result that name an enum are retargeted; the frame before them
does not refer to it. -/
theorem render_of_function_with_enum :
    ∃ d ds front ss, Document.ofSource
        ⟨"/** @enum {string} */var S=\x7bX:1\x7d;/** @return {S} */function f()\x7b\x7d".toList, [],
          "js".toList, "utf-8".toList⟩ = .ok d ∧ Declarations.ofDocument d = .ok ds ∧
      ds.root.stretches [] = .ok ss ∧
      merged ss = [.frame front, .type "S".toList, .frame ";\n".toList] ∧
      ¬ Refers "S".toList front ∧
      ds.root.render [] = .ok (retargetAll ["S".toList] front ++
        (retargetAll ["S".toList] ": S".toList ++ (retargetAll ["S".toList] ";\n".toList ++ []))) := by
  generalize hs : (Source.mk
    "/** @enum {string} */var S=\x7bX:1\x7d;/** @return {S} */function f()\x7b\x7d".toList [] "js".toList
    "utf-8".toList) = s
  obtain ⟨front, hfront⟩ : ∃ front, front =
    "declare var S: \x7bX:1\x7d;\ndeclare type SValue = 1;\ndeclare function f()".toList := ⟨_, rfl⟩
  have read : (Document.ofSource s >>= fun d => (Declarations.ofDocument d).bind fun ds =>
      (ds.root.stretches []).bind fun ss =>
        (ds.root.enumNames.eraseDups.mapM requireName).map fun names =>
          (names, merged ss)).toOption =
      some (["S".toList], [.frame front, .type "S".toList, .frame ";\n".toList]) := by
    subst hs hfront
    decide +kernel
  obtain ⟨d, hd, h⟩ := bind_eq_ok.1 (eq_ok_of_toOption read)
  obtain ⟨ds, hds, h⟩ := bind_eq_ok.1 h
  obtain ⟨ss, hss, h⟩ := bind_eq_ok.1 h
  obtain ⟨names, hnames, h⟩ := map_eq_ok.1 h
  obtain ⟨rfl, hmerged⟩ := Prod.mk.inj h
  have plain : ∀ name ∈ ["S".toList], Plain name := by
    simp [Plain, closers]
  obtain ⟨-, -, -, hpieces, hframe⟩ := render_of_stretches [] ds.root hnames
  have hrender := hpieces plain
  have hmem : Stretch.frame front ∈ merged ss := by
    rw [hmerged]
    exact List.mem_cons_self
  have hverbatim : retargetAll ["S".toList] front = front := by
    subst hfront
    decide +kernel
  have hrefers := (hframe ss front hss hmem).1 hverbatim "S".toList List.mem_cons_self
  rw [hss] at hrender
  refine ⟨d, ds, front, ss, hd, hds, hss, hmerged, hrefers, hrender.trans ?_⟩
  rw [Except.map, hmerged]
  rfl

-- An enum under the string `a, b` is found across two parameters, neither of which refers to it.
example : retargetAll ["a, b".toList] "(x: a, b: c)".toList = "(x: a, bValue: c)".toList ∧
    retargetAll ["a, b".toList] ": a".toList = ": a".toList ∧
    retargetAll ["a, b".toList] ", b".toList = ", b".toList := by
  decide +kernel

/-- A string of an enum that looks like a reference to the enum is changed as well. -/
theorem frame_with_reference_in_string :
    ∃ d ds, Document.ofSource
        ⟨"/** @enum {string} */ var S = \x7bX: \"a: S\"\x7d;".toList, [], "js".toList,
          "utf-8".toList⟩ = .ok d ∧ Declarations.ofDocument d = .ok ds ∧
      (ds.root.stretches []).map merged = .ok [.frame
        "declare var S: \x7bX: \"a: S\"\x7d;\ndeclare type SValue = \"a: S\";\n".toList] ∧
      ds.root.render [] = .ok
        "declare var S: \x7bX: \"a: SValue\"\x7d;\ndeclare type SValue = \"a: SValue\";\n".toList := by
  generalize hs : (Source.mk "/** @enum {string} */ var S = \x7bX: \"a: S\"\x7d;".toList [] "js".toList
    "utf-8".toList) = s
  have read : (Document.ofSource s >>= fun d => (Declarations.ofDocument d).bind fun ds =>
      (ds.root.stretches []).bind fun ss => (ds.root.render []).map fun t =>
        (merged ss, t)).toOption = some ([.frame
          "declare var S: \x7bX: \"a: S\"\x7d;\ndeclare type SValue = \"a: S\";\n".toList],
          "declare var S: \x7bX: \"a: SValue\"\x7d;\ndeclare type SValue = \"a: SValue\";\n".toList) := by
    subst hs
    decide +kernel
  obtain ⟨d, hd, h⟩ := bind_eq_ok.1 (eq_ok_of_toOption read)
  obtain ⟨ds, hds, h⟩ := bind_eq_ok.1 h
  obtain ⟨ss, hss, h⟩ := bind_eq_ok.1 h
  obtain ⟨t, ht, h⟩ := map_eq_ok.1 h
  obtain ⟨hmerged, rfl⟩ := Prod.mk.inj h
  refine ⟨d, ds, hd, hds, ?_, ht⟩
  rw [hss]
  exact congrArg Except.ok hmerged

end DeclarationTree

end DocFlow
