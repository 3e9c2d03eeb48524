import DocFlow.Proofs.Declaration.Leaf
import DocFlow.Proofs.Documented.Annotation
import DocFlow.Proofs.Script.Path

namespace DocFlow

open Script

namespace Text

variable {sep : Char}

theorem splitAt_append (t u : Text) :
    splitAt sep (t ++ sep :: u) = splitAt sep t ++ splitAt sep u := by
  induction t with
  | nil =>
    show splitAt sep (sep :: u) = [] :: splitAt sep u
    rw [splitAt, if_pos rfl]
  | cons c t ih =>
    rw [List.cons_append, splitAt, splitAt, ih]
    by_cases hc : c = sep
    · rw [if_pos hc, if_pos hc, List.cons_append]
    · rw [if_neg hc, if_neg hc]
      cases h : splitAt sep t with
      | nil => exact absurd h (splitAt_ne_nil sep t)
      | cons l ls => rfl

/-- A text is one segment iff there is no separator in it. -/
theorem splitAt_eq_singleton {t u : Text} : splitAt sep t = [u] ↔ t = u ∧ sep ∉ u := by
  induction t generalizing u with
  | nil =>
    rw [splitAt, List.cons.injEq]
    constructor
    · rintro ⟨rfl, -⟩
      exact ⟨rfl, List.not_mem_nil⟩
    · rintro ⟨rfl, -⟩
      exact ⟨rfl, rfl⟩
  | cons c t ih =>
    rw [splitAt]
    by_cases hc : c = sep
    · rw [if_pos hc]
      constructor
      · intro h
        exact absurd (List.cons.inj h).2 (splitAt_ne_nil sep t)
      · rintro ⟨rfl, hnone⟩
        exact absurd (hc ▸ List.mem_cons_self) hnone
    · rw [if_neg hc]
      cases h : splitAt sep t with
      | nil => exact absurd h (splitAt_ne_nil sep t)
      | cons l ls =>
        rw [h] at ih
        constructor
        · intro heq
          obtain ⟨rfl, rfl⟩ := List.cons.inj heq
          obtain ⟨rfl, hnone⟩ := ih.1 rfl
          exact ⟨rfl, List.not_mem_cons_of_ne_of_not_mem (Ne.symm hc) hnone⟩
        · rintro ⟨rfl, hnone⟩
          have hrest := (ih (u := t)).2 ⟨rfl, fun hmem => hnone (List.mem_cons_of_mem c hmem)⟩
          obtain ⟨rfl, rfl⟩ := List.cons.inj hrest
          rfl

end Text

namespace Name

def isStaticKey (key : Node) : Bool :=
  isIdentifier key || key.isType .number || key.isType .string

/-- What is taken of a key: the fragments of a string, or the text. -/
def keyText (source : Text) (key : Node) : Text :=
  if key.isType .string then fragments source key else key.text source

/-- A property with a key that holds a function: a pair with a function expression, or a method. The
second place is that of the function. -/
inductive FunctionProperty (key : Node) : Place → Place → Prop where
  | pair {p v : Place} (hp : p.node.isType .pair) (hkey : p.node.child? .key = some key)
    (hvalue : p.child? .value = some v)
    (hfunction : v.node.isType .functionExpression ∨ v.node.isType .generatorFunction) :
    FunctionProperty key p v
  | method {p : Place} (hp : p.node.isType .methodDefinition)
    (hkey : p.node.child? .name = some key) : FunctionProperty key p p

def GivesSegment (source : Text) (key : Node) (p : Place) : Prop :=
  keyText source key ≠ [] ∧ (p.node.isType .methodDefinition → isIdentifier key)

variable {source : Text} {key o : Node} {p v : Place} {above : List Node} {owner : Text}

theorem ofSegments_pair (howner : owner ≠ []) {t : Text} (ht : t ≠ []) :
    ofSegments [some owner, some t] = some (owner ++ '.' :: t) := by
  simp [ofSegments, howner, ht, Text.join, Option.filter_some]

theorem keyText_of_isIdentifier (source : Text) (h : isIdentifier key = true) :
    keyText source key = key.text source := by
  have hstring : key.isType .string = false := by
    apply Bool.eq_false_iff.2
    intro hstring
    rw [isIdentifier, of_decide_eq_true hstring] at h
    contradiction
  rw [keyText, hstring, if_neg Bool.false_ne_true]

/-- The segment of a pair is the text of its key. -/
theorem keySegment_eq {n : Node} (hkey : n.child? .key = some key)
    (static : isStaticKey key = true) : keySegment source n = some (keyText source key) := by
  rw [keySegment, hkey, Option.bind_some]
  by_cases hstring : key.isType .string = true
  · have hother : ¬ (isIdentifier key = true ∨ key.isType .number = true) := by
      rw [Node.isType, isIdentifier, of_decide_eq_true hstring]
      decide
    rw [if_neg hother, if_pos hstring, keyText, if_pos hstring]
  · have hother : isIdentifier key = true ∨ key.isType .number = true := by
      rw [isStaticKey, Bool.or_eq_true, Bool.or_eq_true] at static
      exact static.resolve_right hstring
    rw [if_pos hother, keyText, if_neg hstring]

/-- A function expression has the name of what it stands in. -/
theorem ofNode_functionExpression {n a : Node} {rest : List Node}
    (h : n.isType .functionExpression ∨ n.isType .generatorFunction) :
    ofNode source n (a :: rest) = ofNode source a rest := by
  rw [ofNode.eq_def]
  rcases h with hkind | hkind
  · simp only [of_decide_eq_true hkind, isIdentifier]
    rfl
  · simp only [of_decide_eq_true hkind, isIdentifier]
    rfl

theorem ofNode_pairInObject {n : Node} (hn : n.isType .pair) (hkey : n.child? .key = some key)
    (static : isStaticKey key = true) (howner : ofNode source o above = some owner)
    (hne : owner ≠ []) :
    ofNode source n (o :: above) =
      if keyText source key = [] then none else some (owner ++ '.' :: keyText source key) := by
  rw [ofNode.eq_def]
  simp only [of_decide_eq_true hn, keySegment_eq hkey static]
  by_cases htext : keyText source key = []
  · rw [if_pos htext, htext]
    rfl
  · rw [if_neg htext, Option.filter_some, if_pos (by simpa using htext)]
    simp only [howner]
    exact ofSegments_pair hne htext

theorem ofNode_methodInObject {n : Node} (hn : n.isType .methodDefinition)
    (hkey : n.child? .name = some key) (hobject : o.isType .object)
    (howner : ofNode source o above = some owner) (hne : owner ≠ [])
    (written : key.text source ≠ []) :
    ofNode source n (o :: above) =
      if isIdentifier key then some (owner ++ '.' :: key.text source) else none := by
  have hmethod : ofNode source n (o :: above) =
      (declaredName source n).bind fun name => ofSegments [some owner, some name] := by
    rw [ofNode.eq_def]
    cases above with
    | nil =>
      simp only [of_decide_eq_true hn, ofMethod, howner, hobject, if_true]
      cases declaredName source n <;> rfl
    | cons g rest =>
      simp only [of_decide_eq_true hn, ofMethod, howner, hobject, if_true]
      cases declaredName source n <;> rfl
  rw [hmethod, declaredName, hkey, Option.filter_some]
  by_cases hidentifier : isIdentifier key = true
  · rw [if_pos hidentifier, if_pos hidentifier]
    exact ofSegments_pair hne written
  · rw [if_neg hidentifier, if_neg hidentifier]
    rfl

/-- The name of a function in an object: its key behind the name of the object, if the key gives a
segment, and else none. -/
theorem ofNode_functionProperty (h : FunctionProperty key p v) (static : isStaticKey key = true)
    (written : key.text source ≠ []) (habove : p.above = o :: above) (hobject : o.isType .object)
    (howner : ofNode source o above = some owner) (hne : owner ≠ []) :
    (GivesSegment source key p →
      ofNode source v.node v.above = some (owner ++ '.' :: keyText source key)) ∧
    (¬ GivesSegment source key p → ofNode source v.node v.above = none) := by
  cases h with
  | pair hp hkey hvalue hfunction =>
    have hplain : ¬ p.node.isType .methodDefinition := by
      rw [Node.isType, of_decide_eq_true hp]
      decide
    have hname := ofNode_pairInObject hp hkey static howner hne
    rw [Place.above_of_mem_children (Place.mem_children_of_child? hvalue), habove,
      ofNode_functionExpression hfunction, hname]
    constructor
    · intro hgives
      rw [if_neg hgives.1]
    · intro hgives
      by_cases htext : keyText source key = []
      · rw [if_pos htext]
      · exact absurd ⟨htext, fun hmethod => absurd hmethod hplain⟩ hgives
  | method hp hkey =>
    rw [habove, ofNode_methodInObject hp hkey hobject howner hne written]
    constructor
    · intro hgives
      rw [if_pos (hgives.2 hp), keyText_of_isIdentifier source (hgives.2 hp)]
    · intro hgives
      by_cases hidentifier : isIdentifier key = true
      · apply absurd _ hgives
        refine ⟨?_, fun _ => hidentifier⟩
        rwa [keyText_of_isIdentifier source hidentifier]
      · rw [if_neg hidentifier]

end Name

namespace Declarations

/-- The place of the function that is documented before a property. -/
theorem place_of_functionProperty {source : Text} {key : Node} {p v : Place}
    {f : DocumentedFunction} (h : Name.FunctionProperty key p v)
    (hf : Documented.findFunction source p = .ok (some f)) :
    f.place = v := by
  have hplace := (Documented.exists_comment_of_findFunction hf).1
  cases h with
  | pair hp hkey hvalue hfunction =>
    simp only [Documented.functionPlace?, of_decide_eq_true hp, hvalue] at hplace
    exact (Option.some.inj (Option.filter_eq_some_iff.1 hplace).1).symm
  | method hp hkey =>
    simp only [Documented.functionPlace?, of_decide_eq_true hp] at hplace
    exact (Option.some.inj (Option.filter_eq_some_iff.1 hplace).1).symm

/-- The segments of a name that is known. -/
theorem segmentsOf_eq_ok_iff {d : Document} {p : Place} {name : Text} {segments : List Text}
    (h : d.nameOf p = .ok name) :
    segmentsOf d p = .ok segments ↔ Text.splitAt '.' name = segments ∧ reserved ∉ segments := by
  rw [segmentsOf, h]
  show (if (Text.splitAt '.' name).contains reserved then _ else _) = _ ↔ _
  by_cases hreserved : (Text.splitAt '.' name).contains reserved = true
  · rw [if_pos hreserved]
    constructor
    · exact nofun
    · rintro ⟨rfl, hfree⟩
      exact absurd (by simpa using hreserved) hfree
  · rw [if_neg hreserved]
    constructor
    · intro heq
      cases heq
      exact ⟨rfl, by simpa using hreserved⟩
    · rintro ⟨rfl, -⟩
      rfl

/-- What is assigned is kept but for its form. -/
theorem assign_some (declared : Declaration) (old : Option Declaration) :
    ∃ form, DeclarationTree.assign (some declared) old = some { declared with form } := by
  rw [DeclarationTree.assign, Declaration.toClass]
  by_cases hclass : old.any (·.form = .classLike) = true
  · rw [if_pos hclass]
    by_cases hcallable : declared.form.isCallable = true
    · rw [if_pos hcallable]
      exact ⟨.classLike, rfl⟩
    · rw [if_neg hcallable]
      exact ⟨declared.form, rfl⟩
  · rw [if_neg hclass]
    exact ⟨declared.form, rfl⟩

/-- A function whose name ends in a node leaves its parameters and its result there, whatever is
declared already. -/
theorem declaredAt_withFunction {d : Document} {f : DocumentedFunction} {segments : List Text}
    (hsegments : segmentsOf d f.place = .ok segments) (ends : Name.endsInNode segments = true)
    (ds : Declarations) :
    ∃ ds' form, withFunction d ds f = .ok ds' ∧
      ds'.root.declaredAt (Name.nodePath segments) = some
        { form, name := segments.getLast?, params := formalsOf d.source.content f,
          resultType := f.resultType } := by
  have hleaf := leaf?_functionEntry (d := d) (f := f) (ne_nil_of_segmentsOf hsegments)
  rw [if_pos ends] at hleaf
  have hassigns : (functionEntry d f segments).Assigns (Name.nodePath segments) :=
    ⟨Option.isSome_of_eq_some hleaf, rfl⟩
  refine ⟨{ ds with root := (functionEntry d f segments).insert ds.root,
                    functions := ds.functions + 1 }, ?_⟩
  have hdeclared := Entry.declaredAt_insert (e := functionEntry d f segments)
    (p := Name.nodePath segments) (t := ds.root)
  rw [Entry.leafAt_of_assigns hassigns, hleaf] at hdeclared
  obtain ⟨form, hform⟩ := assign_some _ _
  refine ⟨form, ?_, hdeclared.trans hform⟩
  rw [withFunction, hsegments]
  rfl

theorem declaredAt_withFunction_concat {d : Document} {f : DocumentedFunction}
    {segments : List Text} {segment : Text} (hprototype : segment ≠ Name.prototype)
    (hsegments : segmentsOf d f.place = .ok (segments ++ [segment])) (ds : Declarations) :
    ∃ ds' form, withFunction d ds f = .ok ds' ∧
      ds'.root.declaredAt (Name.nodePath segments ++ [segment]) = some
        { form, name := some segment, params := formalsOf d.source.content f,
          resultType := f.resultType } := by
  have ends : Name.endsInNode (segments ++ [segment]) = true := by
    rw [Name.endsInNode, List.getLast?_concat]
    simpa using hprototype
  have hpath : Name.nodePath (segments ++ [segment]) = Name.nodePath segments ++ [segment] := by
    rw [Name.nodePath, List.filter_append, List.filter_cons_of_pos (by simpa using hprototype),
      List.filter_nil]
    rfl
  obtain ⟨ds', form, hwith, hdeclared⟩ := declaredAt_withFunction hsegments ends ds
  rw [List.getLast?_concat, hpath] at hdeclared
  exact ⟨ds', form, hwith, hdeclared⟩

/-- A documented function in an object that has a name, under a key that is not computed, has a name
unless the key of a pair has no text or that of a method is no identifier. The text of the key is
put behind the name of the object with a point. The key is one segment behind those of the object
iff its text is that segment and there is no point in it, and then the function is placed there. -/
theorem function_of_property {d : Document} {key o : Node} {p v : Place} {above : List Node}
    {owner : Text} {f : DocumentedFunction} (h : Name.FunctionProperty key p v)
    (static : Name.isStaticKey key = true) (written : key.text d.source.content ≠ [])
    (habove : p.above = o :: above) (hobject : o.isType .object)
    (howner : Name.ofNode d.source.content o above = some owner) (hne : owner ≠ [])
    (free : reserved ∉ Text.splitAt '.' owner)
    (hf : Documented.findFunction d.source.content p = .ok (some f)) :
    let text := Name.keyText d.source.content key
    let gives := Name.GivesSegment d.source.content key p
    (gives → d.nameOf f.place = .ok (owner ++ '.' :: text)) ∧
    (¬ gives → d.nameOf f.place = .error (.unresolvableName f.place.node.kind.name
      (d.lineOf f.place.node.start) d.source.filePath)) ∧
    ∀ segment, segment ≠ Name.prototype → segment ≠ reserved →
      (segmentsOf d f.place = .ok (Text.splitAt '.' owner ++ [segment]) ↔
        gives ∧ text = segment ∧ '.' ∉ segment) ∧
      (segmentsOf d f.place = .ok (Text.splitAt '.' owner ++ [segment]) →
        ∀ ds, ∃ ds' form, withFunction d ds f = .ok ds' ∧
          ds'.root.declaredAt (Name.nodePath (Text.splitAt '.' owner) ++ [segment]) = some
            { form, name := some segment, params := formalsOf d.source.content f,
              resultType := f.resultType }) := by
  intro text gives
  obtain ⟨hname, hnone⟩ := Name.ofNode_functionProperty h static written habove hobject howner hne
  rw [← place_of_functionProperty h hf] at hname hnone
  have hnamed : gives → d.nameOf f.place = .ok (owner ++ '.' :: text) := by
    intro hgives
    rw [Document.nameOf, hname hgives]
    cases owner with
    | nil => contradiction
    | cons c owner => rfl
  have hunnamed : ¬ gives → d.nameOf f.place = .error (.unresolvableName f.place.node.kind.name
      (d.lineOf f.place.node.start) d.source.filePath) := by
    intro hgives
    rw [Document.nameOf, hnone hgives]
  refine ⟨hnamed, hunnamed, ?_⟩
  intro segment hprototype hreserved
  constructor
  · by_cases hgives : gives
    · rw [segmentsOf_eq_ok_iff (hnamed hgives), Text.splitAt_append, List.append_cancel_left_eq,
        Text.splitAt_eq_singleton]
      have hfree : reserved ∉ Text.splitAt '.' owner ++ [segment] := by
        rw [List.mem_append, List.mem_singleton, not_or]
        exact ⟨free, Ne.symm hreserved⟩
      simp only [hgives, hfree, not_false_eq_true, and_true, true_and, text]
    · have hfail : segmentsOf d f.place ≠ .ok (Text.splitAt '.' owner ++ [segment]) := by
        rw [segmentsOf, hunnamed hgives]
        exact nofun
      simp only [hfail, hgives, false_and]
  · intro hsegments ds
    exact declaredAt_withFunction_concat hprototype hsegments ds

/-- A method under an identifier is placed behind its object. -/
theorem function_of_method_in_object :
    ∃ d p f, Document.ofSource ⟨"var o=\x7b/** @return \x7ba\x7d */f()\x7b\x7d\x7d;".toList, [],
        "js".toList, "utf-8".toList⟩ = .ok d ∧
      Documented.findFunction d.source.content p = .ok (some f) ∧
      d.nameOf f.place = .ok "o.f".toList ∧ ∀ ds, ∃ ds' form, withFunction d ds f = .ok ds' ∧
        ds'.root.declaredAt ["o".toList, "f".toList] = some
          { form, name := some "f".toList, params := [], resultType := some "a".toList } := by
  generalize hs : (Source.mk "var o=\x7b/** @return \x7ba\x7d */f()\x7b\x7d\x7d;".toList []
    "js".toList "utf-8".toList) = s
  have read : ((Document.ofSource s).toOption.bind fun d =>
      ((Place.root d.root).descend? [0, 1, 2, 2]).bind fun p =>
      (p.node.child? .name).bind fun key => p.above.head?.bind fun o =>
      (Name.ofNode d.source.content o p.above.tail).bind fun owner =>
      (Documented.findFunction d.source.content p).toOption.bind fun f? => f?.map fun f =>
        (p.node.isType .methodDefinition && Name.isIdentifier key && o.isType .object,
          [key.text d.source.content, owner], (formalsOf d.source.content f).length,
          f.resultType)) = some (true, ["f".toList, "o".toList], 0, some "a".toList) := by
    subst hs
    decide +kernel
  obtain ⟨d, hd, h⟩ := Option.bind_eq_some_iff.1 read
  obtain ⟨p, -, h⟩ := Option.bind_eq_some_iff.1 h
  obtain ⟨key, hkey, h⟩ := Option.bind_eq_some_iff.1 h
  obtain ⟨o, ho, h⟩ := Option.bind_eq_some_iff.1 h
  obtain ⟨owner, howner, h⟩ := Option.bind_eq_some_iff.1 h
  obtain ⟨f?, hf, h⟩ := Option.bind_eq_some_iff.1 h
  obtain ⟨f, hfunction, h⟩ := Option.map_eq_some_iff.1 h
  rw [hfunction] at hf
  obtain ⟨⟨⟨hmethod, hidentifier⟩, hobject⟩, ⟨htext, rfl⟩, hparams, hresult⟩ :
      ((_ ∧ _) ∧ _) ∧ (_ ∧ _) ∧ _ ∧ _ := by
    simpa only [Prod.mk.injEq, Bool.and_eq_true, List.cons.injEq, and_true] using h
  have hstatic : Name.isStaticKey key = true := by
    rw [Name.isStaticKey, hidentifier]
    rfl
  have hkeyText := Name.keyText_of_isIdentifier d.source.content hidentifier
  rw [htext] at hkeyText
  have habove : p.above = o :: p.above.tail := List.eq_cons_of_mem_head? ho
  have hfound := eq_ok_of_toOption hf
  have written : key.text d.source.content ≠ [] := by
    rw [htext]
    exact List.cons_ne_nil _ _
  obtain ⟨hnamed, -, hsegments⟩ := function_of_property (.method hmethod hkey) hstatic written
    habove hobject howner (List.cons_ne_nil _ _) (by decide) hfound
  have hgives : Name.GivesSegment d.source.content key p := by
    refine ⟨?_, fun _ => hidentifier⟩
    rw [hkeyText]
    exact List.cons_ne_nil _ _
  obtain ⟨hiff, hplaced⟩ := hsegments "f".toList (by decide) (by decide)
  have hname := hnamed hgives
  rw [hkeyText] at hname
  rw [List.eq_nil_of_length_eq_zero hparams, hresult] at hplaced
  exact ⟨d, p, f, eq_ok_of_toOption hd, hfound, hname,
    hplaced (hiff.2 ⟨hgives, hkeyText, by decide⟩)⟩

/-- A method under a string has no name, but a pair with the same string and the same function is
placed behind the object. -/
theorem unnamed_method_under_string :
    (∃ d f, Document.ofSource ⟨"var o=\x7b/** @return \x7ba\x7d */'f'()\x7b\x7d\x7d;".toList, [],
        "js".toList, "utf-8".toList⟩ = .ok d ∧ d.functions = .ok [f] ∧
      d.nameOf f.place = .error (.unresolvableName "method_definition" 1 []) ∧
      (ofDocument d).toOption.isNone) ∧
    ∃ d ds, Document.ofSource
        ⟨"var o=\x7b/** @return \x7ba\x7d */'f':function()\x7b\x7d\x7d;".toList, [], "js".toList,
          "utf-8".toList⟩ = .ok d ∧ ofDocument d = .ok ds ∧
      ds.root.declaredAt ["o".toList, "f".toList] = some
        { form := .function, name := some "f".toList, params := [],
          resultType := some "a".toList } := by
  constructor
  · generalize hs : (Source.mk "var o=\x7b/** @return \x7ba\x7d */'f'()\x7b\x7d\x7d;".toList []
      "js".toList "utf-8".toList) = s
    have read : (Document.ofSource s >>= fun d => d.functions.map fun fs =>
        (fs.map fun f => (Name.ofNode d.source.content f.place.node f.place.above,
            d.lineOf f.place.node.start), fs.map fun f => f.place.node.kind.name,
          d.source.filePath, (ofDocument d).toOption.isNone)).toOption =
        some ([(none, 1)], ["method_definition"], [], true) := by
      subst hs
      decide +kernel
    obtain ⟨d, hd, h⟩ := bind_eq_ok.1 (eq_ok_of_toOption read)
    obtain ⟨fs, hfs, h⟩ := map_eq_ok.1 h
    obtain ⟨hnames, hkinds, hpath, hfail⟩ : _ ∧ _ ∧ _ ∧ _ := by
      simpa only [Prod.mk.injEq] using h
    obtain ⟨f, rfl, hname⟩ := List.map_eq_singleton_iff.1 hnames
    obtain ⟨hnone, hline⟩ := Prod.mk.inj hname
    have hkind : f.place.node.kind.name = "method_definition" := List.singleton_inj.1 hkinds
    refine ⟨d, f, hd, hfs, ?_, hfail⟩
    rw [Document.nameOf, hnone, hkind, hline, hpath]
  · generalize hs : (Source.mk
      "var o=\x7b/** @return \x7ba\x7d */'f':function()\x7b\x7d\x7d;".toList [] "js".toList
      "utf-8".toList) = s
    have read : ((Document.ofSource s) >>= fun d => (ofDocument d).map fun ds =>
        ds.root.declaredAt ["o".toList, "f".toList]).toOption = some
        (some { form := .function, name := some "f".toList, params := [],
                resultType := some "a".toList }) := by
      subst hs
      decide +kernel
    obtain ⟨d, hd, h⟩ := bind_eq_ok.1 (eq_ok_of_toOption read)
    obtain ⟨ds, hds, h⟩ := map_eq_ok.1 h
    exact ⟨d, ds, hd, hds, h⟩

end Declarations
end DocFlow
