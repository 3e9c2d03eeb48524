import DocFlow.Conversion
import DocFlow.Proofs.Documented.Annotation
import DocFlow.Proofs.Documented.Located
import DocFlow.Proofs.Inline.Rewriting

namespace DocFlow

/-- A comment around a type that is not empty and fits into it. One blank may follow. -/
def IsTypeComment (t : Text) : Prop :=
  ∃ type : Text, type ≠ [] ∧ type.FitsComment ∧
    (t = Annotations.typeComment type ∨ t = Annotations.typeComment type ++ [' '])

def ClosesAtEnd (t : Text) : Prop :=
  ∀ before after, t = before ++ "*/".toList ++ after → after = [] ∨ after = [' ']

namespace Text.FitsComment

/-- No end of a comment begins in its opening, nor in a text that fits into it. -/
theorem not_closed {type : Text} (fits : type.FitsComment) {before after more rest : Text}
    (h : "/* : ".toList ++ type = before ++ '*' :: more) : '/' :: after ≠ more ++ '*' :: rest := by
  have inside : ∀ c ∈ ' ' :: ':' :: ' ' :: type, c ≠ '*' := by
    intro c hc
    exact ((((fits.cons (by decide)).cons (by decide)).cons (by decide)) c hc).1
  intro closed
  -- The star is the slash of the opening, its star, or a character behind it.
  rcases before with _ | ⟨slash, _ | ⟨star, before⟩⟩
  · have hslash : '/' = '*' := (List.cons.inj h).1
    exact absurd hslash (by decide)
  · have hmore : ' ' :: ':' :: ' ' :: type = more := (List.cons.inj (List.cons.inj h).2).2
    subst hmore
    have hslash : '/' = ' ' := (List.cons.inj closed).1
    exact absurd hslash (by decide)
  · have htype : ' ' :: ':' :: ' ' :: type = before ++ '*' :: more :=
      (List.cons.inj (List.cons.inj h).2).2
    apply inside '*' _ rfl
    rw [htype]
    exact List.mem_append_right _ List.mem_cons_self

theorem closesAtEnd {type tail : Text} (fits : type.FitsComment) (htail : tail = [] ∨ tail = [' ']) :
    ClosesAtEnd (Annotations.typeComment type ++ tail) := by
  intro before after h
  have hsplit : ("/* : ".toList ++ type) ++ '*' :: '/' :: tail = before ++ '*' :: '/' :: after := by
    simpa [Annotations.typeComment] using h
  have unstarred : '*' ∉ '/' :: tail := by rcases htail with rfl | rfl <;> decide
  rcases List.append_eq_append_iff.1 hsplit with ⟨more, -, hend⟩ | ⟨more, hopen, hend⟩
  · rcases more with _ | ⟨c, more⟩
    · have hafter : tail = after := (List.cons.inj (List.cons.inj hend).2).2
      rwa [← hafter]
    · have hrest : '/' :: tail = more ++ '*' :: '/' :: after := (List.cons.inj hend).2
      rw [hrest] at unstarred
      exact absurd (List.mem_append_right _ List.mem_cons_self) unstarred
  · rcases more with _ | ⟨c, more⟩
    · have hafter : after = tail := (List.cons.inj (List.cons.inj hend).2).2
      rwa [hafter]
    · obtain ⟨rfl, hclose⟩ := List.cons.inj hend
      exact absurd hclose (fits.not_closed hopen)

end Text.FitsComment

namespace DocumentedFunction

/-- Behind the anchor of a parameter, or before the body. -/
def IsSite (source : Text) (f : DocumentedFunction) (place : Nat) : Prop :=
  (∃ p ∈ f.parameters source, place = p.anchor.stop) ∨
    ∃ body, f.body? = some body ∧ place = body.start

end DocumentedFunction

namespace Annotations

def IsAnnotation (source : Text) (f : DocumentedFunction) (e : Insertion) : Prop :=
  IsTypeComment e.text ∧ ClosesAtEnd e.text ∧ f.IsSite source e.place

variable {source : Text} {f : DocumentedFunction}

theorem isAnnotation_of_mem_ofParams (fits : ∀ t ∈ f.tags, t.FlowFits) {e : Insertion}
    (he : e ∈ ofParams source f) : IsAnnotation source f e := by
  obtain ⟨p, hp, he⟩ := List.mem_filterMap.1 he
  obtain ⟨type, htype, rfl⟩ := Option.map_eq_some_iff.1 he
  obtain ⟨hname, -⟩ := Option.filter_eq_some_iff.1 htype
  obtain ⟨name, -, htype⟩ := Option.bind_eq_some_iff.1 hname
  obtain ⟨nonempty, hfits⟩ := Tag.typeFor_fits fits htype
  refine ⟨⟨type, nonempty, hfits, .inl rfl⟩, ?_, .inl ⟨p, hp, rfl⟩⟩
  have closes := hfits.closesAtEnd (.inl rfl)
  rwa [List.append_nil] at closes

theorem isAnnotation_of_mem_ofResult (fits : ∀ t ∈ f.tags, t.FlowFits) {e : Insertion}
    (he : e ∈ ofResult f) : IsAnnotation source f e := by
  unfold ofResult at he
  split at he
  · next type body htype hbody =>
    obtain rfl := List.mem_singleton.1 he
    obtain ⟨nonempty, hfits⟩ := Tag.resultType_fits fits htype
    exact ⟨⟨type, nonempty, hfits, .inr rfl⟩, hfits.closesAtEnd (.inr rfl), .inr ⟨body, hbody, rfl⟩⟩
  · cases he

/-- All insertions into a document are type comments at places of its functions. -/
theorem isAnnotation_of_mem {d : Document} {fs : List DocumentedFunction}
    (h : d.functions = .ok fs) {e : Insertion}
    (he : e ∈ fs.flatMap (ofFunction d.source.content)) :
    ∃ f ∈ fs, IsAnnotation d.source.content f e := by
  obtain ⟨f, hf, he⟩ := List.mem_flatMap.1 he
  obtain ⟨p, -, hfind⟩ := Document.exists_place_of_functions h hf
  have fits := Documented.flowFits_of_findFunction hfind
  rcases List.mem_append.1 he with he | he
  · exact ⟨f, hf, isAnnotation_of_mem_ofParams fits he⟩
  · exact ⟨f, hf, isAnnotation_of_mem_ofResult fits he⟩

end Annotations

/-- A text is the source of a document with type comments put in, each where a parameter of a
documented function ends or its body begins. -/
def Document.InsertsTypeComments (d : Document) (out : Text) : Prop :=
  ∃ fs ps, d.functions = .ok fs ∧ Piece.write ps = out ∧ Piece.source ps = d.source.content ∧
    ∀ before e after, ps = before ++ .inserted e :: after →
      Piece.source before = d.source.content.take e.place ∧
        ∃ f ∈ fs, Annotations.IsAnnotation d.source.content f e

/-- Whatever its tree is, annotation of a document inserts type comments only. -/
theorem Document.insertsTypeComments_of_annotate {d : Document} {out : Text}
    (h : d.annotate = .ok out) : d.InsertsTypeComments out := by
  obtain ⟨a, ha, hinsert⟩ := bind_eq_ok.1 h
  obtain ⟨fs, hfs, rfl⟩ := Annotations.ofDocument_eq_ok_iff.1 ha
  obtain ⟨ps, hwrite, hsource, hperm, hplace⟩ := Document.exists_pieces hinsert
  refine ⟨fs, ps, hfs, hwrite, hsource, ?_⟩
  intro before e after hps
  have hmem : e ∈ ps.filterMap Piece.insertion? := by
    rw [hps]
    simp [Piece.insertion?]
  exact ⟨hplace before e after hps, Annotations.isAnnotation_of_mem hfs (hperm.mem_iff.1 hmem)⟩

theorem Document.source_of_ofSource {s : Source} {parser : TreeParser} {d : Document}
    (h : ofSource s parser = .ok d) : d.source = s := by
  unfold ofSource at h
  split at h
  · cases h
  · split at h
    · cases h
    · split at h
      · cases h
      · cases h
        rfl

def Input.content : Input → Text
  | text content => content
  | source s => s.content

namespace Conversion

theorem content_of_parse {settings : SettingsResult} {language : Option Text} {input : Input}
    {parser : TreeParser} {d : Document} (h : parse settings language input parser = .ok d) :
    d.source.content = input.content := by
  cases input with
  | source s => exact congrArg Source.content (Document.source_of_ofSource h)
  | text content =>
    obtain ⟨l, -, h⟩ := bind_eq_ok.1 h
    exact congrArg Source.content (Document.source_of_ofSource h)

/-- Annotation keeps the source and inserts type comments only, of a document with any tree as of a
source that any parser reads. -/
theorem annotate_inserts_type_comments :
    (∀ (d : Document) (out : Text), d.annotate = .ok out → d.InsertsTypeComments out) ∧
    ∀ (parser : TreeParser) (settings : SettingsResult) (language : Option Text) (input : Input)
        (out : Text),
      annotate settings language input parser = .ok out →
        ∃ d, parse settings language input parser = .ok d ∧ d.source.content = input.content ∧
          d.InsertsTypeComments out := by
  refine ⟨fun _ _ => Document.insertsTypeComments_of_annotate, ?_⟩
  intro parser settings language input out h
  obtain ⟨d, hd, hannotate⟩ := bind_eq_ok.1 h
  exact ⟨d, hd, content_of_parse hd, Document.insertsTypeComments_of_annotate hannotate⟩

/-- The type of a parameter is inserted behind it. -/
theorem annotate_inserts_behind_parameter :
    annotate (.error []) (some "js".toList)
        (.text "/** @param {a} b */function f(b){}".toList) =
      .ok "/** @param {a} b */function f(b/* : a*/){}".toList ∧
    ∃ d, parse (.error []) (some "js".toList)
        (.text "/** @param {a} b */function f(b){}".toList) = .ok d ∧
      d.source.content = "/** @param {a} b */function f(b){}".toList ∧
      d.annotate = .ok "/** @param {a} b */function f(b/* : a*/){}".toList ∧
      d.InsertsTypeComments "/** @param {a} b */function f(b/* : a*/){}".toList := by
  have written : (annotate (.error []) (some "js".toList)
      (.text "/** @param {a} b */function f(b){}".toList)).toOption =
        some "/** @param {a} b */function f(b/* : a*/){}".toList := by
    decide +kernel
  have run := eq_ok_of_toOption written
  obtain ⟨d, hd, hcontent, -⟩ := annotate_inserts_type_comments.2 _ _ _ _ _ run
  obtain ⟨d', hd', hannotate⟩ := bind_eq_ok.1 run
  obtain rfl := Except.ok.inj (hd'.symm.trans hd)
  exact ⟨run, d', hd, hcontent, hannotate, annotate_inserts_type_comments.1 _ _ hannotate⟩

end Conversion

end DocFlow
