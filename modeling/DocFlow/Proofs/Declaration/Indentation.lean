import DocFlow.Proofs.Declaration.Frame
import DocFlow.Proofs.Declaration.Nesting
import DocFlow.Proofs.Declaration.PropertyKey
import DocFlow.Proofs.Declaration.Qualifier
import DocFlow.Proofs.Literal.Printable

namespace DocFlow

open Reference

theorem Text.notMem_join {sep : Text} {ts : List Text} {c : Char} (hsep : c ∉ sep)
    (h : ∀ t ∈ ts, c ∉ t) : c ∉ join sep ts := by
  fun_induction join sep ts with
  | case1 => exact List.not_mem_nil
  | case2 t => exact h t List.mem_cons_self
  | case3 t u rest ih =>
    rw [List.forall_mem_cons] at h
    rw [List.mem_append, List.mem_append, not_or, not_or]
    exact ⟨⟨h.1, hsep⟩, ih h.2⟩

/-- Lines that there are under a condition only, and that are a layout. -/
structure LaidOutIff (x : Except Error (List Line)) (p : Prop) : Prop where
  exists_iff : (∃ ls, x = .ok ls) ↔ p
  isLayout : ∀ ls, x = .ok ls → Line.IsLayout ls

namespace LaidOutIff

variable {x y : Except Error (List Line)} {p q : Prop}

theorem ok {ls : List Line} (h : Line.IsLayout ls) : LaidOutIff (.ok ls) True where
  exists_iff := iff_of_true ⟨ls, rfl⟩ trivial
  isLayout := by
    rintro ls' ⟨⟩
    exact h

theorem map (h : LaidOutIff x p) {f : List Line → List Line}
    (hf : ∀ ls, Line.IsLayout ls → Line.IsLayout (f ls)) :
    LaidOutIff (do
      let ls ← x
      return f ls) p where
  exists_iff := by
    rw [← h.exists_iff]
    constructor
    · rintro ⟨ls, hls⟩
      obtain ⟨ls, hx, -⟩ := bind_eq_ok.1 hls
      exact ⟨ls, hx⟩
    · rintro ⟨ls, hx⟩
      exact ⟨f ls, bind_eq_ok.2 ⟨ls, hx, rfl⟩⟩
  isLayout := by
    intro ls hls
    obtain ⟨ls, hx, hls⟩ := bind_eq_ok.1 hls
    cases hls
    exact hf ls (h.isLayout ls hx)

/-- Lines put together from two parts. -/
theorem bind (hx : LaidOutIff x p) (hy : LaidOutIff y q) {f : List Line → List Line → List Line}
    (hf : ∀ a b, Line.IsLayout a → Line.IsLayout b → Line.IsLayout (f a b)) :
    LaidOutIff (do
      let a ← x
      let b ← y
      return f a b) (p ∧ q) where
  exists_iff := by
    rw [← hx.exists_iff, ← hy.exists_iff]
    constructor
    · rintro ⟨ls, h⟩
      obtain ⟨a, ha, h⟩ := bind_eq_ok.1 h
      obtain ⟨b, hb, -⟩ := bind_eq_ok.1 h
      exact ⟨⟨a, ha⟩, b, hb⟩
    · rintro ⟨⟨a, ha⟩, b, hb⟩
      exact ⟨f a b, bind_eq_ok.2 ⟨a, ha, bind_eq_ok.2 ⟨b, hb, rfl⟩⟩⟩
  isLayout := by
    intro ls h
    obtain ⟨a, ha, h⟩ := bind_eq_ok.1 h
    obtain ⟨b, hb, h⟩ := bind_eq_ok.1 h
    cases h
    exact hf a b (hx.isLayout a ha) (hy.isLayout b hb)

end LaidOutIff

namespace Declaration

/-- No text of a declaration breaks a line. The values of an enum are written without breaks. -/
structure OneLine (d : Declaration) : Prop where
  name : ∀ t ∈ d.name, '\n' ∉ t
  labels : ∀ p ∈ d.params, '\n' ∉ p.label
  types : ∀ p ∈ d.params, ∀ t ∈ p.type, '\n' ∉ t
  resultType : ∀ t ∈ d.resultType, '\n' ∉ t
  sourceText : ∀ t ∈ d.sourceText, '\n' ∉ t

instance (d : Declaration) : Decidable d.OneLine :=
  decidable_of_iff ((∀ t ∈ d.name, '\n' ∉ t) ∧ (∀ p ∈ d.params, '\n' ∉ p.label) ∧
      (∀ p ∈ d.params, ∀ t ∈ p.type, '\n' ∉ t) ∧ (∀ t ∈ d.resultType, '\n' ∉ t) ∧
      ∀ t ∈ d.sourceText, '\n' ∉ t)
    ⟨fun ⟨name, labels, types, resultType, sourceText⟩ =>
      ⟨name, labels, types, resultType, sourceText⟩,
      fun h => ⟨h.name, h.labels, h.types, h.resultType, h.sourceText⟩⟩

def Written (d : Declaration) : Prop := d.form = .enumeration → ∀ v ∈ d.values, ∃ t, v.write = .ok t

variable {d : Declaration} {module? : Option Text}

namespace OneLine

variable (h : d.OneLine)
include h

theorem nameText : '\n' ∉ Declaration.nameText d.name := by
  have hname := h.name
  rw [Declaration.nameText]
  cases hd : d.name with
  | none => decide
  | some name =>
    rw [hd] at hname
    exact hname name rfl

theorem formalText {p : Formal} (hp : p ∈ d.params) : '\n' ∉ Declaration.formalText module? p := by
  have hlabel := h.labels p hp
  have htype := h.types p hp
  fun_cases Declaration.formalText module? p with
  | case1 => exact hlabel
  | case2 => exact hlabel
  | case3 => exact hlabel
  | case4 type _ hp _ =>
    have hunqualified : '\n' ∉ unqualify module? type :=
      fun hmem => htype type hp ((unqualify_sublist module? type).subset hmem)
    rw [List.mem_append, List.mem_append, not_or, not_or]
    exact ⟨⟨hlabel, by decide⟩, hunqualified⟩

theorem signature (module? : Option Text) : '\n' ∉ Declaration.signature module? d := by
  have hparams : '\n' ∉ Text.join ", ".toList (d.params.map (Declaration.formalText module?)) := by
    apply Text.notMem_join (by decide)
    rw [List.forall_mem_map]
    exact fun p hp => h.formalText hp
  have hresult : '\n' ∉ resultText module? d := by
    have htype := h.resultType
    rw [resultText]
    split
    · next t ht =>
      obtain ⟨type, hd, rfl⟩ := Option.map_eq_some_iff.1 (Option.filter_eq_some_iff.1 ht).1
      intro hmem
      exact htype type hd ((unqualify_sublist module? type).subset hmem)
    · decide
  rw [signature_eq]
  simp only [List.mem_cons, List.mem_append, not_or]
  exact ⟨by decide, ⟨⟨hparams, by decide⟩, hresult⟩, by decide, List.not_mem_nil⟩

end OneLine

theorem getLast?_signature (module? : Option Text) (d : Declaration) (head : Text) :
    (head ++ Declaration.signature module? d).getLast? = some ';' := by
  rw [Declaration.signature, List.getLast?_append, List.getLast?_cons, List.getLast?_concat]
  rfl

theorem exists_valueType_iff {values : List Literal} :
    (∃ type, valueType values = .ok type) ↔ ∀ v ∈ values, ∃ t, v.write = .ok t := by
  rw [← exists_mapM_iff]
  constructor
  · rintro ⟨type, h⟩
    obtain ⟨texts, htexts, -⟩ := bind_eq_ok.1 h
    exact ⟨texts, htexts⟩
  · rintro ⟨texts, htexts⟩
    exact ⟨_, bind_eq_ok.2 ⟨texts, htexts, rfl⟩⟩

theorem lineFeed_notMem_valueType {values : List Literal} {type : Text}
    (h : valueType values = .ok type) : '\n' ∉ type := by
  obtain ⟨texts, htexts, h⟩ := bind_eq_ok.1 h
  cases h
  split
  · decide
  · refine Text.notMem_join (by decide) fun t ht => ?_
    obtain ⟨v, -, hv⟩ := mem_of_mapM_eq_ok htexts ht
    exact (Literal.isPrintable_write hv).lineFeed_notMem

theorem exists_ownLines_iff {depth : Nat} {above : Option DeclarationForm} :
    (∃ ls, ownLines depth above module? d = .ok ls) ↔ d.Written := by
  rw [ownLines, Written]
  cases hform : d.form with
  | enumeration =>
    have hvalues : (∃ ls, enumLines depth d = .ok ls) ↔ ∃ type, valueType d.values = .ok type := by
      constructor
      · rintro ⟨ls, h⟩
        obtain ⟨type, htype, -⟩ := bind_eq_ok.1 h
        exact ⟨type, htype⟩
      · rintro ⟨type, htype⟩
        exact ⟨_, bind_eq_ok.2 ⟨type, htype, rfl⟩⟩
    simpa using hvalues.trans exists_valueType_iff
  | _ => exact iff_of_true ⟨_, rfl⟩ nofun

theorem OneLine.isLayout_enumLines (h : d.OneLine) {depth : Nat} {ls : List Line}
    (hls : enumLines depth d = .ok ls) : Line.IsLayout ls := by
  obtain ⟨type, htype, hls⟩ := bind_eq_ok.1 hls
  cases hls
  have hname := h.nameText
  have hsource : '\n' ∉ (d.sourceText.filter (· ≠ [])).getD "\x7b\x7d".toList := by
    cases hd : d.sourceText.filter (· ≠ []) with
    | none => decide
    | some t => exact h.sourceText t (Option.filter_eq_some_iff.1 hd).1
  have hsplit := Text.splitAt_eq_singleton.2 ⟨rfl, hsource⟩
  have hvalues := lineFeed_notMem_valueType htype
  rw [hsplit, Line.enclose]
  apply Line.IsLayout.of_statements
  rw [List.forall_mem_map, List.singleton_append, List.forall_mem_cons, List.forall_mem_singleton]
  refine ⟨⟨?_, List.getLast?_concat⟩, ?_, List.getLast?_concat⟩
  · simp only [List.mem_append, not_or]
    exact ⟨⟨⟨⟨by decide, hname⟩, by decide⟩, hsource⟩, by decide⟩
  · simp only [List.mem_append, not_or]
    exact ⟨⟨⟨⟨⟨by decide, hname⟩, by decide⟩, by decide⟩, hvalues⟩, by decide⟩

theorem OneLine.isLayout_ownLines (h : d.OneLine) {depth : Nat} {above : Option DeclarationForm}
    {ls : List Line} (hls : ownLines depth above module? d = .ok ls) : Line.IsLayout ls := by
  have hheader : '\n' ∉ Declaration.nameText d.name ++ Declaration.signature module? d := by
    rw [List.mem_append, not_or]
    exact ⟨h.nameText, h.signature module?⟩
  rw [ownLines] at hls
  split at hls
  · cases hls
    exact .of_statements (List.forall_mem_singleton.2 ⟨hheader, getLast?_signature ..⟩)
  · cases hls
    refine .of_statements (List.forall_mem_singleton.2 ⟨?_, ?_⟩)
    · dsimp only
      rw [List.mem_append, not_or]
      exact ⟨by split <;> decide, hheader⟩
    · dsimp only
      rw [← List.append_assoc]
      exact getLast?_signature ..
  · exact h.isLayout_enumLines hls
  · cases hls
    exact .nil
  · cases hls
    exact .nil

theorem OneLine.laidOutIff_ownLines (h : d.OneLine) (depth : Nat) (above : Option DeclarationForm)
    (module? : Option Text) : LaidOutIff (ownLines depth above module? d) d.Written :=
  ⟨exists_ownLines_iff, fun _ => h.isLayout_ownLines⟩

theorem OneLine.isLayout_constructorLines (h : d.OneLine) (depth : Nat) (module? : Option Text) :
    Line.IsLayout (constructorLines depth module? d) := by
  rw [constructorLines]
  split
  · refine .of_statements (List.forall_mem_singleton.2 ⟨?_, getLast?_signature ..⟩)
    rw [List.mem_append, not_or]
    exact ⟨by decide, h.signature module?⟩
  · exact .nil

end Declaration

namespace DeclarationTree

mutual

def declarations : DeclarationTree → List Declaration
  | node d cs => d.toList ++ declarationsBelow cs

def declarationsBelow : List (Text × DeclarationTree) → List Declaration
  | [] => []
  | (_, t) :: rest => t.declarations ++ declarationsBelow rest

end

mutual

def keys : DeclarationTree → List Text
  | node _ cs => keysBelow cs

def keysBelow : List (Text × DeclarationTree) → List Text
  | [] => []
  | (key, t) :: rest => key :: (t.keys ++ keysBelow rest)

end

/-- No text of a tree breaks a line. -/
structure OneLine (t : DeclarationTree) : Prop where
  keys : ∀ key ∈ t.keys, '\n' ∉ key
  declarations : ∀ d ∈ t.declarations, d.OneLine

structure Writable (t : DeclarationTree) : Prop where
  named : ∀ d ∈ t.declarations, d.form = .enumeration → d.name.isSome
  written : ∀ d ∈ t.declarations, d.Written

mutual

/-- The lines of a node are a layout, which there is iff what the node declares can be written. -/
theorem laidOutIff_linesOf (key : Option Text) (hkey : '\n' ∉ Declaration.nameText key)
    (above : Enclosing) (depth inner : Nat) :
    ∀ t : DeclarationTree, t.OneLine →
      LaidOutIff (linesOf key above depth inner t) (∀ d ∈ t.declarations, d.Written)
  | node none cs, oneLine => by
    have hbelow (above : Enclosing) := laidOutIff_linesBelow above inner cs oneLine.keys
      oneLine.declarations
    cases key with
    | none =>
      rw [linesOf]
      exact hbelow _
    | some k =>
      rw [linesOf]
      exact (hbelow _).map fun ls h => h.block (by decide) hkey depth
  | node (some d) cs, oneLine => by
    have hdeclarations : ∀ d' ∈ d :: declarationsBelow cs, d'.OneLine := oneLine.declarations
    rw [List.forall_mem_cons] at hdeclarations
    have hbelow := laidOutIff_linesBelow ⟨some d.form, above.module?⟩ inner cs oneLine.keys
      hdeclarations.2
    have hown := hdeclarations.1.laidOutIff_ownLines depth above.form above.module?
    have hboth : (∀ d' ∈ (node (some d) cs).declarations, d'.Written) ↔
        d.Written ∧ ∀ d' ∈ declarationsBelow cs, d'.Written := List.forall_mem_cons
    rw [linesOf, hboth]
    by_cases hclass : d.form = .classLike
    · simp only [if_pos hclass]
      refine hown.bind hbelow fun _ ls _ h => ?_
      have hconstructor := hdeclarations.1.isLayout_constructorLines inner above.module?
      exact (hconstructor.append h).block (by decide) hkey depth
    · simp only [if_neg hclass]
      exact hown.bind hbelow fun _ _ => Line.IsLayout.append

theorem laidOutIff_linesBelow (above : Enclosing) (depth : Nat) :
    ∀ cs : List (Text × DeclarationTree), (∀ key ∈ keysBelow cs, '\n' ∉ key) →
      (∀ d ∈ declarationsBelow cs, d.OneLine) →
      LaidOutIff (linesBelow above depth cs) (∀ d ∈ declarationsBelow cs, d.Written)
  | [], _, _ => by
    simpa [linesBelow, declarationsBelow] using LaidOutIff.ok .nil
  | (key, t) :: rest, hkeys, hdeclarations => by
    rw [keysBelow, List.forall_mem_cons, List.forall_mem_append] at hkeys
    rw [declarationsBelow, List.forall_mem_append] at hdeclarations
    have hfirst := laidOutIff_linesOf (some key) hkeys.1 above depth (depth + 1) t
      ⟨hkeys.2.1, hdeclarations.1⟩
    have hothers := laidOutIff_linesBelow above depth rest hkeys.2.2 hdeclarations.2
    rw [linesBelow, declarationsBelow, List.forall_mem_append]
    exact hfirst.bind hothers fun _ _ => Line.IsLayout.append

end

/-- The lines of a whole tree. -/
theorem OneLine.laidOutIff_lines {root : DeclarationTree} (h : root.OneLine) :
    LaidOutIff root.lines (∀ d ∈ root.declarations, d.Written) :=
  laidOutIff_linesOf none (by decide) ⟨none, none⟩ 0 0 root h

mutual

/-- The enums of a tree are among its declarations. -/
theorem enumNames_eq : ∀ t : DeclarationTree,
    t.enumNames = (t.declarations.filter (·.form = .enumeration)).map (·.name)
  | node none cs => enumNamesBelow_eq cs
  | node (some d) cs => by
    rw [enumNames, declarations, Option.toList_some, List.singleton_append, List.filter_cons,
      enumNamesBelow_eq cs]
    by_cases henum : d.form = .enumeration <;> simp [henum]

theorem enumNamesBelow_eq : ∀ cs : List (Text × DeclarationTree),
    enumNamesBelow cs = ((declarationsBelow cs).filter (·.form = .enumeration)).map (·.name)
  | [] => rfl
  | (key, t) :: rest => by
    rw [enumNamesBelow, declarationsBelow, List.filter_append, List.map_append, enumNames_eq t,
      enumNamesBelow_eq rest]

end

theorem mem_enumNames {root : DeclarationTree} {name : Option Text} :
    name ∈ root.enumNames ↔ ∃ d ∈ root.declarations, d.form = .enumeration ∧ d.name = name := by
  simp [enumNames_eq, and_assoc]

theorem exists_names_iff {root : DeclarationTree} :
    (∃ names, root.enumNames.eraseDups.mapM requireName = .ok names) ↔
      ∀ d ∈ root.declarations, d.form = .enumeration → d.name.isSome := by
  have hrequire (name : Option Text) : (∃ n, requireName name = .ok n) ↔ name.isSome := by
    cases name <;> simp [requireName]
  simp only [exists_mapM_iff, List.mem_eraseDups, mem_enumNames, hrequire]
  constructor
  · exact fun h d hd henum => h d.name ⟨d, hd, henum, rfl⟩
  · rintro h name ⟨d, hd, henum, rfl⟩
    exact h d hd henum

theorem OneLine.names {root : DeclarationTree} (h : root.OneLine) {names : List Text}
    (hnames : root.enumNames.eraseDups.mapM requireName = .ok names) :
    ∀ name ∈ names, '\n' ∉ name := by
  intro name hname
  obtain ⟨name', hmem, hrequire⟩ := mem_of_mapM_eq_ok hnames hname
  obtain ⟨d, hd, -, rfl⟩ := mem_enumNames.1 (List.mem_eraseDups.1 hmem)
  apply (h.declarations d hd).name
  cases hdname : d.name with
  | none =>
    rw [hdname] at hrequire
    cases hrequire
  | some n =>
    rw [hdname] at hrequire
    cases hrequire
    rfl

/-- A tree whose enums have names and values that can be written has lines of its own. It is rendered
as these lines behind any indentation, with references retargeted, and the blocks are nested with
references retargeted or not. Any other tree is not rendered, whatever the indentation is. -/
theorem render_of_oneLine {root : DeclarationTree} (oneLine : root.OneLine) :
    (root.Writable → ∃ ls names, root.lines = .ok ls ∧
      root.enumNames.eraseDups.mapM requireName = .ok names ∧
      Line.IsLayout ls ∧ Line.IsLayout (ls.map (Line.mapContent (retargetAll names))) ∧
      ∀ indent, ':' ∉ indent → root.render indent =
        .ok ((ls.map (Line.mapContent (retargetAll names))).flatMap (Line.write indent))) ∧
      (¬ root.Writable → ∃ e, ∀ indent, root.render indent = .error e) := by
  have hlines := oneLine.laidOutIff_lines
  constructor
  · intro writable
    obtain ⟨ls, hls⟩ := hlines.exists_iff.2 writable.written
    obtain ⟨names, hnames⟩ := exists_names_iff.2 writable.named
    have hlayout := hlines.isLayout ls hls
    refine ⟨ls, names, hls, hnames, hlayout, hlayout.retargetAll names, fun indent hindent => ?_⟩
    rw [render_eq hnames, hls, ← hlayout.retargetAll_write (oneLine.names hnames) hindent]
    rfl
  · intro unwritable
    cases hls : root.lines with
    | error e =>
      refine ⟨e, fun indent => ?_⟩
      rw [render, hls]
      rfl
    | ok ls =>
      cases hnames : root.enumNames.eraseDups.mapM requireName with
      | error e =>
        refine ⟨e, fun indent => ?_⟩
        rw [render, hls, hnames]
        rfl
      | ok names =>
        exact absurd ⟨exists_names_iff.1 ⟨names, hnames⟩, hlines.exists_iff.1 ⟨ls, hls⟩⟩ unwritable

/-- A class behind an enum has the same lines behind tabs, blanks or nothing. -/
theorem render_of_class_behind_enum :
    let enum : Declaration := { form := .enumeration, name := some "S".toList }
    let method : Declaration :=
      { form := .method, name := some "m".toList, params := [⟨"s".toList, some "S".toList⟩] }
    let root := node none [("S".toList, node (some enum) []),
      ("A".toList, node (some { form := .classLike }) [("m".toList, node (some method) [])])]
    let ls : List Line := [⟨0, "declare var S: \x7b\x7d;".toList⟩,
      ⟨0, "declare type SValue = empty;".toList⟩, ⟨0, "declare class A \x7b".toList⟩,
      ⟨1, "m(s: SValue): void;".toList⟩, ⟨0, "\x7d".toList⟩]
    root.OneLine ∧ root.Writable ∧ Line.IsLayout ls ∧
      ∀ indent, ':' ∉ indent → root.render indent = .ok (ls.flatMap (Line.write indent)) := by
  intro enum method root ls
  have hdeclarations : root.declarations = [enum, { form := .classLike }, method] := rfl
  have oneLine : root.OneLine := by
    refine ⟨by decide, ?_⟩
    rw [hdeclarations]
    decide
  have writable : root.Writable := by
    constructor
    · rw [hdeclarations]
      decide
    · rw [hdeclarations]
      simp [Declaration.Written, enum, method]
  obtain ⟨ls', names, hls, hnames, -, hlayout, hrender⟩ := (render_of_oneLine oneLine).1 writable
  have read : (root.lines >>= fun ls => (root.enumNames.eraseDups.mapM requireName).map fun names =>
      ls.map (Line.mapContent (retargetAll names))).toOption = some ls := by
    decide +kernel
  obtain ⟨ls₁, hls₁, h⟩ := bind_eq_ok.1 (eq_ok_of_toOption read)
  obtain ⟨names₁, hnames₁, hretargeted⟩ := map_eq_ok.1 h
  obtain rfl := Except.ok.inj (hls.symm.trans hls₁)
  obtain rfl := Except.ok.inj (hnames.symm.trans hnames₁)
  rw [hretargeted] at hlayout hrender
  exact ⟨oneLine, writable, hlayout, hrender⟩

/-- A tree has lines that it is rendered as behind all blanks and tabs. -/
def HasLines (root : DeclarationTree) : Prop :=
  ∃ ls : List Line, ∀ indent : Text, (∀ c ∈ indent, c = ' ' ∨ c = '\t') →
    root.render indent = .ok (ls.flatMap (Line.write indent))

def ofEnum (name : Option Text) (values : List Literal) : DeclarationTree :=
  node none [("E".toList, node (some { form := .enumeration, name, values }) [])]

/-- No lines are those of an enum without a name, or of one with an integer of too many digits. -/
theorem not_hasLines_of_unnamed_and_long :
    ((ofEnum none []).OneLine ∧ ¬ (ofEnum none []).HasLines) ∧
      (ofEnum (some "E".toList) [.integer (Nat.pow 10 Numeral.digitLimit)]).OneLine ∧
      ¬ (ofEnum (some "E".toList) [.integer (Nat.pow 10 Numeral.digitLimit)]).HasLines := by
  have hdeclarations (name : Option Text) (values : List Literal) :
      (ofEnum name values).declarations = [{ form := .enumeration, name, values }] := rfl
  have oneLine (name : Option Text) (values : List Literal) (hname : ∀ t ∈ name, '\n' ∉ t) :
      (ofEnum name values).OneLine := by
    refine ⟨by simp [ofEnum, keys, keysBelow], ?_⟩
    rw [hdeclarations, List.forall_mem_singleton]
    exact ⟨hname, List.forall_mem_nil _, List.forall_mem_nil _, nofun, nofun⟩
  have unnamed := oneLine none [] nofun
  have long := oneLine (some "E".toList) [.integer (Nat.pow 10 Numeral.digitLimit)] (by decide)
  refine ⟨⟨unnamed, ?_⟩, long, ?_⟩
  · rintro ⟨ls, hrender⟩
    obtain ⟨_, -, hrender⟩ := bind_eq_ok.1 (hrender [] (List.forall_mem_nil _))
    obtain ⟨names, hnames, -⟩ := bind_eq_ok.1 hrender
    have named := exists_names_iff.1 ⟨names, hnames⟩
    rw [hdeclarations, List.forall_mem_singleton] at named
    exact Bool.false_ne_true (named rfl)
  · rintro ⟨ls, hrender⟩
    obtain ⟨ls, hls, -⟩ := bind_eq_ok.1 (hrender [] (List.forall_mem_nil _))
    have written := long.laidOutIff_lines.exists_iff.1 ⟨ls, hls⟩
    rw [hdeclarations, List.forall_mem_singleton] at written
    obtain ⟨t, ht⟩ := written rfl _ List.mem_cons_self
    rw [Literal.write, Literal.writeInteger, Int.natAbs_natCast, if_neg (Nat.lt_irrefl _)] at ht
    cases ht

end DeclarationTree

end DocFlow
