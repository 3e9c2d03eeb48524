import Mathlib
import DocFlow.Proofs.Outcome
import DocFlow.Proofs.Text.Trim
import DocFlow.TypeExpr.Token

namespace DocFlow.TypeGrammar

/-- A reader takes a front of the text that is not empty. -/
def TakesFront (read : Text → Option (Text × Text)) : Prop :=
  ∀ {t s rest : Text}, read t = some (s, rest) → s ++ rest = t ∧ s ≠ []

theorem stringTail?_takesFront (q : Char) : TakesFront (stringTail? q) := by
  intro t s rest h
  fun_induction stringTail? q t generalizing s with
  | case1 => cases h
  | case2 => cases h
  | case3 c t _ ih =>
    obtain ⟨⟨s', rest'⟩, htail, heq⟩ := Option.map_eq_some_iff.1 h
    cases heq
    exact ⟨congrArg ('\\' :: c :: ·) (ih htail).1, List.cons_ne_nil _ _⟩
  | case4 => cases h
  | case5 =>
    cases h
    exact ⟨rfl, List.cons_ne_nil _ _⟩
  | case6 c t _ _ _ ih =>
    obtain ⟨⟨s', rest'⟩, htail, heq⟩ := Option.map_eq_some_iff.1 h
    cases heq
    exact ⟨congrArg _ (ih htail).1, List.cons_ne_nil _ _⟩

theorem stringLexeme?_takesFront : TakesFront stringLexeme? := by
  intro t s rest h
  unfold stringLexeme? at h
  split at h
  · obtain ⟨⟨s', rest'⟩, htail, heq⟩ := Option.map_eq_some_iff.1 h
    cases heq
    exact ⟨congrArg _ (stringTail?_takesFront _ htail).1, List.cons_ne_nil _ _⟩
  · obtain ⟨⟨s', rest'⟩, htail, heq⟩ := Option.map_eq_some_iff.1 h
    cases heq
    exact ⟨congrArg _ (stringTail?_takesFront _ htail).1, List.cons_ne_nil _ _⟩
  · cases h

theorem takeSome?_eq_some {p : Char → Bool} {t s rest : Text} (h : takeSome? p t = some (s, rest)) :
    s = t.takeWhile p ∧ rest = t.dropWhile p ∧ s ≠ [] := by
  unfold takeSome? at h
  rw [List.span_eq_takeWhile_dropWhile] at h
  split at h
  · cases h
  · next hne =>
    cases h
    exact ⟨rfl, rfl, fun hnil => hne _ (by rw [hnil])⟩

theorem takeSome?_takesFront (p : Char → Bool) : TakesFront (takeSome? p) := by
  intro t s rest h
  obtain ⟨rfl, rfl, hne⟩ := takeSome?_eq_some h
  exact ⟨List.takeWhile_append_dropWhile, hne⟩

theorem decimal?_takesFront : TakesFront decimal? := by
  intro t s rest h
  obtain ⟨⟨whole, after⟩, hwhole, heq⟩ := Option.map_eq_some_iff.1 h
  obtain ⟨hfront, hne⟩ := takeSome?_takesFront _ hwhole
  dsimp only at heq
  split at heq
  · next fraction _ =>
    split at heq
    · next digits after' hfraction =>
      cases heq
      rw [← hfront, ← (takeSome?_takesFront _ hfraction).1]
      exact ⟨List.append_assoc .., by simp⟩
    · cases heq
      exact ⟨hfront, hne⟩
  · cases heq
    exact ⟨hfront, hne⟩

theorem unsigned?_takesFront : TakesFront unsigned? := by
  intro t s rest h
  unfold unsigned? at h
  split at h
  · split at h
    · split at h
      · next hdigits =>
        cases h
        rw [← (takeSome?_takesFront _ hdigits).1]
        exact ⟨rfl, List.cons_ne_nil _ _⟩
      · exact decimal?_takesFront h
    · exact decimal?_takesFront h
  · exact decimal?_takesFront h

theorem numberLexeme?_takesFront : TakesFront numberLexeme? := by
  intro t s rest h
  unfold numberLexeme? at h
  split at h
  · obtain ⟨⟨s', rest'⟩, hdigits, heq⟩ := Option.map_eq_some_iff.1 h
    cases heq
    exact ⟨congrArg _ (unsigned?_takesFront hdigits).1, List.cons_ne_nil _ _⟩
  · exact unsigned?_takesFront h

theorem nameTail_append (t : Text) : (nameTail t).1 ++ (nameTail t).2 = t := by
  fun_induction nameTail t with
  | case2 c t _ r ih => exact congrArg (c :: ·) ih
  | case3 c _ _ d t _ r ih => exact congrArg (c :: d :: ·) ih
  | _ => rfl

theorem spacedName?_eq_some {t n rest : Text} (h : spacedName? t = some (n, rest)) :
    ∃ space part after, space ∈ namespaces ∧ t = space ++ after ∧ n = space ++ part ∧
      takeSome? isModulePart after = some (part, rest) := by
  obtain ⟨space, hspace, h⟩ := List.exists_of_findSome?_eq_some h
  obtain ⟨after, hdrop, h⟩ := Option.bind_eq_some_iff.1 h
  obtain ⟨⟨part, rest'⟩, hpart, heq⟩ := Option.map_eq_some_iff.1 h
  cases heq
  refine ⟨space, part, after, hspace, ?_, rfl, hpart⟩
  unfold Text.dropFront? at hdrop
  split at hdrop
  · next hfront =>
    cases hdrop
    exact (List.prefix_iff_eq_append.1 (List.isPrefixOf_iff_prefix.1 hfront)).symm
  · cases hdrop

theorem plainName?_eq_some {t n rest : Text} (h : plainName? t = some (n, rest)) :
    ∃ c after, isNameStart c = true ∧ t = c :: after ∧ n = c :: (nameTail after).1 ∧
      rest = (nameTail after).2 := by
  unfold plainName? at h
  split at h
  · split at h
    · next start =>
      cases h
      exact ⟨_, _, start, rfl, rfl, rfl⟩
    · cases h
  · cases h

theorem nameLexeme?_takesFront : TakesFront nameLexeme? := by
  intro t n rest h
  rcases Option.or_eq_some_iff.1 h with h | ⟨-, h⟩
  · obtain ⟨space, part, after, -, rfl, rfl, hpart⟩ := spacedName?_eq_some h
    obtain ⟨hfront, hne⟩ := takeSome?_takesFront _ hpart
    exact ⟨by rw [List.append_assoc, hfront], List.append_ne_nil_of_right_ne_nil _ hne⟩
  · obtain ⟨c, after, -, rfl, rfl, rfl⟩ := plainName?_eq_some h
    exact ⟨congrArg _ (nameTail_append after), List.cons_ne_nil _ _⟩

theorem text_of_ofChar? {c : Char} {m : Mark} (h : Mark.ofChar? c = some m) : m.text = [c] := by
  unfold Mark.ofChar? at h
  split at h <;> cases h <;> rfl

theorem lexeme?_mark {c : Char} {m : Mark} (h : Mark.ofChar? c = some m) (t : Text) :
    lexeme? (c :: t) = some (.mark m, t) := by
  unfold Mark.ofChar? at h
  split at h <;> cases h <;> rfl

def StartsWithLongMark (t : Text) : Prop := ['.', '.', '.'] <+: t ∨ ['.', '<'] <+: t

theorem StartsWithLongMark.append {t : Text} (h : StartsWithLongMark t) (u : Text) :
    StartsWithLongMark (t ++ u) :=
  h.imp (·.trans (List.prefix_append t u)) (·.trans (List.prefix_append t u))

theorem lexeme?_of_short {t : Text} (short : ¬ StartsWithLongMark t) :
    lexeme? t =
      match stringLexeme? t with
      | some (s, rest) => some (.string s, rest)
      | none =>
        match numberLexeme? t with
        | some (s, rest) => some (.number s, rest)
        | none =>
          match nameLexeme? t with
          | some (s, rest) => some (.name s, rest)
          | none => (markLexeme? t).map fun (m, rest) => (.mark m, rest) := by
  refine lexeme?.eq_3 t ?_ ?_
  · rintro rest rfl
    exact short (.inl ⟨rest, rfl⟩)
  · rintro rest rfl
    exact short (.inr ⟨rest, rfl⟩)

/-- The ways in which a text begins with a lexeme. Marks of one character begin nothing else. -/
inductive Begins (t : Text) : Lexeme → Text → Prop where
  | ellipsis {rest} (front : t = '.' :: '.' :: '.' :: rest) : Begins t (.mark .ellipsis) rest
  | dotAngle {rest} (front : t = '.' :: '<' :: rest) : Begins t (.mark .dotAngle) rest
  | string {s rest} (short : ¬ StartsWithLongMark t) (read : stringLexeme? t = some (s, rest)) :
    Begins t (.string s) rest
  | number {s rest} (short : ¬ StartsWithLongMark t) (noString : stringLexeme? t = none)
    (read : numberLexeme? t = some (s, rest)) : Begins t (.number s) rest
  | name {n rest} (short : ¬ StartsWithLongMark t) (noString : stringLexeme? t = none)
    (noNumber : numberLexeme? t = none) (read : nameLexeme? t = some (n, rest)) :
    Begins t (.name n) rest
  | mark {c m rest} (front : t = c :: rest) (ofChar : Mark.ofChar? c = some m) :
    Begins t (.mark m) rest

theorem Begins.of_lexeme? {t : Text} {l : Lexeme} {rest : Text} (h : lexeme? t = some (l, rest)) :
    Begins t l rest := by
  by_cases long : StartsWithLongMark t
  · obtain ⟨u, rfl⟩ | ⟨u, rfl⟩ := long
    · cases h
      exact .ellipsis rfl
    · cases h
      exact .dotAngle rfl
  · rw [lexeme?_of_short long] at h
    split at h
    · next read =>
      cases h
      exact .string long read
    · next noString =>
      split at h
      · next read =>
        cases h
        exact .number long noString read
      · next noNumber =>
        split at h
        · next read =>
          cases h
          exact .name long noString noNumber read
        · obtain ⟨⟨m, rest'⟩, hmark, heq⟩ := Option.map_eq_some_iff.1 h
          cases heq
          unfold markLexeme? at hmark
          split at hmark
          · obtain ⟨m', ofChar, heq⟩ := Option.map_eq_some_iff.1 hmark
            cases heq
            exact .mark rfl ofChar
          · cases hmark

theorem lexeme?_eq_some_iff {t : Text} {l : Lexeme} {rest : Text} :
    lexeme? t = some (l, rest) ↔ Begins t l rest := by
  refine ⟨.of_lexeme?, fun h => ?_⟩
  cases h with
  | ellipsis front | dotAngle front =>
    rw [front]
    rfl
  | string short read => rw [lexeme?_of_short short, read]
  | number short noString read => rw [lexeme?_of_short short, noString, read]
  | name short noString noNumber read => rw [lexeme?_of_short short, noString, noNumber, read]
  | mark front ofChar =>
    rw [front]
    exact lexeme?_mark ofChar rest

/-- A lexeme is a front of the text. -/
theorem lexeme?_takesFront {t : Text} {l : Lexeme} {rest : Text} (h : lexeme? t = some (l, rest)) :
    l.text ++ rest = t ∧ l.text ≠ [] := by
  cases lexeme?_eq_some_iff.1 h with
  | ellipsis front | dotAngle front => exact ⟨front.symm, List.cons_ne_nil _ _⟩
  | string _ read => exact stringLexeme?_takesFront read
  | number _ _ read => exact numberLexeme?_takesFront read
  | name _ _ _ read => exact nameLexeme?_takesFront read
  | mark front ofChar =>
    rw [Lexeme.text, text_of_ofChar? ofChar]
    exact ⟨front.symm, List.cons_ne_nil _ _⟩

theorem lexeme?_shortens {t : Text} {l : Lexeme} {rest : Text} (h : lexeme? t = some (l, rest)) :
    rest.length < t.length := by
  obtain ⟨rfl, hne⟩ := lexeme?_takesFront h
  have hpos := List.length_pos_of_ne_nil hne
  rw [List.length_append]
  omega

inductive Lexed : Text → List Lexeme → Prop where
  | done : Lexed [] []
  | blank {c t ls} (blank : Text.isBlank c = true) (more : Lexed t ls) : Lexed (c :: t) ls
  | lexeme {c t l rest ls} (visible : Text.isBlank c = false)
    (first : lexeme? (c :: t) = some (l, rest)) (more : Lexed rest ls) : Lexed (c :: t) (l :: ls)

theorem exists_step {steps : Nat} {c : Char} {t : Text} (enough : (c :: t).length ≤ steps) :
    ∃ more, steps = more + 1 ∧ t.length ≤ more := by
  rw [List.length_cons] at enough
  exact ⟨steps - 1, by omega, by omega⟩

theorem tokensFrom_of_lexed {t : Text} {ls : List Lexeme} (h : Lexed t ls) {steps : Nat}
    (enough : t.length ≤ steps) (place : Nat) :
    ∃ ts, tokensFrom steps place t = .ok ts ∧ ts.map Token.lexeme = ls := by
  induction h generalizing steps place with
  | done =>
    refine ⟨[], ?_, rfl⟩
    cases steps <;> rfl
  | @blank c t ls hblank _ ih =>
    obtain ⟨steps, rfl, hsteps⟩ := exists_step enough
    obtain ⟨ts, hts, hlexemes⟩ := ih hsteps (place + 1)
    refine ⟨ts, ?_, hlexemes⟩
    rw [tokensFrom, if_pos hblank, hts]
  | @lexeme c t l rest ls hvisible hfirst _ ih =>
    obtain ⟨steps, rfl, hsteps⟩ := exists_step enough
    -- A lexeme takes a character at least, so the steps that are left suffice.
    have hshorter := lexeme?_shortens hfirst
    rw [List.length_cons] at hshorter
    have hrest : rest.length ≤ steps := by omega
    obtain ⟨ts, hts, hlexemes⟩ := ih hrest (place + l.text.length)
    refine ⟨⟨l, place⟩ :: ts, ?_, by rw [List.map_cons, hlexemes]⟩
    rw [tokensFrom, if_neg (by simp [hvisible]), hfirst]
    dsimp only
    rw [hts]
    rfl

theorem lexed_of_tokensFrom {steps place : Nat} {t : Text} {ts : List Token}
    (h : tokensFrom steps place t = .ok ts) (enough : t.length ≤ steps) :
    Lexed t (ts.map Token.lexeme) := by
  fun_induction tokensFrom steps place t generalizing ts with
  | case1 place t =>
    cases h
    rw [List.eq_nil_of_length_eq_zero (Nat.le_zero.1 enough)]
    exact .done
  | case2 =>
    cases h
    exact .done
  | case3 steps place c t hblank ih => exact .blank hblank (ih h (Nat.le_of_succ_le_succ enough))
  | case4 => cases h
  | case5 steps place c t hvisible l rest hfirst ih =>
    obtain ⟨ts, hts, rfl⟩ := map_eq_ok.1 h
    have hshorter := lexeme?_shortens hfirst
    rw [List.length_cons] at hshorter enough
    have hsteps : rest.length ≤ steps := by omega
    exact .lexeme (by simpa using hvisible) hfirst (ih hts hsteps)

/-- The tokens of a text are its lexemes, with places. -/
theorem lexed_iff_tokens {t : Text} {ls : List Lexeme} :
    Lexed t ls ↔ ∃ ts, tokens t = .ok ts ∧ ts.map Token.lexeme = ls := by
  constructor
  · intro h
    exact tokensFrom_of_lexed h le_rfl 0
  · rintro ⟨ts, hts, rfl⟩
    exact lexed_of_tokensFrom hts le_rfl

def nameStartCodes : List Nat := List.range' 65 26 ++ List.range' 97 26 ++ [36, 95]

theorem mem_nameStartCodes {c : Char} (h : isNameStart c = true) : c.toNat ∈ nameStartCodes := by
  simp only [isNameStart, Bool.or_eq_true, beq_iff_eq] at h
  rcases h with (h | rfl) | rfl
  · simp only [Char.isAlpha, Char.isUpper, Char.isLower, Bool.or_eq_true, Bool.and_eq_true,
      decide_eq_true_eq, ge_iff_le, UInt32.le_iff_toNat_le] at h
    change 65 ≤ c.toNat ∧ c.toNat ≤ 90 ∨ 97 ≤ c.toNat ∧ c.toNat ≤ 122 at h
    simp only [nameStartCodes, List.mem_append, List.mem_range'_1]
    omega
  · decide
  · decide

theorem isModulePart_of_isNameStart {c : Char} (h : isNameStart c = true) :
    isModulePart c = true := by
  have hword : ∀ n ∈ nameStartCodes, Text.inRanges Text.wordRanges n = true ∨ n = 36 := by
    decide +kernel
  rcases hword _ (mem_nameStartCodes h) with hword | hdollar
  · simp [isModulePart, isNamePart, Text.isWord, hword]
  · have hc : c = '$' := Char.toNat_inj.1 hdollar
    rw [hc]
    rfl

theorem isDigit_eq_false_of_isNameStart {c : Char} (h : isNameStart c = true) :
    Text.isDigit c = false := by
  have hdigit : ∀ n ∈ nameStartCodes, Text.inRanges Text.digitRanges n = false := by decide +kernel
  exact hdigit _ (mem_nameStartCodes h)

def blankCodes : List Nat :=
  List.range' 9 5 ++ List.range' 28 5 ++ [0x85, 0xA0, 0x1680] ++ List.range' 0x2000 11 ++
    [0x2028, 0x2029, 0x202F, 0x205F, 0x3000]

theorem mem_blankCodes {c : Char} (h : Text.isBlank c = true) : c.toNat ∈ blankCodes := by
  simp only [Text.isBlank, decide_eq_true_eq] at h
  simp only [blankCodes, List.mem_append, List.mem_range'_1, List.mem_cons, List.not_mem_nil]
  omega

theorem isBlank_eq_false_of_isModulePart {c : Char} (h : isModulePart c = true) :
    Text.isBlank c = false := by
  by_contra hblank
  have hcode := mem_blankCodes (c := c) (by simpa using hblank)
  have hword : ∀ n ∈ blankCodes, Text.inRanges Text.wordRanges n = false := by decide +kernel
  have hfalse : Text.isWord c = false := hword _ hcode
  simp only [isModulePart, isNamePart, isPathMark, hfalse, Bool.or_eq_true, beq_iff_eq,
    Bool.false_eq_true, false_or] at h
  rcases h with (rfl | ((rfl | rfl) | rfl) | rfl) | rfl <;> revert hcode <;> decide

/-- At the start of a text stands nothing that continues a name. -/
def EndsName : Text → Prop
  | [] => True
  | c :: _ => isModulePart c = false ∧ c ≠ ':'

theorem nameTail_of_endsName {rest : Text} (h : EndsName rest) : nameTail rest = ([], rest) := by
  cases rest with
  | nil => rfl
  | cons c rest =>
    obtain ⟨hpart, -⟩ := h
    simp only [isModulePart, Bool.or_eq_false_iff] at hpart
    rw [nameTail.eq_def]
    simp [hpart]

/-- The continuation of a name is read as far again. -/
theorem nameTail_reads (t : Text) {rest : Text} (h : EndsName rest) :
    nameTail ((nameTail t).1 ++ rest) = ((nameTail t).1, rest) := by
  fun_induction nameTail t with
  | case2 c t part r ih =>
    rw [List.cons_append, nameTail.eq_def]
    dsimp only
    rw [if_pos part, show r = nameTail t from rfl, ih]
  | case3 c part mark d t start r ih =>
    rw [List.cons_append, List.cons_append, nameTail.eq_def]
    dsimp only
    rw [if_neg part, if_pos mark, if_pos start, show r = nameTail t from rfl, ih]
  | _ => exact nameTail_of_endsName h

theorem nameTail_isModulePart {t : Text} {c : Char} (h : c ∈ (nameTail t).1) :
    isModulePart c = true := by
  fun_induction nameTail t with
  | case2 d t part r ih =>
    rcases List.mem_cons.1 h with rfl | h
    · simp [isModulePart, part]
    · exact ih h
  | case3 d part mark e t start r ih =>
    rcases List.mem_cons.1 h with rfl | h
    · simp [isModulePart, mark]
    · rcases List.mem_cons.1 h with rfl | h
      · exact isModulePart_of_isNameStart start
      · exact ih h
  | _ => cases h

theorem takeSome?_reads {p : Char → Bool} {part rest : Text} (hpart : ∀ c ∈ part, p c = true)
    (hne : part ≠ []) (hrest : ∀ c ∈ rest.head?, p c = false) :
    takeSome? p (part ++ rest) = some (part, rest) := by
  rw [takeSome?, Text.span_append hpart hrest]
  split
  · next heq => exact absurd (Prod.mk.inj heq).1 hne
  · rfl

theorem dropFront?_append (p t : Text) : Text.dropFront? p (p ++ t) = some t := by
  rw [Text.dropFront?, if_pos (List.isPrefixOf_iff_prefix.2 (List.prefix_append p t)),
    List.drop_left]

/-- A name with a namespace is read as far again. -/
theorem spacedName?_reads {space part rest : Text} (hspace : space ∈ namespaces)
    (hpart : ∀ c ∈ part, isModulePart c = true) (hne : part ≠ []) (h : EndsName rest) :
    spacedName? (space ++ part ++ rest) = some (space ++ part, rest) := by
  have hhead : ∀ c ∈ rest.head?, isModulePart c = false := by
    intro c hc
    cases rest with
    | nil => cases hc
    | cons d rest =>
      cases hc
      exact h.1
  have hown := dropFront?_append space (part ++ rest)
  -- No two namespaces start with the same letter.
  have hothers : (∀ t, Text.dropFront? "module:".toList ("external:".toList ++ t) = none) ∧
      (∀ t, Text.dropFront? "module:".toList ("event:".toList ++ t) = none) ∧
      ∀ t, Text.dropFront? "external:".toList ("event:".toList ++ t) = none :=
    ⟨fun _ => rfl, fun _ => rfl, fun _ => rfl⟩
  obtain ⟨hexternal, hevent, hevent'⟩ := hothers
  simp only [namespaces, List.mem_cons, List.not_mem_nil, or_false] at hspace
  rw [List.append_assoc, spacedName?, namespaces, List.findSome?_cons, List.findSome?_cons,
    List.findSome?_cons]
  rcases hspace with rfl | rfl | rfl
  · rw [hown, Option.bind_some, takeSome?_reads hpart hne hhead]
    rfl
  · rw [hexternal, hown, Option.bind_some, takeSome?_reads hpart hne hhead]
    rfl
  · rw [hevent, hevent', hown, Option.bind_some, takeSome?_reads hpart hne hhead]
    rfl

/-- A namespace is a word with a colon behind it. -/
theorem exists_word_of_namespace {space : Text} (h : space ∈ namespaces) :
    ∃ c word, space = c :: (word ++ [':']) ∧ ∀ d ∈ c :: word, isNameStart d = true := by
  simp only [namespaces, List.mem_cons, List.not_mem_nil, or_false] at h
  rcases h with rfl | rfl | rfl
  · exact ⟨'m', "odule".toList, rfl, List.all_eq_true.1 (by decide)⟩
  · exact ⟨'e', "xternal".toList, rfl, List.all_eq_true.1 (by decide)⟩
  · exact ⟨'e', "vent".toList, rfl, List.all_eq_true.1 (by decide)⟩

/-- A name without a namespace has none before any text that ends it. -/
theorem spacedName?_plain {n rest : Text} (hn : ∀ c ∈ n, isModulePart c = true) (h : EndsName rest) :
    spacedName? (n ++ rest) = none := by
  have hfree : ∀ space ∈ namespaces, ¬ space <+: n ++ rest := by
    intro space hspace hfront
    obtain ⟨d, word, heq, hword⟩ := exists_word_of_namespace hspace
    have hmem : ':' ∈ space := by rw [heq]; simp
    have hchars : ∀ c ∈ space, isNameStart c = true ∨ c = ':' := by
      intro c hc
      rw [heq, ← List.cons_append] at hc
      rcases List.mem_append.1 hc with hc | hc
      · exact .inl (hword c hc)
      · exact .inr (List.mem_singleton.1 hc)
    have hnone : ':' ∉ n := fun hmem => absurd (hn _ hmem) (by decide)
    rcases List.prefix_or_prefix_of_prefix hfront (List.prefix_append n rest) with hshort | ⟨u, rfl⟩
    · exact hnone (hshort.mem hmem)
    · cases u with
      | nil =>
        rw [List.append_nil] at hmem
        exact hnone hmem
      | cons c u =>
        -- The namespace goes on into the rest, which would then continue the name.
        obtain ⟨v, rfl⟩ := (List.prefix_append_right_inj n).1 hfront
        rcases hchars c (by simp) with start | rfl
        · exact absurd (isModulePart_of_isNameStart start) (by simp [h.1])
        · exact h.2 rfl
  rw [spacedName?, List.findSome?_eq_none_iff]
  intro space hspace
  rw [Text.dropFront?, if_neg (by simpa [List.isPrefixOf_iff_prefix] using hfree space hspace)]
  rfl

theorem stringLexeme?_of_isNameStart {c : Char} (h : isNameStart c = true) (t : Text) :
    stringLexeme? (c :: t) = none := by
  rw [stringLexeme?]
  · rintro t' ⟨rfl, -⟩
    exact absurd h (by decide)
  · rintro t' ⟨rfl, -⟩
    exact absurd h (by decide)

theorem numberLexeme?_of_isNameStart {c : Char} (h : isNameStart c = true) (t : Text) :
    numberLexeme? (c :: t) = none := by
  have hdecimal : decimal? (c :: t) = none := by
    simp [decimal?, takeSome?, List.span_eq_takeWhile_dropWhile, isDigit_eq_false_of_isNameStart h]
  rw [numberLexeme?, unsigned?, hdecimal]
  · rintro x after ⟨rfl, -⟩
    exact absurd h (by decide)
  · rintro t' ⟨rfl, -⟩
    exact absurd h (by decide)

theorem lexeme?_of_isNameStart {c : Char} (h : isNameStart c = true) {t n rest : Text}
    (hn : nameLexeme? (c :: t) = some (n, rest)) : lexeme? (c :: t) = some (.name n, rest) := by
  have hdot : c ≠ '.' := by
    rintro rfl
    exact absurd h (by decide)
  rw [lexeme?, stringLexeme?_of_isNameStart h, numberLexeme?_of_isNameStart h, hn]
  · rintro t' ⟨rfl, -⟩
    exact hdot rfl
  · rintro t' ⟨rfl, -⟩
    exact hdot rfl

theorem isModulePart_of_mem_plainName {t n rest : Text} (h : plainName? t = some (n, rest))
    {c : Char} (hc : c ∈ n) : isModulePart c = true := by
  obtain ⟨d, after, start, rfl, rfl, rfl⟩ := plainName?_eq_some h
  rcases List.mem_cons.1 hc with rfl | hc
  · exact isModulePart_of_isNameStart start
  · exact nameTail_isModulePart hc

/-- The characters of a name. -/
theorem isModulePart_of_mem_name {t n rest : Text} (h : nameLexeme? t = some (n, rest)) {c : Char}
    (hc : c ∈ n) : isModulePart c = true ∨ c = ':' := by
  rcases Option.or_eq_some_iff.1 h with h | ⟨-, h⟩
  · obtain ⟨space, part, after, hspace, rfl, rfl, hpart⟩ := spacedName?_eq_some h
    obtain ⟨d, word, rfl, hword⟩ := exists_word_of_namespace hspace
    obtain ⟨rfl, -, -⟩ := takeSome?_eq_some hpart
    rw [← List.cons_append] at hc
    rcases List.mem_append.1 hc with hc | hc
    · rcases List.mem_append.1 hc with hc | hc
      · exact .inl (isModulePart_of_isNameStart (hword c hc))
      · exact .inr (List.mem_singleton.1 hc)
    · exact .inl (List.mem_takeWhile_imp hc)
  · exact .inl (isModulePart_of_mem_plainName h hc)

/-- A text that is read as a name, before any text that ends it. -/
structure IsName (n : Text) : Prop where
  reads {rest} : EndsName rest → lexeme? (n ++ rest) = some (.name n, rest)
  chars {c} : c ∈ n → isModulePart c = true ∨ c = ':'

/-- Every name that is read is read again. -/
theorem isName_of_nameLexeme? {t n rest : Text} (h : nameLexeme? t = some (n, rest)) : IsName n := by
  refine ⟨fun {rest} hrest => ?_, isModulePart_of_mem_name h⟩
  rcases Option.or_eq_some_iff.1 h with h | ⟨-, h⟩
  · obtain ⟨space, part, after, hspace, rfl, rfl, hpart⟩ := spacedName?_eq_some h
    obtain ⟨rfl, -, hne⟩ := takeSome?_eq_some hpart
    have hread := spacedName?_reads hspace (fun c hc => List.mem_takeWhile_imp hc) hne hrest
    obtain ⟨c, word, rfl, hword⟩ := exists_word_of_namespace hspace
    exact lexeme?_of_isNameStart (hword c List.mem_cons_self)
      (Option.or_eq_some_iff.2 (.inl hread))
  · have hspaced := spacedName?_plain (fun c hc => isModulePart_of_mem_plainName h hc) hrest
    obtain ⟨c, after, start, rfl, rfl, rfl⟩ := plainName?_eq_some h
    have hplain : plainName? (c :: ((nameTail after).1 ++ rest)) =
        some (c :: (nameTail after).1, rest) := by
      rw [plainName?, if_pos start, nameTail_reads after hrest]
    exact lexeme?_of_isNameStart start (Option.or_eq_some_iff.2 (.inr ⟨hspaced, hplain⟩))

namespace IsName

variable {n : Text}

theorem ne_nil (h : IsName n) : n ≠ [] := by
  have hread : lexeme? (n ++ []) = some (.name n, []) := h.reads trivial
  exact (lexeme?_takesFront hread).2

theorem isBlank_eq_false (h : IsName n) {c : Char} (hc : c ∈ n) : Text.isBlank c = false := by
  rcases h.chars hc with hpart | rfl
  · exact isBlank_eq_false_of_isModulePart hpart
  · rfl

end IsName

theorem lexeme?_name {t n rest : Text} (h : lexeme? t = some (.name n, rest)) :
    nameLexeme? t = some (n, rest) := by
  cases lexeme?_eq_some_iff.1 h with
  | name _ _ _ read => exact read

/-- A name among the lexemes is one that is read somewhere. -/
theorem Lexed.name_of_mem {t : Text} {ls : List Lexeme} (h : Lexed t ls) {n : Text}
    (hn : .name n ∈ ls) : ∃ t' rest, nameLexeme? t' = some (n, rest) := by
  induction h with
  | done => cases hn
  | blank _ _ ih => exact ih hn
  | lexeme _ first _ ih =>
    rcases List.mem_cons.1 hn with rfl | hn
    · exact ⟨_, _, lexeme?_name first⟩
    · exact ih hn

end DocFlow.TypeGrammar
