import DocFlow.Proofs.Literal.CodeUnit

namespace DocFlow

open Script

inductive LineEnd where
  | lineFeed
  | carriageReturn
  | both
  | lineSeparator
  | paragraphSeparator

def LineEnd.text : LineEnd → Text
  | lineFeed => ['\n']
  | carriageReturn => ['\r']
  | both => ['\r', '\n']
  | lineSeparator => ['\u2028']
  | paragraphSeparator => ['\u2029']

def hexNumber (ds : List (Digit 16)) : Nat := Nat.ofDigits 16 (ds.map (·.value.val)).reverse

theorem hexNumber_lt (ds : List (Digit 16)) : hexNumber ds < 16 ^ ds.length := by
  rw [hexNumber, ← List.length_map (fun d : Digit 16 => d.value.val), ← List.length_reverse]
  apply Nat.ofDigits_lt_base_pow_length (by decide)
  intro v hv
  obtain ⟨d, -, rfl⟩ := List.mem_map.1 (List.mem_reverse.1 hv)
  exact d.value.isLt

/-- The escapes of strict mode: a character or a zero behind a backslash, code units and code points
by number, and line continuations. -/
inductive Escape where
  | single (c : Char)
    (allowed : c.isDigit = false ∧ c ∉ ['x', 'u', '\n', '\r', '\u2028', '\u2029'])
  | nul
  | byte (a b : Digit 16)
  | unit (a b c d : Digit 16)
  | codePoint (first : Digit 16) (more : List (Digit 16))
    (range : hexNumber (first :: more) < 0x110000)
  | continuation (e : LineEnd)

def singleEscapes : List (Char × Nat) :=
  [('b', 8), ('t', 9), ('n', 10), ('v', 11), ('f', 12), ('r', 13)]

namespace Escape

def body : Escape → Text
  | single c _ => [c]
  | nul => ['0']
  | byte a b => ['x', a.char, b.char]
  | unit a b c d => ['u', a.char, b.char, c.char, d.char]
  | codePoint first more _ => 'u' :: '{' :: ((first :: more).map Digit.char ++ ['}'])
  | continuation e => e.text

def units : Escape → List Nat
  | single c _ => utf16 ((singleEscapes.lookup c).getD c.toNat)
  | nul => [0]
  | byte a b => [hexNumber [a, b]]
  | unit a b c d => [hexNumber [a, b, c, d]]
  | codePoint first more _ => utf16 (hexNumber (first :: more))
  | continuation _ => []

end Escape

/-- A child of a string: a run of characters that stand for themselves, or one escape. -/
inductive StringPart where
  | fragment (text : Text)
  | escape (e : Escape)

namespace StringPart

def type : StringPart → NodeType
  | fragment _ => .stringFragment
  | escape _ => .escapeSequence

def text : StringPart → Text
  | fragment text => text
  | escape e => '\\' :: e.body

def units : StringPart → List Nat
  | fragment text => text.flatMap fun c => utf16 c.toNat
  | escape e => e.units

end StringPart

/-- A node is a string with some parts as its children, and quotes around them. -/
structure SpellsString (source : Text) (n : Node) (parts : List StringPart) : Prop where
  isString : n.isType .string = true
  children : List.Forall₂ (fun child part => child.isType part.type = true ∧
    child.text source = part.text) n.namedChildren parts

namespace Digit

theorem isHexDigit_char (d : Digit 16) : Numeral.isHexDigit d.char = true := by
  rw [Numeral.isHexDigit, d.hexValue?_char (Nat.le_refl 16)]
  rfl

theorem isHexDigit_of_mem {ds : List (Digit 16)} {c : Char} (hc : c ∈ ds.map Digit.char) :
    Numeral.isHexDigit c = true := by
  obtain ⟨d, -, rfl⟩ := List.mem_map.1 hc
  exact d.isHexDigit_char

/-- Digits are read as their number. -/
theorem ofDigits_digitsIn (ds : List (Digit 16)) :
    Numeral.ofDigits 16 (Numeral.digitsIn 16 (ds.map Digit.char)) = hexNumber ds := by
  have hvalues : (ds.map Digit.char).filterMap Numeral.hexValue? = ds.map (·.value.val) := by
    rw [List.filterMap_map, ← List.filterMap_eq_map]
    apply List.filterMap_congr
    intro d _
    exact d.hexValue?_char (Nat.le_refl 16)
  rw [Numeral.digitsIn, if_neg (by decide), hvalues, Numeral.ofDigits_eq, hexNumber]

end Digit

namespace Literal

theorem escapeValue_number {body : Text} {ds : List (Digit 16)} {p : CodePoint}
    (hbody : escapeDigits? body = some (ds.map Digit.char)) (hlength : body.length ≠ 1)
    (hp : p.val = hexNumber ds) : escapeValue body = .ok [p] := by
  have hcodePoint : codePoint (hexNumber ds) = .ok p := by
    rw [codePoint, dif_pos (hp ▸ p.isLt)]
    congr 1
    exact Fin.ext hp.symm
  rw [escapeValue.eq_def]
  split
  · exact absurd rfl hlength
  · rw [hbody]
    simp only [Digit.ofDigits_digitsIn, hcodePoint]
    rfl

theorem escapeDigits?_hex {c : Char} (hc : c = 'u' ∨ c = 'x') (d : Digit 16)
    (ds : List (Digit 16)) :
    escapeDigits? (c :: (d :: ds).map Digit.char) = some ((d :: ds).map Digit.char) := by
  have hbrace : d.char ≠ '{' := d.char_ne (Nat.le_refl 16) (by decide)
  have hall : ((d :: ds).map Digit.char).all Numeral.isHexDigit = true := by
    rw [List.all_eq_true]
    exact fun c hc => Digit.isHexDigit_of_mem hc
  rw [List.map_cons] at hall ⊢
  rw [escapeDigits?]
  · rw [if_pos ⟨hc, List.cons_ne_nil _ _, hall⟩]
  · intro rest _ h
    exact hbrace (List.cons.inj h).1

theorem escapeDigits?_braces (d : Digit 16) (ds : List (Digit 16)) :
    escapeDigits? ('u' :: '{' :: ((d :: ds).map Digit.char ++ ['}'])) =
      some ((d :: ds).map Digit.char) := by
  have hall : ((d :: ds).map Digit.char).reverse.all Numeral.isHexDigit = true := by
    rw [List.all_reverse, List.all_eq_true]
    exact fun c hc => Digit.isHexDigit_of_mem hc
  have hne : ((d :: ds).map Digit.char).reverse ≠ [] := by
    rw [List.map_cons]
    exact List.reverse_ne_nil_iff.2 (List.cons_ne_nil _ _)
  rw [escapeDigits?, List.reverse_concat]
  simp only
  rw [if_pos ⟨hne, hall⟩, List.reverse_reverse]

/-- A code unit by its digits. -/
theorem escapeValue_unit {c : Char} (hc : c = 'u' ∨ c = 'x') (d : Digit 16) (ds : List (Digit 16))
    (hlength : (d :: ds).length ≤ 4) :
    ∃ p, escapeValue (c :: (d :: ds).map Digit.char) = .ok [p] ∧
      codeUnits p = [hexNumber (d :: ds)] := by
  have hlt : hexNumber (d :: ds) < 0x10000 :=
    calc hexNumber (d :: ds) < 16 ^ (d :: ds).length := hexNumber_lt (d :: ds)
      _ ≤ 16 ^ 4 := Nat.pow_le_pow_right (by decide) hlength
  refine ⟨⟨hexNumber (d :: ds), by omega⟩,
    escapeValue_number (escapeDigits?_hex hc d ds) (by simp) rfl, ?_⟩
  rw [codeUnits_eq]
  exact if_pos (Nat.le_of_lt_succ hlt)

/-- The letters with an escape of their own, but for the zero. -/
theorem lookup_letterEscapes {c : Char} (hzero : c ≠ '0') :
    letterEscapes.lookup c = singleEscapes.lookup c := by
  by_cases hmem : c ∈ singleEscapes.map Prod.fst
  · have hall : (singleEscapes.map Prod.fst).all
        (fun c => letterEscapes.lookup c == singleEscapes.lookup c) = true := by
      decide +kernel
    exact eq_of_beq (List.all_eq_true.1 hall c hmem)
  · have hletters : ∀ e ∈ letterEscapes, e.1 = '0' ∨ e.1 ∈ singleEscapes.map Prod.fst := by decide
    rw [List.lookup_eq_none_iff.2, List.lookup_eq_none_iff.2]
    · intro e he
      apply bne_iff_ne.2
      rintro rfl
      exact hmem (List.mem_map_of_mem he)
    · intro e he
      apply bne_iff_ne.2
      rintro rfl
      exact (hletters e he).elim hzero hmem

/-- A character that is neither a digit nor the end of a line stands for one code point. -/
theorem escapeValue_char {c : Char} (hdigit : c.isDigit = false)
    (hline : c ∉ ['\n', '\r', '\u2028', '\u2029']) :
    ∃ p, escapeValue [c] = .ok [p] ∧ p.val = (singleEscapes.lookup c).getD c.toNat := by
  have hzero : c ≠ '0' := by
    rintro rfl
    exact absurd hdigit (by decide)
  have hkeep : continuations.contains [c] = false := by
    rw [List.contains_eq_mem, decide_eq_false_iff_not]
    intro h
    simp only [continuations, List.mem_cons, List.cons.injEq, and_true, List.not_mem_nil,
      reduceCtorEq, and_false, or_false, false_or] at h hline
    exact hline h
  rw [escapeValue.eq_def]
  simp only [lookup_letterEscapes hzero, hkeep]
  cases h : singleEscapes.lookup c with
  | none => exact ⟨CodePoint.ofChar c, rfl, rfl⟩
  | some n =>
    have hrange : ∀ e ∈ singleEscapes, e.2 < 0x110000 := by decide
    have hn : n < 0x110000 := hrange (c, n) (mem_of_lookup_eq_some h)
    refine ⟨⟨n, hn⟩, ?_, rfl⟩
    simp only [codePoint, dif_pos hn]
    rfl

theorem escapeValue_continuation (e : LineEnd) : escapeValue e.text = .ok [] := by
  cases e <;> rfl

/-- What is read of an escape is what it stands for. -/
theorem escapeValue_body (e : Escape) :
    ∃ cps, escapeValue e.body = .ok cps ∧ cps.flatMap codeUnits = e.units := by
  cases e with
  | single c allowed =>
    obtain ⟨hdigit, hother⟩ := allowed
    have hline : c ∉ ['\n', '\r', '\u2028', '\u2029'] := by
      intro h
      exact hother (List.mem_cons_of_mem _ (List.mem_cons_of_mem _ h))
    obtain ⟨p, hvalue, hp⟩ := escapeValue_char hdigit hline
    refine ⟨[p], hvalue, ?_⟩
    rw [List.flatMap_singleton, codeUnits_eq, hp, Escape.units]
  | nul => exact ⟨[0], rfl, rfl⟩
  | byte a b =>
    obtain ⟨p, hvalue, hp⟩ := escapeValue_unit (Or.inr rfl) a [b] (by simp)
    refine ⟨[p], hvalue, ?_⟩
    rw [List.flatMap_singleton, hp, Escape.units]
  | unit a b c d =>
    obtain ⟨p, hvalue, hp⟩ := escapeValue_unit (Or.inl rfl) a [b, c, d] (by simp)
    refine ⟨[p], hvalue, ?_⟩
    rw [List.flatMap_singleton, hp, Escape.units]
  | codePoint first more range =>
    refine ⟨[⟨hexNumber (first :: more), range⟩],
      escapeValue_number (escapeDigits?_braces first more) ?_ rfl, ?_⟩
    · simp [Escape.body]
    · rw [List.flatMap_singleton, codeUnits_eq, Escape.units]
  | continuation e => exact ⟨[], escapeValue_continuation e, rfl⟩

variable {source : Text} {child : Node} {rest : List Node}

theorem readString_fragment (h : child.isType .stringFragment = true) :
    readString source (child :: rest) =
      (readString source rest).map ((child.text source).map CodePoint.ofChar ++ ·) := by
  rw [readString, if_pos h]
  cases readString source rest <;> rfl

theorem readString_escape (h : child.isType .escapeSequence = true) {here : List CodePoint}
    (hvalue : escapeValue ((child.text source).drop 1) = .ok here) :
    readString source (child :: rest) = (readString source rest).map (here ++ ·) := by
  have hfragment : child.isType .stringFragment ≠ true := by
    have hkind : child.kind = .named .escapeSequence := of_decide_eq_true h
    rw [Node.isType, hkind]
    decide
  rw [readString, if_neg hfragment, if_pos h, hvalue]
  cases readString source rest <;> rfl

theorem readString_token (h : child.isNamed = false) :
    readString source (child :: rest) = readString source rest := by
  obtain ⟨kind, role, start, stop, children⟩ := child
  cases kind with
  | named type => contradiction
  | token text =>
    rw [readString, if_neg (by simp [Node.isType, Node.kind]),
      if_neg (by simp [Node.isType, Node.kind])]
    cases readString source rest <;> rfl

/-- Quotes are no part of a string. -/
theorem readString_filter_isNamed (cs : List Node) :
    readString source (cs.filter (·.isNamed)) = readString source cs := by
  induction cs with
  | nil => rfl
  | cons c cs ih =>
    cases hc : c.isNamed with
    | true =>
      rw [List.filter_cons_of_pos hc, readString, readString, ih]
    | false =>
      rw [List.filter_cons_of_neg (by simp [hc]), ih, readString_token hc]

theorem readString_parts {cs : List Node} {parts : List StringPart}
    (h : List.Forall₂ (fun child part => child.isType part.type = true ∧
      child.text source = part.text) cs parts) :
    ∃ cps, readString source cs = .ok cps ∧
      cps.flatMap codeUnits = parts.flatMap StringPart.units := by
  induction h with
  | nil => exact ⟨[], rfl, rfl⟩
  | @cons child part cs parts hchild _ ih =>
    obtain ⟨rest, hrest, hunits⟩ := ih
    obtain ⟨htype, htext⟩ := hchild
    rw [List.flatMap_cons, ← hunits]
    cases part with
    | fragment text =>
      refine ⟨text.map CodePoint.ofChar ++ rest, ?_, ?_⟩
      · rw [readString_fragment htype, htext, hrest]
        rfl
      · rw [List.flatMap_append, List.flatMap_map]
        simp only [codeUnits_eq]
        rfl
    | escape e =>
      obtain ⟨here, hhere, hvalue⟩ := escapeValue_body e
      refine ⟨here ++ rest, ?_, ?_⟩
      · have hchild : escapeValue ((child.text source).drop 1) = .ok here := by rwa [htext]
        rw [readString_escape htype hchild, hrest]
        rfl
      · rw [List.flatMap_append, hvalue]
        rfl

end Literal

namespace SpellsString

/-- The value of a string is written as a line of printable ASCII, and read as JSON this gives the
code units that the parts of the string stand for. -/
theorem written_as_json {source : Text} {n : Node} {parts : List StringPart}
    (h : SpellsString source n parts) :
    ∃ cps t, Literal.ofNode source n = .ok (some (.string cps)) ∧
      Literal.write (.string cps) = .ok t ∧ (∀ c ∈ t, IsPrintableASCII c) ∧
      Json.readString? t = some (parts.flatMap StringPart.units) := by
  obtain ⟨cps, hread, hunits⟩ := Literal.readString_parts h.children
  refine ⟨cps, Literal.writeString cps, ?_, rfl,
    fun c hc => Literal.isPrintableASCII_of_mem_writeString hc, ?_⟩
  · obtain ⟨kind, role, start, stop, children⟩ := n
    obtain rfl : kind = .named .string := of_decide_eq_true h.isString
    rw [Node.namedChildren, Literal.readString_filter_isNamed] at hread
    rw [Literal.ofNode, show Literal.readString source children = .ok cps from hread]
    rfl
  · rw [Json.readString?_writeString, hunits]

/-- Half of a surrogate pair, a line continuation, a zero, and a pair in two escapes. -/
theorem written_with_lone_surrogate :
    ∃ n parts cps t, SpellsString "\"ä\\uD83d\\\r\n\\0\\ud83d\\ude00\"".toList n parts ∧
      Literal.ofNode "\"ä\\uD83d\\\r\n\\0\\ud83d\\ude00\"".toList n =
        .ok (some (.string cps)) ∧
      Literal.write (.string cps) = .ok t ∧
      Json.readString? t = some [0xE4, 0xD83D, 0, 0xD83D, 0xDE00] := by
  let digit (v : Fin 16) : Digit 16 := ⟨v, false⟩
  let half : Escape := .unit ⟨13, true⟩ (digit 8) (digit 3) (digit 13)
  let high : Escape := .unit (digit 13) (digit 8) (digit 3) (digit 13)
  let low : Escape := .unit (digit 13) (digit 14) (digit 0) (digit 0)
  let parts : List StringPart :=
    [.fragment ['ä'], .escape half, .escape (.continuation .both), .escape .nul, .escape high,
      .escape low]
  let n : Node := .mk (.named .string) none 0 26 [.mk (.token "\"") none 0 1 [],
    .mk (.named .stringFragment) none 1 2 [], .mk (.named .escapeSequence) none 2 8 [],
    .mk (.named .escapeSequence) none 8 11 [], .mk (.named .escapeSequence) none 11 13 [],
    .mk (.named .escapeSequence) none 13 19 [], .mk (.named .escapeSequence) none 19 25 [],
    .mk (.token "\"") none 25 26 []]
  have spelled : SpellsString "\"ä\\uD83d\\\r\n\\0\\ud83d\\ude00\"".toList n parts :=
    ⟨rfl, .cons ⟨rfl, rfl⟩ (.cons ⟨rfl, rfl⟩ (.cons ⟨rfl, rfl⟩ (.cons ⟨rfl, rfl⟩
      (.cons ⟨rfl, rfl⟩ (.cons ⟨rfl, rfl⟩ .nil)))))⟩
  have hunits : parts.flatMap StringPart.units = [0xE4, 0xD83D, 0, 0xD83D, 0xDE00] := by
    decide +kernel
  obtain ⟨cps, t, hread, hwrite, -, hjson⟩ := written_as_json spelled
  rw [hunits] at hjson
  exact ⟨n, parts, cps, t, spelled, hread, hwrite, hjson⟩

-- A parser may join a line continuation and a separator behind it. Such a child is no escape of the
-- language, and the carriage return in it is read as a character.
example : Literal.escapeValue ['\r', '\u2028'] = .ok [13, 0x2028] := rfl

end SpellsString

end DocFlow
