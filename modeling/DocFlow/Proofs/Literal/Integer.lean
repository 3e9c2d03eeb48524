import Mathlib.Data.Nat.Digits.Lemmas
import DocFlow.Literal.Basic
import DocFlow.Proofs.Documented.HiddenLiteral

namespace DocFlow

open Script

inductive Radix where
  | hexadecimal
  | octal
  | binary
  deriving DecidableEq

def Radix.base : Radix → Nat
  | hexadecimal => 16
  | octal => 8
  | binary => 2

theorem Radix.base_le (radix : Radix) : radix.base ≤ 16 := by
  cases radix <;> decide

def Radix.mark (upper : Bool) : Radix → Char
  | hexadecimal => if upper then 'X' else 'x'
  | octal => if upper then 'O' else 'o'
  | binary => if upper then 'B' else 'b'

structure Digit (base : Nat) where
  value : Fin base
  upper : Bool

def Digit.char {base : Nat} (d : Digit base) : Char :=
  if d.upper then (Nat.digitChar d.value).toUpper else Nat.digitChar d.value

/-- One digit or more. A separator may stand before each digit but the first. -/
structure Digits (base : Nat) where
  first : Digit base
  more : List (Bool × Digit base)

namespace Digits

variable {base : Nat}

def toList (ds : Digits base) : List (Digit base) := ds.first :: ds.more.map Prod.snd

def text (ds : Digits base) : Text :=
  ds.first.char :: ds.more.flatMap fun d => if d.1 then ['_', d.2.char] else [d.2.char]

def values (ds : Digits base) : List Nat := ds.toList.map (·.value)

end Digits

def decimalText (ds : List (Fin 10)) : Text := ds.map fun d => Nat.digitChar d.val

/-- Integer literals. One that starts with a zero and goes on with digits has neither separators nor
the suffix of big integers. -/
inductive IntegerLiteral where
  | decimal (digits : Digits 10) (leading : digits.first.value ≠ 0 ∨ digits.more = []) (big : Bool)
  | prefixed (radix : Radix) (upper : Bool) (digits : Digits radix.base) (big : Bool)
  | leadingZero (first : Fin 10) (more : List (Fin 10))

namespace IntegerLiteral

def suffix (big : Bool) : Text := if big then ['n'] else []

def text : IntegerLiteral → Text
  | decimal digits _ big => digits.text ++ suffix big
  | prefixed radix upper digits big => '0' :: radix.mark upper :: (digits.text ++ suffix big)
  | leadingZero first more => decimalText (0 :: first :: more)

def isBig : IntegerLiteral → Bool
  | decimal _ _ big | prefixed _ _ _ big => big
  | leadingZero .. => false

def digitValues : IntegerLiteral → List Nat
  | decimal digits .. => digits.values
  | prefixed _ _ digits _ => digits.values
  | leadingZero first more => 0 :: (first :: more).map Fin.val

/-- Whether a literal is octal by its leading zero. -/
def IsLegacyOctal : IntegerLiteral → Prop
  | leadingZero first more => ∀ d ∈ first :: more, d.val < 8
  | _ => False

instance (l : IntegerLiteral) : Decidable l.IsLegacyOctal :=
  match l with
  | decimal .. | prefixed .. => inferInstanceAs (Decidable False)
  | leadingZero first more => List.decidableBAll (fun d : Fin 10 => d.val < 8) (first :: more)

def base : IntegerLiteral → Nat
  | decimal .. => 10
  | prefixed radix .. => radix.base
  | leadingZero first more => if IsLegacyOctal (leadingZero first more) then 8 else 10

/-- The base in which a literal is read. -/
def readBase : IntegerLiteral → Nat
  | decimal .. | leadingZero .. => 10
  | prefixed radix .. => radix.base

def value (l : IntegerLiteral) : Nat := Nat.ofDigits l.base l.digitValues.reverse

def reading (l : IntegerLiteral) : Nat := Nat.ofDigits l.readBase l.digitValues.reverse

end IntegerLiteral

/-- An integer literal, alone or behind a sign. There is no plus before a big integer. -/
inductive SignedInteger where
  | plain (literal : IntegerLiteral)
  | negative (literal : IntegerLiteral)
  | positive (literal : IntegerLiteral) (plain : literal.isBig = false)

namespace SignedInteger

def literal : SignedInteger → IntegerLiteral
  | plain l | negative l | positive l _ => l

def apply (n : Nat) : SignedInteger → Int
  | negative _ => -n
  | _ => n

def value (e : SignedInteger) : Int := e.apply e.literal.value

end SignedInteger

/-- Nodes that spell a signed integer literal in any number of parentheses without comments. -/
inductive SpellsInteger (source : Text) : SignedInteger → Node → Prop where
  | plain {l n} (hn : n.isType .number) (htext : n.text source = l.text) :
    SpellsInteger source (.plain l) n
  | negative {l n o a} (hn : n.isType .unaryExpression) (ho : n.child? .operator = some o)
    (minus : o.isToken "-") (ha : n.child? .argument = some a) (hnumber : a.isType .number)
    (htext : a.text source = l.text) : SpellsInteger source (.negative l) n
  | positive {l n o a} (notBig : l.isBig = false) (hn : n.isType .unaryExpression)
    (ho : n.child? .operator = some o) (plus : o.isToken "+") (ha : n.child? .argument = some a)
    (hnumber : a.isType .number) (htext : a.text source = l.text) :
    SpellsInteger source (.positive l notBig) n
  | parenthesized {e n inner} (hn : n.isType .parenthesizedExpression)
    (hinner : n.namedChildren = [inner]) (he : SpellsInteger source e inner) :
    SpellsInteger source e n

namespace Digit

theorem hexValue?_char {base : Nat} (hbase : base ≤ 16) (d : Digit base) :
    Numeral.hexValue? d.char = some d.value := by
  obtain ⟨v, upper⟩ := d
  have hall : ∀ (v : Fin 16) (upper : Bool), Numeral.hexValue? (char ⟨v, upper⟩) = some v.val := by
    decide +kernel
  exact hall (v.castLE hbase) upper

theorem digitValue?_digitChar (d : Fin 10) : Text.digitValue? (Nat.digitChar d) = some d.val := by
  revert d
  decide +kernel

theorem char_eq (d : Digit 10) : d.char = Nat.digitChar d.value := by
  obtain ⟨v, upper⟩ := d
  revert v upper
  decide +kernel

theorem char_ne {base : Nat} (hbase : base ≤ 16) (d : Digit base) {c : Char}
    (hc : Numeral.hexValue? c = none) : d.char ≠ c := by
  rintro rfl
  rw [hexValue?_char hbase] at hc
  contradiction

end Digit

namespace Digits

variable {base : Nat} (hbase : base ≤ 16) (ds : Digits base)
include hbase

/-- Without the separators the digits are left. -/
theorem filter_text :
    ds.text.filter (· != '_') = ds.toList.map Digit.char := by
  have hkeep (d : Digit base) : (d.char != '_') = true := by
    rw [bne_iff_ne]
    exact d.char_ne hbase (by decide)
  obtain ⟨first, more⟩ := ds
  rw [text, List.filter_cons_of_pos (p := (· != '_')) (hkeep _), toList, List.map_cons,
    List.cons_inj_right]
  induction more with
  | nil => rfl
  | cons d more ih =>
    rw [List.flatMap_cons, List.filter_append, ih, List.map_cons, List.map_cons]
    by_cases hseparated : d.1 = true
    · rw [if_pos hseparated]
      simp [hkeep]
    · rw [if_neg hseparated]
      simp [hkeep]

/-- The digits are read as their values, and the suffix is no digit. -/
theorem filterMap_hexValue? (big : Bool) :
    (ds.toList.map Digit.char ++ IntegerLiteral.suffix big).filterMap Numeral.hexValue? =
      ds.values := by
  have hsuffix : (IntegerLiteral.suffix big).filterMap Numeral.hexValue? = [] := by
    cases big <;> rfl
  rw [List.filterMap_append, hsuffix, List.append_nil, values, List.filterMap_map,
    ← List.filterMap_eq_map]
  apply List.filterMap_congr
  intro d _
  exact d.hexValue?_char hbase

end Digits

theorem Numeral.ofDigits_eq (base : Nat) (ds : List Nat) :
    Numeral.ofDigits base ds = Nat.ofDigits base ds.reverse := by
  rw [Nat.ofDigits_eq_foldr, List.foldr_reverse, Numeral.ofDigits]
  congr 1
  funext n d
  rw [Nat.cast_id, Nat.mul_comm, Nat.add_comm]

/-- Plain digits are read as decimal. -/
theorem Numeral.readDecimal_digits {ds : List (Fin 10)} (hds : ds.length ≤ digitLimit) :
    Numeral.readDecimal (decimalText ds) =
      .ok (Nat.ofDigits 10 (ds.map Fin.val).reverse) := by
  have hdigits : Numeral.digitsIn 10 (decimalText ds) = ds.map Fin.val := by
    rw [Numeral.digitsIn, if_pos rfl, decimalText, List.filterMap_map, ← List.filterMap_eq_map]
    apply List.filterMap_congr
    intro d _
    exact Digit.digitValue?_digitChar d
  rw [Numeral.readDecimal, hdigits, List.length_map, if_neg (by omega), Numeral.ofDigits_eq]

namespace Literal

theorem readPlain_digits {ds : List (Fin 10)} (hds : ds.length ≤ Numeral.digitLimit) :
    readPlain (decimalText ds) =
      .integer (Nat.ofDigits 10 (ds.map Fin.val).reverse : Nat) := by
  have hall : (decimalText ds).all Text.isDigit = true := by
    rw [decimalText, List.all_map, List.all_eq_true]
    intro d _
    have hvalue := Digit.digitValue?_digitChar d
    rw [Text.digitValue?, Option.map_eq_some_iff] at hvalue
    obtain ⟨r, hr, -⟩ := hvalue
    exact Option.isSome_of_eq_some hr
  rw [readPlain, if_pos hall, Numeral.readDecimal_digits hds]

end Literal

namespace IntegerLiteral

/-- A decimal literal without its separators. -/
theorem filter_text_decimal (digits : Digits 10) (big : Bool) :
    (digits.text ++ suffix big).filter (· != '_') =
      decimalText (digits.toList.map Digit.value) ++ suffix big := by
  have hsuffix : (suffix big).filter (· != '_') = suffix big := by
    cases big <;> rfl
  rw [List.filter_append, hsuffix, digits.filter_text (by decide), decimalText, List.map_map]
  congr 2
  funext d
  exact d.char_eq

theorem ne_of_mem_decimalText {ds : List (Fin 10)} {c : Char} (hc : c ∈ decimalText ds) :
    c ≠ 'n' ∧ c ≠ '_' ∧ c ∉ ['x', 'X', 'o', 'O', 'b', 'B'] := by
  have hall : ∀ d : Fin 10, Nat.digitChar d ≠ 'n' ∧ Nat.digitChar d ≠ '_' ∧
      Nat.digitChar d ∉ ['x', 'X', 'o', 'O', 'b', 'B'] := by
    decide
  obtain ⟨d, -, rfl⟩ := List.mem_map.1 hc
  exact hall d

theorem filter_decimalText (ds : List (Fin 10)) :
    (decimalText ds).filter (· != '_') = decimalText ds := by
  apply List.filter_eq_self.2
  intro c hc
  exact bne_iff_ne.2 (ne_of_mem_decimalText hc).2.1

theorem baseOf?_eq_none {t : Text}
    (h : ∀ c rest, t = '0' :: c :: rest → c ∉ ['x', 'X', 'o', 'O', 'b', 'B']) :
    Literal.baseOf? t = none := by
  rw [Literal.baseOf?.eq_def]
  split
  · next c rest =>
    have hletter := h c rest rfl
    simp only [List.mem_cons, List.not_mem_nil, not_or, or_false] at hletter
    obtain ⟨hx, hX, ho, hO, hb, hB⟩ := hletter
    rw [if_neg (by simp [hx, hX]), if_neg (by simp [ho, hO]), if_neg (by simp [hb, hB])]
  · rfl

theorem baseOf?_mark (radix : Radix) (upper : Bool) (t : Text) :
    Literal.baseOf? ('0' :: radix.mark upper :: t) = some radix.base := by
  cases radix <;> cases upper <;> rfl

/-- Decimal digits are a plain numeral, or a big integer with the suffix. -/
theorem readNumber_decimalText {t : Text} {d : Fin 10} {ds : List (Fin 10)} (big : Bool)
    (ht : t.filter (· != '_') = decimalText (d :: ds) ++ suffix big)
    (hbase : Literal.baseOf? (decimalText (d :: ds) ++ suffix big) = none)
    (hlength : (d :: ds).length ≤ Numeral.digitLimit) :
    Literal.readNumber t =
      .ok (.integer (Nat.ofDigits 10 ((d :: ds).map Fin.val).reverse : Nat)) := by
  rw [Literal.readNumber, ht]
  simp only [hbase]
  cases big with
  | true =>
    rw [suffix, if_pos rfl, List.getLast?_concat, List.dropLast_concat]
    rw [Literal.readInteger, Numeral.readDecimal_digits hlength]
    rfl
  | false =>
    rw [suffix, if_neg Bool.false_ne_true, List.append_nil]
    split
    · next hlast =>
      exact absurd rfl (ne_of_mem_decimalText (List.mem_of_getLast? hlast)).1
    · rw [Literal.readPlain_digits hlength]

theorem readNumber_decimal {digits : Digits 10}
    (leading : digits.first.value ≠ 0 ∨ digits.more = []) (big : Bool)
    (hlength : digits.values.length ≤ Numeral.digitLimit) :
    Literal.readNumber (text (.decimal digits leading big)) =
      .ok (.integer (reading (.decimal digits leading big))) := by
  have hvalues : (digits.toList.map Digit.value).map Fin.val = digits.values := by
    rw [List.map_map]
    rfl
  rw [← hvalues, List.length_map] at hlength
  rw [reading, digitValues, readBase, ← hvalues]
  have hfilter := filter_text_decimal digits big
  rw [Digits.toList, List.map_cons] at hlength hfilter ⊢
  apply readNumber_decimalText big hfilter _ hlength
  apply baseOf?_eq_none
  intro c rest htext
  obtain ⟨hzero, hmore⟩ := List.cons.inj htext
  -- A zero that leads is the only digit, so the suffix may follow it and nothing else.
  have hfirst : digits.first.value = 0 := by
    have hall : ∀ d : Fin 10, Nat.digitChar d = '0' → d = 0 := by decide
    exact hall _ hzero
  rw [leading.resolve_left (not_not_intro hfirst)] at hmore
  cases big with
  | true =>
    rw [← (List.cons.inj hmore).1]
    decide
  | false => cases hmore

theorem readNumber_prefixed (radix : Radix) (upper : Bool) (digits : Digits radix.base)
    (big : Bool) :
    Literal.readNumber (text (.prefixed radix upper digits big)) =
      .ok (.integer (reading (.prefixed radix upper digits big))) := by
  have hmark : ('0' != '_') = true ∧ (radix.mark upper != '_') = true := by
    cases radix <;> cases upper <;> decide
  have hsuffix : (suffix big).filter (· != '_') = suffix big := by
    cases big <;> rfl
  have hfilter : (text (.prefixed radix upper digits big)).filter (· != '_') =
      '0' :: radix.mark upper :: (digits.toList.map Digit.char ++ suffix big) := by
    rw [text, List.filter_cons_of_pos (p := (· != '_')) hmark.1,
      List.filter_cons_of_pos (p := (· != '_')) hmark.2, List.filter_append,
      digits.filter_text radix.base_le, hsuffix]
  have hdigits := digits.filterMap_hexValue? radix.base_le big
  rw [Literal.readNumber, hfilter]
  simp only [baseOf?_mark, List.drop_succ_cons, List.drop_zero]
  rw [Numeral.digitsIn, if_neg (by decide), hdigits, Numeral.ofDigits_eq, reading, readBase,
    digitValues]

theorem readNumber_leadingZero (first : Fin 10) (more : List (Fin 10))
    (hlength : (0 :: first :: more).length ≤ Numeral.digitLimit) :
    Literal.readNumber (text (.leadingZero first more)) =
      .ok (.integer (reading (.leadingZero first more))) := by
  have hfilter : (text (.leadingZero first more)).filter (· != '_') =
      decimalText (0 :: first :: more) ++ suffix false := by
    rw [text, filter_decimalText, suffix, if_neg Bool.false_ne_true, List.append_nil]
  apply readNumber_decimalText false hfilter
  · apply baseOf?_eq_none
    intro c rest htext
    obtain ⟨-, hmore⟩ := List.cons.inj htext
    have hmem : c ∈ decimalText (first :: more) ++ suffix false := by
      rw [show decimalText (first :: more) ++ suffix false = c :: rest from hmore]
      exact List.mem_cons_self
    rw [suffix, if_neg Bool.false_ne_true, List.append_nil] at hmem
    exact (ne_of_mem_decimalText hmem).2.2
  · exact hlength

/-- What is read is the value of the digits, in the base of the prefix or else in base ten. -/
theorem readNumber_text (l : IntegerLiteral) (hlength : l.digitValues.length ≤ Numeral.digitLimit) :
    Literal.readNumber l.text = .ok (.integer l.reading) := by
  cases l with
  | decimal digits leading big => exact readNumber_decimal leading big hlength
  | prefixed radix upper digits big => exact readNumber_prefixed radix upper digits big
  | leadingZero first more =>
    rw [digitValues, List.length_cons, List.length_map] at hlength
    exact readNumber_leadingZero first more hlength

/-- Octal digits make more in base ten, unless only the last one counts. -/
theorem ofDigits_ten_eq_iff {ds : List Nat} (hds : ∀ d ∈ ds, d < 8) :
    Nat.ofDigits 10 ds = Nat.ofDigits 8 ds ↔ Nat.ofDigits 8 ds < 8 := by
  have hle (ds : List Nat) : Nat.ofDigits 8 ds ≤ Nat.ofDigits 10 ds :=
    Nat.ofDigits_monotone ds (by decide)
  have hzero (ds : List Nat) : Nat.ofDigits 8 ds = 0 → Nat.ofDigits 10 ds = 0 := by
    induction ds with
    | nil => exact fun _ => rfl
    | cons d ds ih =>
      rw [Nat.ofDigits_cons, Nat.ofDigits_cons]
      intro h
      have hrest := ih (by omega)
      omega
  cases ds with
  | nil => exact iff_of_true rfl (by decide)
  | cons d ds =>
    have hd := hds d List.mem_cons_self
    have hmore := hle ds
    have hnone := hzero ds
    rw [Nat.ofDigits_cons, Nat.ofDigits_cons]
    omega

/-- A literal is read as its value, unless it is octal by its leading zero and reaches eight. -/
theorem reading_eq_value_iff (l : IntegerLiteral) :
    l.reading = l.value ↔ (l.IsLegacyOctal → l.value < 8) := by
  cases l with
  | decimal => exact iff_of_true rfl nofun
  | prefixed => exact iff_of_true rfl nofun
  | leadingZero first more =>
    by_cases hoctal : IsLegacyOctal (.leadingZero first more)
    · have hdigits : ∀ d ∈ (digitValues (.leadingZero first more)).reverse, d < 8 := by
        intro d hd
        rw [List.mem_reverse, digitValues, List.mem_cons, List.mem_map] at hd
        rcases hd with rfl | ⟨d, hd, rfl⟩
        · decide
        · exact hoctal d hd
      rw [value, reading, readBase, base, if_pos hoctal, ofDigits_ten_eq_iff hdigits]
      simp [hoctal]
    · rw [value, reading, readBase, base, if_neg hoctal]
      exact iff_of_true rfl fun h => absurd h hoctal

theorem reading_lt {l : IntegerLiteral} (hlength : l.digitValues.length ≤ Numeral.digitLimit)
    (hvalue : l.value < 10 ^ Numeral.digitLimit) : l.reading < 10 ^ Numeral.digitLimit := by
  cases l with
  | decimal => exact hvalue
  | prefixed => exact hvalue
  | leadingZero first more =>
    have hdigits : ∀ d ∈ (digitValues (.leadingZero first more)).reverse, d < 10 := by
      intro d hd
      rw [List.mem_reverse, digitValues, List.mem_cons, List.mem_map] at hd
      rcases hd with rfl | ⟨d, -, rfl⟩
      · decide
      · exact d.isLt
    rw [← List.length_reverse] at hlength
    calc reading (.leadingZero first more)
        < 10 ^ (digitValues (.leadingZero first more)).reverse.length :=
          Nat.ofDigits_lt_base_pow_length (b := 10) (by decide) hdigits
      _ ≤ 10 ^ Numeral.digitLimit := Nat.pow_le_pow_right (by decide) hlength

end IntegerLiteral

namespace SignedInteger

theorem natAbs_apply (e : SignedInteger) (n : Nat) : (e.apply n).natAbs = n := by
  cases e with
  | negative => exact Int.natAbs_neg n
  | plain | positive => rfl

theorem apply_inj (e : SignedInteger) {m n : Nat} : e.apply m = e.apply n ↔ m = n := by
  constructor
  · intro h
    rw [← e.natAbs_apply m, h, e.natAbs_apply]
  · rintro rfl
    rfl

end SignedInteger

/-- What is read at a node that spells an integer literal. -/
theorem SpellsInteger.ofNode_eq {source : Text} {e : SignedInteger} {n : Node}
    (h : SpellsInteger source e n)
    (hlength : e.literal.digitValues.length ≤ Numeral.digitLimit) :
    Literal.ofNode source n = .ok (some (.integer (e.apply e.literal.reading))) := by
  induction h with
  | @plain l n hn htext =>
    obtain ⟨kind, role, start, stop, children⟩ := n
    obtain rfl : kind = .named .number := of_decide_eq_true hn
    rw [Literal.ofNode, htext, l.readNumber_text hlength]
    rfl
  | @negative l n o a hn ho minus ha hnumber htext =>
    obtain ⟨kind, role, start, stop, children⟩ := n
    obtain rfl : kind = .named .unaryExpression := of_decide_eq_true hn
    rw [Literal.ofNode, Literal.readUnary, ha]
    simp only [hnumber, htext, l.readNumber_text hlength, ho, if_true]
    simp only [Except.map, Literal.applySign, minus, if_true]
    rfl
  | @positive l n o a notBig hn ho plus ha hnumber htext =>
    obtain ⟨kind, role, start, stop, children⟩ := n
    obtain rfl : kind = .named .unaryExpression := of_decide_eq_true hn
    have minus : o.isToken "-" = false := by
      have hkind : o.kind = .token "+" := of_decide_eq_true plus
      rw [Node.isToken, hkind]
      decide
    rw [Literal.ofNode, Literal.readUnary, ha]
    simp only [hnumber, htext, l.readNumber_text hlength, ho, if_true]
    simp only [Except.map, Literal.applySign, minus, plus, if_true, Bool.false_eq_true, if_false]
    rfl
  | @parenthesized e n inner hn hinner _ ih =>
    obtain ⟨kind, role, start, stop, children⟩ := n
    obtain rfl : kind = .named .parenthesizedExpression := of_decide_eq_true hn
    have hfilter : children.filter Node.isNamed = [inner] := hinner
    have hfirst : Literal.ofFirst source children = Literal.ofNode source inner := by
      rw [Literal.ofFirst_eq, ← List.head?_filter, hfilter]
      rfl
    rw [Literal.ofNode, hfirst, ih hlength]

theorem Text.ofInt_eq (n : Int) : Text.ofInt n = (toString n).toList := by
  cases n with
  | ofNat n => simp [Text.ofInt, Text.ofNat, toString, Int.repr]
  | negSucc n => simp [Text.ofInt, Text.ofNat, toString, Int.repr, Int.negSucc_lt_zero]

/-- An integer literal of at most 4300 digits and a value of at most 4300 digits is read as an
integer, behind its sign and in any number of parentheses, and written in decimal. The integer is
the value of the expression, unless the literal is octal by its leading zero and reaches eight. -/
theorem SpellsInteger.read_and_written {source : Text} {e : SignedInteger} {n : Node}
    (h : SpellsInteger source e n) (hlength : e.literal.digitValues.length ≤ Numeral.digitLimit)
    (hvalue : e.literal.value < 10 ^ Numeral.digitLimit) :
    Literal.ofNode source n = .ok (some (.integer (e.apply e.literal.reading))) ∧
      Literal.write (.integer (e.apply e.literal.reading)) =
        .ok (toString (e.apply e.literal.reading)).toList ∧
      (e.apply e.literal.reading = e.value ↔
        (e.literal.IsLegacyOctal → e.literal.value < 8)) := by
  have hlt := IntegerLiteral.reading_lt hlength hvalue
  rw [← e.natAbs_apply e.literal.reading] at hlt
  refine ⟨h.ofNode_eq hlength, ?_, ?_⟩
  · rw [Literal.write, Literal.writeInteger, Nat.pow_eq, if_pos hlt, Text.ofInt_eq]
  · rw [SignedInteger.value, e.apply_inj, IntegerLiteral.reading_eq_value_iff]

/-- A negative hexadecimal literal in parentheses. -/
theorem read_of_negative_hexadecimal :
    ∃ e n, SpellsInteger "(-0X1_f)".toList e n ∧
      e.literal.digitValues.length ≤ Numeral.digitLimit ∧
      e.literal.value < 10 ^ Numeral.digitLimit ∧ e.value = -31 ∧
      Literal.ofNode "(-0X1_f)".toList n = .ok (some (.integer (-31))) ∧
      Literal.write (.integer (-31)) = .ok "-31".toList := by
  let digits : Digits 16 := ⟨⟨1, false⟩, [(true, ⟨15, false⟩)]⟩
  let l : IntegerLiteral := .prefixed .hexadecimal true digits false
  let number : Node := .mk (.named .number) (some .argument) 2 7 []
  let unary : Node := .mk (.named .unaryExpression) none 1 7
    [.mk (.token "-") (some .operator) 1 2 [], number]
  let n : Node := .mk (.named .parenthesizedExpression) none 0 8
    [.mk (.token "(") none 0 1 [], unary, .mk (.token ")") none 7 8 []]
  have hunary : SpellsInteger "(-0X1_f)".toList (.negative l) unary :=
    .negative (by decide) rfl (by decide) rfl (by decide) (by decide +kernel)
  have hn : SpellsInteger "(-0X1_f)".toList (.negative l) n :=
    .parenthesized (by decide) rfl hunary
  have hlength : l.digitValues.length ≤ Numeral.digitLimit := by decide
  have hlimit : l.value < 10 ^ Numeral.digitLimit := by
    calc l.value = 31 := by decide +kernel
      _ < 10 ^ 2 := by decide
      _ ≤ 10 ^ Numeral.digitLimit := Nat.pow_le_pow_right (by decide) (by decide)
  obtain ⟨hread, hwritten, hvalue⟩ := hn.read_and_written hlength hlimit
  have hv : (SignedInteger.negative l).value = -31 := by decide +kernel
  rw [hvalue.2 nofun, hv] at hread hwritten
  exact ⟨.negative l, n, hn, hlength, hlimit, hv, hread, hwritten⟩

/-- With a leading zero the digits of eight are read as ten. -/
theorem read_of_leading_zero :
    ∃ l : IntegerLiteral, l.text = "010".toList ∧ l.value = 8 ∧
      Literal.ofNode "010".toList (.mk (.named .number) none 0 3 []) =
        .ok (some (.integer 10)) := by
  refine ⟨.leadingZero 1 [0], by decide +kernel, by decide +kernel, ?_⟩
  rfl

end DocFlow
