import DocFlow.Proofs.Literal.Integer

namespace DocFlow

/-- The code units of a code point: itself in the basic plane, else a surrogate pair. -/
def utf16 (n : Nat) : List Nat :=
  if n ≤ 0xFFFF then [n] else [0xD800 + (n - 0x10000) / 0x400, 0xDC00 + (n - 0x10000) % 0x400]

theorem lt_of_mem_utf16 {n u : Nat} (hn : n < 0x110000) (hu : u ∈ utf16 n) : u < 0x10000 := by
  rw [utf16] at hu
  split at hu
  · rw [List.mem_singleton.1 hu]
    omega
  · simp only [List.mem_cons, List.not_mem_nil, or_false] at hu
    omega

theorem Literal.codeUnits_eq (p : CodePoint) : Literal.codeUnits p = utf16 p.val := by
  simp only [Literal.codeUnits, utf16, Nat.lt_succ_iff]

def IsPrintableASCII (c : Char) : Prop := 0x20 ≤ c.toNat ∧ c.toNat ≤ 0x7E

instance (c : Char) : Decidable (IsPrintableASCII c) :=
  inferInstanceAs (Decidable (0x20 ≤ c.toNat ∧ c.toNat ≤ 0x7E))

theorem toNat_ofNat_of_lt {n : Nat} (hn : n < 0x7F) : (Char.ofNat n).toNat = n := by
  have hall : ∀ n < 0x7F, (Char.ofNat n).toNat = n := by decide
  exact hall n hn

theorem mem_of_lookup_eq_some {α β : Type} [BEq α] [LawfulBEq α] {l : List (α × β)} {a : α} {b : β}
    (h : l.lookup a = some b) : (a, b) ∈ l := by
  obtain ⟨before, after, rfl, -⟩ := List.lookup_eq_some_iff.1 h
  exact List.mem_append_right before List.mem_cons_self

namespace Json

def escapes : List (Char × Nat) :=
  [('"', 0x22), ('\\', 0x5C), ('/', 0x2F), ('b', 8), ('f', 12), ('n', 10), ('r', 13), ('t', 9)]

def unit? (a b c d : Char) : Option Nat := do
  let ds ← [a, b, c, d].mapM Numeral.hexValue?
  return Nat.ofDigits 16 ds.reverse

def units? : Text → Option (List Nat)
  | [] => none
  | ['"'] => some []
  | '\\' :: 'u' :: a :: b :: c :: d :: rest => do
    let n ← unit? a b c d
    return n :: (← units? rest)
  | '\\' :: c :: rest => do
    let n ← escapes.lookup c
    return n :: (← units? rest)
  | c :: rest => do
    guard (c ≠ '"' ∧ c ≠ '\\' ∧ 0x20 ≤ c.toNat)
    return utf16 c.toNat ++ (← units? rest)

/-- The code units that a JSON string denotes. -/
def readString? : Text → Option (List Nat)
  | '"' :: rest => units? rest
  | _ => none

/-- Four digits are read as the number that they write. -/
theorem unit?_hex {n : Nat} (hn : n < 0x10000) :
    ∃ a b c d, Text.hex 4 n = [a, b, c, d] ∧ unit? a b c d = some n := by
  have hdigit (m : Nat) : Numeral.hexValue? (Nat.digitChar (m % 16)) = some (m % 16) :=
    Digit.hexValue?_char (Nat.le_refl 16) ⟨⟨m % 16, Nat.mod_lt m (by decide)⟩, false⟩
  refine ⟨_, _, _, _, rfl, ?_⟩
  simp only [unit?, List.mapM_cons, List.mapM_nil, hdigit, Option.bind_eq_bind, Option.bind_some,
    Option.pure_def, Option.some.injEq, List.reverse_cons, List.reverse_nil, List.nil_append,
    List.cons_append, Nat.ofDigits_cons, Nat.ofDigits_nil]
  omega

/-- A character that stands for itself. -/
theorem units?_char {n : Nat} (hn : 0x20 ≤ n ∧ n < 0x7F) (hquote : n ≠ 0x22)
    (hbackslash : n ≠ 0x5C) (rest : Text) :
    units? (Char.ofNat n :: rest) = (units? rest).map (n :: ·) := by
  have hnat := toNat_ofNat_of_lt hn.2
  have hne (c : Char) (h : n ≠ c.toNat) : Char.ofNat n ≠ c := by
    rintro rfl
    exact h hnat.symm
  have hq := hne '"' hquote
  have hb := hne '\\' hbackslash
  have hunits : utf16 n = [n] := if_pos (by omega)
  rw [units?.eq_def]
  split
  · contradiction
  · next h => exact absurd (List.cons.inj h).1 hq
  · next h => exact absurd (List.cons.inj h).1 hb
  · next h => exact absurd (List.cons.inj h).1 hb
  · next h =>
    obtain ⟨rfl, rfl⟩ := List.cons.inj h
    simp [guard, hq, hb, hnat, hn.1, hunits, Option.map_eq_bind]

/-- What is written for a code unit is read as this code unit. -/
theorem units?_writeUnit {n : Nat} (hn : n < 0x10000) (rest : Text) :
    units? (Literal.writeUnit n ++ rest) = (units? rest).map (n :: ·) := by
  rw [Literal.writeUnit]
  split
  · next c hc =>
    have hescapes : ∀ e ∈ Literal.shortEscapes, e.2 ≠ 'u' ∧ escapes.lookup e.2 = some e.1 := by
      decide
    obtain ⟨hu, hlookup⟩ := hescapes (n, c) (mem_of_lookup_eq_some hc)
    rw [List.cons_append, List.cons_append, List.nil_append, units?]
    · rw [hlookup, Option.map_eq_bind]
      rfl
    · intro _ _ _ _ _ h _
      exact hu h
  · next hnone =>
    rw [List.lookup_eq_none_iff] at hnone
    split
    · next hascii =>
      apply units?_char hascii
      · exact bne_iff_ne.1 (hnone (0x22, '"') (by decide))
      · exact bne_iff_ne.1 (hnone (0x5C, '\\') (by decide))
    · obtain ⟨a, b, c, d, hhex, hunit⟩ := unit?_hex hn
      rw [hhex]
      simp only [List.cons_append, List.nil_append, units?, hunit]
      rw [Option.map_eq_bind]
      rfl

/-- A written string is read as its code units. -/
theorem readString?_writeString (s : List CodePoint) :
    readString? (Literal.writeString s) = some (s.flatMap Literal.codeUnits) := by
  have hunits (us : List Nat) (hus : ∀ u ∈ us, u < 0x10000) :
      units? (us.flatMap Literal.writeUnit ++ ['"']) = some us := by
    induction us with
    | nil => rfl
    | cons u us ih =>
      rw [List.flatMap_cons, List.append_assoc, units?_writeUnit (hus u List.mem_cons_self),
        ih fun v hv => hus v (List.mem_cons_of_mem u hv), Option.map_some]
  rw [Literal.writeString, readString?]
  apply hunits
  intro u hu
  obtain ⟨p, -, hp⟩ := List.mem_flatMap.1 hu
  rw [Literal.codeUnits_eq] at hp
  exact lt_of_mem_utf16 p.isLt hp

end Json

theorem Text.isPrintableASCII_of_mem_hex {width n : Nat} {d : Char} (hd : d ∈ hex width n) :
    IsPrintableASCII d := by
  have hdigits : ∀ m < 16, IsPrintableASCII (Nat.digitChar m) := by decide
  induction width generalizing n with
  | zero => contradiction
  | succ width ih =>
    rcases List.mem_append.1 hd with hd | hd
    · exact ih hd
    · rw [List.mem_singleton.1 hd]
      exact hdigits _ (Nat.mod_lt n (by decide))

theorem Literal.isPrintableASCII_of_mem_writeUnit {n : Nat} {c : Char}
    (hc : c ∈ Literal.writeUnit n) : IsPrintableASCII c := by
  have hbackslash : IsPrintableASCII '\\' := by decide
  rw [Literal.writeUnit] at hc
  split at hc
  · next e he =>
    have hescapes : ∀ e ∈ Literal.shortEscapes, IsPrintableASCII e.2 := by decide
    rcases List.mem_pair.1 hc with rfl | rfl
    · exact hbackslash
    · exact hescapes _ (mem_of_lookup_eq_some he)
  · split at hc
    · next hascii =>
      obtain rfl := List.mem_singleton.1 hc
      rw [IsPrintableASCII, toNat_ofNat_of_lt hascii.2]
      omega
    · rcases List.mem_cons.1 hc with rfl | hc
      · exact hbackslash
      · rcases List.mem_cons.1 hc with rfl | hc
        · decide
        · exact Text.isPrintableASCII_of_mem_hex hc

/-- A written string is one line of printable ASCII. -/
theorem Literal.isPrintableASCII_of_mem_writeString {s : List CodePoint} {c : Char}
    (hc : c ∈ Literal.writeString s) : IsPrintableASCII c := by
  have hquote : IsPrintableASCII '"' := by decide
  rcases List.mem_cons.1 hc with rfl | hc
  · exact hquote
  · rcases List.mem_append.1 hc with hc | hc
    · obtain ⟨n, -, hn⟩ := List.mem_flatMap.1 hc
      exact isPrintableASCII_of_mem_writeUnit hn
    · rw [List.mem_singleton.1 hc]
      exact hquote

end DocFlow
