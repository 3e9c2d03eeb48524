import Mathlib
import DocFlow.Proofs.Outcome
import DocFlow.Source.Encoding

namespace DocFlow.Encoding

/-- The code points of characters leave out the surrogates. -/
theorem toNat_bounds (c : Char) : c.toNat < 0xD800 ∨ 0xDFFF < c.toNat ∧ c.toNat < 0x110000 := by
  have hvalid := c.valid
  simp only [UInt32.isValidChar, Nat.isValidChar] at hvalid
  exact hvalid

theorem toNat_toUInt8 {n : Nat} (h : n < 0x100) : n.toUInt8.toNat = n :=
  UInt8.toNat_ofNat_of_lt h

/-- The bytes of a character that are passed over. -/
theorem decodeUtf8_skip (place : Nat) (passed rest : List UInt8) :
    decodeUtf8 place passed.length (passed ++ rest) =
      decodeUtf8 (place + passed.length) 0 rest := by
  induction passed generalizing place with
  | nil => rfl
  | cons b passed ih =>
    rw [List.length_cons, List.cons_append, decodeUtf8, ih]
    congr 1
    omega

/-- A continuing byte adds six bits. -/
theorem utf8Tail_cons {more low high good n : Nat} {k : Nat} (rest : List UInt8)
    (hlow : low ≤ 0x80 + k % 64) (hhigh : 0x80 + k % 64 ≤ high) :
    utf8Tail (more + 1) low high good n ((0x80 + k % 64).toUInt8 :: rest) =
      utf8Tail more 0x80 0xBF (good + 1) (n * 64 + k % 64) rest := by
  have hbyte : (0x80 + k % 64).toUInt8.toNat = 0x80 + k % 64 := toNat_toUInt8 (by omega)
  rw [utf8Tail, hbyte, if_pos ⟨hlow, hhigh⟩]
  congr 2
  omega

/-- A character of several bytes is read from its first byte and the bytes that continue it. -/
theorem decodeUtf8_of_lead (place first : Nat) {more low high n : Nat} {tail rest : List UInt8}
    (hfirst : first < 0x100) (hbyte : 0x80 ≤ first)
    (hlead : utf8Lead first = some (more, low, high)) (hmore : tail.length = more)
    (htail : utf8Tail more low high 0 (first % (0x40 >>> more)) (tail ++ rest) = .ok n) :
    decodeUtf8 place 0 (first.toUInt8 :: tail ++ rest) =
      (decodeUtf8 (place + 1 + tail.length) 0 rest).map (Char.ofNat n :: ·) := by
  have hskip := decodeUtf8_skip (place + 1) tail rest
  rw [List.cons_append, decodeUtf8]
  simp only [toNat_toUInt8 hfirst, hlead, htail]
  rw [if_neg (by omega), ← hmore, hskip]

theorem utf8Lead_two {b : Nat} (h : 0xC2 ≤ b ∧ b ≤ 0xDF) : utf8Lead b = some (1, 0x80, 0xBF) :=
  if_pos h

theorem utf8Lead_three {b : Nat} (h : 0xE0 ≤ b ∧ b ≤ 0xEF) :
    utf8Lead b =
      some (2, if b = 0xE0 then 0xA0 else 0x80, if b = 0xED then 0x9F else 0xBF) := by
  rw [utf8Lead, if_neg (by omega)]
  by_cases hE0 : b = 0xE0
  · simp [hE0]
  · by_cases hED : b = 0xED
    · simp [hED]
    · rw [if_neg hE0, if_neg hED, if_pos (by omega), if_neg hE0, if_neg hED]

theorem utf8Lead_four {b : Nat} (h : 0xF0 ≤ b ∧ b ≤ 0xF4) :
    utf8Lead b =
      some (3, if b = 0xF0 then 0x90 else 0x80, if b = 0xF4 then 0x8F else 0xBF) := by
  rw [utf8Lead, if_neg (by omega), if_neg (by omega), if_neg (by omega), if_neg (by omega)]
  by_cases hF0 : b = 0xF0
  · simp [hF0]
  · by_cases hF4 : b = 0xF4
    · simp [hF4]
    · rw [if_neg hF0, if_neg hF4, if_pos (by omega), if_neg hF0, if_neg hF4]

/-- A character is read from its bytes. -/
theorem decodeUtf8_append (place : Nat) (c : Char) (rest : List UInt8) :
    ∃ next, decodeUtf8 place 0 (utf8Bytes c ++ rest) =
      (decodeUtf8 next 0 rest).map (c :: ·) := by
  have hbounds := toNat_bounds c
  have hchar : Char.ofNat c.toNat = c := Char.ofNat_toNat c
  unfold utf8Bytes
  generalize c.toNat = n at hbounds hchar
  simp only [Nat.shiftRight_eq_div_pow]
  -- The number of bytes decides the lead byte, and the excluded code points its narrower successors.
  by_cases one : n < 0x80
  · refine ⟨place + 1, ?_⟩
    have hbyte : n.toUInt8.toNat = n := toNat_toUInt8 (by omega)
    rw [if_pos one, List.cons_append, List.nil_append, decodeUtf8, hbyte, if_pos one, hchar]
  · rw [if_neg one]
    by_cases two : n < 0x800
    · rw [if_pos two]
      refine ⟨_, (decodeUtf8_of_lead place (0xC0 + n / 2 ^ 6) (by omega) (by omega)
        (utf8Lead_two (by omega)) rfl ?_).trans (by rw [hchar])⟩
      rw [List.cons_append, utf8Tail_cons _ (by omega) (by omega), utf8Tail,
        show 0x40 >>> 1 = 32 from rfl]
      congr 1
      omega
    · rw [if_neg two]
      by_cases three : n < 0x10000
      · rw [if_pos three]
        refine ⟨_, (decodeUtf8_of_lead place (0xE0 + n / 2 ^ 12) (by omega) (by omega)
          (utf8Lead_three (by omega)) rfl ?_).trans (by rw [hchar])⟩
        rw [List.cons_append, utf8Tail_cons _ (by split <;> omega) (by split <;> omega),
          List.cons_append, utf8Tail_cons _ (by omega) (by omega), utf8Tail,
          show 0x40 >>> 2 = 16 from rfl]
        congr 1
        omega
      · rw [if_neg three]
        refine ⟨_, (decodeUtf8_of_lead place (0xF0 + n / 2 ^ 18) (by omega) (by omega)
          (utf8Lead_four (by omega)) rfl ?_).trans (by rw [hchar])⟩
        rw [List.cons_append, utf8Tail_cons _ (by split <;> omega) (by split <;> omega),
          List.cons_append, utf8Tail_cons _ (by omega) (by omega),
          List.cons_append, utf8Tail_cons _ (by omega) (by omega), utf8Tail,
          show 0x40 >>> 3 = 8 from rfl]
        congr 1
        omega

variable {e : Encoding} {c : Char} {s t : Text} {bytes : List UInt8}

theorem encode?_cons :
    encode? e (c :: t) = some bytes ↔
      ∃ first more, encodeChar? e c = some first ∧ encode? e t = some more ∧
        bytes = first ++ more := by
  rw [encode?]
  cases encodeChar? e c with
  | none => simp
  | some first =>
    cases encode? e t with
    | none => simp
    | some more => simp [eq_comm]

theorem encode?_append :
    encode? e (s ++ t) = some bytes ↔
      ∃ first more, encode? e s = some first ∧ encode? e t = some more ∧
        bytes = first ++ more := by
  induction s generalizing bytes with
  | nil => simp [encode?]
  | cons c s ih =>
    rw [List.cons_append, encode?_cons]
    constructor
    · rintro ⟨first, _, hc, hrest, rfl⟩
      obtain ⟨second, third, hs, ht, rfl⟩ := ih.1 hrest
      exact ⟨_, third, encode?_cons.2 ⟨first, second, hc, hs, rfl⟩, ht, by simp⟩
    · rintro ⟨_, third, hcs, ht, rfl⟩
      obtain ⟨first, second, hc, hs, rfl⟩ := encode?_cons.1 hcs
      exact ⟨first, _, hc, ih.2 ⟨second, third, hs, ht, rfl⟩, by simp⟩

/-- No character is encoded by nothing. -/
theorem length_encodeChar?_pos (h : encodeChar? e c = some bytes) : 0 < bytes.length := by
  cases e with
  | utf8 =>
    cases h
    unfold utf8Bytes
    dsimp only
    split_ifs <;> simp
  | latin1 | ascii =>
    obtain ⟨-, hbytes⟩ := Option.ite_none_right_eq_some.1 h
    cases hbytes
    exact Nat.one_pos

theorem byteLength_eq (h : encode? e t = some bytes) : byteLength e t = bytes.length := by
  suffices hfold : ∀ n, t.foldl (fun n c => n + ((encodeChar? e c).map List.length).getD 0) n =
      n + bytes.length by
    simpa [byteLength] using hfold 0
  induction t generalizing bytes with
  | nil =>
    cases h
    simp
  | cons c t ih =>
    obtain ⟨first, more, hc, hmore, rfl⟩ := encode?_cons.1 h
    intro n
    rw [List.foldl_cons, ih hmore, hc, List.length_append]
    simp only [Option.map_some, Option.getD_some]
    omega

/-- An encoded text is read back. -/
theorem decode_of_encode? (h : encode? e t = some bytes) : decode e bytes = .ok t := by
  cases e with
  | utf8 =>
    suffices hread : ∀ place, decodeUtf8 place 0 bytes = .ok t from hread 0
    induction t generalizing bytes with
    | nil =>
      cases h
      exact fun _ => rfl
    | cons c t ih =>
      obtain ⟨first, more, hc, hmore, rfl⟩ := encode?_cons.1 h
      cases hc
      intro place
      obtain ⟨next, hnext⟩ := decodeUtf8_append place c more
      rw [hnext, ih hmore]
      rfl
  | latin1 =>
    induction t generalizing bytes with
    | nil =>
      cases h
      rfl
    | cons c t ih =>
      obtain ⟨first, more, hc, hmore, rfl⟩ := encode?_cons.1 h
      obtain ⟨hbyte, hfirst⟩ := Option.ite_none_right_eq_some.1 hc
      cases hfirst
      have hrest : more.map (fun b => Char.ofNat b.toNat) = t := Except.ok.inj (ih hmore)
      have hchar : Char.ofNat c.toNat.toUInt8.toNat = c := by
        rw [toNat_toUInt8 hbyte, Char.ofNat_toNat]
      rw [decode, List.map_append, hrest, List.map_singleton, hchar, List.singleton_append]
  | ascii =>
    suffices hread : ∀ place, decodeAscii place bytes = .ok t from hread 0
    induction t generalizing bytes with
    | nil =>
      cases h
      exact fun _ => rfl
    | cons c t ih =>
      obtain ⟨first, more, hc, hmore, rfl⟩ := encode?_cons.1 h
      obtain ⟨hbyte, hfirst⟩ := Option.ite_none_right_eq_some.1 hc
      cases hfirst
      intro place
      have hnat : c.toNat.toUInt8.toNat = c.toNat := toNat_toUInt8 (by omega)
      rw [List.singleton_append, decodeAscii, hnat, if_pos hbyte, ih hmore, Char.ofNat_toNat]
      rfl

end DocFlow.Encoding
