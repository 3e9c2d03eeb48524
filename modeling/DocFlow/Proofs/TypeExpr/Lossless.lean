import DocFlow.Proofs.TypeExpr.Delimiter

namespace DocFlow.TypeGrammar

def Token.stop (k : Token) : Nat := k.place + k.lexeme.text.length

/-- Tokens that stand in a text from one place to another, with blanks between them. -/
structure Covers (t : Text) (start stop : Nat) (ts : List Token) : Prop where
  le : start ≤ stop
  /-- Each token is the one that is read at its place. -/
  read : ∀ k ∈ ts, ∃ rest, lexeme? (t.drop k.place) = some (k.lexeme, rest)
  /-- The text of a token is the part of the text at its place. -/
  slice : ∀ k ∈ ts, (t.drop k.place).take k.lexeme.text.length = k.lexeme.text
  nonempty : ∀ k ∈ ts, k.place < k.stop
  within : ∀ k ∈ ts, start ≤ k.place ∧ k.stop ≤ stop
  ordered : ts.Pairwise fun k k' => k.stop ≤ k'.place
  blank : ∀ i, start ≤ i → i < stop → (∀ k ∈ ts, ¬ (k.place ≤ i ∧ i < k.stop)) →
    ∀ c ∈ t[i]?, Text.isBlank c = true

namespace Covers

variable {t : Text} {start stop : Nat} {ts : List Token}

theorem nil (t : Text) (place : Nat) : Covers t place place [] where
  le := Nat.le_refl place
  read := List.forall_mem_nil _
  slice := List.forall_mem_nil _
  nonempty := List.forall_mem_nil _
  within := List.forall_mem_nil _
  ordered := .nil
  blank _ hstart hstop := absurd hstart (Nat.not_le_of_lt hstop)

theorem behind_blank {c : Char} (hc : t[start]? = some c) (blank : Text.isBlank c = true)
    (h : Covers t (start + 1) stop ts) : Covers t start stop ts where
  le := Nat.le_of_succ_le h.le
  read := h.read
  slice := h.slice
  nonempty := h.nonempty
  within k hk := ⟨Nat.le_of_succ_le (h.within k hk).1, (h.within k hk).2⟩
  ordered := h.ordered
  blank i hstart hstop apart d hd := by
    rcases Nat.eq_or_lt_of_le hstart with rfl | hlater
    · obtain rfl := Option.some.inj (hc.symm.trans hd)
      exact blank
    · exact h.blank i hlater hstop apart d hd

theorem behind_token {l : Lexeme} {rest : Text} (first : lexeme? (t.drop start) = some (l, rest))
    (h : Covers t (start + l.text.length) stop ts) : Covers t start stop (⟨l, start⟩ :: ts) := by
  obtain ⟨hfront, hne⟩ := lexeme?_takesFront first
  have hpos := List.length_pos_of_ne_nil hne
  exact
    { le := Nat.le_of_add_right_le h.le
      read := List.forall_mem_cons.2 ⟨⟨rest, first⟩, h.read⟩
      slice := by
        refine List.forall_mem_cons.2 ⟨?_, h.slice⟩
        rw [← hfront, List.take_left]
      nonempty := List.forall_mem_cons.2 ⟨Nat.lt_add_of_pos_right hpos, h.nonempty⟩
      within := by
        refine List.forall_mem_cons.2 ⟨⟨Nat.le_refl start, h.le⟩, fun k hk => ?_⟩
        exact ⟨Nat.le_of_add_right_le (h.within k hk).1, (h.within k hk).2⟩
      ordered := .cons (fun k hk => (h.within k hk).1) h.ordered
      blank := by
        intro i hstart hi apart
        rw [List.forall_mem_cons] at apart
        have hlater : start + l.text.length ≤ i := by
          by_contra hinside
          exact apart.1 ⟨hstart, Nat.lt_of_not_le hinside⟩
        exact h.blank i hlater hi apart.2 }

end Covers

theorem drop_append_length {w s t : Text} {place : Nat} (h : w.drop place = s ++ t) :
    w.drop (place + s.length) = t := by
  rw [← List.drop_drop, h, List.drop_left]

/-- What is left of a text behind a place gives the tokens there, or the first character that starts
none. -/
theorem covers_of_tokensFrom {w : Text} {steps place : Nat} {t : Text} (hdrop : w.drop place = t)
    (hplace : place ≤ w.length) (enough : t.length ≤ steps) :
    (∀ ts, tokensFrom steps place t = .ok ts → Covers w place w.length ts) ∧
      ∀ s, tokensFrom steps place t = .error s →
        ∃ ts, Covers w place s.place ts ∧ w[s.place]? = some s.char ∧
          Text.isBlank s.char = false ∧ lexeme? (w.drop s.place) = none := by
  have hlength : place + t.length = w.length := by
    rw [← hdrop, List.length_drop]
    omega
  fun_induction tokensFrom steps place t with
  | case1 place t =>
    obtain rfl := List.eq_nil_of_length_eq_zero (Nat.le_zero.1 enough)
    constructor
    · rintro ts ⟨⟩
      rw [← hlength]
      exact .nil w place
    · rintro s ⟨⟩
  | case2 steps place =>
    constructor
    · rintro ts ⟨⟩
      rw [← hlength]
      exact .nil w place
    · rintro s ⟨⟩
  | case3 steps place c t blank ih =>
    have hc : w[place]? = some c := by rw [← List.head?_drop, hdrop, List.head?_cons]
    have hnext : w.drop (place + 1) = t := drop_append_length (s := [c]) hdrop
    rw [List.length_cons] at hlength enough
    obtain ⟨hok, herror⟩ := ih hnext (by omega) (by omega) (by omega)
    refine ⟨fun ts h => (hok ts h).behind_blank hc blank, fun s h => ?_⟩
    obtain ⟨ts, hts, hstray⟩ := herror s h
    exact ⟨ts, hts.behind_blank hc blank, hstray⟩
  | case4 steps place c t visible hnone =>
    have hc : w[place]? = some c := by rw [← List.head?_drop, hdrop, List.head?_cons]
    constructor
    · rintro ts ⟨⟩
    · rintro s ⟨⟩
      exact ⟨[], .nil w place, hc, by simpa using visible, by rw [hdrop, hnone]⟩
  | case5 steps place c t visible l rest first ih =>
    obtain ⟨hfront, hne⟩ := lexeme?_takesFront first
    have hpos := List.length_pos_of_ne_nil hne
    have hnext : w.drop (place + l.text.length) = rest :=
      drop_append_length (hdrop.trans hfront.symm)
    rw [← hfront, List.length_append] at hlength enough
    obtain ⟨hok, herror⟩ := ih hnext (by omega) (by omega) (by omega)
    rw [← hdrop] at first
    constructor
    · intro ts h
      obtain ⟨ts, hts, rfl⟩ := map_eq_ok.1 h
      exact (hok ts hts).behind_token first
    · intro s h
      obtain ⟨ts, hts, hstray⟩ := herror s (map_eq_error.1 h)
      exact ⟨⟨l, place⟩ :: ts, hts.behind_token first, hstray⟩

/-- What a reader takes from a text is read whole when it stands alone. -/
def Repeats (read : Text → Option (Text × Text)) : Prop :=
  ∀ {t s rest : Text}, read t = some (s, rest) → read s = some (s, [])

theorem stringTail?_repeats (q : Char) : Repeats (stringTail? q) := by
  intro t s rest h
  fun_induction stringTail? q t generalizing s with
  | case1 => cases h
  | case2 => cases h
  | case3 c t hbreak ih =>
    obtain ⟨⟨s', rest'⟩, htail, heq⟩ := Option.map_eq_some_iff.1 h
    cases heq
    rw [stringTail?, if_neg hbreak, ih htail]
    rfl
  | case4 => cases h
  | case5 t _ hescape =>
    cases h
    rw [stringTail?_plain hescape, if_pos rfl]
  | case6 c t _ hescape hquote ih =>
    obtain ⟨⟨s', rest'⟩, htail, heq⟩ := Option.map_eq_some_iff.1 h
    cases heq
    rw [stringTail?_plain hescape, if_neg hquote, ih htail]
    rfl

theorem stringLexeme?_repeats : Repeats stringLexeme? := by
  intro t s rest h
  unfold stringLexeme? at h
  split at h
  · obtain ⟨⟨s', rest'⟩, htail, heq⟩ := Option.map_eq_some_iff.1 h
    cases heq
    rw [stringLexeme?, stringTail?_repeats _ htail]
    rfl
  · obtain ⟨⟨s', rest'⟩, htail, heq⟩ := Option.map_eq_some_iff.1 h
    cases heq
    rw [stringLexeme?, stringTail?_repeats _ htail]
    rfl
  · cases h

theorem of_mem_takeSome? {p : Char → Bool} {t s rest : Text} (h : takeSome? p t = some (s, rest)) :
    ∀ c ∈ s, p c = true := by
  obtain ⟨rfl, -, -⟩ := takeSome?_eq_some h
  exact fun c hc => List.mem_takeWhile_imp hc

/-- A run of characters is read again before any text that does not go on with it. -/
theorem takeSome?_again {p : Char → Bool} {t s rest rest' : Text} (h : takeSome? p t = some (s, rest))
    (hrest : ∀ c ∈ rest'.head?, p c = false) : takeSome? p (s ++ rest') = some (s, rest') :=
  takeSome?_reads (of_mem_takeSome? h) (takeSome?_takesFront p h).2 hrest

theorem takeSome?_repeats (p : Char → Bool) : Repeats (takeSome? p) := by
  intro t s rest h
  have hread : takeSome? p (s ++ []) = some (s, []) := takeSome?_again h nofun
  rwa [List.append_nil] at hread

theorem isDigit_point : Text.isDigit '.' = false := by decide +kernel

/-- A decimal is a run of digits, alone or with a point and another run behind it. -/
theorem decimal?_eq_some {t s rest : Text} (h : decimal? t = some (s, rest)) :
    ∃ whole after, takeSome? Text.isDigit t = some (whole, after) ∧
      (s = whole ∨ ∃ digits, s = whole ++ '.' :: digits ∧
        ∃ behind, takeSome? Text.isDigit behind = some (digits, rest)) := by
  rw [decimal?_eq] at h
  obtain ⟨⟨whole, after⟩, hwhole, heq⟩ := Option.map_eq_some_iff.1 h
  refine ⟨whole, after, hwhole, ?_⟩
  cases hfraction : fraction? after with
  | none =>
    rw [hfraction] at heq
    cases heq
    exact .inl rfl
  | some f =>
    rw [hfraction] at heq
    cases heq
    obtain ⟨behind, -, hdigits⟩ := Option.bind_eq_some_iff.1 hfraction
    exact .inr ⟨f.1, rfl, behind, hdigits⟩

theorem of_mem_decimal? {t s rest : Text} (h : decimal? t = some (s, rest)) {c : Char} (hc : c ∈ s) :
    Text.isDigit c = true ∨ c = '.' := by
  obtain ⟨whole, after, hwhole, rfl | ⟨digits, rfl, behind, hdigits⟩⟩ := decimal?_eq_some h
  · exact .inl (of_mem_takeSome? hwhole c hc)
  · rw [List.mem_append, List.mem_cons] at hc
    rcases hc with hc | hc | hc
    · exact .inl (of_mem_takeSome? hwhole c hc)
    · exact .inr hc
    · exact .inl (of_mem_takeSome? hdigits c hc)

theorem decimal?_repeats : Repeats decimal? := by
  intro t s rest h
  obtain ⟨whole, after, hwhole, rfl | ⟨digits, rfl, behind, hdigits⟩⟩ := decimal?_eq_some h
  · rw [decimal?_eq, takeSome?_repeats _ hwhole]
    rfl
  · have hpoint : ∀ c ∈ ('.' :: digits).head?, Text.isDigit c = false := by
      simpa using isDigit_point
    have hfraction : fraction? ('.' :: digits) = some (digits, []) := takeSome?_repeats _ hdigits
    rw [decimal?_eq, takeSome?_again hwhole hpoint, Option.map_some, hfraction]
    rfl

theorem hexadecimal?_repeats : Repeats hexadecimal? := by
  intro t s rest h
  obtain ⟨mark, hmark, h⟩ := List.exists_of_findSome?_eq_some h
  obtain ⟨⟨digits, rest'⟩, hbehind, heq⟩ := Option.map_eq_some_iff.1 h
  cases heq
  obtain ⟨after, -, hdigits⟩ := Option.bind_eq_some_iff.1 hbehind
  have hread := takeSome?_repeats _ hdigits
  simp only [List.mem_cons, List.not_mem_nil, or_false] at hmark
  rcases hmark with rfl | rfl
  · exact (hexadecimal?_of_mark rfl digits).trans (by rw [hread]; rfl)
  · exact (hexadecimal?_of_mark rfl digits).trans (by rw [hread]; rfl)

/-- No decimal is read as a hexadecimal. -/
theorem hexadecimal?_decimal {t s rest : Text} (h : decimal? t = some (s, rest)) :
    hexadecimal? s = none := by
  refine hexadecimal?_of_no_mark fun x after heq => ?_
  have hx : x ∈ s := by rw [heq]; simp
  rw [Bool.eq_false_iff]
  intro hmark
  rw [isHexMark, Bool.or_eq_true, beq_iff_eq, beq_iff_eq] at hmark
  have hnoDigit : Text.isDigit 'x' = false ∧ Text.isDigit 'X' = false := by decide +kernel
  rcases hmark with rfl | rfl
  · simpa [hnoDigit] using of_mem_decimal? h hx
  · simpa [hnoDigit] using of_mem_decimal? h hx

theorem unsigned?_repeats : Repeats unsigned? := by
  intro t s rest h
  rw [unsigned?_eq] at h ⊢
  rcases Option.or_eq_some_iff.1 h with h | ⟨-, h⟩
  · rw [hexadecimal?_repeats h]
    rfl
  · rw [hexadecimal?_decimal h, Option.none_or, decimal?_repeats h]

theorem numberLexeme?_repeats : Repeats numberLexeme? := by
  intro t s rest h
  fun_cases numberLexeme? t with
  | case1 t =>
    obtain ⟨⟨s', rest'⟩, hdigits, heq⟩ := Option.map_eq_some_iff.1 h
    cases heq
    rw [numberLexeme?, unsigned?_repeats hdigits]
    rfl
  | case2 t hsign =>
    rw [numberLexeme?.eq_2 t hsign] at h
    -- The number is a front of the text, so it has no sign either.
    rw [numberLexeme?]
    · exact unsigned?_repeats h
    · rintro s' rfl
      exact hsign _ (unsigned?_takesFront h).1.symm

/-- A lexeme is read as the same one alone. -/
theorem lexeme?_text {t rest : Text} {l : Lexeme} (h : lexeme? t = some (l, rest)) :
    lexeme? l.text = some (l, []) := by
  obtain ⟨hfront, hne⟩ := lexeme?_takesFront h
  -- A mark of several characters at the start of the lexeme would be one of the text.
  have hshort (short : ¬ StartsWithLongMark t) : ¬ StartsWithLongMark l.text := by
    intro long
    exact short (hfront ▸ long.append rest)
  cases lexeme?_eq_some_iff.1 h with
  | ellipsis | dotAngle => rfl
  | string short read =>
    exact lexeme?_eq_some_iff.2 (.string (hshort short) (stringLexeme?_repeats read))
  | number short noString read =>
    refine lexeme?_eq_some_iff.2 (.number (hshort short) ?_ (numberLexeme?_repeats read))
    by_contra hsome
    obtain ⟨r, hstring⟩ := Option.ne_none_iff_exists'.1 hsome
    have hwhole := stringLexeme?_carry hstring rest
    rw [hfront, noString] at hwhole
    cases hwhole
  | name _ _ _ read =>
    have hend : EndsName [] := trivial
    have hread := (isName_of_nameLexeme? read).reads hend
    rwa [List.append_nil] at hread
  | mark _ ofChar =>
    rw [Lexeme.text, text_of_ofChar? ofChar]
    exact lexeme?_mark ofChar []

/-- A lexeme that is read as itself when it stands alone, and that blanks before it do not hide. -/
structure Lexeme.IsAlone (l : Lexeme) : Prop where
  reads : lexeme? l.text = some (l, [])
  visible : ∀ c ∈ l.text.head?, Text.isBlank c = false

/-- Every lexeme of a text can stand alone. -/
theorem Lexed.isAlone {t : Text} {ls : List Lexeme} (h : Lexed t ls) : ∀ l ∈ ls, l.IsAlone := by
  induction h with
  | done => exact List.forall_mem_nil _
  | blank _ _ ih => exact ih
  | @lexeme c t l rest ls visible first _ ih =>
    refine List.forall_mem_cons.2 ⟨⟨lexeme?_text first, fun d hd => ?_⟩, ih⟩
    obtain ⟨hfront, hne⟩ := lexeme?_takesFront first
    obtain ⟨e, s, hs⟩ := List.exists_cons_of_ne_nil hne
    rw [hs] at hfront hd
    obtain ⟨rfl, -⟩ := List.cons.inj hfront
    cases hd
    exact visible

theorem Lexeme.IsAlone.lexed {l : Lexeme} (h : l.IsAlone) : Lexed l.text [l] := by
  obtain ⟨c, s, hs⟩ := List.exists_cons_of_ne_nil (lexeme?_takesFront h.reads).2
  have hread := h.reads
  have hvisible := h.visible
  rw [hs] at hread hvisible ⊢
  exact .lexeme (hvisible c rfl) hread .done

def spread (gap : Nat → Text) : List Lexeme → Text
  | [] => []
  | [l] => l.text
  | l :: ls => l.text ++ (gap 0 ++ spread (gap ∘ Nat.succ) ls)

def IsGap (blanks : Text) : Prop := blanks ≠ [] ∧ ∀ c ∈ blanks, Text.isBlank c = true

theorem lexed_spread {ls : List Lexeme} (alone : ∀ l ∈ ls, l.IsAlone) {gap : Nat → Text}
    (hgap : ∀ i, IsGap (gap i)) : Lexed (spread gap ls) ls := by
  fun_induction spread gap ls with
  | case1 => exact .done
  | case2 gap l => exact (alone l List.mem_cons_self).lexed
  | case3 gap l ls _ ih =>
    rw [List.forall_mem_cons] at alone
    have hmore := ih alone.2 fun i => hgap (i + 1)
    obtain ⟨hne, hblanks⟩ := hgap 0
    have hbehind := hmore.behind_blanks hblanks
    obtain ⟨b, blanks, hb⟩ := List.exists_cons_of_ne_nil hne
    rw [hb] at hblanks hbehind ⊢
    exact alone.1.lexed.append (.inl (hblanks b List.mem_cons_self)) hbehind

/-- The tokens of a text and the blanks between them are the text, and the tokens are the same ones
with any other blanks between them. A text without tokens has a first place at which none starts. -/
theorem tokens_lossless (t : Text) :
    (∀ ts, tokens t = .ok ts → Covers t 0 t.length ts ∧
      ∀ gap : Nat → Text, (∀ i, IsGap (gap i)) →
        ∃ ts', tokens (spread gap (ts.map Token.lexeme)) = .ok ts' ∧
          ts'.map Token.lexeme = ts.map Token.lexeme) ∧
    ∀ s, tokens t = .error s → ∃ ts, Covers t 0 s.place ts ∧ t[s.place]? = some s.char ∧
      Text.isBlank s.char = false ∧ lexeme? (t.drop s.place) = none := by
  obtain ⟨hok, herror⟩ := covers_of_tokensFrom (w := t) rfl (Nat.zero_le _) le_rfl
  refine ⟨fun ts h => ⟨hok ts h, fun gap hgap => ?_⟩, herror⟩
  have hlexed : Lexed t (ts.map Token.lexeme) := lexed_iff_tokens.2 ⟨ts, h, rfl⟩
  exact lexed_iff_tokens.1 (lexed_spread hlexed.isAlone hgap)

/-- The tokens of a generic are the same with tabs between them, and a semicolon behind a name is the
first place without a token. -/
theorem tokens_lossless_generic_and_semicolon :
    (∃ ts, tokens "a.<-1, \"b\">".toList = .ok ts ∧ Covers "a.<-1, \"b\">".toList 0 11 ts ∧
      ∃ ts', tokens "a\t.<\t-1\t,\t\"b\"\t>".toList = .ok ts' ∧
        ts'.map Token.lexeme = ts.map Token.lexeme) ∧
    ∃ ts, tokens "a ;".toList = .error ⟨';', 2⟩ ∧ Covers "a ;".toList 0 2 ts := by
  have hread : tokens "a.<-1, \"b\">".toList =
      .ok [⟨.name ['a'], 0⟩, ⟨.mark .dotAngle, 1⟩, ⟨.number ['-', '1'], 3⟩, ⟨.mark .comma, 5⟩,
        ⟨.string ['"', 'b', '"'], 7⟩, ⟨.mark .closeAngle, 10⟩] := by decide +kernel
  have hstray : tokens "a ;".toList = .error ⟨';', 2⟩ := by decide +kernel
  have htab : IsGap ['\t'] := ⟨by decide, List.forall_mem_singleton.2 rfl⟩
  obtain ⟨hcovers, hspread⟩ := (tokens_lossless "a.<-1, \"b\">".toList).1 _ hread
  have htabs := hspread (fun _ => ['\t']) fun _ => htab
  obtain ⟨ts, hts, -⟩ := (tokens_lossless "a ;".toList).2 _ hstray
  exact ⟨⟨_, hread, hcovers, htabs⟩, ts, hstray, hts⟩

end DocFlow.TypeGrammar
