import DocFlow.Proofs.TypeExpr.Writing

namespace DocFlow.TypeGrammar

variable {α β : Type}

/-- A character that continues no lexeme. -/
def Delimits (c : Char) : Prop := Text.isBlank c = true ∨ c = ')' ∨ c = '>'

def delimiterCodes : List Nat := ')'.toNat :: '>'.toNat :: blankCodes

theorem Delimits.mem_codes {c : Char} (h : Delimits c) : c.toNat ∈ delimiterCodes := by
  rcases h with hblank | rfl | rfl
  · exact List.mem_cons_of_mem _ (List.mem_cons_of_mem _ (mem_blankCodes hblank))
  · exact List.mem_cons_self
  · exact List.mem_cons_of_mem _ List.mem_cons_self

/-- What is tested of characters is tested of the delimiters one by one. -/
theorem Delimits.of_codes {p : Char → Bool} (hp : ∀ n ∈ delimiterCodes, p (Char.ofNat n) = false)
    {c : Char} (h : Delimits c) : p c = false := by
  have hcode := hp c.toNat h.mem_codes
  rwa [Char.ofNat_toNat] at hcode

namespace Delimits

variable {c : Char} (h : Delimits c)
include h

theorem isDigit : Text.isDigit c = false := h.of_codes (by decide +kernel)

theorem isHexDigit : Numeral.isHexDigit c = false := h.of_codes (by decide +kernel)

theorem isModulePart : TypeGrammar.isModulePart c = false := h.of_codes (by decide +kernel)

theorem isNameStart : TypeGrammar.isNameStart c = false := h.of_codes (by decide +kernel)

theorem ne {d : Char} (hd : d.toNat ∉ delimiterCodes) : c ≠ d := by
  rintro rfl
  exact hd h.mem_codes

end Delimits

def carry (u : Text) (r : α × Text) : α × Text := (r.1, r.2 ++ u)

/-- A reader that never looks past the start of `u`. -/
def StopsAt (read : Text → Option (α × Text)) (u : Text) : Prop :=
  ∀ t, read (t ++ u) = (read t).map (carry u)

theorem span_carry {p : Char → Bool} {c : Char} (hc : p c = false) (more t : Text) :
    (t ++ c :: more).span p = carry (c :: more) (t.span p) := by
  rw [List.span_eq_takeWhile_dropWhile, List.span_eq_takeWhile_dropWhile, carry]
  induction t with
  | nil => simp [hc]
  | cons d t ih =>
    by_cases hd : p d = true
    · simpa [hd] using ih
    · simp [hd]

theorem takeSome?_stopsAt {p : Char → Bool} {c : Char} (hc : p c = false) (more : Text) :
    StopsAt (takeSome? p) (c :: more) := by
  intro t
  rw [takeSome?, takeSome?, span_carry hc]
  rcases t.span p with ⟨_ | ⟨d, front⟩, rest⟩ <;> rfl

theorem dropFront?_cons (d : Char) (p : Text) (x : Char) (t : Text) :
    Text.dropFront? (d :: p) (x :: t) = if d = x then Text.dropFront? p t else none := by
  by_cases hd : d = x <;> simp [Text.dropFront?, hd]

theorem dropFront?_eq_some {p t rest : Text} : Text.dropFront? p t = some rest ↔ t = p ++ rest := by
  constructor
  · intro h
    unfold Text.dropFront? at h
    split at h
    · next hfront =>
      cases h
      exact (List.prefix_iff_eq_append.1 (List.isPrefixOf_iff_prefix.1 hfront)).symm
    · cases h
  · rintro rfl
    exact dropFront?_append p rest

theorem dropFront?_carry {p : Text} {c : Char} (hc : c ∉ p) (more t : Text) :
    Text.dropFront? p (t ++ c :: more) = (Text.dropFront? p t).map (· ++ c :: more) := by
  induction p generalizing t with
  | nil => rfl
  | cons d p ih =>
    rw [List.mem_cons, not_or] at hc
    cases t with
    | nil =>
      rw [List.nil_append, dropFront?_cons, if_neg (Ne.symm hc.1)]
      rfl
    | cons x t =>
      rw [List.cons_append, dropFront?_cons, dropFront?_cons, ih hc.2]
      split <;> rfl

namespace StopsAt

variable {u : Text} {read read' : Text → Option (α × Text)}

theorem map (h : StopsAt read u) (f : α → β) : StopsAt (fun t => (read t).map (Prod.map f id)) u := by
  intro t
  dsimp only
  rw [h t]
  cases read t <;> rfl

theorem or (h : StopsAt read u) (h' : StopsAt read' u) :
    StopsAt (fun t => (read t).or (read' t)) u := by
  intro t
  dsimp only
  rw [h t, h' t]
  cases read t <;> rfl

theorem behind {p : Text} {c : Char} {more : Text} (hc : c ∉ p) (h : StopsAt read (c :: more)) :
    StopsAt (fun t => (Text.dropFront? p t).bind read) (c :: more) := by
  intro t
  dsimp only
  rw [dropFront?_carry hc]
  cases Text.dropFront? p t with
  | none => rfl
  | some rest => exact h rest

theorem findSome? {γ : Type} {read : γ → Text → Option (α × Text)} {xs : List γ}
    (h : ∀ x ∈ xs, StopsAt (read x) u) : StopsAt (fun t => xs.findSome? (read · t)) u := by
  intro t
  induction xs with
  | nil => rfl
  | cons x xs ih =>
    rw [List.forall_mem_cons] at h
    have hmore := ih h.2
    dsimp only at hmore ⊢
    rw [List.findSome?_cons, List.findSome?_cons, h.1 t, hmore]
    cases read x t <;> rfl

end StopsAt

def fraction? (t : Text) : Option (Text × Text) :=
  (Text.dropFront? ['.'] t).bind (takeSome? Text.isDigit)

theorem decimal?_eq (t : Text) :
    decimal? t = (takeSome? Text.isDigit t).map fun r =>
      (fraction? r.2).elim r fun f => (r.1 ++ '.' :: f.1, f.2) := by
  rw [decimal?]
  refine congrArg (Option.map · _) (funext fun r => ?_)
  obtain ⟨whole, rest⟩ := r
  dsimp only
  split
  · next after =>
    have hfraction : fraction? ('.' :: after) = takeSome? Text.isDigit after := rfl
    rw [hfraction]
    cases takeSome? Text.isDigit after <;> rfl
  · next hpoint =>
    have hnone : fraction? rest = none := by
      cases rest with
      | nil => rfl
      | cons d rest =>
        have hd : '.' ≠ d := fun heq => hpoint rest (heq ▸ rfl)
        rw [fraction?, dropFront?_cons, if_neg hd]
        rfl
    rw [hnone]
    rfl

def hexadecimal? (t : Text) : Option (Text × Text) :=
  [['0', 'x'], ['0', 'X']].findSome? fun mark =>
    ((Text.dropFront? mark t).bind (takeSome? Numeral.isHexDigit)).map (Prod.map (mark ++ ·) id)

theorem hexadecimal?_of_mark {x : Char} (hx : isHexMark x = true) (after : Text) :
    hexadecimal? ('0' :: x :: after) =
      (takeSome? Numeral.isHexDigit after).map (Prod.map (['0', x] ++ ·) id) := by
  rw [isHexMark, Bool.or_eq_true, beq_iff_eq, beq_iff_eq] at hx
  rw [hexadecimal?, List.findSome?_cons, List.findSome?_singleton]
  rcases hx with rfl | rfl
  · have hlower : Text.dropFront? ['0', 'x'] ('0' :: 'x' :: after) = some after := rfl
    have hupper : Text.dropFront? ['0', 'X'] ('0' :: 'x' :: after) = none := rfl
    rw [hlower, hupper, Option.bind_some]
    cases takeSome? Numeral.isHexDigit after <;> rfl
  · have hlower : Text.dropFront? ['0', 'x'] ('0' :: 'X' :: after) = none := rfl
    have hupper : Text.dropFront? ['0', 'X'] ('0' :: 'X' :: after) = some after := rfl
    rw [hlower, hupper, Option.bind_some]
    rfl

theorem hexadecimal?_of_no_mark {t : Text} (h : ∀ x after, t = '0' :: x :: after → isHexMark x = false) :
    hexadecimal? t = none := by
  have hdrop {x : Char} (hx : isHexMark x = true) : Text.dropFront? ['0', x] t = none := by
    by_contra hsome
    obtain ⟨after, hafter⟩ := Option.ne_none_iff_exists'.1 hsome
    rw [h x after (dropFront?_eq_some.1 hafter)] at hx
    cases hx
  rw [hexadecimal?, List.findSome?_cons, List.findSome?_singleton, hdrop rfl, hdrop rfl]
  rfl

theorem unsigned?_eq (t : Text) : unsigned? t = (hexadecimal? t).or (decimal? t) := by
  fun_cases unsigned? t with
  | case1 x after hx digits rest hdigits =>
    rw [hexadecimal?_of_mark hx, hdigits]
    rfl
  | case2 x after hx hdigits =>
    rw [hexadecimal?_of_mark hx, hdigits]
    rfl
  | case3 x after hx =>
    rw [hexadecimal?_of_no_mark]
    · rfl
    · rintro y after' heq
      cases heq
      exact Bool.eq_false_iff.2 hx
  | case4 t hzero =>
    rw [hexadecimal?_of_no_mark]
    · rfl
    · exact fun x after heq => absurd heq (hzero x after)

theorem numberLexeme?_eq (t : Text) :
    numberLexeme? t = (((Text.dropFront? ['-'] t).bind unsigned?).map
      (Prod.map (['-'] ++ ·) id)).or (unsigned? t) := by
  fun_cases numberLexeme? t with
  | case1 rest =>
    have hnone : unsigned? ('-' :: rest) = none := by
      have hdigit : Text.isDigit '-' = false := by decide +kernel
      simp [unsigned?, decimal?, takeSome?, List.span_eq_takeWhile_dropWhile, hdigit]
    rw [hnone, Option.or_none]
    rfl
  | case2 t hsign =>
    have hdrop : Text.dropFront? ['-'] t = none := by
      by_contra hsome
      obtain ⟨rest, hrest⟩ := Option.ne_none_iff_exists'.1 hsome
      exact hsign rest (dropFront?_eq_some.1 hrest)
    rw [hdrop]
    rfl

theorem nameTail_carry {c : Char} (h : Delimits c) (more t : Text) :
    nameTail (t ++ c :: more) = carry (c :: more) (nameTail t) := by
  have hpart := h.isModulePart
  simp only [isModulePart, Bool.or_eq_false_iff] at hpart
  fun_induction nameTail t with
  | case1 =>
    rw [List.nil_append, nameTail.eq_def]
    simp [hpart, carry]
  | case2 d t part r ih =>
    rw [List.cons_append, nameTail.eq_def]
    dsimp only
    rw [if_pos part, ih]
    rfl
  | case3 d part mark e t start r ih =>
    rw [List.cons_append, List.cons_append, nameTail.eq_def]
    dsimp only
    rw [if_neg part, if_pos mark, if_pos start, ih]
    rfl
  | case4 d part mark e t start =>
    rw [List.cons_append, List.cons_append, nameTail.eq_def]
    dsimp only
    rw [if_neg part, if_pos mark, if_neg start]
    rfl
  | case5 d part mark =>
    rw [List.singleton_append, nameTail.eq_def]
    dsimp only
    rw [if_neg part, if_pos mark, if_neg (by simp [h.isNameStart])]
    rfl
  | case6 d t part mark =>
    rw [List.cons_append, nameTail.eq_def]
    dsimp only
    rw [if_neg part, if_neg mark]
    rfl

namespace Delimits

variable {c : Char} (h : Delimits c) (more : Text)
include h

theorem decimal?_stopsAt : StopsAt decimal? (c :: more) := by
  have hfraction : StopsAt fraction? (c :: more) :=
    (takeSome?_stopsAt h.isDigit more).behind (by simpa using h.ne (by decide))
  intro t
  rw [decimal?_eq, decimal?_eq, takeSome?_stopsAt h.isDigit more t]
  cases takeSome? Text.isDigit t with
  | none => rfl
  | some r =>
    dsimp only [Option.map_some, carry]
    rw [hfraction r.2]
    cases fraction? r.2 <;> rfl

theorem hexadecimal?_stopsAt : StopsAt hexadecimal? (c :: more) := by
  refine .findSome? fun mark hmark => ?_
  refine ((takeSome?_stopsAt h.isHexDigit more).behind ?_).map (mark ++ ·)
  intro hc
  have hcodes : c ≠ '0' ∧ c ≠ 'x' ∧ c ≠ 'X' := ⟨h.ne (by decide), h.ne (by decide), h.ne (by decide)⟩
  simp only [List.mem_cons, List.not_mem_nil, or_false] at hmark
  rcases hmark with rfl | rfl <;> simp [hcodes] at hc

theorem unsigned?_stopsAt : StopsAt unsigned? (c :: more) := by
  rw [funext unsigned?_eq]
  exact (h.hexadecimal?_stopsAt more).or (h.decimal?_stopsAt more)

theorem numberLexeme?_stopsAt : StopsAt numberLexeme? (c :: more) := by
  have hunsigned := h.unsigned?_stopsAt more
  have hsign : c ∉ ['-'] := by simpa using h.ne (by decide)
  rw [funext numberLexeme?_eq]
  exact ((hunsigned.behind hsign).map (['-'] ++ ·)).or hunsigned

theorem spacedName?_stopsAt : StopsAt spacedName? (c :: more) := by
  refine .findSome? fun space hspace => ?_
  refine ((takeSome?_stopsAt h.isModulePart more).map (space ++ ·)).behind fun hc => ?_
  obtain ⟨d, word, rfl, hword⟩ := exists_word_of_namespace hspace
  rw [← List.cons_append, List.mem_append, List.mem_singleton] at hc
  rcases hc with hc | rfl
  · exact absurd (hword c hc) (by simp [h.isNameStart])
  · exact h.ne (by decide) rfl

theorem plainName?_stopsAt : StopsAt plainName? (c :: more) := by
  intro t
  cases t with
  | nil => exact if_neg (by simp [h.isNameStart])
  | cons d t =>
    rw [List.cons_append, plainName?, plainName?, nameTail_carry h]
    split <;> rfl

theorem nameLexeme?_stopsAt : StopsAt nameLexeme? (c :: more) :=
  (h.spacedName?_stopsAt more).or (h.plainName?_stopsAt more)

end Delimits

theorem stringTail?_plain {q c : Char} (h : c ≠ '\\') (t : Text) :
    stringTail? q (c :: t) =
      if c = q then some ([c], t) else (stringTail? q t).map fun r => (c :: r.1, r.2) := by
  rw [stringTail?, if_neg h]
  rintro d rest rfl
  exact absurd rfl h

/-- A string ends in itself, so any text may follow it. -/
theorem stringTail?_carry {q : Char} {t s rest : Text} (h : stringTail? q t = some (s, rest))
    (u : Text) : stringTail? q (t ++ u) = some (s, rest ++ u) := by
  fun_induction stringTail? q t generalizing s with
  | case1 => cases h
  | case2 => cases h
  | case3 c t hbreak ih =>
    obtain ⟨⟨s', rest'⟩, htail, heq⟩ := Option.map_eq_some_iff.1 h
    cases heq
    rw [List.cons_append, List.cons_append, stringTail?, if_neg hbreak, ih htail]
    rfl
  | case4 => cases h
  | case5 t _ hescape =>
    cases h
    rw [List.cons_append, stringTail?_plain hescape, if_pos rfl]
  | case6 c t _ hescape hquote ih =>
    obtain ⟨⟨s', rest'⟩, htail, heq⟩ := Option.map_eq_some_iff.1 h
    cases heq
    rw [List.cons_append, stringTail?_plain hescape, if_neg hquote, ih htail]
    rfl

theorem stringLexeme?_carry {t s rest : Text} (h : stringLexeme? t = some (s, rest)) (u : Text) :
    stringLexeme? (t ++ u) = some (s, rest ++ u) := by
  unfold stringLexeme? at h
  split at h
  · obtain ⟨⟨s', rest'⟩, htail, heq⟩ := Option.map_eq_some_iff.1 h
    cases heq
    rw [List.cons_append, stringLexeme?, stringTail?_carry htail]
    rfl
  · obtain ⟨⟨s', rest'⟩, htail, heq⟩ := Option.map_eq_some_iff.1 h
    cases heq
    rw [List.cons_append, stringLexeme?, stringTail?_carry htail]
    rfl
  · cases h

theorem stringLexeme?_of_no_quote {c : Char} (h : c ≠ '"') (h' : c ≠ '\'') (t : Text) :
    stringLexeme? (c :: t) = none := by
  rw [stringLexeme?]
  · rintro t' ⟨rfl, -⟩
    exact h rfl
  · rintro t' ⟨rfl, -⟩
    exact h' rfl

theorem nameLexeme?_of_no_start {c : Char} (h : isNameStart c = false) (t : Text) :
    nameLexeme? (c :: t) = none := by
  have hspaced : spacedName? (c :: t) = none := by
    by_contra hsome
    obtain ⟨⟨n, rest⟩, hname⟩ := Option.ne_none_iff_exists'.1 hsome
    obtain ⟨space, part, after, hspace, htext, -⟩ := spacedName?_eq_some hname
    obtain ⟨d, word, rfl, hword⟩ := exists_word_of_namespace hspace
    obtain ⟨rfl, -⟩ := List.cons.inj htext
    exact absurd (hword c List.mem_cons_self) (by simp [h])
  rw [nameLexeme?, hspaced, plainName?, h]
  rfl

/-- A quote that is not closed starts no lexeme. -/
theorem lexeme?_quote {q : Char} (hq : q = '"' ∨ q = '\'') {t : Text}
    (h : stringLexeme? (q :: t) = none) : lexeme? (q :: t) = none := by
  have hname : isNameStart q = false := by rcases hq with rfl | rfl <;> rfl
  have hmark : Mark.ofChar? q = none := by rcases hq with rfl | rfl <;> rfl
  have hdot : q ≠ '.' := by rcases hq with rfl | rfl <;> decide
  have hnumber : numberLexeme? (q :: t) = none := by
    have hdigit : Text.isDigit q = false := by rcases hq with rfl | rfl <;> decide +kernel
    have hdecimal : decimal? (q :: t) = none := by
      simp [decimal?, takeSome?, List.span_eq_takeWhile_dropWhile, hdigit]
    rcases hq with rfl | rfl <;> exact hdecimal
  rw [lexeme?, h, hnumber, nameLexeme?_of_no_start hname, markLexeme?, hmark]
  · rfl
  · rintro rest ⟨rfl, -⟩
    exact hdot rfl
  · rintro rest ⟨rfl, -⟩
    exact hdot rfl

/-- An open quote starts no lexeme, so what starts one without a string starts with none. -/
theorem stringLexeme?_append_eq_none {t rest : Text} {l : Lexeme}
    (h : lexeme? t = some (l, rest)) (noString : stringLexeme? t = none) (u : Text) :
    stringLexeme? (t ++ u) = none := by
  cases t with
  | nil => cases h
  | cons d t =>
    have hquote : ¬ (d = '"' ∨ d = '\'') := by
      intro hq
      rw [lexeme?_quote hq noString] at h
      cases h
    rw [not_or] at hquote
    exact stringLexeme?_of_no_quote hquote.1 hquote.2 _

theorem isPrefix_of_append {p t more : Text} {c : Char} (hc : c ∉ p)
    (h : p <+: t ++ c :: more) : p <+: t := by
  obtain ⟨rest, hrest⟩ := h
  have hdrop := dropFront?_carry hc more t
  rw [← hrest, dropFront?_append] at hdrop
  obtain ⟨rest', hrest', -⟩ := Option.map_eq_some_iff.1 hdrop.symm
  exact ⟨rest', (dropFront?_eq_some.1 hrest').symm⟩

/-- Before a delimiter stands the same lexeme as at the end. -/
theorem lexeme?_carry {c : Char} (h : Delimits c) {t rest : Text} {l : Lexeme}
    (hl : lexeme? t = some (l, rest)) (more : Text) :
    lexeme? (t ++ c :: more) = some (l, rest ++ c :: more) := by
  have hdot : c ≠ '.' := h.ne (by decide)
  have hangle : c ≠ '<' := h.ne (by decide)
  -- No delimiter stands in the marks of several characters, so they would lie in the text alone.
  have hshort (short : ¬ StartsWithLongMark t) : ¬ StartsWithLongMark (t ++ c :: more) :=
    mt (Or.imp (isPrefix_of_append (by simpa using hdot))
      (isPrefix_of_append (by simp [hdot, hangle]))) short
  rw [lexeme?_eq_some_iff]
  cases lexeme?_eq_some_iff.1 hl with
  | ellipsis front => exact .ellipsis (congrArg (· ++ c :: more) front)
  | dotAngle front => exact .dotAngle (congrArg (· ++ c :: more) front)
  | string short read => exact .string (hshort short) (stringLexeme?_carry read _)
  | number short noString read =>
    refine .number (hshort short) (stringLexeme?_append_eq_none hl noString _) ?_
    rw [h.numberLexeme?_stopsAt more, read]
    rfl
  | name short noString noNumber read =>
    refine .name (hshort short) (stringLexeme?_append_eq_none hl noString _) ?_ ?_
    · rw [h.numberLexeme?_stopsAt more, noNumber]
      rfl
    · rw [h.nameLexeme?_stopsAt more, read]
      rfl
  | mark front ofChar => exact .mark (congrArg (· ++ c :: more) front) ofChar

/-- Before a delimiter a text is cut into the same lexemes as alone. -/
theorem Lexed.append {t : Text} {ls : List Lexeme} (h : Lexed t ls) {c : Char} (hc : Delimits c)
    {more : Text} {ls' : List Lexeme} (hmore : Lexed (c :: more) ls') :
    Lexed (t ++ c :: more) (ls ++ ls') := by
  induction h with
  | done => exact hmore
  | blank blank _ ih => exact .blank blank ih
  | lexeme visible first _ ih => exact .lexeme visible (lexeme?_carry hc first more) ih

theorem Lexed.behind_blanks {blanks t : Text} {ls : List Lexeme}
    (hblanks : ∀ c ∈ blanks, Text.isBlank c = true) (h : Lexed t ls) : Lexed (blanks ++ t) ls := by
  induction blanks with
  | nil => exact h
  | cons c blanks ih =>
    rw [List.forall_mem_cons] at hblanks
    exact .blank hblanks.1 (ih hblanks.2)

/-- The blanks around a text may stay before a delimiter. -/
theorem Lexed.append_of_trim {t : Text} {ls : List Lexeme} (h : Lexed (Text.trim t) ls) {c : Char}
    (hc : Delimits c) {more : Text} {ls' : List Lexeme} (hmore : Lexed (c :: more) ls') :
    Lexed (t ++ c :: more) (ls ++ ls') := by
  obtain ⟨before, after, ht, hbefore, hafter⟩ := Text.exists_trim t
  have hbehind := hmore.behind_blanks hafter
  have hinside : Lexed (Text.trim t ++ (after ++ c :: more)) (ls ++ ls') := by
    cases after with
    | nil => exact h.append hc hbehind
    | cons d after => exact h.append (.inl (hafter d List.mem_cons_self)) hbehind
  have hall := hinside.behind_blanks hbefore
  generalize Text.trim t = inner at ht hall
  subst ht
  simpa using hall

end DocFlow.TypeGrammar
